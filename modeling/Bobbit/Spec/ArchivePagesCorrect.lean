import Bobbit.Server.ArchivePages

/-!
# Following the cursor through the archive

A client asks for the first page and then for the page after each `nextCursor` until `hasMore` is
false. It gets every archived record once, newest first, exactly when no page ends inside a group of
records with one time: the next page starts below the time of the last record, so the rest of the
group is skipped, and a record without a time has no cursor to go on from.

## Key results

* `archivedAfter_boundary` — the cursor of a page that ends between two times.
* `follows_of_split` — pages that all end between two times.
* `split_of_complete` — a complete listing ends no page inside a group.
* `complete_iff` — both together, for any records.
* `cascaded_goals_skipped` — three goals archived in the same millisecond, two to a page.
-/

namespace Bobbit.Server

variable {ρ : Type} [ArchivedRecord ρ]

/-! ## The client -/

/-- The pages that a client gets from a cursor on, until it is told that there are no more. -/
inductive Follows (list : Option Int → ArchivePage ρ) : Option Int → List (List ρ) → Prop
  | last {cursor : Option Int} (h : (list cursor).hasMore = false) :
    Follows list cursor [(list cursor).records]
  | more {cursor : Option Int} {pages : List (List ρ)} (h : (list cursor).hasMore = true)
    (hrest : Follows list (list cursor).nextCursor pages) :
    Follows list cursor ((list cursor).records :: pages)

/-- Following the cursor ends, and gives every archived record once, newest first. -/
def CompleteListing (records : List ρ) (list : Option Int → ArchivePage ρ) : Prop :=
  ∃ pages, Follows list none pages ∧ pages.flatten.Perm (getArchived records) ∧
    pages.flatten.Pairwise fun a b => archiveTime b ≤ archiveTime a

variable {pages : List (List ρ)}

omit [ArchivedRecord ρ] in
theorem follows_unique {list : Option Int → ArchivePage ρ} {cursor : Option Int}
    {pages' : List (List ρ)} (h : Follows list cursor pages)
    (h' : Follows list cursor pages') : pages = pages' := by
  induction h generalizing pages' with
  | last hlast =>
    cases h' with
    | last _ => rfl
    | more hmore _ => rw [hlast] at hmore; cases hmore
  | more hmore _ ih =>
    cases h' with
    | last hlast => rw [hlast] at hmore; cases hmore
    | more _ hrest' => rw [ih hrest']

/-! ## The sorted archive -/

variable (records : List ρ)

theorem archivedNewestFirst_perm :
    (archivedNewestFirst records).Perm (getArchived records) := List.mergeSort_perm _ _

theorem archivedNewestFirst_sorted :
    (archivedNewestFirst records).Pairwise fun a b => archiveTime b ≤ archiveTime a := by
  have h := @List.pairwise_mergeSort ρ (fun a b => decide (archiveTime b - archiveTime a ≤ 0))
    (fun a b c hab hbc => by simp only [decide_eq_true_eq] at *; omega)
    (fun a b => by simp only [Bool.or_eq_true, decide_eq_true_eq]; omega) (getArchived records)
  refine h.imp fun {a b} hab => ?_
  have := of_decide_eq_true hab
  omega

theorem archivedAfter_boundary {i : Nat} {last next : ρ} {t : Int}
    (hi : 0 < i) (hlast : (archivedNewestFirst records)[i - 1]? = some last)
    (hnext : (archivedNewestFirst records)[i]? = some next)
    (ht : archiveTime last = t) (hlt : archiveTime next < t) :
    archivedAfter records (some t) = (archivedNewestFirst records).drop i := by
  have hsorted := List.pairwise_iff_getElem.mp (archivedNewestFirst_sorted records)
  unfold archivedAfter
  dsimp only
  generalize archivedNewestFirst records = l at *
  obtain ⟨hi', rfl⟩ := List.getElem?_eq_some_iff.mp hnext
  obtain ⟨hi'', rfl⟩ := List.getElem?_eq_some_iff.mp hlast
  -- what comes up to the last record of the page is not older, what comes after is not newer
  have hbefore : ∀ a ∈ l.take i, ¬ archiveTime a < t := by
    intro a ha
    obtain ⟨j, hj, rfl⟩ := List.mem_take_iff_getElem.mp ha
    rcases Nat.lt_or_ge j (i - 1) with hji | hji
    · have := hsorted j (i - 1) (by omega) hi'' hji
      omega
    · have hsame : j = i - 1 := by omega
      subst hsame
      omega
  have hafter : ∀ a ∈ l.drop i, archiveTime a < t := by
    intro a ha
    obtain ⟨j, hj, rfl⟩ := List.mem_drop_iff_getElem.mp ha
    rcases Nat.eq_zero_or_pos j with hj0 | hj0
    · subst hj0
      exact hlt
    · have := hsorted i (i + j) hi' (by omega) (by omega)
      omega
  have hold : (l.take i).filter (fun a => decide (archiveTime a < t)) = [] :=
    List.filter_eq_nil_iff.mpr fun a ha h => hbefore a ha (of_decide_eq_true h)
  have hnew : (l.drop i).filter (fun a => decide (archiveTime a < t)) = l.drop i :=
    List.filter_eq_self.mpr fun a ha => decide_eq_true (hafter a ha)
  calc l.filter (fun a => decide (archiveTime a < t))
      = (l.take i ++ l.drop i).filter (fun a => decide (archiveTime a < t)) := by
        rw [List.take_append_drop]
    _ = l.drop i := by rw [List.filter_append, hold, hnew, List.nil_append]

/-! ## Pages that end between two times -/

/-- Every page but the last ends with a record that has a time, and an older one comes next. -/
def PagesSplitTimes (records : List ρ) (limit : Nat) : Prop :=
  ∀ (k : Nat) (last next : ρ), 0 < k →
    (archivedNewestFirst records)[k * limit - 1]? = some last →
    (archivedNewestFirst records)[k * limit]? = some next →
    ∃ t, ArchivedRecord.archivedAt last = some t ∧ archiveTime next < t

section Listing

variable {records : List ρ} {limit : Nat} {cursor : Option Int} {i : Nat}

/-- There is more when records are left behind the page. -/
theorem hasMore_iff (h : archivedAfter records cursor = (archivedNewestFirst records).drop i) :
    (listArchivedPaginated records limit cursor).hasMore = true ↔
      i + limit < (archivedNewestFirst records).length := by
  unfold listArchivedPaginated
  dsimp only
  rw [h, List.length_drop, decide_eq_true_eq]
  omega

/-- The next cursor is the time of the last record of the page. -/
theorem nextCursor_eq (hlimit : 0 < limit)
    (h : archivedAfter records cursor = (archivedNewestFirst records).drop i)
    (hmore : i + limit < (archivedNewestFirst records).length) :
    (listArchivedPaginated records limit cursor).nextCursor =
      (archivedNewestFirst records)[i + limit - 1]?.bind ArchivedRecord.archivedAt := by
  unfold listArchivedPaginated
  dsimp only
  rw [h, List.getLast?_eq_getElem?, List.length_take, List.length_drop, List.getElem?_take,
    if_pos (by omega), List.getElem?_drop]
  congr 2
  omega

/-- The pages from the `k`th on, when all of them end between two times. -/
theorem follows_of_split (hlimit : 0 < limit) (hsplit : PagesSplitTimes records limit) (k : Nat)
    (h : archivedAfter records cursor = (archivedNewestFirst records).drop (k * limit)) :
    ∃ pages, Follows (listArchivedPaginated records limit) cursor pages ∧
      pages.flatten = (archivedNewestFirst records).drop (k * limit) := by
  -- induction on the number of records that are left
  induction hleft : (archivedNewestFirst records).length - k * limit using Nat.strongRecOn
    generalizing k cursor with
  | ind left ih =>
    have hrecords : (listArchivedPaginated records limit cursor).records =
        ((archivedNewestFirst records).drop (k * limit)).take limit := by
      rw [← h]
      rfl
    by_cases hmore : k * limit + limit < (archivedNewestFirst records).length
    · have hnext := nextCursor_eq hlimit h hmore
      have hsucc : (k + 1) * limit = k * limit + limit := Nat.succ_mul k limit
      have hlast := List.getElem?_eq_getElem
        (show (k + 1) * limit - 1 < (archivedNewestFirst records).length by omega)
      have hafter := List.getElem?_eq_getElem
        (show (k + 1) * limit < (archivedNewestFirst records).length by omega)
      obtain ⟨t, ht, hlt⟩ := hsplit (k + 1) _ _ (Nat.succ_pos k) hlast hafter
      rw [← hsucc, hlast, Option.bind_some, ht] at hnext
      have hboundary := archivedAfter_boundary records (by omega) hlast hafter
        (by rw [archiveTime, ht]; rfl) hlt
      obtain ⟨pages, hpages, hflatten⟩ := ih _ (by omega) (k + 1) hboundary rfl
      refine ⟨_, .more ((hasMore_iff h).mpr hmore) (hnext ▸ hpages), ?_⟩
      rw [List.flatten_cons, hrecords, hflatten, hsucc, ← List.drop_drop, List.take_append_drop]
    · have hnone : (listArchivedPaginated records limit cursor).hasMore = false := by
        rw [Bool.eq_false_iff]
        exact fun hm => hmore ((hasMore_iff h).mp hm)
      refine ⟨_, .last hnone, ?_⟩
      rw [hrecords, List.flatten_singleton, List.take_of_length_le]
      rw [List.length_drop]
      omega

end Listing

/-! ## Pages of a complete listing -/

/-- Behind a cursor come older records only, unless the listing starts again. -/
theorem follows_older {records : List ρ} {limit : Nat} {cursor : Option Int}
    (h : Follows (listArchivedPaginated records limit) cursor pages) {t : Int}
    (ht : cursor = some t) :
    (∀ a ∈ pages.flatten, archiveTime a < t) ∨
      ∃ rest, rest <:+ pages ∧ Follows (listArchivedPaginated records limit) none rest := by
  have hpage : ∀ {t : Int}, ∀ a ∈ (listArchivedPaginated records limit (some t)).records,
      archiveTime a < t := fun a ha =>
    of_decide_eq_true (List.mem_filter.mp (List.mem_of_mem_take ha)).2
  induction h generalizing t with
  | last hlast =>
    left
    subst ht
    rw [List.flatten_singleton]
    exact hpage
  | more hmore hrest ih =>
    rename_i pages
    subst ht
    cases hnext : (listArchivedPaginated records limit (some t)).nextCursor with
    | none => exact .inr ⟨pages, List.suffix_cons _ _, hnext ▸ hrest⟩
    | some t' =>
      -- the next cursor is the time of a record of this page
      obtain ⟨last, hlast, ht'⟩ := Option.bind_eq_some_iff.mp hnext
      have holder := hpage last (List.mem_of_getLast? hlast)
      have htime : archiveTime last = t' := by rw [archiveTime, ht']; rfl
      rcases ih hnext with hall | ⟨rest, hsuffix, hstart⟩
      · left
        intro a ha
        rw [List.flatten_cons] at ha
        rcases List.mem_append.mp ha with ha | ha
        · exact hpage a ha
        · have := hall a ha
          omega
      · exact .inr ⟨rest, hsuffix.trans (List.suffix_cons _ _), hstart⟩

/-- The client has got the first `k` pages, and goes on behind them. -/
def AtPage (records : List ρ) (limit : Nat) (pages : List (List ρ)) (k : Nat) : Prop :=
  ∃ cursor first rest, archivedAfter records cursor = (archivedNewestFirst records).drop (k * limit) ∧
    Follows (listArchivedPaginated records limit) cursor rest ∧ pages = first ++ rest ∧
    first.flatten = (archivedNewestFirst records).take (k * limit)

/-- In a complete listing the next page ends between two times. -/
theorem atPage_succ {records : List ρ} {limit : Nat} (hlimit : 0 < limit)
    (hstart : Follows (listArchivedPaginated records limit) none pages)
    (hperm : pages.flatten.Perm (getArchived records)) {k : Nat} (h : AtPage records limit pages k)
    {last next : ρ} (hlast : (archivedNewestFirst records)[(k + 1) * limit - 1]? = some last)
    (hnext : (archivedNewestFirst records)[(k + 1) * limit]? = some next) :
    (∃ t, ArchivedRecord.archivedAt last = some t ∧ archiveTime next < t) ∧
      AtPage records limit pages (k + 1) := by
  obtain ⟨cursor, first, rest, hafter, hrest, hpages, hfirst⟩ := h
  have hsucc : (k + 1) * limit = k * limit + limit := Nat.succ_mul k limit
  have hlength := (List.getElem?_eq_some_iff.mp hnext).1
  have hmore := (hasMore_iff hafter).mpr (show k * limit + limit < _ by omega)
  have hcursor := nextCursor_eq hlimit hafter (by omega)
  rw [← hsucc, hlast, Option.bind_some] at hcursor
  cases hrest with
  | last hnone => rw [hnone] at hmore; cases hmore
  | @more _ rest' _ hfollow =>
    -- no part of the listing starts again from the first page: it would be the whole listing
    have hnever : ∀ rest'', rest'' <:+ rest' →
        ¬ Follows (listArchivedPaginated records limit) none rest'' := by
      intro rest'' hsuffix hagain
      have hle := hsuffix.length_le
      rw [follows_unique hagain hstart, hpages, List.length_append, List.length_cons] at hle
      omega
    have hflatten : (first ++ [(listArchivedPaginated records limit cursor).records]).flatten =
        (archivedNewestFirst records).take ((k + 1) * limit) := by
      have hpage : (listArchivedPaginated records limit cursor).records =
          ((archivedNewestFirst records).drop (k * limit)).take limit := by
        rw [← hafter]
        rfl
      rw [List.flatten_append, List.flatten_singleton, hfirst, hpage, hsucc, List.take_add]
    -- what the client has not got yet is still to come
    have hcome : rest'.flatten.Perm ((archivedNewestFirst records).drop ((k + 1) * limit)) := by
      have hall := hperm.trans (archivedNewestFirst_perm records).symm
      rw [hpages, List.append_cons, List.flatten_append, hflatten] at hall
      refine (List.perm_append_left_iff ((archivedNewestFirst records).take ((k + 1) * limit))).mp ?_
      rw [List.take_append_drop]
      exact hall
    cases ht : ArchivedRecord.archivedAt last with
    | none =>
      rw [hcursor, ht] at hfollow
      exact absurd hfollow (hnever rest' (List.suffix_refl _))
    | some t =>
      rw [hcursor, ht] at hfollow
      have hlt : archiveTime next < t := by
        rcases follows_older hfollow rfl with hall | ⟨rest'', hsuffix, hagain⟩
        · refine hall next (hcome.mem_iff.mpr ?_)
          refine List.mem_of_getElem? (i := 0) ?_
          rw [List.getElem?_drop, Nat.add_zero]
          exact hnext
        · exact absurd hagain (hnever rest'' hsuffix)
      refine ⟨⟨t, rfl, hlt⟩, some t, first ++ [(listArchivedPaginated records limit cursor).records],
        rest', ?_, hfollow, ?_, hflatten⟩
      · exact archivedAfter_boundary records (by omega) hlast hnext (by rw [archiveTime, ht]; rfl) hlt
      · rw [hpages, List.append_assoc]
        rfl

/-- A complete listing ends no page inside a group of records with one time. -/
theorem split_of_complete {records : List ρ} {limit : Nat} (hlimit : 0 < limit)
    (h : CompleteListing records (listArchivedPaginated records limit)) :
    PagesSplitTimes records limit := by
  obtain ⟨pages, hstart, hperm, _⟩ := h
  have hat : ∀ k, k * limit < (archivedNewestFirst records).length →
      AtPage records limit pages k := by
    intro k
    induction k with
    | zero =>
      intro _
      refine ⟨none, [], pages, ?_, hstart, rfl, ?_⟩
      · rw [Nat.zero_mul, List.drop_zero]
        rfl
      · rw [Nat.zero_mul, List.take_zero]
        rfl
    | succ k ih =>
      intro hlt
      have hsucc : (k + 1) * limit = k * limit + limit := Nat.succ_mul k limit
      exact (atPage_succ hlimit hstart hperm (ih (by omega))
        (List.getElem?_eq_getElem (by omega)) (List.getElem?_eq_getElem hlt)).2
  intro k last next hk hlast hnext
  have hlt := (List.getElem?_eq_some_iff.mp hnext).1
  obtain ⟨k, rfl⟩ := Nat.exists_eq_succ_of_ne_zero (Nat.ne_of_gt hk)
  have hsucc : (k + 1) * limit = k * limit + limit := Nat.succ_mul k limit
  rw [Nat.succ_eq_add_one] at *
  exact (atPage_succ hlimit hstart hperm (hat k (by omega)) hlast hnext).1

/-- Any archive is listed completely exactly when no page ends inside a group of records with one
time, or with a record without a time. -/
theorem complete_iff {limit : Nat} (hlimit : 0 < limit) :
    CompleteListing records (listArchivedPaginated records limit) ↔
      PagesSplitTimes records limit := by
  constructor
  · exact split_of_complete hlimit
  · intro hsplit
    have hfirst : archivedAfter records none = (archivedNewestFirst records).drop (0 * limit) := by
      rw [Nat.zero_mul, List.drop_zero]
      rfl
    obtain ⟨pages, hpages, hflatten⟩ := follows_of_split hlimit hsplit 0 hfirst
    rw [Nat.zero_mul, List.drop_zero] at hflatten
    exact ⟨pages, hpages, hflatten ▸ archivedNewestFirst_perm records,
      hflatten ▸ archivedNewestFirst_sorted records⟩

/-- **Pages of the archive.** Following the cursor yields every archived goal, and likewise every
archived session, once and newest first, if and only if no page ends inside a group of records with
one time or with a record without a time. -/
theorem archive_pages_iff {limit : Nat} (hlimit : 0 < limit) :
    (∀ goals : List GoalRecord,
      CompleteListing goals (listArchivedGoalsPaginated goals limit) ↔
        PagesSplitTimes goals limit) ∧
    ∀ sessions : List SessionRow,
      CompleteListing sessions (listArchivedSessionsPaginated sessions limit) ↔
        PagesSplitTimes sessions limit :=
  ⟨fun goals => complete_iff goals hlimit, fun sessions => complete_iff sessions hlimit⟩

/-- Two sessions archived at different times, one to a page. -/
theorem archive_pages_two :
    CompleteListing [SessionRow.mk 1 true (some 5), SessionRow.mk 2 true (some 7)]
        (listArchivedSessionsPaginated
          [SessionRow.mk 1 true (some 5), SessionRow.mk 2 true (some 7)] 1) ↔
      PagesSplitTimes [SessionRow.mk 1 true (some 5), SessionRow.mk 2 true (some 7)] 1 :=
  (archive_pages_iff (by decide)).2 _

def cascadedGoal (id : String) (time : Int) : GoalRecord :=
  ⟨id, [("archived", .bool true), ("archivedAt", .num time)]⟩

/-- Three goals archived in the same millisecond, two to a page: the third is never listed. -/
theorem cascaded_goals_skipped :
    ¬ CompleteListing [cascadedGoal "a" 5, cascadedGoal "b" 5, cascadedGoal "c" 5]
      (listArchivedGoalsPaginated [cascadedGoal "a" 5, cascadedGoal "b" 5, cascadedGoal "c" 5] 2) := by
  intro h
  have hsorted : archivedNewestFirst [cascadedGoal "a" 5, cascadedGoal "b" 5, cascadedGoal "c" 5] =
      [cascadedGoal "a" 5, cascadedGoal "b" 5, cascadedGoal "c" 5] :=
    List.mergeSort_of_pairwise (by decide)
  obtain ⟨t, ht, hlt⟩ := split_of_complete (by decide) h 1 (cascadedGoal "b" 5) (cascadedGoal "c" 5)
    (by decide) (by rw [hsorted]; rfl) (by rw [hsorted]; rfl)
  rw [← Option.some.inj ht] at hlt
  exact absurd hlt (by decide)

end Bobbit.Server
