import Bobbit.Server.CompactionSidecar

/-!
# Compaction cards in a message list

`mergeCompactionSidecarIntoMessages` puts the missing cards of the sidecar in front of the messages.
A live card carries no id of its own, so the merge takes the entry that ended last for its
compaction, also when that one has not been written to the sidecar yet.

## Key results
- `countP_shows_cards`: an added card shows its own compaction and no other.
- `missingEntries_merge`: after a merge no card is missing.
- `mergesWell_iff`: every compaction is shown once exactly when the live card shows the entry that
  ended last, and no card came twice.
-/

namespace Bobbit.Spec.CompactionMerge

open Bobbit.Lib Bobbit.Server.CompactionSidecar

variable {ν : Type}

/-! ## What shows a compaction -/

/-- A row shows a compaction: it has its id, or a tool call of its card. -/
def shows (id : JsString) (message : Json ν) : Bool :=
  messageId message = some id || summaryToolCallId id ∈ summaryCallIds message

variable {messages : List (Json ν)}

theorem isPresent_iff {id : JsString} :
    isPresent messages id = true ↔ ∃ m ∈ messages, shows id m = true := by
  simp only [isPresent, shows, Bool.or_eq_true, decide_eq_true_eq, List.mem_flatMap,
    List.mem_filterMap]
  constructor
  · rintro (⟨m, hm, hcall⟩ | ⟨m, hm, hid⟩)
    · exact ⟨m, hm, .inr hcall⟩
    · exact ⟨m, hm, .inl hid⟩
  · rintro ⟨m, hm, hid | hcall⟩
    · exact .inr ⟨m, hm, hid⟩
    · exact .inl ⟨m, hm, hcall⟩

theorem isPresent_append_right {added : List (Json ν)} {id : JsString}
    (h : isPresent messages id = true) : isPresent (added ++ messages) id = true := by
  obtain ⟨m, hm, hshows⟩ := isPresent_iff.mp h
  exact isPresent_iff.mpr ⟨m, List.mem_append_right _ hm, hshows⟩

theorem hasLiveActive_append_right {added : List (Json ν)}
    (h : hasLiveActive messages = true) : hasLiveActive (added ++ messages) = true := by
  simp only [hasLiveActive, List.flatMap_append, List.mem_append, decide_eq_true_eq] at h ⊢
  exact .inr h

theorem summaryToolCallId_inj {x y : JsString} (h : summaryToolCallId x = summaryToolCallId y) :
    x = y := List.append_cancel_left h

section Cards

variable [JsNumber ν] {env : SidecarEnv ν}

/-- A card has the id of its entry, and the tool call of it. -/
theorem card_shows (entry : CompactionSidecarEntry ν) :
    ∃ card result, syntheticCompactionRowsFromSidecar env entry = [card, result] ∧
      messageId card = some entry.id ∧ summaryCallIds card = [summaryToolCallId entry.id] ∧
      messageId result = none ∧ summaryCallIds result = [] := by
  refine ⟨_, _, rfl, ?_, ?_, ?_, ?_⟩
  · simp [messageId, Json.get, Json.getField_cons, Json.string?]
  · simp [summaryCallIds, summaryCallId, Json.get, Json.getField_cons, Json.string?, Json.array?]
  · simp [messageId, Json.get, Json.getField_cons]
  · simp [summaryCallIds, Json.get, Json.getField_cons, Json.string?]

/-- The rows of an entry show its compaction once, and no other. -/
theorem countP_shows_rows (entry : CompactionSidecarEntry ν) (id : JsString) :
    (syntheticCompactionRowsFromSidecar env entry).countP (shows id) =
      if entry.id = id then 1 else 0 := by
  obtain ⟨card, result, hrows, hid, hcalls, hid', hcalls'⟩ := @card_shows ν _ env entry
  have hresult : shows id result = false := by simp [shows, hid', hcalls']
  have hcard : shows id card = decide (entry.id = id) := by
    by_cases heq : entry.id = id
    · simp [shows, hid, heq]
    · have hne : summaryToolCallId id ≠ summaryToolCallId entry.id :=
        fun h => heq (summaryToolCallId_inj h).symm
      simp [shows, hid, hcalls, heq, hne]
  rw [hrows, List.countP_cons, List.countP_cons, List.countP_nil, hresult, hcard]
  by_cases heq : entry.id = id <;> simp [heq]

/-- Added cards of different ids show each of their compactions once. -/
theorem countP_shows_cards {added : List (CompactionSidecarEntry ν)}
    (hnodup : (added.map (·.id)).Nodup) (id : JsString) :
    (added.flatMap (syntheticCompactionRowsFromSidecar env)).countP (shows id) =
      if id ∈ added.map (·.id) then 1 else 0 := by
  induction added with
  | nil => rfl
  | cons entry rest ih =>
    rw [List.map_cons, List.nodup_cons] at hnodup
    rw [List.flatMap_cons, List.countP_append, countP_shows_rows, ih hnodup.2, List.map_cons]
    by_cases heq : entry.id = id
    · subst heq
      simp [hnodup.1]
    · have hne : id ≠ entry.id := Ne.symm heq
      simp [heq, hne]

end Cards

/-! ## The entries of the sidecar -/

/-- What the map of the entries holds: under its id the last entry of each. -/
theorem dedup_map (entries : List (CompactionSidecarEntry ν))
    {dedup : JsMap JsString (CompactionSidecarEntry ν)} (hnodup : (JsMap.keys dedup).Nodup)
    (hkeyed : ∀ p ∈ dedup, p.2.id = p.1) {result : JsMap JsString (CompactionSidecarEntry ν)}
    (hresult : result = entries.foldl (fun dedup e => JsMap.set dedup e.id e) dedup) :
    (JsMap.keys result).Nodup ∧ (∀ p ∈ result, p.2.id = p.1) ∧
      (∀ p ∈ result, p ∈ dedup ∨ p.2 ∈ entries) ∧
      ∀ x, x ∈ JsMap.keys dedup ∨ x ∈ entries.map (·.id) → x ∈ JsMap.keys result := by
  induction entries generalizing dedup with
  | nil =>
    subst hresult
    exact ⟨hnodup, hkeyed, fun p hp => .inl hp, fun x hx => by simpa using hx⟩
  | cons e rest ih =>
    have hkeyed' : ∀ p ∈ JsMap.set dedup e.id e, p.2.id = p.1 := by
      intro p hp
      rcases JsMap.mem_set hp with rfl | hold
      · rfl
      · exact hkeyed p hold
    obtain ⟨hkeys, hids, hmem, hcover⟩ := ih (JsMap.nodup_set hnodup e.id e) hkeyed' hresult
    refine ⟨hkeys, hids, ?_, ?_⟩
    · intro p hp
      rcases hmem p hp with hset | hrest
      · rcases JsMap.mem_set hset with rfl | hold
        · exact .inr List.mem_cons_self
        · exact .inl hold
      · exact .inr (List.mem_cons_of_mem _ hrest)
    · intro x hx
      refine hcover x ?_
      rw [JsMap.keys_set]
      rcases hx with hold | hnew
      · left
        split
        · exact hold
        · exact List.mem_append_left _ hold
      · rcases List.mem_cons.mp hnew with rfl | hrest
        · left
          split
          · assumption
          · exact List.mem_append_right _ List.mem_cons_self
        · exact .inr hrest

/-- **The entries without repetition.** Each id comes once, with an entry of the sidecar. -/
theorem dedupEntries_spec (entries : List (CompactionSidecarEntry ν)) :
    ((dedupEntries entries).map (·.id)).Nodup ∧ (∀ e ∈ dedupEntries entries, e ∈ entries) ∧
      ∀ e ∈ entries, e.id ∈ (dedupEntries entries).map (·.id) := by
  obtain ⟨hkeys, hids, hmem, hcover⟩ :=
    @dedup_map ν entries [] List.nodup_nil (fun p hp => absurd hp List.not_mem_nil) _ rfl
  have hmap : (dedupEntries entries).map (·.id) =
      JsMap.keys (entries.foldl (fun dedup e => JsMap.set dedup e.id e) []) := by
    rw [dedupEntries, List.map_map]
    exact List.map_congr_left fun p hp => hids p hp
  refine ⟨hmap ▸ hkeys, ?_, ?_⟩
  · intro e he
    obtain ⟨p, hp, rfl⟩ := List.mem_map.mp he
    rcases hmem p hp with hnil | hentry
    · cases hnil
    · exact hentry
  · intro e he
    rw [hmap]
    exact hcover e.id (.inr (List.mem_map_of_mem he))

/-! ## The missing cards -/

variable {messages : List (Json ν)} {sorted : List (CompactionSidecarEntry ν)}

theorem missingEntries_sublist : (missingEntries messages sorted).Sublist sorted := by
  have hsub := (List.filter_sublist (l := sorted.zipIdx) (p := fun entry =>
    ! isPresent messages entry.1.id &&
      ! (hasLiveActive messages && entry.2 == sorted.length - 1))).map Prod.fst
  rwa [List.zipIdx_map_fst] at hsub

/-- An entry is missing when its card is not there, unless it is the last one and there is a live
card. -/
theorem mem_missingEntries_iff (hnodup : (sorted.map (·.id)).Nodup) {e : CompactionSidecarEntry ν} :
    e ∈ missingEntries messages sorted ↔ e ∈ sorted ∧ isPresent messages e.id = false ∧
      ¬ (hasLiveActive messages = true ∧ sorted.getLast? = some e) := by
  have hlast : sorted.getLast? = sorted[sorted.length - 1]? := List.getLast?_eq_getElem?
  have hentries : sorted.Nodup := hnodup.of_map
  simp only [missingEntries, List.mem_map, List.mem_filter, Bool.and_eq_true, Bool.not_eq_true',
    Bool.and_eq_false_iff, beq_eq_false_iff_ne]
  constructor
  · rintro ⟨⟨e', i⟩, ⟨hmem, habsent, hother⟩, rfl⟩
    have hget : sorted[i]? = some e' := List.mem_zipIdx_iff_getElem?.mp hmem
    refine ⟨List.mem_of_getElem? hget, habsent, ?_⟩
    rintro ⟨hlive, hends⟩
    rcases hother with hdead | hne
    · rw [hdead] at hlive
      cases hlive
    · rw [hlast, ← hget] at hends
      have hlt : i < sorted.length := (List.getElem?_eq_some_iff.mp hget).1
      exact hne ((List.getElem?_inj hlt hentries).mp hends.symm)
  · rintro ⟨hmem, habsent, hother⟩
    obtain ⟨i, hget⟩ := List.mem_iff_getElem?.mp hmem
    refine ⟨(e, i), ⟨List.mem_zipIdx_iff_getElem?.mpr hget, habsent, ?_⟩, rfl⟩
    by_cases hlive : hasLiveActive messages = true
    · right
      rintro rfl
      exact hother ⟨hlive, hlast.trans hget⟩
    · exact .inl (by simpa using hlive)

/-! ## Merging -/

section Merge

variable {env : SidecarEnv ν} {endTimes : EndTimeSort env}
  {sidecar : List (CompactionSidecarEntry ν)} {excludedIds : List JsString}

/-- The entries of the sidecar that a merge looks at, by end time. -/
def candidates (endTimes : EndTimeSort env) (sidecar : List (CompactionSidecarEntry ν))
    (excludedIds : List JsString) : List (CompactionSidecarEntry ν) :=
  endTimes.sort (dedupEntries (sidecar.filter (·.id ∉ excludedIds)))

theorem nodup_candidates : ((candidates endTimes sidecar excludedIds).map (·.id)).Nodup :=
  ((endTimes.perm _).map _).nodup_iff.mpr (dedupEntries_spec _).1

theorem mem_of_mem_candidates {e : CompactionSidecarEntry ν}
    (h : e ∈ candidates endTimes sidecar excludedIds) : e ∈ sidecar ∧ e.id ∉ excludedIds := by
  have hmem := (dedupEntries_spec _).2.1 e ((endTimes.perm _).mem_iff.mp h)
  simpa using List.mem_filter.mp hmem

theorem exists_candidate {e : CompactionSidecarEntry ν} (h : e ∈ sidecar)
    (hexcluded : e.id ∉ excludedIds) :
    ∃ e' ∈ candidates endTimes sidecar excludedIds, e'.id = e.id := by
  have hmem : e ∈ sidecar.filter (·.id ∉ excludedIds) :=
    List.mem_filter.mpr ⟨h, by simpa using hexcluded⟩
  obtain ⟨e', he', hid⟩ := List.mem_map.mp ((dedupEntries_spec _).2.2 e hmem)
  exact ⟨e', (endTimes.perm _).mem_iff.mpr he', hid⟩

variable [JsNumber ν]

/-- A merge puts the rows of the missing entries in front. -/
theorem merge_eq : mergeCompactionSidecarIntoMessages endTimes sidecar messages excludedIds =
    (missingEntries messages (candidates endTimes sidecar excludedIds)).flatMap
      (syntheticCompactionRowsFromSidecar env) ++ messages := by
  rw [mergeCompactionSidecarIntoMessages]
  simp only
  split
  · rename_i hempty
    have hnone : candidates endTimes sidecar excludedIds = [] := by
      rw [candidates, List.isEmpty_iff.mp hempty]
      exact List.perm_nil.mp (endTimes.perm [])
    rw [hnone]
    rfl
  · rw [candidates]
    split
    · rename_i hempty
      rw [List.isEmpty_iff.mp hempty, List.nil_append]
    · rfl

/-- **After a merge no card is missing**, but for the one that a live card stands for. -/
theorem missingEntries_merge :
    missingEntries (mergeCompactionSidecarIntoMessages endTimes sidecar messages excludedIds)
      (candidates endTimes sidecar excludedIds) = [] := by
  rw [List.eq_nil_iff_forall_not_mem]
  intro e he
  obtain ⟨hmem, habsent, hother⟩ := (mem_missingEntries_iff nodup_candidates).mp he
  rw [merge_eq] at habsent hother
  -- what is absent now was absent before, so it was added or taken for the live one
  have habsent' : isPresent messages e.id = false := by
    rw [Bool.eq_false_iff] at habsent ⊢
    exact fun h => habsent (isPresent_append_right h)
  by_cases hlive : hasLiveActive messages = true ∧
      (candidates endTimes sidecar excludedIds).getLast? = some e
  · exact hother ⟨hasLiveActive_append_right hlive.1, hlive.2⟩
  · have hadded : e ∈ missingEntries messages (candidates endTimes sidecar excludedIds) :=
      (mem_missingEntries_iff nodup_candidates).mpr ⟨hmem, habsent', hlive⟩
    obtain ⟨card, result, hrows, hid, -⟩ := @card_shows ν _ env e
    refine absurd (isPresent_iff.mpr ⟨card, ?_, ?_⟩) (by rw [habsent]; decide)
    · refine List.mem_append_left _ (List.mem_flatMap.mpr ⟨e, hadded, ?_⟩)
      rw [hrows]
      exact List.mem_cons_self
    · simp [shows, hid]

theorem countP_shows_merge (id : JsString) :
    (mergeCompactionSidecarIntoMessages endTimes sidecar messages excludedIds).countP (shows id) =
      (if id ∈ (missingEntries messages (candidates endTimes sidecar excludedIds)).map (·.id)
        then 1 else 0) + messages.countP (shows id) := by
  have hnodup : ((missingEntries messages (candidates endTimes sidecar excludedIds)).map
      (·.id)).Nodup := nodup_candidates.sublist (missingEntries_sublist.map _)
  rw [merge_eq, List.countP_append, countP_shows_cards hnodup]

/-! ## What is asked of a merge -/

/-- A merge as it should be, where a live card shows the compaction `active`. -/
structure MergesWell (endTimes : EndTimeSort env) (sidecar : List (CompactionSidecarEntry ν))
    (messages : List (Json ν)) (excludedIds : List JsString) (active : Option JsString) : Prop where
  /-- the messages stay as they are behind the cards of missing entries, the oldest first -/
  keeps : ∃ added : List (CompactionSidecarEntry ν),
    mergeCompactionSidecarIntoMessages endTimes sidecar messages excludedIds =
      added.flatMap (syntheticCompactionRowsFromSidecar env) ++ messages ∧
    (added.map (·.id)).Nodup ∧
    (∀ e ∈ added, e ∈ sidecar ∧ e.id ∉ excludedIds ∧ isPresent messages e.id = false) ∧
    ((∀ e ∈ sidecar, e.id ∉ excludedIds → (env.getTime e.endedAt).isSome) →
      added.Pairwise fun a b =>
        ∀ s ∈ env.getTime a.endedAt, ∀ t ∈ env.getTime b.endedAt, s ≤ t)
  idempotent : mergeCompactionSidecarIntoMessages endTimes sidecar
      (mergeCompactionSidecarIntoMessages endTimes sidecar messages excludedIds) excludedIds =
    mergeCompactionSidecarIntoMessages endTimes sidecar messages excludedIds
  /-- every other compaction than the live one is shown exactly once -/
  shown : ∀ e ∈ sidecar, e.id ∉ excludedIds →
    ¬ (hasLiveActive messages = true ∧ active = some e.id) →
    (mergeCompactionSidecarIntoMessages endTimes sidecar messages excludedIds).countP
      (shows e.id) = 1

/-- A live card shows the compaction of the entry that ended last, where that one has no row of its
own; and no other compaction has two rows. -/
structure LiveIsLatest (endTimes : EndTimeSort env) (sidecar : List (CompactionSidecarEntry ν))
    (messages : List (Json ν)) (excludedIds : List JsString) (active : Option JsString) : Prop where
  latest : hasLiveActive messages = true →
    ∀ e, (candidates endTimes sidecar excludedIds).getLast? = some e →
      isPresent messages e.id = true ∨ active = some e.id
  once : ∀ e ∈ sidecar, e.id ∉ excludedIds →
    ¬ (hasLiveActive messages = true ∧ active = some e.id) → messages.countP (shows e.id) ≤ 1

theorem merge_keeps : ∃ added : List (CompactionSidecarEntry ν),
    mergeCompactionSidecarIntoMessages endTimes sidecar messages excludedIds =
      added.flatMap (syntheticCompactionRowsFromSidecar env) ++ messages ∧
    (added.map (·.id)).Nodup ∧
    (∀ e ∈ added, e ∈ sidecar ∧ e.id ∉ excludedIds ∧ isPresent messages e.id = false) ∧
    ((∀ e ∈ sidecar, e.id ∉ excludedIds → (env.getTime e.endedAt).isSome) →
      added.Pairwise fun a b =>
        ∀ s ∈ env.getTime a.endedAt, ∀ t ∈ env.getTime b.endedAt, s ≤ t) := by
  refine ⟨_, merge_eq, nodup_candidates.sublist (missingEntries_sublist.map _), ?_, ?_⟩
  · intro e he
    obtain ⟨hmem, habsent, -⟩ := (mem_missingEntries_iff nodup_candidates).mp he
    obtain ⟨hsidecar, hexcluded⟩ := mem_of_mem_candidates hmem
    exact ⟨hsidecar, hexcluded, habsent⟩
  · intro htimes
    refine (endTimes.sorted _ ?_).sublist missingEntries_sublist
    intro e he
    have hmem := List.mem_filter.mp ((dedupEntries_spec _).2.1 e he)
    exact htimes e hmem.1 (by simpa using hmem.2)

/-- **Merging the cards.** The messages are kept, the missing cards come in front, oldest first and
each once, and a second merge changes nothing. Every compaction but the live one is then shown
exactly once if and only if the live card shows the one that ended last. -/
theorem mergesWell_iff (endTimes : EndTimeSort env) (sidecar : List (CompactionSidecarEntry ν))
    (messages : List (Json ν)) (excludedIds : List JsString) (active : Option JsString) :
    MergesWell endTimes sidecar messages excludedIds active ↔
      LiveIsLatest endTimes sidecar messages excludedIds active := by
  constructor
  · intro h
    refine ⟨?_, ?_⟩
    · intro hlive e hlast
      by_contra hnot
      rw [not_or, Bool.not_eq_true] at hnot
      obtain ⟨habsent, hother⟩ := hnot
      have hcandidate := List.mem_of_getLast? hlast
      obtain ⟨hsidecar, hexcluded⟩ := mem_of_mem_candidates hcandidate
      have hone := h.shown e hsidecar hexcluded fun hactive => hother hactive.2
      have hzero : messages.countP (shows e.id) = 0 := by
        rw [List.countP_eq_zero]
        intro m hm hshows
        rw [isPresent_iff.mpr ⟨m, hm, hshows⟩] at habsent
        cases habsent
      rw [countP_shows_merge, hzero, if_neg] at hone
      · cases hone
      · intro hadded
        obtain ⟨e', he', hid⟩ := List.mem_map.mp hadded
        obtain ⟨hmem', -, hnot⟩ := (mem_missingEntries_iff nodup_candidates).mp he'
        have hsame : e' = e := List.inj_on_of_nodup_map nodup_candidates hmem' hcandidate hid
        exact hnot ⟨hlive, hsame ▸ hlast⟩
    · intro e hsidecar hexcluded hother
      have hone := h.shown e hsidecar hexcluded hother
      rw [countP_shows_merge] at hone
      omega
  · intro h
    refine ⟨merge_keeps, ?_, ?_⟩
    · conv_lhs => rw [merge_eq, missingEntries_merge]
      rfl
    · intro e hsidecar hexcluded hother
      have hle := h.once e hsidecar hexcluded hother
      obtain ⟨e', he', hid⟩ := @exists_candidate ν env endTimes sidecar excludedIds e hsidecar
        hexcluded
      rw [countP_shows_merge]
      by_cases hpresent : isPresent messages e.id = true
      · have hpos : 0 < messages.countP (shows e.id) := by
          obtain ⟨m, hm, hshows⟩ := isPresent_iff.mp hpresent
          exact List.countP_pos_iff.mpr ⟨m, hm, hshows⟩
        rw [if_neg]
        · omega
        · intro hadded
          obtain ⟨e'', he'', hid''⟩ := List.mem_map.mp hadded
          have habsent := ((mem_missingEntries_iff nodup_candidates).mp he'').2.1
          rw [hid'', hpresent] at habsent
          cases habsent
      · have hzero : messages.countP (shows e.id) = 0 := by
          rw [List.countP_eq_zero]
          intro m hm hshows
          exact hpresent (isPresent_iff.mpr ⟨m, hm, hshows⟩)
        rw [hzero, if_pos]
        refine List.mem_map.mpr ⟨e', (mem_missingEntries_iff nodup_candidates).mpr
          ⟨he', ?_, ?_⟩, hid⟩
        · rw [hid]
          simpa using hpresent
        · rintro ⟨hlive, hlast⟩
          rcases h.latest hlive e' hlast with hshown | hactive
          · rw [hid] at hshown
            exact hpresent hshown
          · exact hother ⟨hlive, by rw [hactive, hid]⟩

end Merge

/-! ## One merge -/

namespace Examples

/-- A compaction that ended at a known time. -/
def earlier : CompactionSidecarEntry JsString where
  id := js "c_1767225500000_a1b2c3"
  trigger := .auto
  tokensBefore := none
  tokensAfter := none
  durationMs := js "100000"
  startedAt := js "2025-12-31T23:58:20.000Z"
  endedAt := js "2026-01-01T00:00:00.000Z"
  success := true
  error := none
  firstKeptEntryId := none
  transcriptCompactionEntryId := none

/-- JavaScript's reading of that one date. -/
def env : SidecarEnv JsString where
  getTime := fun text =>
    if text = js "2026-01-01T00:00:00.000Z" then some 1767225600000 else none
  timeNumber := fun time => if time.isSome then js "1767225600000" else js "0"
  reductionPct := fun _ _ => .null

/-- A stable sort, where all end times are dates. -/
def endTimes : EndTimeSort env where
  sort := fun entries =>
    if entries.all fun e => (env.getTime e.endedAt).isSome then
      entries.mergeSort fun a b => (env.getTime a.endedAt).getD 0 ≤ (env.getTime b.endedAt).getD 0
    else entries
  perm := by
    intro entries
    split
    · exact List.mergeSort_perm _ _
    · exact List.Perm.refl _
  sorted := by
    intro entries hall
    rw [if_pos (by simpa using hall)]
    refine (List.pairwise_mergeSort ?_ ?_ entries).imp ?_
    · intro a b c hab hbc
      simp only [decide_eq_true_eq] at hab hbc ⊢
      exact le_trans hab hbc
    · intro a b
      simp only [Bool.or_eq_true, decide_eq_true_eq]
      exact le_total _ _
    · intro a b hab s hs t ht
      rw [Option.mem_def] at hs ht
      simpa [hs, ht] using hab

/-- The live card of the next compaction, which is still running. -/
def liveCard : Json JsString :=
  .obj [(js "id", .str (js "compact_active")), (js "role", .str (js "assistant")),
    (js "content", .arr [.obj [(js "type", .str (js "toolCall")),
      (js "id", .str (js "compaction-summary:compact_active")),
      (js "name", .str (js "__compaction_summary"))]])]

end Examples

/-- While the next compaction runs, without an entry of its own, the card of the earlier one is
hidden. -/
theorem earlier_card_hidden : ¬ MergesWell Examples.endTimes [Examples.earlier]
    [Examples.liveCard] [] (some (js "c_1767225700000_d4e5f6")) := by
  intro h
  have hone := h.shown Examples.earlier List.mem_cons_self List.not_mem_nil (by decide)
  rw [countP_shows_merge] at hone
  have hnone : (missingEntries [Examples.liveCard]
      (candidates Examples.endTimes [Examples.earlier] [])).map (·.id) = [] := by decide +kernel
  rw [hnone] at hone
  exact absurd hone (by decide +kernel)

end Bobbit.Spec.CompactionMerge
