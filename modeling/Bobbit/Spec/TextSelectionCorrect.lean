import Bobbit.Lib.List
import Bobbit.Server.TextSelection

/-!
# What a selection shows

Every mode picks increasing line numbers, and the budgets cut the rendered lines at one place: the
lines before it are whole, the one at it may be cut, and none comes behind. The count of shown
matches is taken before the cut and knows nothing of matches in the context of others.

## Key results
- `capSelectedLines_cutsAt`: where the budgets cut.
- `mem_selectedNumbers`, `select_lines`: the lines that a mode picks.
- `selectsWell_iff`: a selection is as promised iff its matches, and no further ones, are shown.
-/

namespace Bobbit.Server.TextSelection

open Lib Lib.Json Lib.JsString

/-! ## The property -/

def whole (rawLines : List JsString) (n : Nat) : SelectedLine := ⟨n, rawLines.getD (n - 1) []⟩

/-- A line of the text lies around one of the numbers. -/
def Around (rawLines : List JsString) (context : Nat) (numbers : List Nat) (n : Nat) : Prop :=
  (1 ≤ n ∧ n ≤ rawLines.length) ∧ ∃ l ∈ numbers, l ≤ n + context ∧ n ≤ l + context

/-- The lines that a request selects. -/
def Asked (rawLines : List JsString) : Request → Nat → Prop
  | .full, n => 1 ≤ n ∧ n ≤ rawLines.length
  | .head k, n => (1 ≤ n ∧ n ≤ rawLines.length) ∧ n ≤ k
  | .tail k, n => (1 ≤ n ∧ n ≤ rawLines.length) ∧ rawLines.length < n + k
  | .slice f t, n => (1 ≤ n ∧ n ≤ rawLines.length) ∧ f ≤ n ∧ n ≤ t
  | .grep test context maxResults, n =>
    Around rawLines context ((matchNumbers test rawLines).take maxResults) n

/-- The lines that a mode asks for: in grep mode those around every match. -/
def Wanted (rawLines : List JsString) : Request → Nat → Prop
  | .grep test context _, n => Around rawLines context (matchNumbers test rawLines) n
  | request, n => Asked rawLines request n

def Request.numbered : Request → Bool
  | .slice _ _ => true
  | .grep _ _ _ => true
  | _ => false

/-- Lines are left out behind a place, and cut at it, only where the line there does not fit. -/
def CutByBudgets (numbered : Bool) (all shown : List SelectedLine) : Prop :=
  shown = all ∨ ∃ k line, all[k]? = some line ∧
    (maxSelectedLines ≤ k ∨
      maxSelectedBytes < byteLength (joinSelectedLines numbered (all.take (k + 1)))) ∧
    (shown = all.take k ∨
      ∃ cut, cut <+: line.text ∧ shown = all.take k ++ [⟨line.number, cut⟩])

/-- A selection of the lines `selected`, of which `shown` is rendered. -/
structure Selects (rawLines : List JsString) (request : Request) (result : TextSelectionResult)
    (selected : List Nat) (shown : List SelectedLine) : Prop where
  increasing : selected.Pairwise (· < ·)
  asked : ∀ n, n ∈ selected ↔ Asked rawLines request n
  text : result.text = joinSelectedLines request.numbered shown
  numbers : result.selectedLineNumbers = shown.map (·.number)
  cut : CutByBudgets request.numbered (selected.map (whole rawLines)) shown
  lines_le : shown.length ≤ maxSelectedLines
  bytes_le : byteLength result.text ≤ maxSelectedBytes
  truncated : result.truncated = true ↔ ∃ n, Wanted rawLines request n ∧ whole rawLines n ∉ shown
  shownMatches : ∀ test context maxResults, request = .grep test context maxResults →
    result.shownMatches =
      some (result.selectedLineNumbers.countP fun n => test (rawLines.getD (n - 1) []))

def SelectsWell (rawLines : List JsString) (request : Request) (result : TextSelectionResult) :
    Prop :=
  ∃ selected shown, Selects rawLines request result selected shown

/-! ## Bytes -/

theorem byteLength_units {a b : JsString} {u : UInt16} (hhigh : isHighSurrogate u = false) :
    byteLength (a ++ u :: b) = byteLength (a ++ [u]) + byteLength b := by
  have hsplit : a ++ u :: b = (a ++ [u]) ++ b := by simp
  rw [hsplit, byteLength_append]
  rintro ⟨h, -⟩
  simp [hhigh] at h

theorem byteLength_join_concat (numbered : Bool) (kept : List SelectedLine) (line : SelectedLine) :
    byteLength (joinSelectedLines numbered (kept ++ [line])) =
      byteLength (joinSelectedLines numbered kept) + (if kept.isEmpty then 0 else 1) +
        byteLength (rendered numbered line) := by
  rw [joinSelectedLines, joinSelectedLines, List.map_append, List.map_singleton]
  cases kept with
  | nil => simp [unlines, byteLength, utf8, chars]
  | cons first rest =>
    have hjoin : ∀ (l : List JsString) (x : JsString), l ≠ [] →
        unlines (l ++ [x]) = unlines l ++ lineFeed :: x := by
      intro l x hl
      induction l with
      | nil => exact absurd rfl hl
      | cons y rest ih =>
        by_cases hrest : rest = []
        · simp [hrest, unlines]
        · have hmore : ∀ z : List JsString, z ≠ [] →
              unlines (y :: z) = y ++ lineFeed :: unlines z := by
            intro z hz
            rw [unlines, List.intercalate_cons_of_ne_nil hz, List.append_assoc]
            rfl
          rw [List.cons_append, hmore _ (by simp), ih hrest, hmore _ hrest, List.append_assoc,
            List.cons_append]
    rw [hjoin _ _ (by simp), byteLength_units (by decide), byteLength_append]
    · have hfeed : byteLength [lineFeed] = 1 := by decide +kernel
      rw [hfeed]
      rfl
    · rintro ⟨-, h⟩
      exact absurd h (by decide)

theorem byteLength_rendered (line : SelectedLine) :
    byteLength (rendered true line) = byteLength (linePrefix line) + byteLength line.text := by
  have hend : linePrefix line = (numberText line.number ++ [0x3A]) ++ [0x20] := by
    rw [linePrefix, List.append_assoc]
    congr 1
  rw [rendered, if_pos rfl, hend, List.append_assoc, List.singleton_append,
    byteLength_units (by decide)]

/-! ## Cutting -/

theorem takeCodePoints_spec (maxBytes used : Nat) (parts : List JsString)
    (hused : used ≤ maxBytes) :
    ∃ j, takeCodePoints maxBytes used parts = (parts.take j).flatten ∧
      used + ((parts.take j).map byteLength).sum ≤ maxBytes := by
  induction parts generalizing used with
  | nil => exact ⟨0, rfl, by simpa using hused⟩
  | cons ch rest ih =>
    rw [takeCodePoints]
    split
    · exact ⟨0, rfl, by simpa using hused⟩
    · obtain ⟨j, htake, hsum⟩ := ih (used + byteLength ch) (by omega)
      refine ⟨j + 1, ?_, ?_⟩
      · rw [htake, List.take_succ_cons, List.flatten_cons]
      · rw [List.take_succ_cons, List.map_cons, List.sum_cons]
        omega

theorem truncateStringToBytes_spec (text : JsString) (maxBytes : Nat) :
    truncateStringToBytes text maxBytes <+: text ∧
      byteLength (truncateStringToBytes text maxBytes) ≤ maxBytes := by
  rw [truncateStringToBytes]
  split
  · exact ⟨List.nil_prefix, by simp [byteLength, utf8, chars]⟩
  · split
    · rename_i hfits
      exact ⟨List.prefix_refl _, hfits⟩
    · obtain ⟨j, htake, hsum⟩ := takeCodePoints_spec maxBytes 0 (codePoints text) (Nat.zero_le _)
      rw [htake, byteLength_flatten]
      · refine ⟨?_, by omega⟩
        have hparts := congrArg List.flatten (List.take_append_drop j (codePoints text))
        rw [List.flatten_append, flatten_codePoints] at hparts
        exact ⟨_, hparts⟩
      · exact fun c hc => ne_nil_of_mem_codePoints (List.mem_of_mem_take hc)
      · exact (apart_codePoints text).take j

/-- The bytes that come before the text of a line. -/
def prefixBytes (numbered : Bool) (line : SelectedLine) : Nat :=
  if numbered then byteLength (linePrefix line) else 0

theorem byteLength_rendered_eq (numbered : Bool) (line : SelectedLine) :
    byteLength (rendered numbered line) = prefixBytes numbered line + byteLength line.text := by
  cases numbered with
  | false => simp [rendered, prefixBytes]
  | true => exact byteLength_rendered line

/-- What is kept of a line that does not fit: a beginning that fits, where there is room for it. -/
theorem cutLine_spec (numbered : Bool) (line : SelectedLine) (remaining : Nat) :
    (remaining ≤ prefixBytes numbered line ∧ cutLine numbered line remaining = []) ∨
      prefixBytes numbered line < remaining ∧ ∃ cut, cut <+: line.text ∧
        byteLength (rendered numbered ⟨line.number, cut⟩) ≤ remaining ∧
        cutLine numbered line remaining = [⟨line.number, cut⟩] := by
  have hsame : ∀ cut, prefixBytes numbered ⟨line.number, cut⟩ = prefixBytes numbered line :=
    fun _ => rfl
  by_cases hroom : prefixBytes numbered line < remaining
  · right
    obtain ⟨hpre, hbytes⟩ :=
      truncateStringToBytes_spec line.text (remaining - prefixBytes numbered line)
    refine ⟨hroom, _, hpre, ?_, ?_⟩
    · rw [byteLength_rendered_eq, hsame]
      dsimp only
      omega
    · cases numbered with
      | false =>
        simp only [prefixBytes, Bool.false_eq_true, if_false, Nat.sub_zero] at hroom ⊢
        simp [cutLine, Nat.pos_iff_ne_zero.mp hroom]
      | true =>
        simp only [prefixBytes, if_true] at hroom ⊢
        have hleft : remaining - byteLength (linePrefix line) ≠ 0 := by omega
        have hpos : remaining ≠ 0 := by omega
        simp [cutLine, hleft, hpos]
  · left
    refine ⟨by omega, ?_⟩
    cases numbered with
    | false =>
      simp only [prefixBytes, Bool.false_eq_true, if_false] at hroom
      simp [cutLine, show remaining = 0 by omega]
    | true =>
      simp only [prefixBytes, if_true] at hroom
      simp [cutLine, show remaining - byteLength (linePrefix line) = 0 by omega]

/-- The lines are whole up to `k`, where the budgets stop. -/
structure CutsAt (numbered : Bool) (all : List SelectedLine) (c : Capped) (k : Nat) : Prop where
  lines_fit : k ≤ maxSelectedLines
  bytes_fit : byteLength (joinSelectedLines numbered (all.take k)) ≤ maxSelectedBytes
  stops : (all.length = k ∧ c.lines = all ∧ c.truncationReason = none) ∨
    ∃ line, all[k]? = some line ∧ c.truncationReason.isSome = true ∧
      (maxSelectedLines ≤ k ∧ c.lines = all.take k ∨
        k < maxSelectedLines ∧
          maxSelectedBytes < byteLength (joinSelectedLines numbered (all.take (k + 1))) ∧
          c.lines = all.take k ++ cutLine numbered line (maxSelectedBytes -
            byteLength (joinSelectedLines numbered (all.take k)) - if k = 0 then 0 else 1))

theorem capFrom_cutsAt (numbered : Bool) (kept rest : List SelectedLine)
    (hlines : kept.length ≤ maxSelectedLines)
    (hbytes : byteLength (joinSelectedLines numbered kept) ≤ maxSelectedBytes) :
    ∃ k, CutsAt numbered (kept ++ rest)
      (capFrom numbered kept (byteLength (joinSelectedLines numbered kept)) rest) k := by
  induction rest generalizing kept with
  | nil =>
    rw [List.append_nil]
    exact ⟨kept.length, hlines, by rwa [List.take_length], .inl ⟨rfl, rfl, rfl⟩⟩
  | cons line rest ih =>
    have htake : (kept ++ line :: rest).take kept.length = kept := List.take_left
    have hnext : (kept ++ line :: rest).take (kept.length + 1) = kept ++ [line] := by
      rw [List.take_append]
      simp
    have hget : (kept ++ line :: rest)[kept.length]? = some line := by simp
    have hempty : (if kept.isEmpty then 0 else 1) = if kept.length = 0 then 0 else 1 := by
      cases kept <;> rfl
    rw [capFrom]
    split
    · rename_i hfull
      exact ⟨kept.length, hlines, by rwa [htake],
        .inr ⟨line, hget, rfl, .inl ⟨hfull, htake.symm⟩⟩⟩
    · rename_i hfull
      dsimp only
      rw [← byteLength_join_concat]
      split
      · rename_i hover
        refine ⟨kept.length, hlines, by rwa [htake], .inr ⟨line, hget, rfl, .inr
          ⟨by omega, by rwa [hnext], ?_⟩⟩⟩
        rw [htake, hempty]
      · rename_i hfits
        have hmore := ih (kept ++ [line]) (by
          rw [List.length_append, List.length_singleton]; omega) (by omega)
        rwa [List.append_assoc, List.singleton_append] at hmore

theorem capSelectedLines_cutsAt (numbered : Bool) (all : List SelectedLine) :
    ∃ k, CutsAt numbered all (capSelectedLines all numbered) k :=
  capFrom_cutsAt numbered [] all (Nat.zero_le _)
    (by simp [joinSelectedLines, unlines, byteLength, utf8, chars])

/-! ## Shown lines -/

/-- The budgets reach a line: those before it are whole, and it is whole too or has room. -/
def Starts (numbered : Bool) (all : List SelectedLine) (i : Nat) : Prop :=
  ∃ line, all[i]? = some line ∧ i < maxSelectedLines ∧
    (byteLength (joinSelectedLines numbered (all.take (i + 1))) ≤ maxSelectedBytes ∨
      byteLength (joinSelectedLines numbered (all.take i)) + (if i = 0 then 0 else 1) +
        prefixBytes numbered line < maxSelectedBytes)

/-- The bytes of the lines up to a place, and of the one there. -/
theorem byteLength_take_succ {numbered : Bool} {all : List SelectedLine} {i : Nat}
    {line : SelectedLine} (h : all[i]? = some line) :
    byteLength (joinSelectedLines numbered (all.take (i + 1))) =
      byteLength (joinSelectedLines numbered (all.take i)) + (if i = 0 then 0 else 1) +
        byteLength (rendered numbered line) := by
  have hempty : (all.take i).isEmpty = decide (i = 0) := by
    have hlt := (List.getElem?_eq_some_iff.mp h).1
    cases i with
    | zero => rfl
    | succ i =>
      cases all with
      | nil => exact absurd hlt (Nat.not_lt_zero _)
      | cons first rest => rfl
  rw [List.take_add_one, h, Option.toList_some, byteLength_join_concat, hempty]
  simp

theorem byteLength_take_mono (numbered : Bool) (all : List SelectedLine) {i j : Nat} (h : i ≤ j) :
    byteLength (joinSelectedLines numbered (all.take i)) ≤
      byteLength (joinSelectedLines numbered (all.take j)) := by
  induction j, h using Nat.le_induction with
  | base => exact le_refl _
  | succ j _ ih =>
    refine ih.trans ?_
    cases hline : all[j]? with
    | none =>
      rw [List.take_add_one, hline, Option.toList_none, List.append_nil]
    | some line =>
      rw [byteLength_take_succ hline]
      omega

namespace CutsAt

variable {numbered : Bool} {all : List SelectedLine} {c : Capped} {k : Nat}

theorem cut (h : CutsAt numbered all c k) : CutByBudgets numbered all c.lines := by
  rcases h.stops with ⟨-, hlines, -⟩ | ⟨line, hline, -, ⟨hfull, hlines⟩ | ⟨-, hover, hlines⟩⟩
  · exact .inl hlines
  · exact .inr ⟨k, line, hline, .inl hfull, .inl hlines⟩
  · refine .inr ⟨k, line, hline, .inr hover, ?_⟩
    rcases cutLine_spec numbered line (maxSelectedBytes -
      byteLength (joinSelectedLines numbered (all.take k)) - if k = 0 then 0 else 1) with
      ⟨-, hcut⟩ | ⟨-, cut, hpre, -, hcut⟩
    · exact .inl (by rw [hlines, hcut, List.append_nil])
    · exact .inr ⟨cut, hpre, by rw [hlines, hcut]⟩

theorem fits (h : CutsAt numbered all c k) :
    c.lines.length ≤ maxSelectedLines ∧
      byteLength (joinSelectedLines numbered c.lines) ≤ maxSelectedBytes := by
  have hlines := h.lines_fit
  have hbytes := h.bytes_fit
  have hlength : (all.take k).length ≤ k := List.length_take_le k all
  rcases h.stops with ⟨hall, heq, -⟩ | ⟨line, hline, -, ⟨-, heq⟩ | ⟨hlt, -, heq⟩⟩
  · rw [heq]
    rw [List.take_of_length_le hall.le] at hbytes
    exact ⟨by omega, hbytes⟩
  · rw [heq]
    exact ⟨by omega, hbytes⟩
  · rcases cutLine_spec numbered line (maxSelectedBytes -
      byteLength (joinSelectedLines numbered (all.take k)) - if k = 0 then 0 else 1) with
      ⟨-, hcut⟩ | ⟨hroom, cut, -, hcutBytes, hcut⟩
    · rw [heq, hcut, List.append_nil]
      exact ⟨by omega, hbytes⟩
    · have hempty : (if (all.take k).isEmpty then 0 else 1) ≤ if k = 0 then 0 else 1 := by
        cases k <;> simp
        split <;> simp
      rw [heq, hcut, byteLength_join_concat, List.length_append, List.length_singleton]
      exact ⟨by omega, by omega⟩

/-- The numbers that are shown are the first ones, up to where the budgets reach. -/
theorem numbers (h : CutsAt numbered all c k) :
    ∃ j, c.lines.map (·.number) = (all.map (·.number)).take j ∧
      ∀ i, i < j ↔ Starts numbered all i := by
  have hwhole : ∀ i < k, i < all.length → Starts numbered all i := by
    intro i hi hlt
    have hlines := h.lines_fit
    exact ⟨all[i], List.getElem?_eq_getElem hlt, by omega,
      .inl ((byteLength_take_mono numbered all (show i + 1 ≤ k from hi)).trans h.bytes_fit)⟩
  -- `j` is `k`, and one more where the line at `k` has room for a beginning
  rcases h.stops with ⟨hall, heq, -⟩ | ⟨line, hline, -, hstop⟩
  · refine ⟨k, by rw [heq, List.take_of_length_le (by simp [hall])], fun i => ⟨fun hi =>
      hwhole i hi (hall ▸ hi), ?_⟩⟩
    rintro ⟨line, hline, -, -⟩
    exact hall ▸ (List.getElem?_eq_some_iff.mp hline).1
  · have hk := (List.getElem?_eq_some_iff.mp hline).1
    rcases hstop with ⟨hfull, heq⟩ | ⟨hlt, hover, heq⟩
    · refine ⟨k, by rw [heq, List.map_take], fun i => ⟨fun hi => hwhole i hi (by omega), ?_⟩⟩
      rintro ⟨-, -, hi, -⟩
      omega
    · have hbeyond : ∀ i, Starts numbered all i → i ≤ k := by
        rintro i ⟨line', -, -, hi⟩
        by_contra hki
        have h₁ := byteLength_take_mono numbered all (show k + 1 ≤ i + 1 by omega)
        have h₂ := byteLength_take_mono numbered all (show k + 1 ≤ i by omega)
        rcases hi with hi | hi
        · omega
        · omega
      rcases cutLine_spec numbered line (maxSelectedBytes -
        byteLength (joinSelectedLines numbered (all.take k)) - if k = 0 then 0 else 1) with
        ⟨hroom, hcut⟩ | ⟨hroom, cut, -, -, hcut⟩
      · refine ⟨k, by rw [heq, hcut, List.append_nil, List.map_take], fun i =>
          ⟨fun hi => hwhole i hi (by omega), fun hi => ?_⟩⟩
        refine lt_of_le_of_ne (hbeyond i hi) ?_
        rintro rfl
        obtain ⟨line', hline', -, hroom'⟩ := hi
        cases hline.symm.trans hline'
        omega
      · refine ⟨k + 1, ?_, fun i => ⟨fun hi => ?_, fun hi => Nat.lt_succ_of_le (hbeyond i hi)⟩⟩
        · rw [heq, hcut, List.map_append, List.map_take, List.map_singleton, List.take_add_one,
            List.getElem?_map, hline]
          rfl
        · by_cases hik : i = k
          · subst hik
            exact ⟨line, hline, hlt, .inr (by omega)⟩
          · exact hwhole i (by omega) (by omega)

theorem truncated (h : CutsAt numbered all c k) (hnodup : (all.map (·.number)).Nodup) :
    c.truncationReason.isSome = true ↔ ∃ line ∈ all, line ∉ c.lines := by
  constructor
  · intro hreason
    rcases h.stops with ⟨-, -, hnone⟩ | ⟨line, hline, -, hstop⟩
    · rw [hnone] at hreason
      cases hreason
    · have hk := (List.getElem?_eq_some_iff.mp hline).1
      have hnot : line ∉ all.take k := by
        have hsplit : all = all.take k ++ line :: all.drop (k + 1) := by
          rw [← (List.getElem?_eq_some_iff.mp hline).2, ← List.drop_eq_getElem_cons hk,
            List.take_append_drop]
        rw [hsplit, List.map_append, List.map_cons, List.nodup_append] at hnodup
        intro hmem
        exact hnodup.2.2 _ (List.mem_map.mpr ⟨line, hmem, rfl⟩) _ List.mem_cons_self rfl
      -- the line where the budgets stop is missing, or what is kept of it is shorter
      refine ⟨line, List.mem_of_getElem? hline, ?_⟩
      rcases hstop with ⟨-, heq⟩ | ⟨-, hover, heq⟩
      · rwa [heq]
      · rw [heq, List.mem_append, not_or]
        refine ⟨hnot, ?_⟩
        rcases cutLine_spec numbered line (maxSelectedBytes -
          byteLength (joinSelectedLines numbered (all.take k)) - if k = 0 then 0 else 1) with
          ⟨-, hcut⟩ | ⟨hroom, cut, -, hbytes, hcut⟩
        · rw [hcut]
          exact List.not_mem_nil
        · rw [hcut, List.mem_singleton]
          intro hsame
          have hrendered : rendered numbered ⟨line.number, cut⟩ = rendered numbered line := by
            rw [← hsame]
          rw [hrendered] at hbytes
          rw [byteLength_take_succ hline] at hover
          have hpos := byteLength_rendered_eq numbered line
          omega
  · rintro ⟨line, hline, hnot⟩
    rcases h.stops with ⟨-, heq, -⟩ | ⟨-, -, hreason, -⟩
    · exact absurd (heq ▸ hline) hnot
    · exact hreason

end CutsAt

/-! ## Selection -/

theorem numberLines_slice (rawLines : List JsString) (start stop : Nat) :
    numberLines (start + 1) ((rawLines.take stop).drop start) =
      (List.range' (start + 1) (min stop rawLines.length - start)).map (whole rawLines) := by
  apply List.ext_getElem
  · simp [numberLines]
  · intro i hi _
    simp only [numberLines, List.length_mapIdx, List.length_drop, List.length_take] at hi
    have hlt : start + i < rawLines.length := by omega
    have hsub : start + 1 + i - 1 = start + i := by omega
    simp [numberLines, whole, hsub, List.getElem?_eq_getElem hlt]

theorem numberLines_one (rawLines : List JsString) :
    numberLines 1 rawLines = (List.range' 1 rawLines.length).map (whole rawLines) := by
  have h := numberLines_slice rawLines 0 rawLines.length
  simpa using h

def matchesAt (test : JsString → Bool) (rawLines : List JsString) (n : Nat) : Bool :=
  test (rawLines.getD (n - 1) [])

theorem matchNumbers_eq (test : JsString → Bool) (rawLines : List JsString) :
    matchNumbers test rawLines =
      (List.range' 1 rawLines.length).filter (matchesAt test rawLines) := by
  rw [matchNumbers, numberLines_one, List.filter_map, List.map_map]
  exact List.map_id _

theorem mem_matchNumbers {test : JsString → Bool} {rawLines : List JsString} {n : Nat} :
    n ∈ matchNumbers test rawLines ↔
      (1 ≤ n ∧ n ≤ rawLines.length) ∧ matchesAt test rawLines n = true := by
  rw [matchNumbers_eq, List.mem_filter, List.mem_range'_1]
  refine and_congr_left fun _ => ?_
  omega

instance (rawLines : List JsString) (context : Nat) (numbers : List Nat) (n : Nat) :
    Decidable (Around rawLines context numbers n) :=
  inferInstanceAs (Decidable (_ ∧ _))

/-- The lines around some, in order. -/
def aroundNumbers (rawLines : List JsString) (context : Nat) (numbers : List Nat) : List Nat :=
  (List.range' 1 rawLines.length).filter fun n => Around rawLines context numbers n

theorem mem_aroundNumbers {rawLines : List JsString} {context : Nat} {numbers : List Nat}
    {n : Nat} : n ∈ aroundNumbers rawLines context numbers ↔ Around rawLines context numbers n := by
  rw [aroundNumbers, List.mem_filter, List.mem_range'_1, decide_eq_true_iff]
  refine and_iff_right_of_imp fun h => ?_
  have hn := h.1
  omega

/-- The merged windows of some lines list what lies around them. -/
theorem mergeRanges_windows {rawLines : List JsString} {numbers : List Nat}
    (h : ∀ l ∈ numbers, 1 ≤ l ∧ l ≤ rawLines.length) (context : Nat) :
    (NumberRange.mergeRanges (numbers.map (window rawLines.length context))).flatMap
      NumberRange.numbers = aroundNumbers rawLines context numbers := by
  have hranges : ∀ r ∈ numbers.map (window rawLines.length context), r.first ≤ r.last := by
    intro r hr
    obtain ⟨l, hl, rfl⟩ := List.mem_map.mp hr
    have hbounds := h l hl
    simp only [window]
    omega
  have hpairwise : (aroundNumbers rawLines context numbers).Pairwise (· < ·) :=
    List.Pairwise.filter _ List.pairwise_lt_range'
  refine (NumberRange.pairwise_numbers_mergeRanges hranges).eq_of_mem_iff hpairwise fun n => ?_
  rw [NumberRange.mem_numbers_mergeRanges hranges, mem_aroundNumbers, Around]
  constructor
  · rintro ⟨r, hr, hn⟩
    obtain ⟨l, hl, rfl⟩ := List.mem_map.mp hr
    simp only [window] at hn
    exact ⟨⟨by omega, by omega⟩, l, hl, by omega, by omega⟩
  · rintro ⟨hn, l, hl, hnear⟩
    refine ⟨_, List.mem_map_of_mem hl, ?_⟩
    simp only [window]
    omega

/-- The lines that a request selects, in order. -/
def selectedNumbers (rawLines : List JsString) : Request → List Nat
  | .full => List.range' 1 rawLines.length
  | .head k => List.range' 1 (min k rawLines.length)
  | .tail k => List.range' (rawLines.length - k + 1) (rawLines.length - (rawLines.length - k))
  | .slice f t => List.range' (max f 1) (min t rawLines.length + 1 - max f 1)
  | .grep test context maxResults =>
    aroundNumbers rawLines context ((matchNumbers test rawLines).take maxResults)

theorem select_lines (rawLines : List JsString) (request : Request) :
    (select rawLines request).lines = (selectedNumbers rawLines request).map (whole rawLines) := by
  cases request with
  | full => exact numberLines_one rawLines
  | head k =>
    have h := numberLines_slice rawLines 0 (min k rawLines.length)
    simpa [select, selectedNumbers] using h
  | tail k =>
    have h := numberLines_slice rawLines (rawLines.length - k) rawLines.length
    have hstart : rawLines.length - min k rawLines.length = rawLines.length - k := by omega
    simpa [select, selectedNumbers, hstart] using h
  | slice f t =>
    have h := numberLines_slice rawLines (max f 1 - 1) (min t rawLines.length)
    have hstart : max f 1 - 1 + 1 = max f 1 := by omega
    have hcount : min (min t rawLines.length) rawLines.length - (max f 1 - 1) =
        min t rawLines.length + 1 - max f 1 := by omega
    rw [hstart, hcount] at h
    simp only [select, selectedNumbers]
    split
    · exact h
    · have hnone : min t rawLines.length + 1 - max f 1 = 0 := by omega
      rw [hnone]
      rfl
  | grep test context maxResults =>
    have hbounds : ∀ l ∈ (matchNumbers test rawLines).take maxResults,
        1 ≤ l ∧ l ≤ rawLines.length :=
      fun l hl => (mem_matchNumbers.mp (List.mem_of_mem_take hl)).1
    rw [selectedNumbers, ← mergeRanges_windows hbounds, List.map_flatMap]
    rfl

theorem select_numbered (rawLines : List JsString) (request : Request) :
    (select rawLines request).numbered = request.numbered := by
  cases request <;> rfl

theorem pairwise_selectedNumbers (rawLines : List JsString) (request : Request) :
    (selectedNumbers rawLines request).Pairwise (· < ·) := by
  cases request with
  | grep test context maxResults => exact List.Pairwise.filter _ List.pairwise_lt_range'
  | _ => exact List.pairwise_lt_range'

theorem mem_selectedNumbers {rawLines : List JsString} {request : Request} {n : Nat} :
    n ∈ selectedNumbers rawLines request ↔ Asked rawLines request n := by
  cases request with
  | grep test context maxResults => exact mem_aroundNumbers
  | _ =>
    simp only [selectedNumbers, Asked, List.mem_range'_1]
    omega

/-! ## Shown matches -/

/-- The budgets reach a line among those around some. -/
def Reached (rawLines : List JsString) (context : Nat) (numbers : List Nat) (l : Nat) : Prop :=
  ∃ i, (aroundNumbers rawLines context numbers)[i]? = some l ∧
    Starts true ((aroundNumbers rawLines context numbers).map (whole rawLines)) i

/-- The budgets reach each match that counts, and none of the others around these. -/
def MatchesFit (rawLines : List JsString) : Request → Prop
  | .grep test context maxResults =>
    (∀ l ∈ (matchNumbers test rawLines).take maxResults,
      Reached rawLines context ((matchNumbers test rawLines).take maxResults) l) ∧
    ∀ l ∈ (matchNumbers test rawLines).drop maxResults,
      ¬ Reached rawLines context ((matchNumbers test rawLines).take maxResults) l
  | _ => True

/-- The matches around the first ones are these, and some of the later ones. -/
theorem filter_aroundNumbers (test : JsString → Bool) (rawLines : List JsString)
    (context maxResults : Nat) :
    (aroundNumbers rawLines context ((matchNumbers test rawLines).take maxResults)).filter
        (matchesAt test rawLines) =
      (matchNumbers test rawLines).take maxResults ++
        ((matchNumbers test rawLines).drop maxResults).filter fun l =>
          Around rawLines context ((matchNumbers test rawLines).take maxResults) l := by
  have hfirst : ∀ l ∈ (matchNumbers test rawLines).take maxResults,
      decide (Around rawLines context ((matchNumbers test rawLines).take maxResults) l) = true := by
    intro l hl
    have hbounds := (mem_matchNumbers.mp (List.mem_of_mem_take hl)).1
    exact decide_eq_true ⟨hbounds, l, hl, by omega, by omega⟩
  have hall := List.take_append_drop maxResults (matchNumbers test rawLines)
  generalize (matchNumbers test rawLines).take maxResults = first at hfirst hall ⊢
  have hkeep := List.filter_eq_self.mpr hfirst
  conv_rhs => arg 1; rw [← hkeep]
  rw [← List.filter_append, hall, matchNumbers_eq, aroundNumbers, List.filter_filter,
    List.filter_filter]
  exact List.filter_congr fun n _ => Bool.and_comm _ _

/-- The count of matches is that of the shown ones iff the first ones fit and no other does. -/
theorem countP_shown_iff (test : JsString → Bool) (rawLines : List JsString)
    (context maxResults j : Nat) (hj : ∀ i, i < j ↔ Starts true ((aroundNumbers rawLines context
      ((matchNumbers test rawLines).take maxResults)).map (whole rawLines)) i) :
    ((aroundNumbers rawLines context ((matchNumbers test rawLines).take maxResults)).take j).countP
        (matchesAt test rawLines) = min (matchNumbers test rawLines).length maxResults ↔
      MatchesFit rawLines (.grep test context maxResults) := by
  have hsplit := filter_aroundNumbers test rawLines context maxResults
  generalize hfirst : (matchNumbers test rawLines).take maxResults = first at hj hsplit ⊢
  generalize hrest : ((matchNumbers test rawLines).drop maxResults).filter
    (fun l => Around rawLines context first l) = rest at hsplit
  have hreached : ∀ l, l ∈ (aroundNumbers rawLines context first).take j ↔
      Reached rawLines context first l := by
    intro l
    rw [List.mem_iff_getElem?, Reached]
    refine exists_congr fun i => ?_
    rw [List.getElem?_take, ← hj i]
    by_cases hi : i < j <;> simp [hi]
  have hprefix : ((aroundNumbers rawLines context first).take j).filter (matchesAt test rawLines)
      <+: first ++ rest := hsplit ▸ (List.take_prefix _ _).filter _
  have hnodup : (first ++ rest).Nodup := by
    rw [← hsplit]
    exact (List.Nodup.filter _ List.nodup_range').filter _
  have hmatch : ∀ l ∈ matchNumbers test rawLines, matchesAt test rawLines l = true :=
    fun l hl => (mem_matchNumbers.mp hl).2
  have hlength : min (matchNumbers test rawLines).length maxResults = first.length := by
    rw [← hfirst, List.length_take, min_comm]
  -- the shown matches begin the matches around the first ones, which come before the others
  rw [List.countP_eq_length_filter, hlength, length_eq_iff_of_prefix hprefix hnodup, MatchesFit,
    hfirst]
  refine and_congr (forall₂_congr fun l hl => ?_) ⟨fun h l hl hr => ?_, fun h l hl hr => ?_⟩
  · rw [← hfirst] at hl
    rw [List.mem_filter, hreached, and_iff_left (hmatch l (List.mem_of_mem_take hl))]
  · have hmem := (hreached l).mpr hr
    refine h l ?_ (List.mem_filter.mpr ⟨hmem, hmatch l (List.mem_of_mem_drop hl)⟩)
    rw [← hrest, List.mem_filter]
    exact ⟨hl, decide_eq_true (mem_aroundNumbers.mp (List.mem_of_mem_take hmem))⟩
  · rw [← hrest, List.mem_filter] at hl
    exact h l hl.1 ((hreached l).mp (List.mem_filter.mp hr).1)

/-! ## The whole selection -/

variable (text : JsString) (request : Request)

/-- What is shown: the selected lines, cut by the budgets. -/
def shownLines : Capped :=
  capSelectedLines ((selectedNumbers (splitLines text) request).map (whole (splitLines text)))
    request.numbered

theorem selectRequest_eq (implicitDefault : Bool) :
    (selectRequest text request implicitDefault).text =
        joinSelectedLines request.numbered (shownLines text request).lines ∧
      (selectRequest text request implicitDefault).selectedLineNumbers =
        (shownLines text request).lines.map (·.number) ∧
      (selectRequest text request implicitDefault).truncated =
        ((select (splitLines text) request).truncationReason.isSome ||
          (shownLines text request).truncationReason.isSome) := by
  rw [shownLines, ← select_lines, ← select_numbered (splitLines text)]
  exact ⟨rfl, rfl, rfl⟩

theorem map_number_whole (rawLines : List JsString) (numbers : List Nat) :
    (numbers.map (whole rawLines)).map (·.number) = numbers := by
  rw [List.map_map]
  exact List.map_id _

/-- The budgets leave something of the selection out iff a selected line is missing or cut. -/
theorem shownLines_truncated :
    (shownLines text request).truncationReason.isSome = true ↔
      ∃ n, Asked (splitLines text) request n ∧
        whole (splitLines text) n ∉ (shownLines text request).lines := by
  obtain ⟨k, hk⟩ := capSelectedLines_cutsAt request.numbered
    ((selectedNumbers (splitLines text) request).map (whole (splitLines text)))
  have hnodup : (((selectedNumbers (splitLines text) request).map
      (whole (splitLines text))).map (·.number)).Nodup := by
    rw [map_number_whole]
    exact (pairwise_selectedNumbers (splitLines text) request).imp fun h => h.ne
  rw [shownLines, hk.truncated hnodup]
  simp only [List.mem_map, exists_exists_and_eq_and, mem_selectedNumbers]

/-- A selected line that is whole among the shown ones has a number that is shown. -/
theorem mem_numbers_of_whole {n : Nat}
    (h : whole (splitLines text) n ∈ (shownLines text request).lines) :
    n ∈ (shownLines text request).lines.map (·.number) :=
  List.mem_map.mpr ⟨_, h, rfl⟩

/-- Something is said to be left out iff a line around a match is missing or cut. -/
theorem truncated_iff_of_matchesFit (implicitDefault : Bool)
    (hfit : ∀ test context maxResults, request = .grep test context maxResults →
      ∀ l ∈ (matchNumbers test (splitLines text)).drop maxResults,
        l ∉ (shownLines text request).lines.map (·.number)) :
    (selectRequest text request implicitDefault).truncated = true ↔
      ∃ n, Wanted (splitLines text) request n ∧
        whole (splitLines text) n ∉ (shownLines text request).lines := by
  rw [(selectRequest_eq text request implicitDefault).2.2, Bool.or_eq_true, shownLines_truncated]
  cases request with
  | grep test context maxResults =>
    have hasked : ∀ n, Asked (splitLines text) (.grep test context maxResults) n →
        Wanted (splitLines text) (.grep test context maxResults) n := by
      rintro n ⟨hn, l, hl, hnear⟩
      exact ⟨hn, l, List.mem_of_mem_take hl, hnear⟩
    have hreason :
        (select (splitLines text) (.grep test context maxResults)).truncationReason.isSome = true ↔
          maxResults < (matchNumbers test (splitLines text)).length := by
      simp only [select]
      split <;> simp_all
    rw [hreason]
    constructor
    · rintro (hmore | ⟨n, hn, hshown⟩)
      · -- the first match that does not count is asked for, and not shown
        have hmem : (matchNumbers test (splitLines text))[maxResults] ∈
            (matchNumbers test (splitLines text)).drop maxResults := by
          rw [List.drop_eq_getElem_cons hmore]
          exact List.mem_cons_self
        have hbounds := (mem_matchNumbers.mp (List.mem_of_mem_drop hmem)).1
        exact ⟨_, ⟨hbounds, _, List.mem_of_mem_drop hmem, by omega, by omega⟩, fun hshown =>
          hfit test context maxResults rfl _ hmem (mem_numbers_of_whole text _ hshown)⟩
      · exact ⟨n, hasked n hn, hshown⟩
    · rintro ⟨n, hn, hshown⟩
      by_cases hmore : maxResults < (matchNumbers test (splitLines text)).length
      · exact .inl hmore
      · refine .inr ⟨n, ?_, hshown⟩
        rw [Asked, List.take_of_length_le (by omega)]
        exact hn
  | _ => simp [select, Wanted]

/-- Where the budgets reach just the matches that count, all is as promised, and only there. -/
theorem selectsWell_selectRequest_iff (implicitDefault : Bool) :
    SelectsWell (splitLines text) request (selectRequest text request implicitDefault) ↔
      MatchesFit (splitLines text) request := by
  obtain ⟨htext, hnumbers, -⟩ := selectRequest_eq text request implicitDefault
  obtain ⟨k, hk⟩ := capSelectedLines_cutsAt request.numbered
    ((selectedNumbers (splitLines text) request).map (whole (splitLines text)))
  obtain ⟨j, htake, hj⟩ := hk.numbers
  rw [map_number_whole, ← shownLines] at htake
  have hcount : ∀ test context maxResults, request = .grep test context maxResults →
      ((selectRequest text request implicitDefault).shownMatches =
        some ((selectRequest text request implicitDefault).selectedLineNumbers.countP fun n =>
          test ((splitLines text).getD (n - 1) [])) ↔ MatchesFit (splitLines text) request) := by
    rintro test context maxResults rfl
    have hshown :
        (selectRequest text (.grep test context maxResults) implicitDefault).shownMatches =
          some (min (matchNumbers test (splitLines text)).length maxResults) := rfl
    rw [hnumbers, htake, hshown, Option.some_inj, eq_comm,
      ← countP_shown_iff test (splitLines text) context maxResults j hj]
    rfl
  constructor
  · rintro ⟨selected, shown, h⟩
    cases request with
    | grep test context maxResults =>
      exact (hcount test context maxResults rfl).mp (h.shownMatches test context maxResults rfl)
    | _ => trivial
  · intro hfit
    refine ⟨selectedNumbers (splitLines text) request, (shownLines text request).lines,
      { increasing := pairwise_selectedNumbers (splitLines text) request
        asked := fun n => mem_selectedNumbers
        text := htext
        numbers := hnumbers
        cut := hk.cut
        lines_le := hk.fits.1
        bytes_le := by rw [htext]; exact hk.fits.2
        truncated := truncated_iff_of_matchesFit text request implicitDefault ?_
        shownMatches := fun test context maxResults h =>
          (hcount test context maxResults h).mpr hfit }⟩
    rintro test context maxResults rfl l hl hshown
    rw [htake, List.mem_iff_getElem?] at hshown
    obtain ⟨i, hi⟩ := hshown
    rw [List.getElem?_take] at hi
    split at hi
    · rename_i hij
      exact hfit.2 l hl ⟨i, hi, (hj i).mp hij⟩
    · cases hi

variable (compile : JsString → Except JsString (JsString → Bool))

/-- A valid request is answered, and as promised iff the shown matches are the first ones. -/
theorem selectsWell_iff (options : TextSelectionOptions) (r : Request)
    (hrequest : TextSelection.request compile options = .ok r) :
    ∃ result, selectText compile text options = .ok result ∧
      (SelectsWell (splitLines text) r result ↔ MatchesFit (splitLines text) r) := by
  refine ⟨selectRequest text r (options.implicitDefault.getD options.mode.isNone), ?_,
    selectsWell_selectRequest_iff text r _⟩
  rw [selectText, hrequest]
  rfl

/-- A pattern without special characters matches the lines that contain it. -/
def contains (pattern : JsString) : Except JsString (JsString → Bool) :=
  .ok fun line => decide (pattern <:+: line)

theorem one_match_shown :
    ∃ result, selectText contains (js "a\nb\nc") { mode := js "grep", pattern := js "b" } =
        .ok result ∧
      SelectsWell (splitLines (js "a\nb\nc"))
        (.grep (fun line => decide (js "b" <:+: line)) 0 50) result := by
  obtain ⟨result, hresult, hiff⟩ := selectsWell_iff (js "a\nb\nc") contains
    { mode := js "grep", pattern := js "b" }
    (.grep (fun line => decide (js "b" <:+: line)) 0 50) rfl
  refine ⟨result, hresult, hiff.mpr ?_⟩
  have hfound : matchNumbers (fun line => decide (js "b" <:+: line)) (splitLines (js "a\nb\nc")) =
      [2] := by decide +kernel
  have haround : aroundNumbers (splitLines (js "a\nb\nc")) 0 [2] = [2] := by decide +kernel
  rw [MatchesFit, hfound]
  refine ⟨fun l hl => ?_, fun l hl => absurd hl List.not_mem_nil⟩
  cases List.mem_singleton.mp hl
  refine ⟨0, ?_, whole (splitLines (js "a\nb\nc")) 2, ?_, by decide, .inl ?_⟩
  · exact haround ▸ rfl
  · exact haround ▸ rfl
  · decide +kernel

/-- A match in the context of the last one that counts is shown and not counted. -/
theorem context_match_uncounted :
    ∃ result, selectText contains (js "b\nb")
        { mode := js "grep", pattern := js "b", context := some 1, max_results := some 1 } =
          .ok result ∧
      ¬ SelectsWell (splitLines (js "b\nb"))
        (.grep (fun line => decide (js "b" <:+: line)) 1 1) result := by
  refine ⟨_, rfl, ?_⟩
  rintro ⟨selected, shown, h⟩
  have hcount := h.shownMatches _ _ _ rfl
  revert hcount
  decide +kernel

end Bobbit.Server.TextSelection
