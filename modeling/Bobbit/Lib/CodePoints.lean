import Bobbit.Lib.Utf8

/-!
# Code points of JavaScript strings

What iterating over a string visits: surrogate pairs as one, everything else unit by
unit. A text put together from code points, or from what stands for them, has as many
UTF-8 bytes as its parts, as long as no two of them make a new surrogate pair.

## Key results
- `flatten_codePoints`: the code points of a string in a row are the string.
- `apart_codePoints`: no two neighbours make a new pair.
- `byteLength_flatten`: the bytes of parts that stand apart add up.
-/

namespace Bobbit.Lib.JsString

open Json

/-- The code points of a string, each as its code units. -/
def codePoints : JsString → List JsString
  | [] => []
  | [u] => [[u]]
  | u :: v :: rest =>
    if isHighSurrogate u && isLowSurrogate v then [u, v] :: codePoints rest
    else [u] :: codePoints (v :: rest)

theorem codePoints_pair {u v : UInt16} (rest : JsString)
    (h : (isHighSurrogate u && isLowSurrogate v) = true) :
    codePoints (u :: v :: rest) = [u, v] :: codePoints rest := by
  rw [codePoints, if_pos h]

theorem codePoints_single {u v : UInt16} (rest : JsString)
    (h : ¬ (isHighSurrogate u && isLowSurrogate v) = true) :
    codePoints (u :: v :: rest) = [u] :: codePoints (v :: rest) := by
  rw [codePoints, if_neg h]

/-- The code points of a string in a row are the string. -/
theorem flatten_codePoints (s : JsString) : (codePoints s).flatten = s := by
  induction s using codePoints.induct with
  | case1 => rfl
  | case2 u => rfl
  | case3 u v rest h ih => rw [codePoints_pair rest h, List.flatten_cons, ih]; rfl
  | case4 u v rest h ih => rw [codePoints_single rest h, List.flatten_cons, ih]; rfl

theorem ne_nil_of_mem_codePoints {s c : JsString} (h : c ∈ codePoints s) : c ≠ [] := by
  induction s using codePoints.induct with
  | case1 => cases h
  | case2 u =>
    rw [codePoints, List.mem_singleton] at h
    simp [h]
  | case3 u v rest hpair ih =>
    rw [codePoints_pair rest hpair, List.mem_cons] at h
    rcases h with rfl | h
    · simp
    · exact ih h
  | case4 u v rest hpair ih =>
    rw [codePoints_single rest hpair, List.mem_cons] at h
    rcases h with rfl | h
    · simp
    · exact ih h

/-! ## Parts that stand apart -/

/-- The end of one text and the start of the next are no surrogate pair. -/
def NoPair (a b : JsString) : Prop :=
  ¬ (a.getLast?.any isHighSurrogate = true ∧ b.head?.any isLowSurrogate = true)

theorem not_high_of_low {u : UInt16} (h : isLowSurrogate u = true) :
    isHighSurrogate u = false := by
  simp only [isLowSurrogate, isHighSurrogate, Bool.and_eq_true, decide_eq_true_eq,
    Bool.and_eq_false_iff, decide_eq_false_iff_not, UInt16.le_iff_toNat_le] at h ⊢
  simp at h ⊢
  omega

theorem NoPair.of_append {x a b : JsString} (h : NoPair (x ++ a) b) : NoPair a b := by
  intro hboth
  refine h ⟨?_, hboth.2⟩
  cases ha : a.getLast? with
  | none => simp [ha] at hboth
  | some u =>
    rw [List.getLast?_append, ha]
    simpa [ha] using hboth.1

theorem chars_append {a b : JsString} (h : NoPair a b) : chars (a ++ b) = chars a ++ chars b := by
  induction a using chars.induct with
  | case1 => rfl
  | case2 u =>
    cases b with
    | nil => rw [List.append_nil, chars, List.append_nil]
    | cons v rest =>
      have hnot : ¬ (isHighSurrogate u && isLowSurrogate v) = true := by
        intro hpair
        exact h (by simpa using hpair)
      rw [List.singleton_append, chars.eq_3, if_neg hnot]
      rfl
  | case3 u v rest hpair ih =>
    rw [List.cons_append, List.cons_append, chars, if_pos hpair, chars, if_pos hpair,
      List.cons_append, ih (NoPair.of_append (x := [u, v]) h)]
  | case4 u v rest hpair ih =>
    rw [List.cons_append, List.cons_append, chars, if_neg hpair, chars.eq_def (u :: v :: rest)]
    simp only [hpair, Bool.false_eq_true, if_false, List.cons_append, List.cons.injEq, true_and]
    exact ih (NoPair.of_append (x := [u]) h)

theorem byteLength_append {a b : JsString} (h : NoPair a b) :
    byteLength (a ++ b) = byteLength a + byteLength b := by
  rw [byteLength, utf8, chars_append h, List.flatMap_append, List.length_append]
  rfl

theorem byteLength_flatten {parts : List JsString} (hne : ∀ c ∈ parts, c ≠ [])
    (h : parts.IsChain NoPair) : byteLength parts.flatten = (parts.map byteLength).sum := by
  induction parts with
  | nil => rfl
  | cons c rest ih =>
    rw [List.isChain_cons] at h
    have hapart : NoPair c rest.flatten := by
      cases rest with
      | nil => simp [NoPair]
      | cons d rest =>
        have hd : (d :: rest).flatten.head? = d.head? := by
          cases d with
          | nil => exact absurd rfl (hne [] (by simp))
          | cons u d => rfl
        intro hboth
        rw [hd] at hboth
        exact h.1 d rfl hboth
    rw [List.flatten_cons, byteLength_append hapart, List.map_cons, List.sum_cons,
      ih (fun c hc => hne c (List.mem_cons_of_mem _ hc)) h.2]

theorem head_codePoints {v : UInt16} {rest c : JsString}
    (h : (codePoints (v :: rest)).head? = some c) : c.head? = some v := by
  cases rest with
  | nil =>
    rw [codePoints, List.head?_cons, Option.some.injEq] at h
    rw [← h]
    rfl
  | cons w rest =>
    rw [codePoints] at h
    split at h <;>
      · rw [List.head?_cons, Option.some.injEq] at h
        rw [← h]
        rfl

theorem apart_codePoints (s : JsString) : (codePoints s).IsChain NoPair := by
  induction s using codePoints.induct with
  | case1 => exact List.isChain_nil
  | case2 u => exact List.isChain_singleton _
  | case3 u v rest h ih =>
    rw [codePoints_pair rest h, List.isChain_cons]
    refine ⟨?_, ih⟩
    intro b _ hboth
    rw [Bool.and_eq_true] at h
    have hhigh : isHighSurrogate v = true := by simpa using hboth.1
    rw [not_high_of_low h.2] at hhigh
    cases hhigh
  | case4 u v rest h ih =>
    rw [codePoints_single rest h, List.isChain_cons]
    refine ⟨?_, ih⟩
    intro b hb hboth
    rw [head_codePoints hb] at hboth
    exact h (by simpa using hboth)

end Bobbit.Lib.JsString
