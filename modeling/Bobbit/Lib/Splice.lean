import Mathlib

/-!
# Replacing parts of a list

`spliceAll` replaces parts of a list one after the other, the last one first, so that the places of
the others stay where they are. `substitute` says what a simultaneous replacement is: place by place,
whatever the order of the replacements.

## Key results

- `spliceAll_eq_substitute`: replacements in order, spliced from the right
- `substitute_perm`: the order of disjoint replacements is of no account
-/

namespace Bobbit.Lib.Splice

variable {α : Type}

/-- The elements from `start` up to `stop` are replaced. -/
structure Replacement (α : Type) where
  start : Nat
  stop : Nat
  text : List α
  nonempty : start < stop

def splice (out : List α) (r : Replacement α) : List α :=
  out.take r.start ++ r.text ++ out.drop r.stop

/-- All replacements, the last one first. -/
def spliceAll (rs : List (Replacement α)) (out : List α) : List α :=
  rs.foldr (fun r out => splice out r) out

/-- What stands at a place: the new text where a replacement starts, nothing inside one, and the old
element elsewhere. -/
def placed (rs : List (Replacement α)) (text : List α) (i : Nat) : List α :=
  match rs.find? (·.start = i) with
  | some r => r.text
  | none => if rs.any fun r => r.start < i ∧ i < r.stop then [] else text[i]?.toList

def substitute (rs : List (Replacement α)) (text : List α) : List α :=
  (List.range text.length).flatMap (placed rs text)

/-- The two replacements have no place in common. -/
def Apart (a b : Replacement α) : Prop := a.stop ≤ b.start ∨ b.stop ≤ a.start

instance symmApart : Std.Symm (@Apart α) := ⟨fun _ _ h => Or.symm h⟩

/-! ## Places -/

variable {rs : List (Replacement α)} {text : List α}

theorem placed_outside {i : Nat}
    (h : ∀ r ∈ rs, i < r.start ∨ r.stop ≤ i) : placed rs text i = text[i]?.toList := by
  have hfind : rs.find? (·.start = i) = none := by
    rw [List.find?_eq_none]
    intro r hr hstart
    have := h r hr
    have := r.nonempty
    have := of_decide_eq_true hstart
    omega
  have hany : (rs.any fun r => r.start < i ∧ i < r.stop) = false := by
    rw [List.any_eq_false]
    intro r hr hinside
    have := h r hr
    have := of_decide_eq_true hinside
    omega
  rw [placed, hfind, hany]
  rfl

/-- A replacement that a place lies behind has no part in it. -/
theorem placed_cons_of_le {r : Replacement α} {i : Nat}
    (h : r.stop ≤ i) : placed (r :: rs) text i = placed rs text i := by
  have hne := r.nonempty
  rw [placed, placed, List.find?_cons_of_neg (by rw [decide_eq_true_eq]; omega), List.any_cons,
    decide_eq_false (by omega), Bool.false_or]

theorem placed_start {r : Replacement α} : placed (r :: rs) text r.start = r.text := by
  simp [placed]

theorem placed_inside {r : Replacement α} {i : Nat}
    (hrs : ∀ r' ∈ rs, r.stop ≤ r'.start) (hstart : r.start < i) (hstop : i < r.stop) :
    placed (r :: rs) text i = [] := by
  have hfind : (r :: rs).find? (·.start = i) = none := by
    rw [List.find?_eq_none]
    intro r' hr' hsame
    have := of_decide_eq_true hsame
    rcases List.mem_cons.mp hr' with rfl | hr'
    · omega
    · have := hrs r' hr'
      omega
  rw [placed, hfind, List.any_cons, decide_eq_true ⟨hstart, hstop⟩]
  rfl

theorem flatMap_getElem? (text : List α) (p n : Nat) :
    ((List.range' p n).flatMap fun i => text[i]?.toList) = (text.drop p).take n := by
  induction n generalizing p with
  | zero => simp
  | succ n ih =>
    rw [List.range'_succ, List.flatMap_cons, ih]
    cases h : text[p]? with
    | none =>
      have hle := List.getElem?_eq_none_iff.mp h
      rw [List.drop_eq_nil_of_le hle, List.drop_eq_nil_of_le (by omega)]
      simp
    | some a =>
      obtain ⟨hlt, rfl⟩ := List.getElem?_eq_some_iff.mp h
      rw [List.drop_eq_getElem_cons hlt, List.take_succ_cons]
      rfl

/-! ## Splicing from the right -/

/-- Replacements in order behind a place: before the place all is as it was. -/
theorem spliceAll_eq
    (hordered : rs.Pairwise fun a b => a.stop ≤ b.start) (hin : ∀ r ∈ rs, r.stop ≤ text.length)
    {p : Nat} (hp : ∀ r ∈ rs, p ≤ r.start) :
    spliceAll rs text =
      text.take p ++ (List.range' p (text.length - p)).flatMap (placed rs text) := by
  induction rs generalizing p with
  | nil =>
    have hplaced : ∀ i ∈ List.range' p (text.length - p), placed [] text i = text[i]?.toList :=
      fun i _ => placed_outside fun r hr => absurd hr List.not_mem_nil
    have hrest : (text.drop p).take (text.length - p) = text.drop p :=
      List.take_of_length_le (by rw [List.length_drop])
    rw [List.flatMap_congr hplaced, flatMap_getElem?, hrest, List.take_append_drop]
    rfl
  | cons r rs ih =>
    obtain ⟨hfirst, hrest⟩ := List.pairwise_cons.mp hordered
    have hpr := hp r List.mem_cons_self
    have hlen := hin r List.mem_cons_self
    have hne := r.nonempty
    -- the later replacements leave everything up to the end of this one
    have hlater := ih hrest (fun r' hr' => hin r' (List.mem_cons_of_mem _ hr')) hfirst
    have hsplit : List.range' p (text.length - p) =
        List.range' p (r.start - p) ++ (r.start :: List.range' (r.start + 1) (r.stop - r.start - 1)) ++
          List.range' r.stop (text.length - r.stop) := by
      have h1 : text.length - p = (r.start - p) + ((r.stop - r.start) + (text.length - r.stop)) := by
        omega
      have h2 : p + (r.start - p) = r.start := by omega
      have h3 : r.start + (r.stop - r.start) = r.stop := by omega
      rw [h1, ← List.range'_append_1, ← List.range'_append_1, h2, h3, List.append_assoc]
      congr 2
      obtain ⟨n, hn⟩ := Nat.exists_eq_succ_of_ne_zero (show r.stop - r.start ≠ 0 by omega)
      rw [hn, List.range'_succ]
      rfl
    have hbefore : ∀ i ∈ List.range' p (r.start - p),
        placed (r :: rs) text i = text[i]?.toList := by
      intro i hi
      rw [List.mem_range'_1] at hi
      refine placed_outside fun r' hr' => .inl ?_
      rcases List.mem_cons.mp hr' with rfl | hr'
      · omega
      · have := hfirst r' hr'
        omega
    have hinside : ∀ i ∈ List.range' (r.start + 1) (r.stop - r.start - 1),
        placed (r :: rs) text i = [] := by
      intro i hi
      rw [List.mem_range'_1] at hi
      exact placed_inside hfirst (by omega) (by omega)
    have hafter : ∀ i ∈ List.range' r.stop (text.length - r.stop),
        placed (r :: rs) text i = placed rs text i := by
      intro i hi
      rw [List.mem_range'_1] at hi
      exact placed_cons_of_le hi.1
    have hcons : spliceAll (r :: rs) text = splice (spliceAll rs text) r := rfl
    have htake : text.take p ++ (text.drop p).take (r.start - p) = text.take r.start := by
      rw [← List.take_add]
      congr 1
      omega
    rw [hcons, hlater, hsplit, List.flatMap_append, List.flatMap_append, List.flatMap_cons,
      List.flatMap_congr hbefore, List.flatMap_congr hinside, List.flatMap_congr hafter,
      placed_start, flatMap_getElem?, splice]
    have hlength : (text.take r.stop).length = r.stop := by
      rw [List.length_take]
      omega
    rw [List.take_append_of_le_length (by omega), List.take_take, Nat.min_eq_left (by omega),
      List.drop_append_of_le_length (by omega), List.drop_of_length_le (by omega)]
    simp [← htake]

/-- Replacements in order, spliced from the right, are a simultaneous replacement. -/
theorem spliceAll_eq_substitute (hordered : rs.Pairwise fun a b => a.stop ≤ b.start)
    (hin : ∀ r ∈ rs, r.stop ≤ text.length) : spliceAll rs text = substitute rs text := by
  have h := spliceAll_eq hordered hin (p := 0) fun r _ => Nat.zero_le _
  rw [List.take_zero, List.nil_append, Nat.sub_zero] at h
  rw [h, substitute, List.range_eq_range']

/-- The order of disjoint replacements is of no account. -/
theorem substitute_perm {rs' : List (Replacement α)} (hperm : rs.Perm rs')
    (hapart : rs.Pairwise Apart) : substitute rs text = substitute rs' text := by
  unfold substitute
  refine List.flatMap_congr fun i _ => ?_
  -- at most one replacement starts at a place
  have hunique : ∀ r ∈ rs, ∀ r' ∈ rs, r.start = i → r'.start = i → r = r' := by
    intro r hr r' hr' hi hi'
    by_contra hne
    have hnonempty := r.nonempty
    have hnonempty' := r'.nonempty
    have := hapart.forall hr hr' hne
    rcases this with h | h <;> omega
  have hfind : rs.find? (·.start = i) = rs'.find? (·.start = i) := by
    cases h : rs.find? (·.start = i) with
    | none =>
      rw [List.find?_eq_none] at h
      exact (List.find?_eq_none.mpr fun r hr => h r (hperm.mem_iff.mpr hr)).symm
    | some r =>
      cases h' : rs'.find? (·.start = i) with
      | none =>
        rw [List.find?_eq_none] at h'
        exact absurd (List.find?_some h) (h' r (hperm.mem_iff.mp (List.mem_of_find?_eq_some h)))
      | some r' =>
        exact congrArg some (hunique r (List.mem_of_find?_eq_some h) r'
          (hperm.mem_iff.mpr (List.mem_of_find?_eq_some h')) (by simpa using List.find?_some h)
          (by simpa using List.find?_some h'))
  have hany : (rs.any fun r => r.start < i ∧ i < r.stop) =
      rs'.any fun r => r.start < i ∧ i < r.stop := by
    rw [Bool.eq_iff_iff, List.any_eq_true, List.any_eq_true]
    simp only [hperm.mem_iff]
  rw [placed, placed, hfind, hany]

end Bobbit.Lib.Splice
