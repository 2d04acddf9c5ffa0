import Mathlib

/-!
# Climbing a chain of parents with a cap

`climb up n seen a` counts the steps up from `a`: at most `n`, and none from a key that was seen on
the way. Two ways up that agree below a root give the keys below it the same counts as soon as they
give the root the same count, whatever lies above the root: the climb can come back from there only
through a key that lies below the root within the cap.

## Key results

- `climb_min`: a lower cap cuts the count off
- `climb_outside`: what is below the root does not matter to a climb from outside
- `climb_through`: the count of a key below the root is its depth and the count of the root
- `climb_congr`: two ways up that agree everywhere on the way
-/

namespace Bobbit.Lib.CappedClimb

variable {κ : Type} [DecidableEq κ]

def climb (up : κ → Option κ) : Nat → List κ → κ → Nat
  | 0, _, _ => 0
  | n + 1, seen, a =>
    if a ∈ seen then 0
    else
      match up a with
      | none => 0
      | some b => climb up n (a :: seen) b + 1

variable {up : κ → Option κ}

theorem climb_seen {n : Nat} {seen : List κ} {a : κ} (h : a ∈ seen) : climb up n seen a = 0 := by
  cases n with
  | zero => rfl
  | succ n => rw [climb, if_pos h]

theorem climb_none {n : Nat} {seen : List κ} {a : κ} (h : up a = none) : climb up n seen a = 0 := by
  cases n with
  | zero => rfl
  | succ n =>
    rw [climb, h]
    split <;> rfl

theorem climb_some {n : Nat} {seen : List κ} {a b : κ} (hseen : a ∉ seen) (h : up a = some b) :
    climb up (n + 1) seen a = climb up n (a :: seen) b + 1 := by
  rw [climb, if_neg hseen, h]

theorem climb_min {n m : Nat} (hnm : n ≤ m) (seen : List κ) (a : κ) :
    climb up n seen a = min n (climb up m seen a) := by
  induction n generalizing m seen a with
  | zero => simp [climb]
  | succ n ih =>
    obtain ⟨m, rfl⟩ : ∃ m', m = m' + 1 := ⟨m - 1, by omega⟩
    by_cases ha : a ∈ seen
    · rw [climb_seen ha, climb_seen ha, Nat.min_zero]
    · cases hup : up a with
      | none => rw [climb_none hup, climb_none hup, Nat.min_zero]
      | some b =>
        rw [climb_some ha hup, climb_some ha hup, @ih m (by omega)]
        omega

/-! ## Above a root -/

section Root

variable {root : κ} {inside : Nat → κ → Prop} {cap : Nat}

/-- A climb from outside does not come back inside within the cap, so what it has seen there is of no
account. -/
theorem climb_outside
    (hdown : ∀ d a b, up a = some b → inside d b → d + 1 ≤ cap → a ≠ root → inside (d + 1) a)
    {k : Nat} {path : List κ} (hpath : ∀ x ∈ path, ∃ d ≤ k, inside d x) {n : Nat} (hn : n + k ≤ cap)
    {seen : List κ} (hroot : root ∈ seen) {a : κ} (ha : ∀ d, inside d a → n + k < d) :
    climb up n (seen ++ path) a = climb up n seen a := by
  induction n generalizing seen a with
  | zero => rfl
  | succ n ih =>
    by_cases hseen : a ∈ seen
    · rw [climb_seen (List.mem_append_left _ hseen), climb_seen hseen]
    · have hpath' : a ∉ path := by
        intro hmem
        obtain ⟨d, hd, hin⟩ := hpath a hmem
        have := ha d hin
        omega
      have hboth : a ∉ seen ++ path := by
        rw [List.mem_append]
        exact not_or.mpr ⟨hseen, hpath'⟩
      cases hup : up a with
      | none => rw [climb_none hup, climb_none hup]
      | some b =>
        rw [climb_some hseen hup, climb_some hboth hup, ← List.cons_append]
        congr 1
        refine ih (by omega) (List.mem_cons_of_mem _ hroot) fun d hin => ?_
        -- were the next key inside, this one would be one step below it
        by_contra hle
        have hne : a ≠ root := fun h => hseen (h ▸ hroot)
        have := ha (d + 1) (hdown d a b hup hin (by omega) hne)
        omega

theorem climb_root
    (hdown : ∀ d a b, up a = some b → inside d b → d + 1 ≤ cap → a ≠ root → inside (d + 1) a)
    (habove : ∀ b, up root = some b → ∀ d, inside d b → cap ≤ d) {k : Nat} {path : List κ}
    (hpath : ∀ x ∈ path, x ≠ root ∧ ∃ d ≤ k, inside d x) {n : Nat} (hn : n + k ≤ cap) :
    climb up n path root = climb up n [] root := by
  cases n with
  | zero => rfl
  | succ n =>
    have hroot : root ∉ path := fun h => (hpath root h).1 rfl
    cases hup : up root with
    | none => rw [climb_none hup, climb_none hup]
    | some b =>
      rw [climb_some hroot hup, climb_some List.not_mem_nil hup]
      congr 1
      have hcap : ∀ d, inside d b → n + k < d := fun d hin => by
        have := habove b hup d hin
        omega
      have hseen := List.mem_singleton_self root
      have hin : ∀ x ∈ path, ∃ d ≤ k, inside d x := fun x hx => (hpath x hx).2
      exact climb_outside hdown hin (by omega) hseen hcap

theorem climb_path (hzero : ∀ a, inside 0 a → a = root)
    (hinside : ∀ d a, inside (d + 1) a → a ≠ root ∧ ∃ b, up a = some b ∧ inside d b)
    (hunique : ∀ d d' a, inside d a → inside d' a → d = d') {k n : Nat} {a : κ}
    (ha : inside k a) {seen : List κ} (hseen : ∀ x ∈ seen, ∃ d, k < d ∧ inside d x) :
    ∃ path, (∀ x ∈ path, x ∈ seen ∨ x ≠ root ∧ ∃ d ≤ k, inside d x) ∧
      climb up (n + k) seen a = climb up n path root + k := by
  induction k generalizing a seen with
  | zero =>
    rw [hzero a ha]
    exact ⟨seen, fun x hx => .inl hx, rfl⟩
  | succ k ih =>
    obtain ⟨hne, b, hup, hb⟩ := hinside k a ha
    have hfresh : a ∉ seen := by
      intro hmem
      obtain ⟨d, hd, hin⟩ := hseen a hmem
      have := hunique _ _ a ha hin
      omega
    have hseen' : ∀ x ∈ a :: seen, ∃ d, k < d ∧ inside d x := by
      intro x hx
      rcases List.mem_cons.mp hx with rfl | hx
      · exact ⟨k + 1, Nat.lt_succ_self k, ha⟩
      · obtain ⟨d, hd, hin⟩ := hseen x hx
        exact ⟨d, by omega, hin⟩
    obtain ⟨path, hpath, hclimb⟩ := ih hb hseen'
    refine ⟨path, fun x hx => ?_, ?_⟩
    · rcases hpath x hx with hmem | ⟨hx', d, hd, hin⟩
      · rcases List.mem_cons.mp hmem with rfl | hmem
        · exact .inr ⟨hne, k + 1, Nat.le_refl _, ha⟩
        · exact .inl hmem
      · exact .inr ⟨hx', d, by omega, hin⟩
    · rw [← Nat.add_assoc, climb_some hfresh hup, hclimb]
      rfl

/-- When what is above the root lies outside, the count of a key below it is its depth and the count
of the root, up to the cap. -/
theorem climb_through (hzero : ∀ a, inside 0 a → a = root)
    (hinside : ∀ d a, inside (d + 1) a → a ≠ root ∧ ∃ b, up a = some b ∧ inside d b)
    (hunique : ∀ d d' a, inside d a → inside d' a → d = d')
    (hdown : ∀ d a b, up a = some b → inside d b → d + 1 ≤ cap → a ≠ root → inside (d + 1) a)
    (habove : ∀ b, up root = some b → ∀ d, inside d b → cap ≤ d) {k : Nat} {a : κ}
    (ha : inside k a) (hk : k ≤ cap) :
    climb up cap [] a = min cap (climb up cap [] root + k) := by
  obtain ⟨path, hpath, hclimb⟩ :=
    @climb_path κ _ up root inside hzero hinside hunique k (cap - k) a ha [] fun x hx => by cases hx
  have hpath' : ∀ x ∈ path, x ≠ root ∧ ∃ d ≤ k, inside d x :=
    fun x hx => (hpath x hx).resolve_left List.not_mem_nil
  rw [Nat.sub_add_cancel hk] at hclimb
  rw [hclimb, climb_root hdown habove hpath' (by omega), climb_min (Nat.sub_le cap k) [] root]
  omega

end Root

/-- Two ways up that agree on a set of keys that neither leaves. -/
theorem climb_congr {up' : κ → Option κ} {S : κ → Prop}
    (h : ∀ a, S a → up a = up' a ∧ ∀ b, up a = some b → S b) {a : κ} (ha : S a) (n : Nat)
    (seen : List κ) : climb up n seen a = climb up' n seen a := by
  induction n generalizing seen a with
  | zero => rfl
  | succ n ih =>
    obtain ⟨hsame, hnext⟩ := h a ha
    by_cases hseen : a ∈ seen
    · rw [climb_seen hseen, climb_seen hseen]
    · cases hup : up a with
      | none => rw [climb_none hup, climb_none (hsame ▸ hup)]
      | some b => rw [climb_some hseen hup, climb_some hseen (hsame ▸ hup), ih (hnext b hup)]

end Bobbit.Lib.CappedClimb
