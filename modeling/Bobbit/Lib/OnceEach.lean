import Mathlib

/-!
# Acting once for each key, and once for each change

Two ways to act on a sequence of observations by what is remembered of the last one: once
for every key that is due, when the keys never go back, and whenever the value seen is not
the one seen before.

## Key results
- `countP_onceFlags`: with keys in order, every due key that is seen is acted on once.
- `changeFlags_eq`: a change is acted on at the observation that shows it.
-/

namespace Bobbit.Lib

/-! ## Once for each key -/

section Once

variable {κ : Type*} [DecidableEq κ] (due : κ → Bool)

/-- Whether each key is acted on: when it is due and is not the one acted on last. -/
def onceFlags : Option κ → List κ → List Bool
  | _, [] => []
  | last, k :: rest =>
    (due k && decide (last ≠ some k)) ::
      onceFlags (if due k && decide (last ≠ some k) then some k else last) rest

def actionsOn (k : κ) (keys : List κ) (flags : List Bool) : Nat :=
  (keys.zip flags).countP fun entry => entry.1 = k && entry.2

theorem actionsOn_cons (k key : κ) (keys : List κ) (flag : Bool) (flags : List Bool) :
    actionsOn k (key :: keys) (flag :: flags) =
      actionsOn k keys flags + if key = k ∧ flag = true then 1 else 0 := by
  rw [actionsOn, List.zip_cons_cons, List.countP_cons]
  simp [actionsOn]

/-- With keys in order, every due key that comes up is acted on once, except the one that
    had been acted on before. -/
theorem countP_onceFlags [LinearOrder κ] {last : Option κ} {keys : List κ}
    (hsorted : keys.Pairwise (· ≤ ·)) (hlast : ∀ l, last = some l → ∀ k ∈ keys, l ≤ k) (k : κ) :
    actionsOn k keys (onceFlags due last keys) =
      if k ∈ keys ∧ due k = true ∧ last ≠ some k then 1 else 0 := by
  induction keys generalizing last with
  | nil => rfl
  | cons key rest ih =>
    obtain ⟨hfirst, hrest⟩ := List.pairwise_cons.mp hsorted
    rw [onceFlags, actionsOn_cons]
    by_cases hacts : (due key && decide (last ≠ some key)) = true
    · have hdue : due key = true ∧ last ≠ some key := by simpa using hacts
      rw [if_pos hacts, hacts, ih hrest (by
        intro l hl k hk
        rw [← Option.some.inj hl]
        exact hfirst k hk)]
      by_cases hk : key = k
      · subst hk
        simp [hdue]
      · -- another key: what was acted on last is not in its way, for keys do not go back
        have hother : k ∈ rest → last ≠ some k := by
          intro hmem hl
          have hle := hlast k hl key List.mem_cons_self
          exact hdue.2 (by rw [hl, le_antisymm hle (hfirst k hmem)])
        have hkey : k ≠ key := fun h => hk h.symm
        by_cases hmem : k ∈ rest
        · simp [hk, hkey, hmem, hother hmem]
        · simp [hk, hkey, hmem]
    · rw [if_neg hacts, Bool.eq_false_iff.mpr hacts,
        ih hrest fun l hl k hk => hlast l hl k (List.mem_cons_of_mem _ hk)]
      by_cases hk : key = k
      · subst hk
        have hnot : ¬ (due key = true ∧ last ≠ some key) := by simpa using hacts
        simp [hnot]
      · have hkey : k ≠ key := fun h => hk h.symm
        simp [hkey]

end Once

/-! ## Once for each change -/

/-- Whether each value is another than the one before it. -/
def changeFlags {α : Type*} [DecidableEq α] : Option α → List α → List Bool
  | _, [] => []
  | before, x :: rest => before.any (· ≠ x) :: changeFlags (some x) rest

/-- A change is acted on at the observation that shows it. -/
theorem changeFlags_eq {α : Type*} [DecidableEq α] (before : Option α) (xs : List α) :
    changeFlags before xs =
      List.zipWith (fun before x => before.any (· ≠ x)) (before :: xs.map some) xs := by
  induction xs generalizing before with
  | nil => rfl
  | cons x rest ih => rw [changeFlags, ih, List.map_cons, List.zipWith_cons_cons]

end Bobbit.Lib
