import Bobbit.Lib.Json

/-!
# Names with a number, and the first free one

A loop that tries `name 0`, `name 1`, … until one is not taken ends, since the taken names are
finitely many and the tried ones are all different.

## Key results
- `firstFree_not_mem`: the name that is found is free.
- `numberText_inj`, `digit_of_mem_numberText`: numbers in a template string.
-/

namespace Bobbit.Lib

/-! ## Numbers in a template string -/

/-- The text of a natural number in a template string. -/
def numberText (n : Nat) : JsString := js (toString n)

theorem numberText_inj {m n : Nat} (h : numberText m = numberText n) : m = n := by
  have hrepr : Nat.toDigits 10 m = Nat.toDigits 10 n := by
    have htext : Nat.repr m = Nat.repr n := js_inj.mp h
    simpa [Nat.toList_repr] using congrArg String.toList htext
  rw [← Nat.ofDigitChars_toDigits (by decide : 1 < 10) (by decide : 10 ≤ 10) (n := m), hrepr,
    Nat.ofDigitChars_toDigits (by decide) (by decide)]

theorem digit_of_mem_numberText {n : Nat} {u : UInt16} (h : u ∈ numberText n) :
    0x30 ≤ u.toNat ∧ u.toNat ≤ 0x39 := by
  have hchars : u ∈ (Nat.repr n).toList.flatMap utf16 := h
  obtain ⟨c, hc, hu⟩ := List.mem_flatMap.mp hchars
  rw [Nat.toList_repr] at hc
  have hdigit := Nat.isDigit_of_mem_toDigits (by decide) (by decide) hc
  simp only [Char.isDigit, Bool.and_eq_true, decide_eq_true_eq, ge_iff_le,
    UInt32.le_iff_toNat_le] at hdigit
  have hval : c.val.toNat = c.toNat := rfl
  have hlow : 48 ≤ c.toNat := hval ▸ hdigit.1
  have hhigh : c.toNat ≤ 57 := hval ▸ hdigit.2
  -- a digit is one code unit
  rw [utf16, if_pos (by omega), List.mem_singleton] at hu
  rw [hu, Nat.toUInt16, UInt16.toNat_ofNat']
  omega

/-! ## The first free name -/

section FirstFree

variable {α : Type} [DecidableEq α]

/-- The first of `name 0`, `name 1`, … that is not taken: one of the first `used.length + 1`. -/
def firstFree (name : Nat → α) (used : List α) : α :=
  match (List.range (used.length + 1)).find? fun n => name n ∉ used with
  | some n => name n
  | none => name 0

variable {name : Nat → α} {used : List α}

/-- More different names than taken ones are not all taken. -/
theorem exists_free (hinj : ∀ m n, name m = name n → m = n) (used : List α) :
    ∃ n < used.length + 1, name n ∉ used := by
  by_contra hall
  push Not at hall
  have hnodup : ((List.range (used.length + 1)).map name).Nodup :=
    List.nodup_range.map fun m n h => hinj m n h
  have hsub : (List.range (used.length + 1)).map name ⊆ used := by
    intro x hx
    obtain ⟨n, hn, rfl⟩ := List.mem_map.mp hx
    exact hall n (List.mem_range.mp hn)
  have hlength := (hnodup.subperm hsub).length_le
  simp only [List.length_map, List.length_range] at hlength
  omega

theorem firstFree_not_mem (hinj : ∀ m n, name m = name n → m = n) : firstFree name used ∉ used := by
  obtain ⟨n, hn, hfree⟩ := exists_free hinj used
  rw [firstFree]
  cases hfind : (List.range (used.length + 1)).find? fun n => name n ∉ used with
  | none =>
    rw [List.find?_eq_none] at hfind
    exact absurd hfree (by simpa using hfind n (List.mem_range.mpr hn))
  | some m => simpa using List.find?_some hfind

theorem exists_firstFree_eq (name : Nat → α) (used : List α) :
    ∃ n, firstFree name used = name n := by
  rw [firstFree]
  split
  · rename_i n _
    exact ⟨n, rfl⟩
  · exact ⟨0, rfl⟩

theorem firstFree_eq_zero (h : name 0 ∉ used) : firstFree name used = name 0 := by
  rw [firstFree, List.range_succ_eq_map, List.find?_cons_of_pos (by simpa using h)]

end FirstFree

end Bobbit.Lib
