import Bobbit.Lib.FreshName

/-!
# Unsigned decimals

The text of a natural number without leading zeros, and the number read off digits.

## Key results
- `decimalValue_numberText`: reading the text of a number gives the number.
- `isDecimal_numberText`, `length_numberText_le`: the form and the length of such a text.
-/

namespace Bobbit.Lib

/-- The number that digits stand for. -/
def decimalValue (digits : JsString) : Nat :=
  digits.foldl (fun acc c => acc * 10 + (c.toNat - 0x30)) 0

/-- `/^(?:0|[1-9][0-9]*)$/`. -/
def isDecimal (s : JsString) : Bool :=
  s == [0x30] || (s.all isDigit && s.head?.any (· ≠ 0x30))

theorem decimalValue_concat (digits : JsString) (c : UInt16) :
    decimalValue (digits ++ [c]) = decimalValue digits * 10 + (c.toNat - 0x30) := by
  rw [decimalValue, List.foldl_append]
  rfl

/-! ## The text of a number -/

def digitUnit (n : Nat) : UInt16 := (0x30 + n).toUInt16

theorem digitUnit_toNat {n : Nat} (h : n < 10) : (digitUnit n).toNat = 0x30 + n := by
  rw [digitUnit, Nat.toUInt16, UInt16.toNat_ofNat']
  omega

theorem numberText_of_lt {n : Nat} (h : n < 10) : numberText n = [digitUnit n] := by
  interval_cases n <;> decide +kernel

theorem numberText_of_ge {n : Nat} (h : 10 ≤ n) :
    numberText n = numberText (n / 10) ++ [digitUnit (n % 10)] := by
  have htext : ∀ k, numberText k = (Nat.toDigits 10 k).flatMap utf16 := by
    intro k
    rw [numberText, js, show toString k = Nat.repr k from rfl, Nat.toList_repr]
  have hlast : [digitUnit (n % 10)] = (Nat.toDigits 10 (n % 10)).flatMap utf16 := by
    rw [← htext, numberText_of_lt (Nat.mod_lt n (by decide))]
  rw [htext, htext, hlast, Nat.toDigits_of_base_le (by decide) h,
    Nat.toDigits_of_lt_base (Nat.mod_lt n (by decide)), List.flatMap_append]

theorem decimalValue_numberText (n : Nat) : decimalValue (numberText n) = n := by
  induction n using Nat.strong_induction_on with
  | _ n ih =>
    by_cases h : n < 10
    · rw [numberText_of_lt h, decimalValue, List.foldl_cons, List.foldl_nil, digitUnit_toNat h]
      omega
    · rw [numberText_of_ge (by omega), decimalValue_concat, ih (n / 10) (by omega),
        digitUnit_toNat (Nat.mod_lt n (by decide))]
      omega

theorem numberText_ne_nil (n : Nat) : numberText n ≠ [] := by
  by_cases h : n < 10
  · rw [numberText_of_lt h]
    exact List.cons_ne_nil _ _
  · rw [numberText_of_ge (by omega)]
    simp

theorem all_isDigit_numberText (n : Nat) : (numberText n).all isDigit = true := by
  rw [List.all_eq_true]
  intro c hc
  obtain ⟨hlow, hhigh⟩ := digit_of_mem_numberText hc
  rw [isDigit, Bool.and_eq_true, decide_eq_true_eq, decide_eq_true_eq, UInt16.le_iff_toNat_le,
    UInt16.le_iff_toNat_le]
  exact ⟨hlow, hhigh⟩

theorem head_numberText {n : Nat} (hpos : 0 < n) : (numberText n).head?.any (· ≠ 0x30) = true := by
  induction n using Nat.strong_induction_on with
  | _ n ih =>
    by_cases h : n < 10
    · rw [numberText_of_lt h]
      have hne : digitUnit n ≠ 0x30 := by
        intro heq
        have hvalue := digitUnit_toNat h
        rw [heq] at hvalue
        have : (0x30 : UInt16).toNat = 0x30 := rfl
        omega
      simpa using hne
    · rw [numberText_of_ge (by omega), List.head?_append_of_ne_nil _ (numberText_ne_nil _)]
      exact ih (n / 10) (by omega) (by omega)

theorem isDecimal_numberText (n : Nat) : isDecimal (numberText n) = true := by
  rcases Nat.eq_zero_or_pos n with rfl | hpos
  · decide +kernel
  · rw [isDecimal, all_isDigit_numberText, head_numberText hpos, Bool.and_self, Bool.or_true]

theorem length_numberText_le {n k : Nat} (hk : 0 < k) (h : n < 10 ^ k) :
    (numberText n).length ≤ k := by
  induction k, hk using Nat.le_induction generalizing n with
  | base => rw [numberText_of_lt (by omega), List.length_singleton]
  | succ k hk ih =>
    by_cases hn : n < 10
    · rw [numberText_of_lt hn, List.length_singleton]
      omega
    · have hdiv : n / 10 < 10 ^ k := by
        rw [pow_succ] at h
        omega
      have := ih hdiv
      rw [numberText_of_ge (by omega), List.length_append, List.length_singleton]
      omega

end Bobbit.Lib
