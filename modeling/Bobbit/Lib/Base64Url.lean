import Bobbit.Lib.Json

/-!
# Unpadded base64url

Three bytes are four characters of six bits each; one or two bytes at the end are two or three.

## Key results
- `decode_encode`: a text that was encoded is decoded to its bytes.
- `length_encode`, `mem_alphabet_of_mem_encode`: the form of an encoded text.
-/

namespace Bobbit.Lib.Base64Url

/-- The characters, by the six bits they stand for. -/
def alphabet : List UInt16 :=
  js "ABCDEFGHIJKLMNOPQRSTUVWXYZabcdefghijklmnopqrstuvwxyz0123456789-_"

def charOf (sextet : Nat) : UInt16 := alphabet.getD sextet 0

def sextetOf (c : UInt16) : Nat := alphabet.idxOf c

/-- `Buffer.toString("base64url")`. -/
def encode : List UInt8 → JsString
  | a :: b :: c :: rest =>
    charOf (a.toNat / 4) :: charOf (a.toNat % 4 * 16 + b.toNat / 16) ::
      charOf (b.toNat % 16 * 4 + c.toNat / 64) :: charOf (c.toNat % 64) :: encode rest
  | [a, b] =>
    [charOf (a.toNat / 4), charOf (a.toNat % 4 * 16 + b.toNat / 16), charOf (b.toNat % 16 * 4)]
  | [a] => [charOf (a.toNat / 4), charOf (a.toNat % 4 * 16)]
  | [] => []

/-- The bytes of whole groups of eight bits; bits that are left over count for nothing. -/
def decodeSextets : List Nat → List UInt8
  | w :: x :: y :: z :: rest =>
    .ofNat (w * 4 + x / 16) :: .ofNat (x % 16 * 16 + y / 4) :: .ofNat (y % 4 * 64 + z) ::
      decodeSextets rest
  | [w, x, y] => [.ofNat (w * 4 + x / 16), .ofNat (x % 16 * 16 + y / 4)]
  | [w, x] => [.ofNat (w * 4 + x / 16)]
  | _ => []

/-- `Buffer.from(text, "base64url")` of a text in the alphabet. -/
def decode (text : JsString) : List UInt8 := decodeSextets (text.map sextetOf)

theorem sextetOf_charOf {n : Nat} (h : n < 64) : sextetOf (charOf n) = n := by
  have hall : ∀ m : Fin 64, sextetOf (charOf m) = m := by decide +kernel
  exact hall ⟨n, h⟩

theorem charOf_mem {n : Nat} (h : n < 64) : charOf n ∈ alphabet := by
  have hall : ∀ m : Fin 64, charOf m ∈ alphabet := by decide +kernel
  exact hall ⟨n, h⟩

theorem toNat_lt (a : UInt8) : a.toNat < 256 := a.toNat_lt

theorem ofNat_eq {a : UInt8} {n : Nat} (h : n = a.toNat) : UInt8.ofNat n = a := by
  rw [h, UInt8.ofNat_toNat]

/-- **Round trip.** -/
theorem decode_encode (bytes : List UInt8) : decode (encode bytes) = bytes := by
  induction bytes using encode.induct with
  | case1 a b c rest ih =>
    have ha := toNat_lt a
    have hb := toNat_lt b
    have hc := toNat_lt c
    rw [encode, decode, List.map_cons, List.map_cons, List.map_cons, List.map_cons,
      sextetOf_charOf (by omega), sextetOf_charOf (by omega), sextetOf_charOf (by omega),
      sextetOf_charOf (by omega), decodeSextets, ofNat_eq (a := a) (by omega),
      ofNat_eq (a := b) (by omega), ofNat_eq (a := c) (by omega)]
    exact congrArg (a :: b :: c :: ·) ih
  | case2 a b =>
    have ha := toNat_lt a
    have hb := toNat_lt b
    rw [encode, decode, List.map_cons, List.map_cons, List.map_cons, List.map_nil,
      sextetOf_charOf (by omega), sextetOf_charOf (by omega), sextetOf_charOf (by omega),
      decodeSextets, ofNat_eq (a := a) (by omega), ofNat_eq (a := b) (by omega)]
  | case3 a =>
    have ha := toNat_lt a
    rw [encode, decode, List.map_cons, List.map_cons, List.map_nil, sextetOf_charOf (by omega),
      sextetOf_charOf (by omega), decodeSextets, ofNat_eq (a := a) (by omega)]
  | case4 => rfl

theorem length_encode (bytes : List UInt8) : (encode bytes).length = (bytes.length * 4 + 2) / 3 := by
  induction bytes using encode.induct with
  | case1 a b c rest ih =>
    simp only [encode, List.length_cons, ih]
    omega
  | case2 a b => simp [encode]
  | case3 a => simp [encode]
  | case4 => rfl

theorem mem_alphabet_of_mem_encode {bytes : List UInt8} {u : UInt16} (h : u ∈ encode bytes) :
    u ∈ alphabet := by
  induction bytes using encode.induct with
  | case1 a b c rest ih =>
    have ha := toNat_lt a
    have hb := toNat_lt b
    have hc := toNat_lt c
    simp only [encode, List.mem_cons] at h
    rcases h with rfl | rfl | rfl | rfl | h
    · exact charOf_mem (by omega)
    · exact charOf_mem (by omega)
    · exact charOf_mem (by omega)
    · exact charOf_mem (by omega)
    · exact ih h
  | case2 a b =>
    have ha := toNat_lt a
    have hb := toNat_lt b
    simp only [encode, List.mem_cons, List.not_mem_nil, or_false] at h
    rcases h with rfl | rfl | rfl
    · exact charOf_mem (by omega)
    · exact charOf_mem (by omega)
    · exact charOf_mem (by omega)
  | case3 a =>
    have ha := toNat_lt a
    simp only [encode, List.mem_cons, List.not_mem_nil, or_false] at h
    rcases h with rfl | rfl
    · exact charOf_mem (by omega)
    · exact charOf_mem (by omega)
  | case4 => cases h

end Bobbit.Lib.Base64Url
