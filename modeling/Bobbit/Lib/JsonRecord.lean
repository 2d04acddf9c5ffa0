import Bobbit.Lib.JsonRoundTrip

/-!
# Records with optional fields

A record is written field by field: a required field always, an optional one only when it is
there (`if (r.key !== undefined) out.key = r.key`), a flag only when it is set.

## Key results
- `getField_optionalField`, `getField_flagField`: what a reader finds of one written field.
- `setField_of_holds`: to assign a property the value it has changes nothing.
-/

namespace Bobbit.Lib.Json

variable {ν : Type}

/-- `typeof value === "string"`. -/
def string? : Json ν → Option JsString
  | .str s => some s
  | _ => none

/-- `typeof value === "number"`. -/
def number? : Json ν → Option ν
  | .num n => some n
  | _ => none

/-- `Array.isArray(value)`. -/
def array? : Json ν → Option (List (Json ν))
  | .arr items => some items
  | _ => none

/-- `if (value !== undefined) out[key] = value`. -/
def optionalField (key : JsString) (value : Option (Json ν)) : List (JsString × Json ν) :=
  (value.map fun v => (key, v)).toList

/-- `if (flag) out[key] = true`. -/
def flagField (key : JsString) (flag : Bool) : List (JsString × Json ν) :=
  if flag then [(key, .bool true)] else []

theorem getField_singleton (name key : JsString) (value : Json ν) :
    getField [(name, value)] key = if name = key then some value else none := by
  rw [getField_cons, getField_nil, Option.none_or]

theorem getField_optionalField (name key : JsString) (value : Option (Json ν)) :
    getField (optionalField name value) key = if name = key then value else none := by
  cases value with
  | none => simp [optionalField]
  | some value => exact getField_singleton name key value

theorem getField_flagField (name key : JsString) (flag : Bool) :
    getField (flagField name flag : List (JsString × Json ν)) key =
      if name = key ∧ flag = true then some (.bool true) else none := by
  cases flag with
  | false => simp [flagField]
  | true => simpa [flagField] using getField_singleton name key (.bool true)

/-! ## Assigning twice -/

/-- The object has the property, and with this value only. -/
def Holds (fields : List (JsString × Json ν)) (key : JsString) (value : Json ν) : Prop :=
  (∃ field ∈ fields, field.1 = key) ∧ ∀ field ∈ fields, field.1 = key → field.2 = value

variable {fields : List (JsString × Json ν)} {key : JsString} {value : Json ν}

/-- To assign a property the value it has changes nothing. -/
theorem setField_of_holds (h : Holds fields key value) : setField fields key value = fields := by
  obtain ⟨⟨field, hmem, hkey⟩, hvalue⟩ := h
  have hany : (fields.any fun field => field.1 == key) = true :=
    List.any_eq_true.mpr ⟨field, hmem, beq_iff_eq.mpr hkey⟩
  rw [setField, if_pos hany]
  conv_rhs => rw [← List.map_id fields]
  refine List.map_congr_left ?_
  intro other hother
  split
  · rename_i hsame
    have hsame' := beq_iff_eq.mp hsame
    rw [← hsame', ← hvalue other hother hsame', id]
  · rfl

theorem mem_insertField {field : JsString × Json ν} :
    field ∈ insertField key value fields ↔ field = (key, value) ∨ field ∈ fields := by
  induction fields with
  | nil => simp [insertField]
  | cons first rest ih =>
    obtain ⟨k, v⟩ := first
    simp only [insertField]
    split
    · split
      · exact List.mem_cons
      · rw [List.mem_cons, ih, List.mem_cons]
        tauto
    · exact List.mem_cons
    · rw [List.mem_cons, ih, List.mem_cons]
      tauto

theorem mem_setField {field : JsString × Json ν} : field ∈ setField fields key value ↔
      field = (key, value) ∨ field ∈ fields ∧ field.1 ≠ key := by
  rw [setField]
  split
  · rename_i hany
    obtain ⟨old, hold, hkey⟩ := List.any_eq_true.mp hany
    rw [List.mem_map]
    constructor
    · rintro ⟨other, hother, rfl⟩
      split
      · exact .inl rfl
      · rename_i hne
        exact .inr ⟨hother, fun heq => hne (beq_iff_eq.mpr heq)⟩
    · rintro (rfl | ⟨hmem, hne⟩)
      · exact ⟨old, hold, by rw [if_pos hkey]⟩
      · exact ⟨field, hmem, by rw [if_neg (fun heq => hne (beq_iff_eq.mp heq))]⟩
  · rename_i hnone
    rw [mem_insertField]
    have hne : ∀ other ∈ fields, other.1 ≠ key := fun other hother heq =>
      hnone (List.any_eq_true.mpr ⟨other, hother, beq_iff_eq.mpr heq⟩)
    constructor
    · rintro (rfl | hmem)
      · exact .inl rfl
      · exact .inr ⟨hmem, hne field hmem⟩
    · rintro (rfl | hmem)
      · exact .inl rfl
      · exact .inr hmem.1

theorem holds_setField_self (fields : List (JsString × Json ν)) (key : JsString) (value : Json ν) :
    Holds (setField fields key value) key value := by
  refine ⟨⟨(key, value), mem_setField.mpr (.inl rfl), rfl⟩, ?_⟩
  intro field hfield hkey
  cases mem_setField.mp hfield with
  | inl hnew => rw [hnew]
  | inr hold => exact absurd hkey hold.2

theorem Holds.setField_ne {other : JsString}
    (h : Holds fields key value) (hne : key ≠ other) (assigned : Json ν) :
    Holds (setField fields other assigned) key value := by
  obtain ⟨⟨field, hmem, hkey⟩, hvalue⟩ := h
  refine ⟨⟨field, mem_setField.mpr (.inr ⟨hmem, hkey ▸ hne⟩), hkey⟩, ?_⟩
  intro found hfound hfoundKey
  cases mem_setField.mp hfound with
  | inl hnew =>
    subst hnew
    exact absurd hfoundKey.symm hne
  | inr hold => exact hvalue found hold.1 hfoundKey

end Bobbit.Lib.Json
