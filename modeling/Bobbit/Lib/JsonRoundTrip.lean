import Bobbit.Lib.Json

/-!
# Reading back a written JSON text

Key results:

- `parse_stringify`: `parse (stringify v) = some (reread v)`, where `reread`
  changes a value only in what JSON cannot carry (numbers that are not finite)
  and in the order of its properties.
- `stringify_printable`: a written text has no control characters, so it is one
  line.
-/

namespace Bobbit.Lib

namespace Json

variable {ν : Type}

/-! ## Properties -/

theorem getField_cons (k : JsString) (v : Json ν) (fields : List (JsString × Json ν))
    (key : JsString) :
    getField ((k, v) :: fields) key = (getField fields key).or (if k = key then some v else none) := by
  simp only [getField, List.reverse_cons, List.find?_append]
  cases fields.reverse.find? (·.1 == key) with
  | some field => simp
  | none => by_cases hk : k = key <;> simp [hk]

@[simp] theorem getField_nil (key : JsString) : getField ([] : List (JsString × Json ν)) key = none :=
  rfl

variable (fields : List (JsString × Json ν))

theorem getField_insertField (key : JsString) (value : Json ν)
    (hnew : getField fields key = none) (k : JsString) :
    getField (insertField key value fields) k = if k = key then some value else getField fields k := by
  induction fields with
  | nil =>
    rw [insertField, getField_cons]
    by_cases hk : k = key
    · simp [hk]
    · simp [hk, Ne.symm hk]
  | cons field rest ih =>
    obtain ⟨k', v'⟩ := field
    rw [getField_cons, Option.or_eq_none_iff] at hnew
    have hrest := ih hnew.1
    have hfront : getField ((key, value) :: (k', v') :: rest) k =
        if k = key then some value else getField ((k', v') :: rest) k := by
      rw [getField_cons _ _ ((k', v') :: rest)]
      by_cases hk : k = key
      · subst hk
        simp [getField_cons, hnew.1, hnew.2]
      · simp [hk, Ne.symm hk]
    have hback : getField ((k', v') :: insertField key value rest) k =
        if k = key then some value else getField ((k', v') :: rest) k := by
      rw [getField_cons, hrest, getField_cons]
      by_cases hk : k = key <;> simp [hk]
    simp only [insertField]
    split
    · split
      · exact hfront
      · exact hback
    · exact hfront
    · exact hback

theorem getField_setField (key : JsString) (value : Json ν) (k : JsString) :
    getField (setField fields key value) k = if k = key then some value else getField fields k := by
  simp only [setField]
  split
  · rename_i hany
    have hmap : ∀ fields : List (JsString × Json ν),
        getField (fields.map fun field => if field.1 == key then (key, value) else field) k =
          if k = key then (getField fields key).map fun _ => value else getField fields k := by
      intro fields
      induction fields with
      | nil => by_cases hk : k = key <;> simp [hk]
      | cons field rest ih =>
        obtain ⟨k', v'⟩ := field
        by_cases hk' : k' = key
        · subst hk'
          simp only [List.map_cons, beq_self_eq_true, if_true, getField_cons, ih]
          by_cases hk : k = k'
          · subst hk
            cases getField rest k <;> simp
          · simp [hk, Ne.symm hk]
        · have hne : (k' == key) = false := by simpa using hk'
          simp only [List.map_cons, hne, Bool.false_eq_true, if_false, getField_cons, ih]
          by_cases hk : k = key
          · subst hk
            simp [hk']
          · simp [hk]
    rw [hmap]
    by_cases hk : k = key
    · have : (getField fields key).isSome = true := by
        simp only [getField, Option.isSome_map, List.find?_isSome, List.mem_reverse]
        simpa using hany
      obtain ⟨v, hv⟩ := Option.isSome_iff_exists.mp this
      simp [hk, hv]
    · simp [hk]
  · rename_i hany
    refine getField_insertField fields key value ?_ k
    simp only [getField, Option.map_eq_none_iff, List.find?_eq_none, List.mem_reverse]
    exact fun field hmem hkey => hany (List.any_eq_true.mpr ⟨field, hmem, hkey⟩)

theorem getField_append (xs ys : List (JsString × Json ν)) (key : JsString) :
    getField (xs ++ ys) key = (getField ys key).or (getField xs key) := by
  simp only [getField, List.reverse_append, List.find?_append]
  cases ys.reverse.find? (·.1 == key) <;> simp

/-- Assigning the members in turn leaves the last value of each key. -/
theorem getField_ofMembers (members : List (JsString × Json ν)) (key : JsString) :
    getField (ofMembers members) key = getField members key := by
  have hfold : ∀ (ms fields : List (JsString × Json ν)),
      getField (ms.foldl (fun fields m => setField fields m.1 m.2) fields) key =
        getField (fields ++ ms) key := by
    intro ms
    induction ms with
    | nil => simp
    | cons m rest ih =>
      intro fields
      obtain ⟨k, v⟩ := m
      rw [List.foldl_cons, ih, getField_append, getField_append, getField_setField, getField_cons]
      by_cases hk : key = k
      · subst hk
        cases getField rest key <;> simp
      · simp [hk, Ne.symm hk]
  exact hfold members []

/-! ## Strings -/

theorem hexValue_hexDigit : ∀ n < 16, hexValue (hexDigit n) = some n := by decide

theorem toUInt16_toNat (c : UInt16) :
    (c.toNat / 4096 * 4096 + c.toNat / 256 % 16 * 256 + c.toNat / 16 % 16 * 16 +
      c.toNat % 16).toUInt16 = c := by
  have : c.toNat / 4096 * 4096 + c.toNat / 256 % 16 * 256 + c.toNat / 16 % 16 * 16 +
      c.toNat % 16 = c.toNat := by omega
  rw [this]
  exact UInt16.ofNat_toNat

theorem parseString_unicodeEscape (c : UInt16) (rest : JsString) :
    parseString (unicodeEscape c ++ rest) = consUnit c (parseString rest) := by
  have hc := c.toNat_lt
  have h1 := hexValue_hexDigit (c.toNat / 4096) (by omega)
  have h2 := hexValue_hexDigit (c.toNat / 256 % 16) (by omega)
  have h3 := hexValue_hexDigit (c.toNat / 16 % 16) (by omega)
  have h4 := hexValue_hexDigit (c.toNat % 16) (by omega)
  simp only [unicodeEscape, List.cons_append, List.nil_append]
  rw [parseString.eq_def]
  have hquote : ¬ (0x5C : UInt16) = 0x22 := by decide
  have hcontrol : ¬ (0x5C : UInt16) < 0x20 := by decide
  simp only [hquote, hcontrol, if_false, if_true, h1, h2, h3, h4, toUInt16_toNat]

variable {c : UInt16}

theorem parseString_simpleEscape {e u : UInt16} (rest : JsString) (hc : c = u)
    (he : simpleEscape e = some u) (hu : e ≠ 0x75) :
    parseString (0x5C :: e :: rest) = consUnit c (parseString rest) := by
  subst hc
  rw [parseString.eq_def]
  have hquote : ¬ (0x5C : UInt16) = 0x22 := by decide
  have hcontrol : ¬ (0x5C : UInt16) < 0x20 := by decide
  simp only [hquote, hcontrol, if_false, if_true, hu, he]

variable (paired : Bool)

theorem parseString_escapeUnit (c : UInt16) (next : Option UInt16) (rest : JsString) :
    parseString (escapeUnit paired c next ++ rest) = consUnit c (parseString rest) := by
  simp only [escapeUnit]
  split
  · exact parseString_simpleEscape rest (by assumption) rfl (by decide)
  split
  · exact parseString_simpleEscape rest (by assumption) rfl (by decide)
  split
  · exact parseString_simpleEscape rest (by assumption) rfl (by decide)
  split
  · exact parseString_simpleEscape rest (by assumption) rfl (by decide)
  split
  · exact parseString_simpleEscape rest (by assumption) rfl (by decide)
  split
  · exact parseString_simpleEscape rest (by assumption) rfl (by decide)
  split
  · exact parseString_simpleEscape rest (by assumption) rfl (by decide)
  split
  · exact parseString_unicodeEscape c rest
  split
  · exact parseString_unicodeEscape c rest
  split
  · exact parseString_unicodeEscape c rest
  · rename_i hquote hbackslash _ _ _ _ _ hcontrol _ _
    simp only [List.singleton_append]
    rw [parseString.eq_def]
    simp only [hquote, hcontrol, hbackslash, if_false]

theorem parseString_escape (s rest : JsString) :
    parseString (escape paired s ++ 0x22 :: rest) = some (s, rest) := by
  induction s generalizing paired with
  | nil =>
    rw [escape, List.nil_append, parseString.eq_def]
    simp
  | cons c cs ih =>
    rw [escape, List.append_assoc, parseString_escapeUnit, ih]
    rfl

/-! ## Numbers -/

/-- What follows a value in a text does not go on a number. -/
def Stops (rest : JsString) : Prop := ∀ c ∈ rest.head?, isNumberUnit c = false

variable {token : JsString}

theorem takeWhile_token {rest : JsString} (htoken : token.all isNumberUnit = true)
    (hrest : Stops rest) :
    (token ++ rest).takeWhile isNumberUnit = token ∧ (token ++ rest).dropWhile isNumberUnit = rest := by
  induction token with
  | nil =>
    cases rest with
    | nil => exact ⟨rfl, rfl⟩
    | cons c rest =>
      have hc := hrest c (by simp)
      simp [hc]
  | cons c token ih =>
    simp only [List.all_cons, Bool.and_eq_true] at htoken
    obtain ⟨ih1, ih2⟩ := ih htoken.2
    simp [htoken.1, ih1, ih2]

variable [JsNumber ν]

theorem parseNumber_token {rest : JsString} (hvalid : validNumber token = true)
    (htoken : token.all isNumberUnit = true) (hrest : Stops rest) :
    parseNumber (token ++ rest) = some (.num (JsNumber.read token : ν), rest) := by
  obtain ⟨h1, h2⟩ := takeWhile_token htoken hrest
  simp only [parseNumber, h1, h2, hvalid, if_true]

/-! ## Values -/

mutual

def reread : Json ν → Json ν
  | .null => .null
  | .bool b => .bool b
  | .num n => match JsNumber.write n with
    | some token => .num (JsNumber.read token)
    | none => .null
  | .str s => .str s
  | .arr items => .arr (rereadItems items)
  | .obj fields => .obj (ofMembers (rereadFields fields))

def rereadItems : List (Json ν) → List (Json ν)
  | [] => []
  | x :: xs => reread x :: rereadItems xs

def rereadFields : List (JsString × Json ν) → List (JsString × Json ν)
  | [] => []
  | (k, v) :: fields => (k, reread v) :: rereadFields fields

end

mutual

/-- The depth of recursion that reading a value takes. -/
def size : Json ν → Nat
  | .arr items => 1 + sizeItems items
  | .obj fields => 1 + sizeFields fields
  | _ => 1

def sizeItems : List (Json ν) → Nat
  | [] => 0
  | x :: xs => 1 + size x + sizeItems xs

def sizeFields : List (JsString × Json ν) → Nat
  | [] => 0
  | (_, v) :: fields => 1 + size v + sizeFields fields

end

/-- A text that begins like a value: no space and no closing bracket. -/
def StartsValue (s : JsString) : Prop :=
  ∃ c cs, s = c :: cs ∧ c ∉ [0x20, 0x09, 0x0A, 0x0D, 0x5D, 0x7D]

theorem isNumberUnit_not_space (hc : isNumberUnit c = true) :
    c ∉ [0x20, 0x09, 0x0A, 0x0D, 0x5D, 0x7D] := by
  intro hmem
  simp only [List.mem_cons, List.not_mem_nil, or_false] at hmem
  rcases hmem with rfl | rfl | rfl | rfl | rfl | rfl <;> exact absurd hc (by decide)

theorem startsValue_token (hvalid : validNumber token = true)
    (htoken : token.all isNumberUnit = true) : StartsValue token := by
  cases token with
  | nil => simp [validNumber] at hvalid
  | cons c cs =>
    simp only [List.all_cons, Bool.and_eq_true] at htoken
    exact ⟨c, cs, rfl, isNumberUnit_not_space htoken.1⟩

theorem startsValue_stringify (v : Json ν) (rest : JsString) : StartsValue (stringify v ++ rest) := by
  have hnull : ∀ rest, StartsValue (js "null" ++ rest) := fun rest => ⟨_, _, rfl, by decide⟩
  cases v with
  | null => rw [stringify]; exact hnull rest
  | bool b => cases b <;> exact ⟨_, _, by rw [stringify]; rfl, by decide⟩
  | num n =>
    rw [stringify]
    cases hw : JsNumber.write n with
    | none => exact hnull rest
    | some token =>
      obtain ⟨hvalid, htoken⟩ := JsNumber.write_valid n token hw
      obtain ⟨c, cs, htok, hc⟩ := startsValue_token hvalid htoken
      exact ⟨c, cs ++ rest, by simp [htok], hc⟩
  | str s => exact ⟨_, _, by rw [stringify, quote]; rfl, by decide⟩
  | arr items => cases items <;> exact ⟨_, _, by rw [stringify]; rfl, by decide⟩
  | obj fields => rcases fields with _ | ⟨⟨k, v⟩, fields⟩ <;> exact ⟨_, _, by rw [stringify]; rfl, by decide⟩

theorem skipSpace_starts {s : JsString} (hs : StartsValue s) : skipSpace s = s := by
  obtain ⟨c, cs, rfl, hc⟩ := hs
  simp only [List.mem_cons, List.not_mem_nil, or_false, not_or] at hc
  simp [skipSpace, hc]

theorem expect_starts {s : JsString} (hs : StartsValue s) {close : UInt16}
    (hclose : close = 0x5D ∨ close = 0x7D) : expect close s = none := by
  obtain ⟨c, cs, rfl, hc⟩ := hs
  simp only [List.mem_cons, List.not_mem_nil, or_false, not_or] at hc
  rcases hclose with rfl | rfl <;> simp [expect, hc]

theorem skipSpace_cons (hc : c ∉ [0x20, 0x09, 0x0A, 0x0D]) (cs : JsString) :
    skipSpace (c :: cs) = c :: cs := by
  simp only [List.mem_cons, List.not_mem_nil, or_false, not_or] at hc
  simp [skipSpace, hc]

theorem expect_self (c : UInt16) (cs : JsString) : expect c (c :: cs) = some cs := by
  simp [expect]

theorem expect_ne {d : UInt16} (hne : d ≠ c) (cs : JsString) : expect c (d :: cs) = none := by
  simp [expect, hne]

theorem stops_cons (hc : isNumberUnit c = false) (cs : JsString) : Stops (c :: cs) := by
  simpa [Stops] using hc

theorem stops_stringifyItems (items : List (Json ν)) (rest : JsString) :
    Stops (stringifyItems items ++ rest) := by
  cases items <;> exact stops_cons (by decide) _

theorem stops_stringifyFields (rest : JsString) : Stops (stringifyFields fields ++ rest) := by
  rcases fields with _ | ⟨⟨k, v⟩, fields⟩ <;> exact stops_cons (by decide) _

theorem expectAll_append (word rest : JsString) : expectAll word (word ++ rest) = some rest := by
  induction word with
  | nil => rfl
  | cons c cs ih => simp [expectAll, expect, ih]

theorem parseValue_null (n : Nat) (rest : JsString) :
    parseValue (n + 1) (js "null" ++ rest) = some ((.null : Json ν), rest) := by
  have hjs : js "null" ++ rest = 0x6E :: (js "ull" ++ rest) := rfl
  rw [hjs, parseValue, skipSpace_cons (by decide)]
  simp [expectAll_append]

theorem parseValue_true (n : Nat) (rest : JsString) :
    parseValue (n + 1) (js "true" ++ rest) = some ((.bool true : Json ν), rest) := by
  have hjs : js "true" ++ rest = 0x74 :: (js "rue" ++ rest) := rfl
  rw [hjs, parseValue, skipSpace_cons (by decide)]
  simp [expectAll_append]

theorem parseValue_false (n : Nat) (rest : JsString) :
    parseValue (n + 1) (js "false" ++ rest) = some ((.bool false : Json ν), rest) := by
  have hjs : js "false" ++ rest = 0x66 :: (js "alse" ++ rest) := rfl
  rw [hjs, parseValue, skipSpace_cons (by decide)]
  simp [expectAll_append]

theorem parseValue_token (hvalid : validNumber token = true)
    (htoken : token.all isNumberUnit = true) (n : Nat) {rest : JsString} (hrest : Stops rest) :
    parseValue (n + 1) (token ++ rest) = some (.num (JsNumber.read token : ν), rest) := by
  have hnumber := parseNumber_token (ν := ν) hvalid htoken hrest
  cases token with
  | nil => simp [validNumber] at hvalid
  | cons c cs =>
    simp only [List.all_cons, Bool.and_eq_true] at htoken
    have hspace := isNumberUnit_not_space htoken.1
    have hother : c ∉ [0x22, 0x5B, 0x7B, 0x6E, 0x74, 0x66] := by
      intro hmem
      simp only [List.mem_cons, List.not_mem_nil, or_false] at hmem
      rcases hmem with rfl | rfl | rfl | rfl | rfl | rfl <;> exact absurd htoken.1 (by decide)
    simp only [List.mem_cons, List.not_mem_nil, or_false, not_or] at hspace hother
    rw [List.cons_append] at hnumber ⊢
    rw [parseValue, skipSpace_cons (by simp [hspace])]
    simp only [hother, if_false]
    exact hnumber

theorem parseValue_string (s : JsString) (n : Nat) (rest : JsString) :
    parseValue (n + 1) (quote s ++ rest) = some ((.str s : Json ν), rest) := by
  rw [quote, List.cons_append, List.cons_append, List.append_assoc, List.singleton_append,
    parseValue, skipSpace_cons (by decide)]
  simp [parseString_escape]

theorem parseKey_quote (k rest : JsString) :
    (expect 0x22 (skipSpace (quote k ++ rest))).bind parseString = some (k, rest) := by
  rw [quote, List.cons_append, List.cons_append, List.append_assoc, List.singleton_append,
    skipSpace_cons (by decide), expect_self]
  exact parseString_escape false k rest

mutual

theorem parseValue_stringify : ∀ (v : Json ν) (n : Nat) (rest : JsString), size v ≤ n →
    Stops rest → parseValue n (stringify v ++ rest) = some (reread v, rest)
  | v, 0, rest, hn, _ => by cases v <;> simp [size] at hn
  | .null, n + 1, rest, _, _ => by rw [stringify, reread, parseValue_null]
  | .bool true, n + 1, rest, _, _ => by rw [stringify, reread, if_pos rfl, parseValue_true]
  | .bool false, n + 1, rest, _, _ => by
    rw [stringify, reread, if_neg (by decide), parseValue_false]
  | .num x, n + 1, rest, _, hrest => by
    rw [stringify, reread]
    cases hw : JsNumber.write x with
    | none => exact parseValue_null n rest
    | some token =>
      obtain ⟨hvalid, htoken⟩ := JsNumber.write_valid x token hw
      exact parseValue_token hvalid htoken n hrest
  | .str s, n + 1, rest, _, _ => parseValue_string s n rest
  | .arr [], n + 1, rest, _, _ => by
    have hjs : js "[]" ++ rest = 0x5B :: 0x5D :: rest := rfl
    rw [stringify, hjs, parseValue, skipSpace_cons (by decide)]
    simp [skipSpace_cons, expect_self, reread, rereadItems]
  | .arr (x :: xs), n + 1, rest, hn, _ => by
    have hitems := parseItems_stringify x xs n rest (by
      simp only [size, sizeItems] at hn ⊢
      omega)
    have hstart := startsValue_stringify x (stringifyItems xs ++ rest)
    rw [stringify, List.cons_append, List.append_assoc, parseValue, skipSpace_cons (by decide)]
    simp only [skipSpace_starts hstart, expect_starts hstart (Or.inl rfl), hitems]
    simp [reread, rereadItems]
  | .obj [], n + 1, rest, _, _ => by
    have hjs : js "\x7b\x7d" ++ rest = 0x7B :: 0x7D :: rest := rfl
    rw [stringify, hjs, parseValue, skipSpace_cons (by decide)]
    simp [skipSpace_cons, expect_self, reread, rereadFields, ofMembers]
  | .obj ((k, v) :: fields), n + 1, rest, hn, _ => by
    have hfields := parseFields_stringify k v fields n rest (by
      simp only [size, sizeFields] at hn ⊢
      omega)
    have hstart : ∀ rest, StartsValue (quote k ++ rest) := fun rest => ⟨_, _, rfl, by decide⟩
    rw [stringify, List.cons_append, List.append_assoc, parseValue, skipSpace_cons (by decide)]
    simp only [List.cons_append, List.append_assoc] at hfields ⊢
    simp only [skipSpace_starts (hstart _), expect_starts (hstart _) (Or.inr rfl), hfields]
    simp [reread, rereadFields]

theorem parseItems_stringify : ∀ (x : Json ν) (xs : List (Json ν)) (n : Nat) (rest : JsString),
    sizeItems (x :: xs) ≤ n →
    parseItems n (stringify x ++ (stringifyItems xs ++ rest)) = some (reread x :: rereadItems xs, rest)
  | x, xs, 0, rest, hn => by simp [sizeItems] at hn
  | x, [], n + 1, rest, hn => by
    have hclose : stringifyItems ([] : List (Json ν)) ++ rest = 0x5D :: rest := by
      simp [stringifyItems]
    have hx := parseValue_stringify x n (0x5D :: rest) (by simp only [sizeItems] at hn; omega)
      (stops_cons (by decide) rest)
    rw [parseItems, hclose, hx]
    simp [skipSpace_cons, expect_ne, expect_self, rereadItems]
  | x, y :: ys, n + 1, rest, hn => by
    have hx := parseValue_stringify x n (stringifyItems (y :: ys) ++ rest)
      (by simp only [sizeItems] at hn; omega) (stops_stringifyItems (y :: ys) rest)
    have hys := parseItems_stringify y ys n rest (by simp only [sizeItems] at hn ⊢; omega)
    have hcomma : stringifyItems (y :: ys) ++ rest =
        0x2C :: (stringify y ++ (stringifyItems ys ++ rest)) := by
      rw [stringifyItems, List.cons_append, List.append_assoc]
    rw [parseItems, hx, hcomma]
    simp [skipSpace_cons, expect_self, hys, rereadItems]

theorem parseFields_stringify : ∀ (k : JsString) (v : Json ν) (fields : List (JsString × Json ν))
    (n : Nat) (rest : JsString), sizeFields ((k, v) :: fields) ≤ n →
    parseFields n (quote k ++ 0x3A :: (stringify v ++ (stringifyFields fields ++ rest))) =
      some ((k, reread v) :: rereadFields fields, rest)
  | k, v, fields, 0, rest, hn => by simp [sizeFields] at hn
  | k, v, [], n + 1, rest, hn => by
    have hclose : stringifyFields ([] : List (JsString × Json ν)) ++ rest = 0x7D :: rest := by
      simp [stringifyFields]
    have hv := parseValue_stringify v n (0x7D :: rest) (by simp only [sizeFields] at hn; omega)
      (stops_cons (by decide) rest)
    rw [parseFields, parseKey_quote, Option.bind_some, skipSpace_cons (by decide), expect_self,
      Option.bind_some, hclose, hv]
    simp [skipSpace_cons, expect_ne, expect_self, rereadFields]
  | k, v, (k', v') :: fields, n + 1, rest, hn => by
    have hv := parseValue_stringify v n (stringifyFields ((k', v') :: fields) ++ rest)
      (by simp only [sizeFields] at hn; omega) (stops_stringifyFields ((k', v') :: fields) rest)
    have hys := parseFields_stringify k' v' fields n rest (by simp only [sizeFields] at hn ⊢; omega)
    have hcomma : stringifyFields ((k', v') :: fields) ++ rest =
        0x2C :: (quote k' ++ 0x3A :: (stringify v' ++ (stringifyFields fields ++ rest))) := by
      rw [stringifyFields, List.cons_append, List.append_assoc, List.cons_append, List.append_assoc]
    rw [parseFields, parseKey_quote, Option.bind_some, skipSpace_cons (by decide), expect_self,
      Option.bind_some, hv, hcomma]
    simp [skipSpace_cons, expect_self, hys, rereadFields]

end

/-! ## Whole texts -/

theorem stringify_ne_nil (v : Json ν) : 0 < (stringify v).length := by
  obtain ⟨c, cs, h, -⟩ := startsValue_stringify v []
  rw [List.append_nil] at h
  simp [h]

mutual

theorem size_le_length : ∀ v : Json ν, size v ≤ 2 * (stringify v).length
  | .null => by have := stringify_ne_nil (.null : Json ν); simp only [size]; omega
  | .bool b => by have := stringify_ne_nil (.bool b : Json ν); simp only [size]; omega
  | .num n => by have := stringify_ne_nil (.num n : Json ν); simp only [size]; omega
  | .str s => by have := stringify_ne_nil (.str s : Json ν); simp only [size]; omega
  | .arr [] => by have := stringify_ne_nil (.arr [] : Json ν); simp only [size, sizeItems]; omega
  | .arr (x :: xs) => by
    have hx := size_le_length x
    have hxs := sizeItems_lt_length xs
    simp only [size, sizeItems, stringify, List.length_cons, List.length_append]
    omega
  | .obj [] => by have := stringify_ne_nil (.obj [] : Json ν); simp only [size, sizeFields]; omega
  | .obj ((k, v) :: fields) => by
    have hv := size_le_length v
    have hfields := sizeFields_lt_length fields
    simp only [size, sizeFields, stringify, List.length_cons, List.length_append]
    omega

theorem sizeItems_lt_length : ∀ items : List (Json ν),
    sizeItems items < 2 * (stringifyItems items).length
  | [] => by simp [sizeItems, stringifyItems]
  | x :: xs => by
    have hx := size_le_length x
    have hxs := sizeItems_lt_length xs
    simp only [sizeItems, stringifyItems, List.length_cons, List.length_append]
    omega

theorem sizeFields_lt_length : ∀ fields : List (JsString × Json ν),
    sizeFields fields < 2 * (stringifyFields fields).length
  | [] => by simp [sizeFields, stringifyFields]
  | (k, v) :: fields => by
    have hv := size_le_length v
    have hfields := sizeFields_lt_length fields
    simp only [sizeFields, stringifyFields, List.length_cons, List.length_append]
    omega

end

/-- **Round trip.** A written value is read back, up to what JSON cannot carry. -/
theorem parse_stringify (v : Json ν) : parse (stringify v) = some (reread v) := by
  have h := parseValue_stringify v (2 * (stringify v).length + 2) []
    (by have := size_le_length v; omega) (by simp [Stops])
  rw [List.append_nil] at h
  simp [parse, h, skipSpace]

/-! ## One line -/

theorem escapeUnit_printable (c : UInt16) (next : Option UInt16) :
    ∀ d ∈ escapeUnit paired c next, 0x20 ≤ d := by
  have hhex : ∀ n < 16, 0x20 ≤ hexDigit n := by decide
  have hc := c.toNat_lt
  have hescape : ∀ d ∈ unicodeEscape c, 0x20 ≤ d := by
    intro d hd
    simp only [unicodeEscape, List.mem_cons, List.not_mem_nil, or_false] at hd
    rcases hd with rfl | rfl | rfl | rfl | rfl | rfl
    · decide
    · decide
    all_goals exact hhex _ (by omega)
  have hpair : ∀ x : UInt16, 0x20 ≤ x → ∀ d ∈ [0x5C, x], 0x20 ≤ d := by
    intro x hx d hd
    simp only [List.mem_cons, List.not_mem_nil, or_false] at hd
    rcases hd with rfl | rfl
    · decide
    · exact hx
  simp only [escapeUnit]
  repeat' split
  all_goals try exact hpair _ (by decide)
  all_goals try exact hescape
  rename_i hcontrol _ _
  intro d hd
  rw [List.mem_singleton.mp hd]
  exact UInt16.not_lt.mp hcontrol

theorem escape_printable (s : JsString) : ∀ d ∈ escape paired s, 0x20 ≤ d := by
  induction s generalizing paired with
  | nil => simp [escape]
  | cons c cs ih =>
    intro d hd
    rw [escape, List.mem_append] at hd
    rcases hd with hd | hd
    · exact escapeUnit_printable paired c _ d hd
    · exact ih _ d hd

theorem quote_printable (s : JsString) : ∀ d ∈ quote s, 0x20 ≤ d := by
  intro d hd
  simp only [quote, List.mem_append, List.mem_cons, List.not_mem_nil, or_false] at hd
  rcases hd with (rfl | hd) | rfl
  · decide
  · exact escape_printable false s d hd
  · decide

theorem isNumberUnit_printable (hc : isNumberUnit c = true) : 0x20 ≤ c := by
  simp only [isNumberUnit, List.mem_cons, List.not_mem_nil, or_false, Bool.or_eq_true,
    decide_eq_true_eq, Bool.and_eq_true] at hc
  rcases hc with (rfl | rfl | rfl | rfl | rfl) | ⟨hlo, -⟩
  · decide
  · decide
  · decide
  · decide
  · decide
  · exact UInt16.le_trans (by decide) hlo

theorem printable_of_all {s : JsString} (h : s.all (0x20 ≤ ·) = true) : ∀ d ∈ s, 0x20 ≤ d :=
  fun d hd => of_decide_eq_true (List.all_eq_true.mp h d hd)

theorem printable_item {mark : UInt16} (hmark : 0x20 ≤ mark) {item others : JsString}
    (hitem : ∀ d ∈ item, 0x20 ≤ d) (hothers : ∀ d ∈ others, 0x20 ≤ d) :
    ∀ d ∈ mark :: (item ++ others), 0x20 ≤ d := by
  intro d hd
  rcases List.mem_cons.mp hd with rfl | hd
  · exact hmark
  · exact (List.mem_append.mp hd).elim (hitem d) (hothers d)

mutual

theorem stringify_printable : ∀ (v : Json ν), ∀ d ∈ stringify v, 0x20 ≤ d
  | .null => by rw [stringify]; exact printable_of_all rfl
  | .bool true => by rw [stringify]; exact printable_of_all rfl
  | .bool false => by rw [stringify]; exact printable_of_all rfl
  | .num n => by
    rw [stringify]
    cases hw : JsNumber.write n with
    | none => exact printable_of_all rfl
    | some token =>
      exact fun d hd =>
        isNumberUnit_printable (List.all_eq_true.mp (JsNumber.write_valid n token hw).2 d hd)
  | .str s => by rw [stringify]; exact quote_printable s
  | .arr [] => by rw [stringify]; exact printable_of_all rfl
  | .arr (x :: xs) => by
    rw [stringify]
    exact printable_item (by decide) (stringify_printable x) (stringifyItems_printable xs)
  | .obj [] => by rw [stringify]; exact printable_of_all rfl
  | .obj ((k, v) :: fields) => by
    rw [stringify]
    exact printable_item (by decide) (quote_printable k)
      (printable_item (by decide) (stringify_printable v) (stringifyFields_printable fields))

theorem stringifyItems_printable : ∀ (items : List (Json ν)), ∀ d ∈ stringifyItems items, 0x20 ≤ d
  | [] => by rw [stringifyItems]; exact printable_of_all rfl
  | x :: xs => by
    rw [stringifyItems]
    exact printable_item (by decide) (stringify_printable x) (stringifyItems_printable xs)

theorem stringifyFields_printable : ∀ (fields : List (JsString × Json ν)),
    ∀ d ∈ stringifyFields fields, 0x20 ≤ d
  | [] => by rw [stringifyFields]; exact printable_of_all rfl
  | (k, v) :: fields => by
    rw [stringifyFields]
    exact printable_item (by decide) (quote_printable k)
      (printable_item (by decide) (stringify_printable v) (stringifyFields_printable fields))

end

theorem stringifyFields_concat : ∃ s, stringifyFields fields = s ++ [0x7D] := by
  induction fields with
  | nil => exact ⟨[], by rw [stringifyFields]; rfl⟩
  | cons field rest ih =>
    obtain ⟨s, hs⟩ := ih
    exact ⟨0x2C :: (quote field.1 ++ 0x3A :: (stringify field.2 ++ s)), by simp [stringifyFields, hs]⟩

theorem stringify_obj_braces : ∃ s, stringify (.obj fields) = 0x7B :: (s ++ [0x7D]) := by
  cases fields with
  | nil => exact ⟨[], by rw [stringify]; rfl⟩
  | cons field rest =>
    obtain ⟨s, hs⟩ := stringifyFields_concat rest
    exact ⟨quote field.1 ++ 0x3A :: (stringify field.2 ++ s), by simp [stringify, hs]⟩

/-! ## Reading properties of what is read back -/

theorem getField_rereadFields (key : JsString) :
    getField (rereadFields fields) key = (getField fields key).map reread := by
  induction fields with
  | nil => simp [rereadFields]
  | cons field rest ih =>
    obtain ⟨k, v⟩ := field
    rw [rereadFields, getField_cons, getField_cons, ih]
    by_cases hk : k = key
    · cases getField rest key <;> simp [hk]
    · simp [hk]

theorem getField_reread (key : JsString) :
    getField (ofMembers (rereadFields fields)) key = (getField fields key).map reread := by
  rw [getField_ofMembers, getField_rereadFields]

theorem rereadItems_eq_map (items : List (Json ν)) : rereadItems items = items.map reread := by
  induction items with
  | nil => rfl
  | cons x xs ih => rw [rereadItems, ih, List.map_cons]

end Json

/-! ## Lines -/

namespace JsString

theorem lines_unlines {ls : List JsString} (hne : ls ≠ []) (h : ∀ l ∈ ls, lineFeed ∉ l) :
    lines (unlines ls) = ls :=
  List.splitOn_intercalate _ h hne

theorem unlines_lines (s : JsString) : unlines (lines s) = s :=
  List.intercalate_splitOn _

theorem lineFeed_not_mem_lines (s : JsString) : ∀ l ∈ lines s, lineFeed ∉ l := by
  simp only [lines, List.splitOn_eq_splitOnP]
  induction s with
  | nil => simp [List.splitOnP_nil]
  | cons c cs ih =>
    rw [List.splitOnP_cons_eq_if_modifyHead]
    split
    · simpa using ih
    · rename_i hc
      have hne : c ≠ lineFeed := by simpa using hc
      intro l hl
      cases hsplit : cs.splitOnP (· == lineFeed) with
      | nil => exact absurd hsplit (List.splitOnP_ne_nil _ _)
      | cons head rest =>
        rw [hsplit] at hl ih
        simp only [List.modifyHead_cons, List.mem_cons] at hl
        rcases hl with rfl | hl
        · simpa [Ne.symm hne] using ih head (by simp)
        · exact ih l (by simp [hl])

/-- A text that begins and ends with units that are not stripped. -/
theorem trim_eq_self {c d : UInt16} {s : JsString} (hc : isTrimmed c = false)
    (hd : isTrimmed d = false) : trim (c :: (s ++ [d])) = c :: (s ++ [d]) := by
  have hlast : (c :: (s ++ [d])).rdropWhile isTrimmed = c :: (s ++ [d]) := by
    rw [← List.cons_append, List.rdropWhile_concat]
    simp [hd]
  simp [trim, hc, hlast]

theorem trim_append_space (s : JsString) {c : UInt16} (hc : isTrimmed c = true) :
    trim (s ++ [c]) = trim s := by
  simp only [trim, List.dropWhile_append]
  split
  · rename_i hempty
    rw [List.isEmpty_iff.mp hempty]
    simp [hc]
  · rw [List.rdropWhile_concat_pos _ _ _ hc]

end JsString

end Bobbit.Lib
