import Mathlib

/-!
# JavaScript strings and JSON texts

`JsString` is a string of UTF-16 code units. `Json` is the type of JSON values,
with `parse` and `stringify` as ECMA-262 defines `JSON.parse` and
`JSON.stringify` without a reviver, replacer or indentation.

The number format is a parameter (`JsNumber`): a numeric token is read into a
number, and a finite number is written as a numeric token.
-/

namespace Bobbit.Lib

/-- A JavaScript string, as its UTF-16 code units. -/
abbrev JsString := List UInt16

instance lawfulBEqJsString : LawfulBEq JsString := inferInstanceAs (LawfulBEq (List UInt16))

/-- The UTF-16 code units of one character. -/
def utf16 (c : Char) : JsString :=
  if c.toNat < 0x10000 then [c.toNat.toUInt16]
  else
    let d := c.toNat - 0x10000
    [(0xD800 + d / 0x400).toUInt16, (0xDC00 + d % 0x400).toUInt16]

/-- A string literal as a JavaScript string. -/
def js (s : String) : JsString := s.toList.flatMap utf16

/-- The first code unit of a character tells it from every other one, so a coded character can be
read off the front of a string. -/
theorem utf16_append_inj {a b : Char} {s t : JsString} (h : utf16 a ++ s = utf16 b ++ t) :
    a = b ∧ s = t := by
  have ha := a.valid
  have hb := b.valid
  have hinj : a.toNat = b.toNat → a = b := fun h => Char.toNat_inj.mp h
  have hva : a.toNat = a.val.toNat := rfl
  have hvb : b.toNat = b.val.toNat := rfl
  simp only [UInt32.isValidChar, Nat.isValidChar] at ha hb
  rw [← hva] at ha
  rw [← hvb] at hb
  unfold utf16 at h
  -- one unit is never a surrogate, so the two lengths cannot be confused
  split at h <;> split at h <;> simp [← UInt16.toNat_inj] at h
  all_goals refine ⟨hinj ?_, ?_⟩ <;> grind

theorem utf16_ne_nil (c : Char) : utf16 c ≠ [] := by
  unfold utf16
  split <;> simp

theorem flatMap_utf16_injective {xs ys : List Char} (h : xs.flatMap utf16 = ys.flatMap utf16) :
    xs = ys := by
  induction xs generalizing ys with
  | nil =>
    cases ys with
    | nil => rfl
    | cons y ys =>
      simp only [List.flatMap_nil, List.flatMap_cons] at h
      exact absurd (List.append_eq_nil_iff.mp h.symm).1 (utf16_ne_nil y)
  | cons x xs ih =>
    cases ys with
    | nil =>
      simp only [List.flatMap_nil, List.flatMap_cons] at h
      exact absurd (List.append_eq_nil_iff.mp h).1 (utf16_ne_nil x)
    | cons y ys =>
      simp only [List.flatMap_cons] at h
      obtain ⟨rfl, hrest⟩ := utf16_append_inj h
      rw [ih hrest]

/-- Two literals are the same JavaScript string only when they are the same literal. -/
@[simp] theorem js_inj {a b : String} : js a = js b ↔ a = b := by
  constructor
  · intro h
    exact String.toList_inj.mp (flatMap_utf16_injective h)
  · intro h
    rw [h]

namespace JsString

def lineFeed : UInt16 := 0x0A

def carriageReturn : UInt16 := 0x0D

/-- The code units that `String.prototype.trim` strips. -/
def isTrimmed (c : UInt16) : Bool :=
  c ∈ [0x09, 0x0A, 0x0B, 0x0C, 0x0D, 0x20, 0xA0, 0x1680, 0x2028, 0x2029, 0x202F, 0x205F, 0x3000,
    0xFEFF] || (0x2000 ≤ c && c ≤ 0x200A)

def trim (s : JsString) : JsString := (s.dropWhile isTrimmed).rdropWhile isTrimmed

/-- `split("\n")`. -/
def lines (s : JsString) : List JsString := s.splitOn lineFeed

/-- `join("\n")`. -/
def unlines (ls : List JsString) : JsString := [lineFeed].intercalate ls

end JsString

/-! ## Values -/

/-- A JSON value. The fields of an object stand in property order. -/
inductive Json (ν : Type) where
  | null
  | bool (b : Bool)
  | num (n : ν)
  | str (s : JsString)
  | arr (items : List (Json ν))
  | obj (fields : List (JsString × Json ν))

/-- The code units of a numeric token. -/
def isNumberUnit (c : UInt16) : Bool :=
  c ∈ [0x2B, 0x2D, 0x2E, 0x45, 0x65] || (0x30 ≤ c && c ≤ 0x39)

def isDigit (c : UInt16) : Bool := 0x30 ≤ c && c ≤ 0x39

/-- The exponent of a numeric token, or its end. -/
def validExponent : JsString → Bool
  | [] => true
  | e :: rest =>
    (e == 0x65 || e == 0x45) &&
      match rest with
      | [] => false
      | sign :: digits =>
        if sign == 0x2B || sign == 0x2D then ! digits.isEmpty && digits.all isDigit
        else rest.all isDigit

/-- The fraction and the exponent of a numeric token. -/
def validFraction : JsString → Bool
  | [] => true
  | c :: rest =>
    if c == 0x2E then (rest.head?.any isDigit) && validExponent (rest.dropWhile isDigit)
    else validExponent (c :: rest)

def validUnsigned : JsString → Bool
  | [] => false
  | d :: rest =>
    if d == 0x30 then validFraction rest
    else isDigit d && validFraction (rest.dropWhile isDigit)

def validNumber : JsString → Bool
  | [] => false
  | c :: rest => if c == 0x2D then validUnsigned rest else validUnsigned (c :: rest)

/-- A number format: how numeric tokens are read and finite numbers written. -/
class JsNumber (ν : Type) where
  read : JsString → ν
  /-- the token of a finite number -/
  write : ν → Option JsString
  truthy : ν → Bool
  write_valid : ∀ n token, write n = some token →
    validNumber token = true ∧ token.all isNumberUnit = true
  truthy_reread : ∀ n token, write n = some token → truthy (read token) = truthy n

/-- The number format that keeps numbers as their tokens. -/
instance tokenNumber : JsNumber JsString where
  read token := token
  write n := if validNumber n && n.all isNumberUnit then some n else none
  truthy n := n.any fun c => isDigit c && c != 0x30
  write_valid n token h := by
    simp only [Option.ite_none_right_eq_some, Bool.and_eq_true, Option.some.injEq] at h
    rw [← h.2]
    exact h.1
  truthy_reread n token h := by
    simp only [Option.ite_none_right_eq_some, Option.some.injEq] at h
    rw [h.2]

namespace Json

variable {ν : Type}

/-- The value of an array index key, by which such keys come first. -/
def arrayIndex (key : JsString) : Option Nat :=
  let n := key.foldl (fun acc c => acc * 10 + (c.toNat - 0x30)) 0
  if key.all isDigit && ! key.isEmpty && (key == [0x30] || key.head? != some 0x30) &&
      n < 4294967295 then some n
  else none

/-- Add a new property: index keys first, in ascending order, others last. -/
def insertField (key : JsString) (value : Json ν) :
    List (JsString × Json ν) → List (JsString × Json ν)
  | [] => [(key, value)]
  | (k, v) :: rest =>
    match arrayIndex key, arrayIndex k with
    | some i, some j =>
      if i < j then (key, value) :: (k, v) :: rest else (k, v) :: insertField key value rest
    | some _, none => (key, value) :: (k, v) :: rest
    | none, _ => (k, v) :: insertField key value rest

/-- Assign a property: in its place when it exists. -/
def setField (fields : List (JsString × Json ν)) (key : JsString) (value : Json ν) :
    List (JsString × Json ν) :=
  if fields.any (·.1 == key) then
    fields.map fun field => if field.1 == key then (key, value) else field
  else insertField key value fields

/-- Read a property: of several with one key, the last. -/
def getField (fields : List (JsString × Json ν)) (key : JsString) : Option (Json ν) :=
  (fields.reverse.find? (·.1 == key)).map (·.2)

/-- `value.key`, where `none` is `undefined`. -/
def get (value : Json ν) (key : JsString) : Option (Json ν) :=
  match value with
  | .obj fields => getField fields key
  | _ => none

/-- The object that assigning the members in turn makes. -/
def ofMembers (members : List (JsString × Json ν)) : List (JsString × Json ν) :=
  members.foldl (fun fields member => setField fields member.1 member.2) []

/-! ## Writing -/

def hexDigit (n : Nat) : UInt16 := if n < 10 then (0x30 + n).toUInt16 else (0x57 + n).toUInt16

/-- A code unit as a `\u` escape. -/
def unicodeEscape (c : UInt16) : JsString :=
  [0x5C, 0x75, hexDigit (c.toNat / 4096), hexDigit (c.toNat / 256 % 16),
    hexDigit (c.toNat / 16 % 16), hexDigit (c.toNat % 16)]

def isHighSurrogate (c : UInt16) : Bool := 0xD800 ≤ c && c ≤ 0xDBFF

def isLowSurrogate (c : UInt16) : Bool := 0xDC00 ≤ c && c ≤ 0xDFFF

/-- One code unit of a quoted string. `paired` says that the unit before is the
    high surrogate of this one; `next` is the unit after. -/
def escapeUnit (paired : Bool) (c : UInt16) (next : Option UInt16) : JsString :=
  if c = 0x22 then [0x5C, 0x22]
  else if c = 0x5C then [0x5C, 0x5C]
  else if c = 0x08 then [0x5C, 0x62]
  else if c = 0x0C then [0x5C, 0x66]
  else if c = 0x0A then [0x5C, 0x6E]
  else if c = 0x0D then [0x5C, 0x72]
  else if c = 0x09 then [0x5C, 0x74]
  else if c < 0x20 then unicodeEscape c
  else if isHighSurrogate c && ! next.any isLowSurrogate then unicodeEscape c
  else if isLowSurrogate c && ! paired then unicodeEscape c
  else [c]

def escape (paired : Bool) : JsString → JsString
  | [] => []
  | c :: cs => escapeUnit paired c cs.head? ++ escape (isHighSurrogate c) cs

def quote (s : JsString) : JsString := 0x22 :: escape false s ++ [0x22]

variable [JsNumber ν]

mutual

def stringify : Json ν → JsString
  | .null => js "null"
  | .bool b => if b then js "true" else js "false"
  | .num n => (JsNumber.write n).getD (js "null")
  | .str s => quote s
  | .arr [] => js "[]"
  | .arr (x :: xs) => 0x5B :: (stringify x ++ stringifyItems xs)
  | .obj [] => js "\x7b\x7d"
  | .obj ((k, v) :: fields) => 0x7B :: (quote k ++ 0x3A :: (stringify v ++ stringifyFields fields))

/-- The items of an array after its first. -/
def stringifyItems : List (Json ν) → JsString
  | [] => [0x5D]
  | x :: xs => 0x2C :: (stringify x ++ stringifyItems xs)

/-- The fields of an object after its first. -/
def stringifyFields : List (JsString × Json ν) → JsString
  | [] => [0x7D]
  | (k, v) :: fields => 0x2C :: (quote k ++ 0x3A :: (stringify v ++ stringifyFields fields))

end

/-! ## Reading -/

def skipSpace (s : JsString) : JsString := s.dropWhile (· ∈ [0x20, 0x09, 0x0A, 0x0D])

def expect (c : UInt16) : JsString → Option JsString
  | [] => none
  | d :: rest => if d = c then some rest else none

def expectAll : JsString → JsString → Option JsString
  | [], s => some s
  | c :: cs, s => (expect c s).bind (expectAll cs)

def hexValue (c : UInt16) : Option Nat :=
  if 0x30 ≤ c && c ≤ 0x39 then some (c.toNat - 0x30)
  else if 0x61 ≤ c && c ≤ 0x66 then some (c.toNat - 0x57)
  else if 0x41 ≤ c && c ≤ 0x46 then some (c.toNat - 0x37)
  else none

/-- The unit that a one-letter escape stands for. -/
def simpleEscape (c : UInt16) : Option UInt16 :=
  if c = 0x22 then some 0x22
  else if c = 0x5C then some 0x5C
  else if c = 0x2F then some 0x2F
  else if c = 0x62 then some 0x08
  else if c = 0x66 then some 0x0C
  else if c = 0x6E then some 0x0A
  else if c = 0x72 then some 0x0D
  else if c = 0x74 then some 0x09
  else none

/-- Put a unit in front of what was read. -/
def consUnit (c : UInt16) (r : Option (JsString × JsString)) : Option (JsString × JsString) :=
  r.map fun p => (c :: p.1, p.2)

/-- Read a quoted string after its opening quote. -/
def parseString : JsString → Option (JsString × JsString)
  | [] => none
  | c :: cs =>
    if c = 0x22 then some ([], cs)
    else if c < 0x20 then none
    else if c = 0x5C then
      match cs with
      | [] => none
      | e :: cs =>
        if e = 0x75 then
          match cs with
          | h1 :: h2 :: h3 :: h4 :: cs =>
            match hexValue h1, hexValue h2, hexValue h3, hexValue h4 with
            | some d1, some d2, some d3, some d4 =>
              consUnit (d1 * 4096 + d2 * 256 + d3 * 16 + d4).toUInt16 (parseString cs)
            | _, _, _, _ => none
          | _ => none
        else
          match simpleEscape e with
          | some u => consUnit u (parseString cs)
          | none => none
    else consUnit c (parseString cs)

def parseNumber (s : JsString) : Option (Json ν × JsString) :=
  let token := s.takeWhile isNumberUnit
  if validNumber token then some (.num (JsNumber.read token), s.dropWhile isNumberUnit) else none

mutual

/-- Read a value. The first argument bounds the depth of the recursion. -/
def parseValue : Nat → JsString → Option (Json ν × JsString)
  | 0, _ => none
  | fuel + 1, s =>
    match skipSpace s with
    | [] => none
    | c :: cs =>
      if c = 0x22 then (parseString cs).map fun p => (.str p.1, p.2)
      else if c = 0x5B then
        match expect 0x5D (skipSpace cs) with
        | some rest => some (.arr [], rest)
        | none => (parseItems fuel cs).map fun p => (.arr p.1, p.2)
      else if c = 0x7B then
        match expect 0x7D (skipSpace cs) with
        | some rest => some (.obj [], rest)
        | none => (parseFields fuel cs).map fun p => (.obj (ofMembers p.1), p.2)
      else if c = 0x6E then (expectAll (js "ull") cs).map fun rest => (.null, rest)
      else if c = 0x74 then (expectAll (js "rue") cs).map fun rest => (.bool true, rest)
      else if c = 0x66 then (expectAll (js "alse") cs).map fun rest => (.bool false, rest)
      else parseNumber (c :: cs)

/-- Read the items of a non-empty array and its closing bracket. -/
def parseItems : Nat → JsString → Option (List (Json ν) × JsString)
  | 0, _ => none
  | fuel + 1, s =>
    (parseValue fuel s).bind fun p =>
      let s := skipSpace p.2
      match expect 0x2C s with
      | some rest => (parseItems fuel rest).map fun q => (p.1 :: q.1, q.2)
      | none => (expect 0x5D s).map fun rest => ([p.1], rest)

/-- Read the members of a non-empty object and its closing brace. -/
def parseFields : Nat → JsString → Option (List (JsString × Json ν) × JsString)
  | 0, _ => none
  | fuel + 1, s =>
    ((expect 0x22 (skipSpace s)).bind parseString).bind fun key =>
      ((expect 0x3A (skipSpace key.2)).bind (parseValue fuel)).bind fun p =>
        let s := skipSpace p.2
        match expect 0x2C s with
        | some rest => (parseFields fuel rest).map fun q => ((key.1, p.1) :: q.1, q.2)
        | none => (expect 0x7D s).map fun rest => ([(key.1, p.1)], rest)

end

/-- `JSON.parse`; `none` is a syntax error. -/
def parse (text : JsString) : Option (Json ν) :=
  match parseValue (2 * text.length + 2) text with
  | some (value, rest) => if skipSpace rest = [] then some value else none
  | none => none

end Json

end Bobbit.Lib
