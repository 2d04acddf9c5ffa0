import Bobbit.Lib.Json

/-!
# Cron expressions of staff triggers

Model of `fieldMatches`, `partMatches` and `cronMatches` of
`src/server/agent/staff-trigger-engine.ts`. `NaN` is `none`: no comparison with it holds. Integers
are exact; the values of a date are below every number whose double would differ.
-/

namespace Bobbit.Server.StaffTrigger

open Lib Lib.JsString

def comma : UInt16 := 0x2C
def dash : UInt16 := 0x2D
def slash : UInt16 := 0x2F
def seven : UInt16 := 0x37

/-- A `Date`, by the getters that the matcher calls. -/
structure CronDate where
  getMinutes : Fin 60
  getHours : Fin 24
  getDate : Fin 32
  getMonth : Fin 12
  getDay : Fin 7

/-! ## Strings -/

/-- The number that decimal digits write. -/
def digitsValue (digits : JsString) : Nat :=
  digits.foldl (fun n c => 10 * n + (c.toNat - 0x30)) 0

/-- The digits that `parseInt` reads after the sign. -/
def parseDigits (text : JsString) : Option Nat :=
  let digits := text.takeWhile isDigit
  if digits = [] then none else some (digitsValue digits)

def parseInt (text : JsString) : Option Int :=
  match text.dropWhile isTrimmed with
  | 0x2D :: rest => (parseDigits rest).map fun n => -(n : Int)
  | 0x2B :: rest => (parseDigits rest).map Int.ofNat
  | text => (parseDigits text).map Int.ofNat

/-- `const [a, b] = text.split(sep)`, of a text with the separator. -/
def splitPair (sep : UInt16) (text : JsString) : JsString × JsString :=
  let parts := text.splitOn sep
  (parts.getD 0 [], parts.getD 1 [])

/-- `text.split(/\s+/)`. -/
def splitWhite : JsString → List JsString
  | [] => [[]]
  | u :: rest =>
    if isTrimmed u then
      if rest.head?.any isTrimmed then splitWhite rest else [] :: splitWhite rest
    else
      match splitWhite rest with
      | [] => [[u]]
      | part :: parts => (u :: part) :: parts

/-- `\w`. -/
def isWordUnit (u : UInt16) : Bool :=
  isDigit u || (0x41 ≤ u && u ≤ 0x5A) || (0x61 ≤ u && u ≤ 0x7A) || u == 0x5F

/-- `text.replace(/\b7\b/g, "0")`; `before` says whether a word unit stands before the text. -/
def replaceSevens (before : Bool) : JsString → JsString
  | [] => []
  | u :: rest =>
    (if u = seven ∧ ¬ before ∧ ¬ rest.head?.any isWordUnit then 0x30 else u) ::
      replaceSevens (isWordUnit u) rest

/-! ## Matching -/

/-- `value >= lo && value <= hi`. -/
def inRange (lo hi : Option Int) (value : Int) : Bool :=
  match lo, hi with
  | some lo, some hi => lo ≤ value && value ≤ hi
  | _, _ => false

def partMatches (part : JsString) (value : Int) : Bool :=
  if part = js "*" then true
  else if slash ∈ part then
    let (rangePart, stepStr) := splitPair slash part
    match parseInt stepStr with
    | none => false
    | some step =>
      if step ≤ 0 then false
      else if rangePart = js "*" then value.tmod step == 0
      else if dash ∈ rangePart then
        let (loStr, hiStr) := splitPair dash rangePart
        let lo := parseInt loStr
        let hi := parseInt hiStr
        inRange lo hi value && (value - lo.getD 0).tmod step == 0
      else value.tmod step == 0
  else if dash ∈ part then
    let (loStr, hiStr) := splitPair dash part
    inRange (parseInt loStr) (parseInt hiStr) value
  else parseInt part == some value

def fieldMatches (field : JsString) (value : Int) : Bool :=
  (field.splitOn comma).any fun part => partMatches (trim part) value

def cronMatches (expr : JsString) (date : CronDate) : Bool :=
  match splitWhite (trim expr) with
  | [minute, hour, dayOfMonth, month, dayOfWeek] =>
    if ! fieldMatches minute date.getMinutes.val then false
    else if ! fieldMatches hour date.getHours.val then false
    else if ! fieldMatches dayOfMonth date.getDate.val then false
    else if ! fieldMatches month (date.getMonth.val + 1) then false
    else if dayOfWeek ≠ js "*" && ! fieldMatches (replaceSevens false dayOfWeek) date.getDay.val then
      false
    else true
  | _ => false

end Bobbit.Server.StaffTrigger
