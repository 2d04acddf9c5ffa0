import Bobbit.Lib.JsMap
import Bobbit.Lib.Json

/-!
# Template variables of verification commands (`server/agent/verification-logic.ts`)

`substituteVars` puts values in the places of `\x7b\x7bname\x7d\x7d` in a command template, and
`isCommandStepSkippable` decides on the text that results whether the step is skipped. A variable
map is a plain object, so the operator `in` also sees what the object inherits.
-/

namespace Bobbit.Server.TemplateVars

open Lib Lib.JsString

/-! ## The placeholder pattern -/

def openBrace : UInt16 := 0x7B

def closeBrace : UInt16 := 0x7D

/-- A match of `/\{\{([^}]+)\}\}/` at the front: the group and what follows. -/
def matchAt : JsString → Option (JsString × JsString)
  | a :: b :: rest =>
    if a = openBrace ∧ b = openBrace then
      let key := rest.takeWhile (· ≠ closeBrace)
      match rest.dropWhile (· ≠ closeBrace) with
      | _ :: c :: after => if key ≠ [] ∧ c = closeBrace then some (key, after) else none
      | _ => none
    else none
  | _ => none

/-- The group of the first match: `text.match(/\{\{([^}]+)\}\}/)`. -/
def firstMatch : JsString → Option JsString
  | [] => none
  | c :: rest =>
    match matchAt (c :: rest) with
    | some (key, _) => some key
    | none => firstMatch rest

/-- A piece of a template: a code unit outside every match, or the group of a match. -/
inductive Piece where
  | unit (c : UInt16)
  | placeholder (key : JsString)
  deriving DecidableEq

/-- The matches of the pattern with the flag `g`, and the text between them. -/
def piecesWithin : Nat → JsString → List Piece
  | 0, _ => []
  | _ + 1, [] => []
  | fuel + 1, c :: rest =>
    match matchAt (c :: rest) with
    | some (key, after) => .placeholder key :: piecesWithin fuel after
    | none => .unit c :: piecesWithin fuel rest

def pieces (template : JsString) : List Piece := piecesWithin template.length template

def placeholderText (key : JsString) : JsString :=
  [openBrace, openBrace] ++ key ++ [closeBrace, closeBrace]

/-! ## Variable maps -/

/-- The properties that every plain object inherits, as the replacement text they turn into. -/
def inheritedProperties : List (JsString × JsString) :=
  let native (name : String) := js "function " ++ js name ++ js "() \x7b [native code] \x7d"
  (js "constructor", native "Object") :: (js "__proto__", js "[object Object]") ::
    ["__defineGetter__", "__defineSetter__", "hasOwnProperty", "__lookupGetter__",
      "__lookupSetter__", "isPrototypeOf", "propertyIsEnumerable", "toString", "valueOf",
      "toLocaleString"].map fun name => (js name, native name)

/-- `if (name in vars) return vars[name]`. -/
def lookIn (vars : JsMap JsString JsString) (name : JsString) : Option JsString :=
  (vars.get? name).or (inheritedProperties.lookup name)

/-- An upstream gate, as far as it is read: its metadata. -/
abbrev GateStates := JsMap JsString (Option (JsMap JsString JsString))

/-- The variable maps of one substitution. -/
structure Vars where
  builtinVars : JsMap JsString JsString
  agentVars : JsMap JsString JsString
  allGateStates : Option GateStates

/-- The code units that `.` does not match. -/
def isLineTerminator (c : UInt16) : Bool := c ∈ [0x0A, 0x0D, 0x2028, 0x2029]

/-- `/^([^.]+)\.meta\.(.+)$/`: the gate and the field. -/
def metaMatch (name : JsString) : Option (JsString × JsString) :=
  let gateId := name.takeWhile (· ≠ 0x2E)
  let rest := name.dropWhile (· ≠ 0x2E)
  let field := rest.drop 6
  if gateId ≠ [] ∧ (js ".meta.").isPrefixOf rest ∧ field ≠ [] ∧ ! field.any isLineTerminator then
    some (gateId, field)
  else none

/-- The map that the namespace of a name selects, and the name in it. -/
def select (vars : Vars) (name : JsString) : Option (JsMap JsString JsString × JsString) :=
  if (js "project.").isPrefixOf name then none
  else if (js "agent.").isPrefixOf name then some (vars.agentVars, name.drop 6)
  else
    match metaMatch name, vars.allGateStates with
    | some (gateId, field), some states =>
      (states.get? gateId).join.map fun metadata => (metadata, field)
    | _, _ => some (vars.builtinVars, name)

/-- What the replacer answers for a group, if it does not answer the match itself. -/
def resolve (vars : Vars) (key : JsString) : Option JsString :=
  (select vars (trim key)).bind fun p => lookIn p.1 p.2

/-- A piece with an answer in the place of its match, or the match itself. -/
def Piece.render (answer : JsString → Option JsString) : Piece → JsString
  | .unit c => [c]
  | .placeholder key => (answer key).getD (placeholderText key)

def substituteVars (template : JsString) (vars : Vars) : JsString :=
  (pieces template).flatMap (Piece.render (resolve vars))

def isCommandStepSkippable (resolvedCmd : JsString) : Option JsString :=
  let trimmed := trim resolvedCmd
  if trimmed = [] then some (js "Skipped — command is empty (no value configured)")
  else (firstMatch trimmed).map fun key =>
    js "Skipped — unresolved template variable " ++ placeholderText (trim key) ++
      js " (not configured for this project)"

end Bobbit.Server.TemplateVars
