import Bobbit.Server.WorkflowStore
import Bobbit.Lib.CycleSearch
import Bobbit.Lib.JsMap

/-!
# Workflow validator

Model of `src/server/agent/workflow-validator.ts`: `validateWorkflowDefinition` walks a raw
definition and collects errors, and `freezeWorkflowDefinition` normalizes a definition that
has none.

Numbers are read through `JsNumeric`, and `toLowerCase` is a parameter of the
"Did you mean" suggestions.
-/

namespace Bobbit.Server.WorkflowValidator

open Bobbit.Lib Bobbit.Server.WorkflowStore

/-- What the validator asks of a number: its value when it is finite, and its text. -/
class JsNumeric (ν : Type) extends JsNumber ν where
  value : ν → Option Rat
  text : ν → JsString

structure WorkflowComponentRef where
  name : JsString
  commands : Option (List (JsString × JsString))

variable {ν : Type} [JsNumeric ν]

/-! ## Kinds of raw values -/

def isPlainObject : Option (Json ν) → Bool
  | some (.obj _) => true
  | _ => false

def isNonEmptyString : Option (Json ν) → Bool
  | some (.str s) => ! (JsString.trim s).isEmpty
  | _ => false

/-- The items of an array of strings. -/
def stringItems? (items : List (Json ν)) : Option (List JsString) :=
  items.mapM fun item => match item with
    | .str s => some s
    | _ => none

/-- `isStringArray`, with the strings. -/
def stringArray? : Option (Json ν) → Option (List JsString)
  | some (.arr items) => stringItems? items
  | _ => none

/-- A property that is there but is no string. -/
def notString (r : Json ν) (key : JsString) : Bool :=
  match r.get key with
  | none | some (.str _) => false
  | _ => true

/-- A property that is there but is no boolean. -/
def notBoolean (r : Json ν) (key : JsString) : Bool :=
  match r.get key with
  | none | some (.bool _) => false
  | _ => true

/-- A property that is there but is no finite number that passes. -/
def notNumber (r : Json ν) (key : JsString) (passes : Rat → Bool) : Bool :=
  match r.get key with
  | none => false
  | some (.num n) => ! (JsNumeric.value n).any passes
  | _ => true

/-- A property that is there but is no array of strings. -/
def notStringArray (r : Json ν) (key : JsString) : Bool :=
  (r.get key).isSome && (stringArray? (r.get key)).isNone

/-- JavaScript truthiness; `none` is `undefined`. -/
def truthy : Option (Json ν) → Bool
  | none | some .null => false
  | some (.bool b) => b
  | some (.num n) => JsNumber.truthy n
  | some (.str s) => ! s.isEmpty
  | some (.arr _) | some (.obj _) => true

mutual

/-- `String(value)`. -/
def toText : Json ν → JsString
  | .null => js "null"
  | .bool b => if b then js "true" else js "false"
  | .num n => JsNumeric.text n
  | .str s => s
  | .arr items => (joinItems items).drop 1
  | .obj _ => js "[object Object]"

/-- The items that `Array.prototype.join` writes, a comma before each. -/
def joinItems : List (Json ν) → JsString
  | [] => []
  | .null :: rest => js "," ++ joinItems rest
  | item :: rest => js "," ++ toText item ++ joinItems rest

end

def natText (n : Nat) : JsString := js (toString n)

def quoted (s : JsString) : JsString := js "\"" ++ s ++ js "\""

/-- The messages whose condition holds. -/
def failures (checks : List (Bool × JsString)) : List JsString :=
  (checks.filter (·.1)).map (·.2)

/-! ## Ids -/

def isIdUnit (c : UInt16) : Bool := (0x61 ≤ c && c ≤ 0x7A) || (0x30 ≤ c && c ≤ 0x39)

/-- `WORKFLOW_ID_PATTERN`. -/
def isWorkflowId (s : JsString) : Bool :=
  s.all (fun c => isIdUnit c || c == 0x2D) && s.head?.any isIdUnit && s.getLast?.any isIdUnit

/-- `workflowLabel`, also the gate id that step errors name. -/
def labelOf (raw : Json ν) : JsString :=
  match stringField raw (js "id") with
  | some (c :: cs) => c :: cs
  | _ => js "(anonymous)"

def gateDependencies (gate : Json ν) : Option (Json ν) :=
  match gate.get (js "depends_on") with
  | some (.arr items) => some (.arr items)
  | _ => gate.get (js "dependsOn")

/-! ## Suggestions -/

/-- One row of the distance table: `above` is the row before, `left` its new first entry. -/
def nextRow (c : UInt16) : JsString → List Nat → Nat → List Nat
  | d :: ds, diagonal :: up :: above, left =>
    let entry := min (min (left + 1) (up + 1)) (diagonal + if c = d then 0 else 1)
    entry :: nextRow c ds (up :: above) entry
  | _, _, _ => []

def levenshtein (a b : JsString) : Nat :=
  if a = b then 0
  else if a.isEmpty then b.length
  else if b.isEmpty then a.length
  else
    let rows := a.zipIdx.foldl (fun above ci => (ci.2 + 1) :: nextRow ci.1 b above (ci.2 + 1))
      (List.range (b.length + 1))
    rows.getLast?.getD 0

/-- `suggest`: the first of the closest candidates, when it is close enough. -/
def suggest (toLowerCase : JsString → JsString) (value : JsString) (candidates : List JsString) :
    Option JsString :=
  let closest := candidates.foldl (fun (best : Option (JsString × Nat)) candidate =>
    let distance := levenshtein (toLowerCase value) (toLowerCase candidate)
    if best.all (distance < ·.2) then some (candidate, distance) else best) none
  match closest with
  | some (best, distance) => if distance ≤ max 2 (value.length / 3) then some best else none
  | none => none

/-! ## Verification steps -/

/-- The property names every plain object has. -/
def objectPrototype : List JsString :=
  ["constructor", "__defineGetter__", "__defineSetter__", "hasOwnProperty", "__lookupGetter__",
    "__lookupSetter__", "isPrototypeOf", "propertyIsEnumerable", "toString", "valueOf",
    "__proto__", "toLocaleString"].map js

/-- `projectTokenIn` at the start of a text, after the two braces. -/
def projectTokenHere (s : JsString) : Option JsString :=
  let s := s.dropWhile JsString.isTrimmed
  if (js "project.").isPrefixOf s then
    let s := s.drop 8
    let isName : UInt16 → Bool := fun c => c != 0x7D && ! JsString.isTrimmed c
    let name := s.takeWhile isName
    let after := (s.dropWhile isName).dropWhile JsString.isTrimmed
    if ! name.isEmpty && ([0x7D, 0x7D] : JsString).isPrefixOf after then some name else none
  else none

/-- `projectTokenIn`: the name in the first project token of a text. -/
def projectTokenIn : JsString → Option JsString
  | [] => none
  | c :: cs =>
    let here := if ([0x7B, 0x7B] : JsString).isPrefixOf (c :: cs) then
      projectTokenHere (cs.drop 1) else none
    here.or (projectTokenIn cs)

/-- The tail of a message that a name was not found. -/
def suggestion (toLowerCase : JsString → JsString) (value : JsString) (candidates : List JsString)
    (none? : JsString) : JsString :=
  match suggest toLowerCase value candidates with
  | some hint => js " Did you mean " ++ quoted hint ++ js "?"
  | none =>
    if candidates.isEmpty then none?
    else js " Available: " ++ (js ", ").intercalate candidates ++ js "."

/-- The reference of a command step to a component's command. -/
def commandReferenceErrors (toLowerCase : JsString → JsString)
    (components : List WorkflowComponentRef) (component command : JsString) : List JsString :=
  match components.reverse.find? (·.name == component) with
  | none => []
  | some ref =>
    let available := (ref.commands.getD []).map (·.1)
    if ref.commands.isSome && (command ∈ available || command ∈ objectPrototype) then []
    else [js "component " ++ quoted ref.name ++ js " has no command " ++ quoted command ++ js "." ++
      suggestion toLowerCase command available
        (js " Component " ++ quoted ref.name ++ js " has no commands defined (data-only).")]

/-- What is wrong with one step of `validateWorkflowSteps`. -/
def stepReasons (toLowerCase : JsString → JsString) (components : List WorkflowComponentRef)
    (validateComponentReferences : Bool) (step : Json ν) : List JsString :=
  let field := stringField step
  let given := fun key => isNonEmptyString (step.get key)
  let label := failures
    [(isTrue step (js "optional") && ! truthy (step.get (js "optionalLabel")) &&
        ! truthy (step.get (js "label")), js "step is optional: true but has no optionalLabel.")]
  let type : Json ν := match step.get (js "type") with
    | none | some .null => .str (js "command")
    | some value => value
  let token := ((field (js "run")).bind projectTokenIn).or ((field (js "prompt")).bind projectTokenIn)
  let component := (field (js "component")).getD []
  label ++
    match token with
    | some name =>
      [js "uses removed token \"\x7b\x7bproject." ++ name ++ js ("\x7d\x7d\". Replace " ++
        "command-shape steps with \x7b component, command \x7d structural refs (see " ++
        "docs/design/multi-repo-components.md §3.3).")]
    | none =>
      if validateComponentReferences && given (js "component") &&
          components.all (·.name != component) then
        [js "component " ++ quoted component ++ js " not found in components[]." ++
          suggestion toLowerCase component (components.map (·.name)) []]
      else match type with
        | .str name =>
          if name = js "command" then
            if given (js "command") && given (js "run") then
              [js "type: command step has both \"command\" and \"run\" set; pick exactly one."]
            else if ! given (js "command") && ! given (js "run") then
              [js "type: command step has neither \"command\" nor \"run\" set; one is required."]
            else if given (js "command") && ! given (js "component") then
              [js ("type: command step has \"command\" but no \"component\"; structural commands " ++
                "must reference a component.")]
            else if validateComponentReferences && given (js "component") && given (js "command") then
              commandReferenceErrors toLowerCase components component
                ((field (js "command")).getD [])
            else []
          else if name = js "llm-review" || name = js "agent-qa" then
            failures [(! given (js "prompt"),
              js "type: " ++ name ++ js " step requires a non-empty \"prompt\".")]
          else if name = js "human-signoff" then
            failures [
              (! given (js "prompt"), js "type: human-signoff step requires a non-empty \"prompt\"."),
              (! given (js "label"), js "type: human-signoff step requires a non-empty \"label\".")]
          else if name = js "subgoal" then []
          else [unknown type]
        | _ => [unknown type]
where
  unknown (type : Json ν) : JsString :=
    js "unknown step type \"" ++ toText type ++
      js "\"; expected one of: command, llm-review, agent-qa, subgoal, human-signoff."

/-- The message of a `WorkflowResolveError`. -/
def resolveError (workflow gate : JsString) (stepIndex : Nat) (stepName reason : JsString) :
    JsString :=
  let label := if stepName.isEmpty then natText (stepIndex + 1)
    else natText (stepIndex + 1) ++ js " (" ++ quoted stepName ++ js ")"
  js "Workflow " ++ quoted workflow ++ js ", gate " ++ quoted gate ++ js ", step " ++ label ++
    js ": " ++ reason

def validateWorkflowSteps (toLowerCase : JsString → JsString) (raw : Json ν)
    (components : List WorkflowComponentRef) (validateComponentReferences : Bool) :
    List JsString :=
  ((arrayField raw (js "gates")).getD []).flatMap fun gate =>
    ((arrayField gate (js "verify")).getD []).zipIdx.flatMap fun (step, i) =>
      if isPlainObject (some step) then
        (stepReasons toLowerCase components validateComponentReferences step).map
          (resolveError (labelOf raw) (labelOf gate) i ((stringField step (js "name")).getD []))
      else []

/-! ## The definition -/

/-- A subgoal step as the dependency checks see it. -/
structure SubgoalRef where
  gateId : JsString
  stepIndex : Nat
  planId : JsString
  dependsOn : List JsString

/-- The fields of the workflow itself. -/
def headerErrors (raw : Json ν) : List JsString :=
  let workflow := js "Workflow " ++ quoted (labelOf raw)
  (if ! isNonEmptyString (raw.get (js "id")) then [js "Missing workflow id"]
    else if ! isWorkflowId ((stringField raw (js "id")).getD []) then
      [js "Workflow id must be lowercase alphanumeric + hyphens (e.g. 'my-workflow')"]
    else []) ++
  failures (
    [(! isNonEmptyString (raw.get (js "name")), js "Missing workflow name"),
      (notString raw (js "description"), workflow ++ js " description must be a string"),
      (notBoolean raw (js "hidden"), workflow ++ js " hidden must be a boolean")] ++
    [js "createdAt", js "updatedAt"].map fun timestamp =>
      (notNumber raw timestamp (fun q => 0 ≤ q),
        workflow ++ js " " ++ timestamp ++ js " must be a finite non-negative number"))

/-- The dependencies of a subgoal payload, by the precedence of its two spellings. -/
def subgoalDependencies (subgoal : Json ν) : List (Json ν) :=
  ((arrayField subgoal (js "dependsOn")).or (arrayField subgoal (js "depends_on"))).getD []

def isSubgoalStep (step : Json ν) : Bool := stringField step (js "type") = some (js "subgoal")

def stepErrors (intro : JsString) (step : Json ν) : List JsString :=
  failures (
    [(! isNonEmptyString (step.get (js "name")), intro ++ js ": step must have a non-empty name")] ++
    ([js "run", js "prompt", js "role", js "label", js "optionalLabel", js "description",
        js "failureGuidance", js "component", js "command"].map fun stringField =>
      (notString step stringField, intro ++ js ": " ++ stringField ++ js " must be a string")) ++
    [(notBoolean step (js "optional"), intro ++ js ": optional must be a boolean"),
      ((step.get (js "expect")).isSome && stringField step (js "expect") ≠ some (js "success") &&
          stringField step (js "expect") ≠ some (js "failure"),
        intro ++ js ": expect must be \"success\" or \"failure\""),
      (notNumber step (js "timeout") (fun q => q.den = 1 && 0 < q),
        intro ++ js ": timeout must be a finite positive integer"),
      (notNumber step (js "phase") (fun q => q.den = 1 && 0 ≤ q),
        intro ++ js ": phase must be a finite non-negative integer")]) ++
  if isSubgoalStep step then
    match step.get (js "subgoal") with
    | some (.obj fields) =>
      let subgoal : Json ν := .obj fields
      failures (
        ([js "planId", js "title", js "spec"].map fun required =>
          (! isNonEmptyString (subgoal.get required),
            intro ++ js ": subgoal." ++ required ++ js " must be a non-empty string")) ++
        ([js "workflowId", js "workflow_id", js "suggestedRole", js "suggested_role"].map
          fun optional => (notString subgoal optional,
            intro ++ js ": subgoal." ++ optional ++ js " must be a string")) ++
        ([js "dependsOn", js "depends_on"].map fun depField =>
          (notStringArray subgoal depField,
            intro ++ js ": subgoal." ++ depField ++ js " must be an array of strings")))
    | _ => [intro ++ js ": type: subgoal step requires a \"subgoal\" object"]
  else failures [((step.get (js "subgoal")).isSome && ! isPlainObject (step.get (js "subgoal")),
    intro ++ js ": subgoal must be a plain object")]

def stepSubgoal? (gateId : JsString) (stepIndex : Nat) (step : Json ν) : Option SubgoalRef :=
  match isSubgoalStep step, step.get (js "subgoal") with
  | true, some (.obj fields) =>
    let subgoal : Json ν := .obj fields
    match stringField subgoal (js "planId"), stringItems? (subgoalDependencies subgoal) with
    | some planId, some dependsOn =>
      if isNonEmptyString (some (.str planId : Json ν)) then
        some ⟨gateId, stepIndex, planId, dependsOn⟩
      else none
    | _, _ => none
  | _, _ => none

/-- The errors of one gate but those of its id. -/
def gateFieldErrors (wfId gateId : JsString) (gate : Json ν) : List JsString :=
  let intro := js "Gate " ++ quoted gateId
  failures (
    [(! isNonEmptyString (gate.get (js "name")), intro ++ js " must have a name")] ++
    ([js "dependsOn", js "depends_on"].map fun depField =>
      (notStringArray gate depField, intro ++ js " " ++ depField ++ js " must be an array of strings")) ++
    [((stringArray? (gateDependencies gate)).any fun deps => ! deps.Nodup,
      intro ++ js " has duplicate dependencies")] ++
    ([js "content", js "injectDownstream", js "inject_downstream", js "optional", js "manual"].map
      fun boolField => (notBoolean gate boolField,
        intro ++ js " " ++ boolField ++ js " must be a boolean")) ++
    [(match gate.get (js "metadata") with
        | none => false
        | some (.obj fields) => fields.any fun field => match field.2 with
          | .str _ => false
          | _ => true
        | _ => true,
      intro ++ js " metadata must be an object with string values")]) ++
  match gate.get (js "verify") with
  | none => []
  | some (.arr steps) => steps.zipIdx.flatMap fun (step, i) =>
    if isPlainObject (some step) then
      stepErrors (js "Workflow " ++ quoted wfId ++ js ", gate " ++ quoted gateId ++ js ", step " ++
        natText (i + 1)) step
    else [js "Workflow " ++ quoted wfId ++ js ", gate " ++ quoted gateId ++ js ", step " ++
      natText (i + 1) ++ js ": step must be a plain object"]
  | _ => [intro ++ js " verify must be an array"]

/-- What the walk over the gates has found so far. -/
structure Scan (ν : Type) where
  errors : List JsString
  ids : JsSet JsString
  gateRecords : List (Json ν)
  subgoals : List SubgoalRef

def scanGate (wfId : JsString) (s : Scan ν) (entry : Json ν × Nat) : Scan ν :=
  let (gate, gateIndex) := entry
  if ! isPlainObject (some gate) then
    { s with errors := s.errors ++ [js "Workflow " ++ quoted wfId ++ js ", gate " ++
        natText (gateIndex + 1) ++ js ": gate must be a plain object"] }
  else
    let id := (stringField gate (js "id")).getD []
    let named := isNonEmptyString (gate.get (js "id"))
    let gateId := if named then id else js "(gate " ++ natText (gateIndex + 1) ++ js ")"
    let idErrors :=
      if ! named then [js "Each gate must have an id"]
      else if ! isWorkflowId id then
        [js "Gate ID " ++ quoted id ++
          js " must be lowercase alphanumeric + hyphens (e.g. 'issue-analysis')"]
      else if id ∈ s.ids.members then [js "Duplicate gate ID: " ++ quoted id]
      else []
    { errors := s.errors ++ idErrors ++ gateFieldErrors wfId gateId gate
      ids := if idErrors.isEmpty then s.ids.add id else s.ids
      gateRecords := s.gateRecords ++ [gate]
      subgoals := s.subgoals ++ ((arrayField gate (js "verify")).getD []).zipIdx.filterMap
        fun (step, i) => stepSubgoal? gateId i step }

/-- The dependencies a map holds for an id, but for those it does not hold. -/
def knownSuccessors (known : JsMap JsString (List JsString)) (id : JsString) : List JsString :=
  ((JsMap.get? known id).getD []).filter fun dep => (JsMap.get? known dep).isSome

/-- The cycle search over a map of dependencies, in key order. -/
def cycleErrors (known : JsMap JsString (List JsString)) (message : JsString) : List JsString :=
  match CycleSearch.search (knownSuccessors known) ((JsMap.keys known).length + 1)
      (JsMap.keys known) with
  | .ok _ => []
  | .error id => [message ++ quoted id]

/-- What is wrong with the dependencies of one node. -/
def dependencyErrors (intro : JsString) (ids : List JsString) (id : JsString)
    (deps : List JsString) : List JsString :=
  deps.flatMap fun dependency =>
    if dependency = id then [intro ++ quoted id ++ js " depends on itself"]
    else if dependency ∉ ids then
      [intro ++ quoted id ++ js " depends on unknown " ++ quoted dependency]
    else []

/-- The gates with an id, with the dependencies that are an array of strings. -/
def namedGates (gateRecords : List (Json ν)) : List (JsString × List JsString) :=
  gateRecords.filterMap fun gate =>
    if isNonEmptyString (gate.get (js "id")) then
      some ((stringField gate (js "id")).getD [],
        (stringArray? (gateDependencies gate)).getD [])
    else none

/-- The plan ids that were seen before. -/
def duplicatePlanErrors : List JsString → List JsString → List JsString
  | _, [] => []
  | seen, planId :: rest =>
    (if planId ∈ seen then [js "Duplicate subgoal planId: " ++ quoted planId] else []) ++
      duplicatePlanErrors (seen ++ [planId]) rest

def validateWorkflowDefinition (toLowerCase : JsString → JsString) (raw : Json ν)
    (components : List WorkflowComponentRef) (validateComponentReferences : Bool) :
    List JsString :=
  if ! isPlainObject (some raw) then [js "Workflow must be a plain object"]
  else
    let gates := (arrayField raw (js "gates")).getD []
    if gates.isEmpty then headerErrors raw ++ [js "Workflow must have at least one gate"]
    else
      let scan := gates.zipIdx.foldl (scanGate (labelOf raw)) ⟨[], .empty, [], []⟩
      let named := namedGates scan.gateRecords
      let plans := scan.subgoals.map fun s => (s.planId, s.dependsOn)
      headerErrors raw ++ scan.errors ++
        (named.flatMap fun gate => dependencyErrors (js "Gate ") scan.ids.members gate.1 gate.2) ++
        cycleErrors (named.foldl (fun m gate => JsMap.set m gate.1 gate.2) [])
          (js "Circular dependency detected involving ") ++
        duplicatePlanErrors [] (plans.map (·.1)) ++
        (plans.flatMap fun plan =>
          dependencyErrors (js "Subgoal ") (plans.map (·.1)) plan.1 plan.2) ++
        cycleErrors (plans.foldl (fun m plan => JsMap.set m plan.1 plan.2) [])
          (js "Circular subgoal dependency detected involving ") ++
        validateWorkflowSteps toLowerCase raw components validateComponentReferences

/-- `freezeWorkflowDefinition`: the first validation error, or the normalized definition. -/
def freezeWorkflowDefinition (toLowerCase : JsString → JsString) (raw : Json ν)
    (components : List WorkflowComponentRef) (idHint : JsString)
    (validateComponentReferences : Bool) : Except JsString (Workflow ν (Json ν)) :=
  match validateWorkflowDefinition toLowerCase raw components validateComponentReferences with
  | error :: _ => .error error
  | [] => do
    match ← normalizeWorkflow raw idHint with
    | some workflow => .ok workflow
    | none => .error (js "Invalid workflow definition")

end Bobbit.Server.WorkflowValidator
