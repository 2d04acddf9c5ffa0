import Bobbit.Lib.JsonRecord
import Bobbit.Lib.Bfs

/-!
# Workflow store

Model of `src/server/agent/workflow-store.ts`: the runtime shape of a workflow, its
normalization from the inline shape (`normalizeStep`, `normalizeGate`,
`normalizeWorkflow`), the inline shape it is saved in (`serializeWorkflow`), and the child's
copy of a parent meta-workflow (`stripSubgoalStepsForChildInheritance`).

`δ` is the type of a gate's dependencies: `normalizeGate` takes over the items of the
array it finds without looking at them, so they are JSON values there and strings in a
workflow that has been checked.
-/

namespace Bobbit.Server.WorkflowStore

open Bobbit.Lib

variable {ν δ : Type}

/-- `VerifyStep["type"]`. -/
inductive StepType
  | command
  | llmReview
  | agentQa
  | subgoal
  | humanSignoff
deriving DecidableEq

/-- `VerifyStep["expect"]`. -/
inductive Expect
  | success
  | failure
deriving DecidableEq

structure VerifyStepSubgoal where
  planId : JsString
  title : JsString
  spec : JsString
  workflowId : Option JsString
  suggestedRole : Option JsString
  dependsOn : Option (List JsString)
deriving DecidableEq

/-- A verification step; a flag that may be absent is false when it is. -/
structure VerifyStep (ν : Type) where
  name : JsString
  type : StepType
  run : Option JsString
  prompt : Option JsString
  expect : Option Expect
  timeout : Option ν
  phase : Option ν
  optional : Bool
  label : Option JsString
  optionalLabel : Option JsString
  role : Option JsString
  description : Option JsString
  failureGuidance : Option JsString
  component : Option JsString
  command : Option JsString
  subgoal : Option VerifyStepSubgoal
deriving DecidableEq

structure WorkflowGate (ν δ : Type) where
  id : JsString
  name : JsString
  dependsOn : List δ
  content : Bool
  injectDownstream : Bool
  optional : Bool
  manual : Bool
  metadata : Option (List (JsString × Json ν))
  verify : Option (List (VerifyStep ν))

structure Workflow (ν δ : Type) where
  id : JsString
  name : JsString
  description : JsString
  gates : List (WorkflowGate ν δ)
  createdAt : ν
  updatedAt : ν
  hidden : Bool

/-! ## Normalization -/

/-- `typeof r.key === "string"`. -/
def stringField (r : Json ν) (key : JsString) : Option JsString :=
  match r.get key with
  | some (.str s) => some s
  | _ => none

/-- `typeof r.key === "number"`. -/
def numberField (r : Json ν) (key : JsString) : Option ν :=
  match r.get key with
  | some (.num n) => some n
  | _ => none

/-- `Array.isArray(r.key)`. -/
def arrayField (r : Json ν) (key : JsString) : Option (List (Json ν)) :=
  match r.get key with
  | some (.arr items) => some items
  | _ => none

/-- `r.key === true`. -/
def isTrue (r : Json ν) (key : JsString) : Bool :=
  match r.get key with
  | some (.bool b) => b
  | _ => false

def strings (items : List (Json ν)) : List JsString :=
  items.filterMap fun item => match item with
    | .str s => some s
    | _ => none

/-- The known step types by their names. -/
def stepTypes : List (JsString × StepType) :=
  [(js "command", .command), (js "llm-review", .llmReview), (js "agent-qa", .agentQa),
    (js "subgoal", .subgoal), (js "human-signoff", .humanSignoff)]

def stepType? (name : JsString) : Option StepType :=
  (stepTypes.find? (·.1 == name)).map (·.2)

/-- The subgoal payload of `normalizeStep`. -/
def normalizeSubgoal (sg : Json ν) : VerifyStepSubgoal where
  planId := (stringField sg (js "planId")).getD ((stringField sg (js "plan_id")).getD [])
  title := (stringField sg (js "title")).getD []
  spec := (stringField sg (js "spec")).getD []
  workflowId := (stringField sg (js "workflowId")).or (stringField sg (js "workflow_id"))
  suggestedRole := (stringField sg (js "suggestedRole")).or (stringField sg (js "suggested_role"))
  dependsOn := ((arrayField sg (js "dependsOn")).or (arrayField sg (js "depends_on"))).map strings

/-- `normalizeStep`; the error is the unknown step type it throws on. -/
def normalizeStep [JsNumber ν] (r : Json ν) : Except JsString (VerifyStep ν) := do
  let type ← match r.get (js "type") with
    | none => .ok StepType.command
    | some value =>
      match value with
      | .str name =>
        match stepType? name with
        | some type => .ok type
        | none => .error (unknownType value)
      | _ => .error (unknownType value)
  let optional := isTrue r (js "optional")
  let rawOptionalLabel := (stringField r (js "optionalLabel")).getD []
  let rawLabel := stringField r (js "label")
  return {
    name := (stringField r (js "name")).getD []
    type
    run := stringField r (js "run")
    prompt := stringField r (js "prompt")
    expect :=
      if stringField r (js "expect") = some (js "success") then some .success
      else if stringField r (js "expect") = some (js "failure") then some .failure
      else none
    timeout := numberField r (js "timeout")
    phase := numberField r (js "phase")
    optional
    -- `label` is the card title of a human-signoff step; elsewhere it is moved or dropped
    label := if type = .humanSignoff then rawLabel else none
    optionalLabel :=
      if ! rawOptionalLabel.isEmpty then some rawOptionalLabel
      else if type ≠ .humanSignoff && optional then rawLabel
      else none
    role := stringField r (js "role")
    description := stringField r (js "description")
    failureGuidance := stringField r (js "failureGuidance")
    component := stringField r (js "component")
    command := stringField r (js "command")
    subgoal := match r.get (js "subgoal") with
      | some (.obj fields) => some (normalizeSubgoal (.obj fields))
      | _ => none }
where
  unknownType (value : Json ν) : JsString :=
    js "Workflow step \"" ++ (stringField r (js "name")).getD (js "<unnamed>") ++
      js "\" has unknown type: " ++ value.stringify ++
      js ". Expected one of: command, llm-review, agent-qa, subgoal, human-signoff."

def normalizeGate [JsNumber ν] (r : Json ν) : Except JsString (WorkflowGate ν (Json ν)) := do
  let verify ← (arrayField r (js "verify")).mapM fun steps => steps.mapM normalizeStep
  return {
    id := (stringField r (js "id")).getD []
    name := (stringField r (js "name")).getD []
    dependsOn := ((arrayField r (js "depends_on")).or (arrayField r (js "dependsOn"))).getD []
    content := isTrue r (js "content")
    injectDownstream := isTrue r (js "inject_downstream") || isTrue r (js "injectDownstream")
    optional := isTrue r (js "optional")
    manual := isTrue r (js "manual")
    metadata := match r.get (js "metadata") with
      | some (.obj fields) => some fields
      | _ => none
    verify }

/-- `normalizeWorkflow`; `none` is the `null` it returns without an object or an id. -/
def normalizeWorkflow [JsNumber ν] (raw : Json ν) (idHint : JsString) :
    Except JsString (Option (Workflow ν (Json ν))) := do
  let isObject := match raw with
    | .arr _ | .obj _ => true
    | _ => false
  if ! isObject then return none
  let id := match stringField raw (js "id") with
    | some (c :: cs) => c :: cs
    | _ => idHint
  if id.isEmpty then return none
  let gates ← ((arrayField raw (js "gates")).getD []).mapM normalizeGate
  return some {
    id
    name := (stringField raw (js "name")).getD id
    description := (stringField raw (js "description")).getD []
    gates
    createdAt := (numberField raw (js "createdAt")).getD (JsNumber.read (js "0"))
    updatedAt := (numberField raw (js "updatedAt")).getD (JsNumber.read (js "0"))
    hidden := isTrue raw (js "hidden") }

/-- What a workflow normalizes to has an id, and the normalized gates. -/
theorem normalizeWorkflow_ok [JsNumber ν] {raw : Json ν} {idHint : JsString}
    {wf : Workflow ν (Json ν)} (h : normalizeWorkflow raw idHint = .ok (some wf)) :
    wf.id ≠ [] ∧ ((arrayField raw (js "gates")).getD []).mapM normalizeGate = .ok wf.gates := by
  have hone : ∀ {b : Bool} {result : Except JsString (Option (Workflow ν (Json ν)))},
      (if b then .ok none else result) = .ok (some wf) → b = false ∧ result = .ok (some wf) := by
    intro b result h
    cases b with
    | true => cases h
    | false => exact ⟨rfl, h⟩
  obtain ⟨-, h⟩ := hone h
  obtain ⟨hid, hresult⟩ := hone h
  cases hgates : ((arrayField raw (js "gates")).getD []).mapM normalizeGate with
  | error e =>
    rw [hgates] at hresult
    cases hresult
  | ok gates =>
    rw [hgates] at hresult
    simp only [bind, Except.bind, pure, Except.pure, Except.ok.injEq, Option.some.injEq] at hresult
    subst hresult
    exact ⟨List.isEmpty_eq_false_iff.mp hid, rfl⟩

/-! ## Serialization -/

def stepTypeName : StepType → JsString
  | .command => js "command"
  | .llmReview => js "llm-review"
  | .agentQa => js "agent-qa"
  | .subgoal => js "subgoal"
  | .humanSignoff => js "human-signoff"

def expectName : Expect → JsString
  | .success => js "success"
  | .failure => js "failure"

/-- The subgoal payload of `serializeStep`. -/
def serializeSubgoal (sg : VerifyStepSubgoal) : Json ν :=
  .obj ([(js "planId", .str sg.planId), (js "title", .str sg.title), (js "spec", .str sg.spec)] ++
    Json.optionalField (js "workflowId") (sg.workflowId.map .str) ++
    Json.optionalField (js "suggestedRole") (sg.suggestedRole.map .str) ++
    Json.optionalField (js "dependsOn") (sg.dependsOn.map fun ids => .arr (ids.map .str)))

def serializeStep (s : VerifyStep ν) : Json ν :=
  .obj ([(js "name", .str s.name), (js "type", .str (stepTypeName s.type))] ++
    Json.optionalField (js "component") (s.component.map .str) ++
    Json.optionalField (js "command") (s.command.map .str) ++
    Json.optionalField (js "run") (s.run.map .str) ++
    Json.optionalField (js "prompt") (s.prompt.map .str) ++
    Json.optionalField (js "expect") (s.expect.map fun e => .str (expectName e)) ++
    Json.optionalField (js "timeout") (s.timeout.map .num) ++
    Json.optionalField (js "phase") (s.phase.map .num) ++
    Json.flagField (js "optional") s.optional ++
    Json.optionalField (js "label") (if s.type = .humanSignoff then s.label.map .str else none) ++
    Json.optionalField (js "optionalLabel") (s.optionalLabel.map .str) ++
    Json.optionalField (js "role") (s.role.map .str) ++
    Json.optionalField (js "description") (s.description.map .str) ++
    Json.optionalField (js "failureGuidance") (s.failureGuidance.map .str) ++
    Json.optionalField (js "subgoal") (s.subgoal.map serializeSubgoal))

def serializeGate (g : WorkflowGate ν (Json ν)) : Json ν :=
  .obj ([(js "id", .str g.id), (js "name", .str g.name)] ++
    Json.flagField (js "content") g.content ++
    Json.flagField (js "inject_downstream") g.injectDownstream ++
    Json.flagField (js "optional") g.optional ++
    Json.flagField (js "manual") g.manual ++
    Json.optionalField (js "depends_on")
      (if g.dependsOn.isEmpty then none else some (.arr g.dependsOn)) ++
    Json.optionalField (js "metadata") (g.metadata.map .obj) ++
    Json.optionalField (js "verify")
      ((g.verify.filter (! ·.isEmpty)).map fun steps => .arr (steps.map serializeStep)))

def serializeWorkflow (wf : Workflow ν (Json ν)) : Json ν :=
  .obj ([(js "id", .str wf.id), (js "name", .str wf.name),
      (js "description", .str wf.description)] ++
    Json.flagField (js "hidden") wf.hidden ++
    [(js "gates", .arr (wf.gates.map serializeGate))])

/-! ## The child's copy of a parent workflow -/

/-- The gate whose verification runs the subgoals. -/
def execution : JsString := js "execution"

def readyToMerge : JsString := js "ready-to-merge"

def isParentMetaWorkflow (wf : Workflow ν δ) : Bool :=
  wf.id == js "parent" ||
    match wf.gates.find? (·.id == execution) with
    | some exec => (exec.verify.getD []).any (·.type = .subgoal)
    | none => false

/-- Change the first gate of an id: what an assignment to a field of `gates.find(…)` does. -/
def updateGate (id : JsString) (f : WorkflowGate ν δ → WorkflowGate ν δ) :
    List (WorkflowGate ν δ) → List (WorkflowGate ν δ)
  | [] => []
  | g :: rest => if g.id == id then f g :: rest else g :: updateGate id f rest

/-- Step 1: the steps of `execution` that are no subgoals. -/
def withoutSubgoalSteps (g : WorkflowGate ν δ) : WorkflowGate ν δ :=
  { g with verify := g.verify.map fun steps => steps.filter fun step => step.type ≠ .subgoal }

/-- The gates that list a dependency. -/
def dependents (gates : List (WorkflowGate ν JsString)) (id : JsString) : List JsString :=
  (gates.filter fun g => id ∈ g.dependsOn).map WorkflowGate.id

/-- The dependencies of the gate that `byId` holds for an id: with two of one id, the last. -/
def dependencies (gates : List (WorkflowGate ν JsString)) (id : JsString) : List JsString :=
  match gates.reverse.find? (·.id == id) with
  | some g => g.dependsOn
  | none => []

/-- The turns of a search: no more than the nodes queued first and all that can be found. -/
def searchFuel (gates : List (WorkflowGate ν JsString)) (roots : List JsString) : Nat :=
  roots.length + (gates.length + (gates.flatMap WorkflowGate.dependsOn).length)

def downstreamOfExec (gates : List (WorkflowGate ν JsString)) : JsSet JsString :=
  let roots := dependents gates execution
  Bfs.loop (dependents gates) (searchFuel gates roots) roots (.ofList roots)

/-- `upstreamOfRtm`; `rtm` is the gate that `find` returns. -/
def upstreamOfRtm (gates : List (WorkflowGate ν JsString)) (rtm : WorkflowGate ν JsString) :
    JsSet JsString :=
  let roots := rtm.dependsOn
  Bfs.loop (dependencies gates) (searchFuel gates roots) roots (.ofList roots)

/-- `aggregationGateIds`: the gates strictly between `execution` and `ready-to-merge`. -/
def aggregationGateIds (gates : List (WorkflowGate ν JsString)) : List JsString :=
  match gates.find? (·.id == readyToMerge) with
  | none => []
  | some rtm =>
    (downstreamOfExec gates).members.filter fun id =>
      id ≠ execution && id ≠ readyToMerge && id ∈ (upstreamOfRtm gates rtm).members

/-- Step 3b: `ready-to-merge` depends on `execution` directly. -/
def rewire (removed : List JsString) (g : WorkflowGate ν JsString) : WorkflowGate ν JsString :=
  let kept := g.dependsOn.filter (· ∉ removed)
  { g with dependsOn := if execution ∈ kept then kept else kept ++ [execution] }

/-- Step 3c: no reference to a removed gate is left. -/
def prune (removed : List JsString) (g : WorkflowGate ν JsString) : WorkflowGate ν JsString :=
  { g with dependsOn := g.dependsOn.filter (· ∉ removed) }

/-- `stripSubgoalStepsForChildInheritance`; the deep clone it starts with is the value itself. -/
def stripSubgoalStepsForChildInheritance (wf : Workflow ν JsString) : Workflow ν JsString :=
  if ! isParentMetaWorkflow wf then wf
  else if (wf.gates.find? (·.id == execution)).isNone then wf
  else
    let gates := updateGate execution withoutSubgoalSteps wf.gates
    let removed := aggregationGateIds gates
    if removed.isEmpty then { wf with gates }
    else
      let left := gates.filter fun g => g.id ∉ removed
      { wf with gates := (updateGate readyToMerge (rewire removed) left).map (prune removed) }

end Bobbit.Server.WorkflowStore
