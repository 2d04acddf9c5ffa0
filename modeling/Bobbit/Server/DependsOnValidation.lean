import Bobbit.Lib.JsSet
import Bobbit.Lib.Kahn

/-!
# Validation of plan dependencies

Model of `src/server/agent/depends-on-validation.ts`. An answer that is not ok is an
error of `DependsOnError`. The `while` loop over the queue is `Kahn.loop`; its fuel is
the number of steps.
-/

namespace Bobbit.Server.DependsOn

open Lib

/-- The answers with `ok: false`. -/
inductive DependsOnError
  | selfDependency (planId : String)
  | unknownPlanId (missing : List String)
  | dependsOnCycle (path : List String)
  | duplicatePlanId (planId : String)
deriving DecidableEq

structure DependsOnStep where
  planId : String
  dependsOn : Option (List String)
deriving DecidableEq

/-- `step.dependsOn ?? []`. -/
def DependsOnStep.deps (step : DependsOnStep) : List String := step.dependsOn.getD []

structure ValidateDependsOnInput where
  planId : String
  dependsOn : Option (List String)
  knownPlanIds : List String

def validateDependsOn (input : ValidateDependsOnInput) : Except DependsOnError Unit :=
  let deps := input.dependsOn.getD []
  if deps.length = 0 then .ok ()
  else if input.planId ∈ deps then .error (.selfDependency input.planId)
  else
    let known := JsSet.ofList input.knownPlanIds
    let missing := deps.filter (· ∉ known.members)
    if 0 < missing.length then .error (.unknownPlanId missing) else .ok ()

/-- The first loop: the plan ids, none of them twice. -/
def collectPlanIds (steps : List DependsOnStep) : Except DependsOnError (JsSet String) :=
  steps.foldlM (fun planIds step =>
    if step.planId ∈ planIds.members then .error (.duplicatePlanId step.planId)
    else .ok (planIds.add step.planId)) .empty

/-- `if (!planIds.has(d) && !missing.includes(d)) missing.push(d)`. -/
def pushMissing (planIds : JsSet String) (missing : List String) (d : String) : List String :=
  if d ∉ planIds.members ∧ d ∉ missing then missing ++ [d] else missing

/-- The second loop: no step depends on itself, and the dependencies that no step has. -/
def collectMissing (planIds : JsSet String) (steps : List DependsOnStep) :
    Except DependsOnError (List String) :=
  steps.foldlM (fun missing step =>
    if step.planId ∈ step.deps then .error (.selfDependency step.planId)
    else .ok (step.deps.foldl (pushMissing planIds) missing)) []

/-- `inDegree` and `adj` with an entry for each step. -/
def emptyGraph (steps : List DependsOnStep) : JsMap String Int × JsMap String (List String) :=
  steps.foldl (fun graph step =>
    (JsMap.set graph.1 step.planId 0, JsMap.set graph.2 step.planId [])) ([], [])

/-- The loops that add the edges `d -> step.planId`. -/
def buildGraph (steps : List DependsOnStep) : JsMap String Int × JsMap String (List String) :=
  steps.foldl (fun graph step =>
    step.deps.foldl (fun graph d => Kahn.addEdge graph (d, step.planId)) graph) (emptyGraph steps)

/-- The third part: what is left when the queue is empty. -/
def checkCycle (steps : List DependsOnStep) : Except DependsOnError Unit :=
  let graph := buildGraph steps
  let queue := (graph.1.filter fun entry => entry.2 = 0).map (·.1)
  let result := Kahn.loop (fun id => (JsMap.get? graph.2 id).getD []) steps.length queue graph.1 0
  if result.2 < steps.length then
    .error (.dependsOnCycle ((result.1.filter fun entry => 0 < entry.2).map (·.1)))
  else .ok ()

def validatePlanDependsOn (steps : List DependsOnStep) : Except DependsOnError Unit := do
  let planIds ← collectPlanIds steps
  let missing ← collectMissing planIds steps
  if 0 < missing.length then .error (.unknownPlanId missing)
  else checkCycle steps

/-! ## Spawning one step at a time -/

/-- The checks of `POST /api/goals/:id/spawn-child` (`nested-goal-routes.ts`) on the plan steps of
    the children that are there, and the steps after it. Of the second check only a cycle counts. -/
def spawnChild (siblings : List DependsOnStep) (step : DependsOnStep) :
    Except DependsOnError (List DependsOnStep) :=
  if step.planId ∈ siblings.map (·.planId) then .ok siblings
  else
    match step.dependsOn with
    | none => .ok (siblings ++ [step])
    | some deps => do
      validateDependsOn ⟨step.planId, some deps, siblings.map (·.planId)⟩
      match validatePlanDependsOn (siblings ++ [step]) with
      | .error (.dependsOnCycle path) => .error (.dependsOnCycle path)
      | _ => return siblings ++ [step]

inductive ChildEvent
  | spawn (step : DependsOnStep)
  /-- a child leaves the store -/
  | delete (planId : String)

def childStep (siblings : List DependsOnStep) : ChildEvent → List DependsOnStep
  | .spawn step => (spawnChild siblings step).toOption.getD siblings
  | .delete planId => siblings.filter (·.planId ≠ planId)

end Bobbit.Server.DependsOn
