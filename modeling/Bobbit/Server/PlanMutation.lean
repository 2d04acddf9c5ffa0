import Bobbit.Lib.JsMap
import Bobbit.Lib.Json

/-!
# Plan mutations

Model of `classifyMutation` in `src/server/agent/plan-mutation.ts`: the most severe
structural change between the frozen steps of a plan and the proposed ones, which a
dropped acceptance criterion overrides. `toLocaleLowerCase("en")` is a parameter, and
phases are rational numbers.
-/

namespace Bobbit.Server

open Lib

inductive MutationKind
  | noop | fixUp | expansion | restructure | criteriaDrop
deriving DecidableEq

/-- The nested `subgoal` of a step. -/
structure PlanSubgoal where
  title : Option JsString
  spec : Option JsString
  workflowId : Option JsString
  suggestedRole : Option JsString
  dependsOn : Option (List JsString)

structure ClassifierPlanStep where
  planId : JsString
  phase : Option Rat
  spec : Option JsString
  title : Option JsString
  dependsOn : Option (List JsString)
  workflowId : Option JsString
  suggestedRole : Option JsString
  subgoal : Option PlanSubgoal

structure ClassifyMutationInput where
  current : List ClassifierPlanStep
  proposed : List ClassifierPlanStep
  rootAcceptanceCriteria : List JsString
  rootSpec : JsString

structure ClassifyMutationDiff where
  added : List JsString
  removed : List JsString
  modified : List JsString
  phaseChanges : List JsString

structure ClassifyMutationResult where
  kind : MutationKind
  summary : String
  uncoveredCriteria : Option (List JsString)
  diff : ClassifyMutationDiff

/-! ## Fields -/

/-- `replace(/\s+/g, " ")`; the flag says that the run of spaces is written already. -/
def collapseSpaces : Bool → JsString → JsString
  | _, [] => []
  | written, c :: rest =>
    if JsString.isTrimmed c then
      if written then collapseSpaces true rest else 0x20 :: collapseSpaces true rest
    else c :: collapseSpaces false rest

def normalise (toLocaleLowerCase : JsString → JsString) (s : JsString) : JsString :=
  toLocaleLowerCase (collapseSpaces false s).trim

namespace ClassifierPlanStep

/-- A field at the top level wins over the same field of `subgoal`. -/
def effective {β : Type} (top : Option β) (nested : PlanSubgoal → Option β) (s : ClassifierPlanStep) :
    Option β :=
  top.or (s.subgoal.bind nested)

def effectiveTitle (s : ClassifierPlanStep) : Option JsString := s.effective s.title (·.title)

def effectiveSpec (s : ClassifierPlanStep) : Option JsString := s.effective s.spec (·.spec)

def effectiveWorkflowId (s : ClassifierPlanStep) : Option JsString :=
  s.effective s.workflowId (·.workflowId)

def effectiveRole (s : ClassifierPlanStep) : Option JsString :=
  s.effective s.suggestedRole (·.suggestedRole)

def effectiveDependsOn (s : ClassifierPlanStep) : List JsString :=
  (s.effective s.dependsOn (·.dependsOn)).getD []

/-- `phase ?? 0`. -/
def phaseOrZero (s : ClassifierPlanStep) : Rat := s.phase.getD 0

end ClassifierPlanStep

def sameSet (a b : List JsString) : Bool :=
  a.length == b.length && b.all (a.contains ·)

def maxPhase (steps : List ClassifierPlanStep) : Rat :=
  steps.foldl (fun m s => if s.phaseOrZero > m then s.phaseOrZero else m) 0

/-- The map from plan ids to steps; a later step replaces an earlier one. -/
def byPlanId (steps : List ClassifierPlanStep) : JsMap JsString ClassifierPlanStep :=
  steps.foldl (fun m s => m.set s.planId s) []

/-! ## Comparison -/

namespace ClassifyMutationInput

variable (input : ClassifyMutationInput)

def added : List JsString :=
  (input.proposed.filter fun s => ((byPlanId input.current).get? s.planId).isNone).map (·.planId)

def removed : List JsString :=
  (input.current.filter fun s => ((byPlanId input.proposed).get? s.planId).isNone).map (·.planId)

/-- The proposed steps that are there already, each after the current one. -/
def kept : List (ClassifierPlanStep × ClassifierPlanStep) :=
  input.proposed.filterMap fun s => ((byPlanId input.current).get? s.planId).map (·, s)

end ClassifyMutationInput

/-- The comparisons of a current step with a proposed one. -/
def titleChanged (c s : ClassifierPlanStep) : Bool := c.effectiveTitle ≠ s.effectiveTitle

def specChanged (c s : ClassifierPlanStep) : Bool := c.effectiveSpec ≠ s.effectiveSpec

def wfChanged (c s : ClassifierPlanStep) : Bool := c.effectiveWorkflowId ≠ s.effectiveWorkflowId

def roleChanged (c s : ClassifierPlanStep) : Bool := c.effectiveRole ≠ s.effectiveRole

def phaseChanged (c s : ClassifierPlanStep) : Bool := c.phaseOrZero ≠ s.phaseOrZero

def depsChanged (c s : ClassifierPlanStep) : Bool :=
  ! sameSet c.effectiveDependsOn s.effectiveDependsOn

/-- The condition under which a step counts as modified. -/
def stepChanged (c s : ClassifierPlanStep) : Bool :=
  titleChanged c s || specChanged c s || wfChanged c s || roleChanged c s || phaseChanged c s ||
    depsChanged c s

namespace ClassifyMutationInput

variable (input : ClassifyMutationInput)

def modified : List JsString :=
  (input.kept.filter fun pair => stepChanged pair.1 pair.2).map (·.2.planId)

def phaseChanges : List JsString :=
  (input.kept.filter fun pair => phaseChanged pair.1 pair.2).map (·.2.planId)

/-- The members of `dependsOnChanges`. -/
def dependsOnChanges : List JsString :=
  (input.kept.filter fun pair => depsChanged pair.1 pair.2).map (·.2.planId)

def diff : ClassifyMutationDiff :=
  ⟨input.added, input.removed, input.modified, input.phaseChanges⟩

/-! ## Classification -/

/-- Is there a phase change that compares the two phases so? -/
def anyPhase (compare : Rat → Rat → Bool) : Bool :=
  input.phaseChanges.any fun id =>
    match (byPlanId input.current).get? id, (byPlanId input.proposed).get? id with
    | some c, some p => compare p.phaseOrZero c.phaseOrZero
    | _, _ => false

def phaseDecrease : Bool := input.anyPhase (· < ·)

/-- A new step in a later phase than any current one, or a step that moves to a later phase. -/
def isExpansion : Bool :=
  (input.added.any fun id =>
    (((byPlanId input.proposed).get? id).map (·.phaseOrZero)).getD 0 > maxPhase input.current) ||
    input.anyPhase (· > ·)

/-- The kind before dependencies and criteria are looked at. -/
def structuralKind : MutationKind :=
  if input.added.isEmpty && input.removed.isEmpty && input.modified.isEmpty then .noop
  else if ! input.removed.isEmpty then .restructure
  else if input.phaseDecrease then .restructure
  else if input.isExpansion then .expansion
  else if ! input.added.isEmpty || ! input.modified.isEmpty then .fixUp
  else .noop

/-- The union of the specs that a criterion may stand in. -/
def haystack (toLocaleLowerCase : JsString → JsString) : JsString :=
  JsString.unlines (normalise toLocaleLowerCase input.rootSpec ::
    input.proposed.map fun s => normalise toLocaleLowerCase (s.effectiveSpec.getD []))

def uncovered (toLocaleLowerCase : JsString → JsString) : List JsString :=
  input.rootAcceptanceCriteria.filter fun crit =>
    let needle := normalise toLocaleLowerCase crit
    ! needle.isEmpty && ! decide (needle <:+: input.haystack toLocaleLowerCase)

end ClassifyMutationInput

def MutationKind.text : MutationKind → String
  | .noop => "noop"
  | .fixUp => "fix-up"
  | .expansion => "expansion"
  | .restructure => "restructure"
  | .criteriaDrop => "criteria-drop"

def buildSummary (kind : MutationKind) (diff : ClassifyMutationDiff) (uncovered : List JsString) :
    String :=
  let count (before : String) (ids : List JsString) (after : String) : List String :=
    if ids.isEmpty then [] else [before ++ toString ids.length ++ after]
  let parts := count "+" diff.added " added" ++ count "-" diff.removed " removed" ++
    count "" diff.modified " modified" ++ count "" diff.phaseChanges " phase changes"
  let diffSuffix := if parts.isEmpty then "" else " (" ++ ", ".intercalate parts ++ ")"
  match kind with
  | .criteriaDrop => "criteria-drop: " ++ toString uncovered.length ++
      " criterion(s) would become uncovered" ++ diffSuffix
  | .noop => "no effective change"
  | _ => kind.text ++ diffSuffix

def classifyMutation (toLocaleLowerCase : JsString → JsString) (input : ClassifyMutationInput) :
    ClassifyMutationResult :=
  let kind := input.structuralKind
  -- only a kind below `expansion` is raised
  let kind := if ! input.dependsOnChanges.isEmpty && (kind == .fixUp || kind == .noop) then
    .restructure else kind
  let uncovered := input.uncovered toLocaleLowerCase
  let kind := if uncovered.isEmpty then kind else .criteriaDrop
  { kind
    summary := buildSummary kind input.diff uncovered
    uncoveredCriteria := if uncovered.isEmpty then none else some uncovered
    diff := input.diff }

end Bobbit.Server
