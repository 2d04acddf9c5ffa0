import Bobbit.Lib.JsMap
import Bobbit.Lib.JsSet

/-!
# Subtrees of goals

Model of `src/server/agent/goal-subtree.ts`. `walkGoalSubtree` walks the goals below a root level by
level over their `parentGoalId`, and `cascadeSubtree` applies an action to what the walk returns, one
goal after the other. The walk reads three fields of a goal (`SubtreeGoal`), whatever else the goal
has; its `filter` and the action of a cascade may read the rest.
-/

namespace Bobbit.Server

open Lib

/-- The fields of a goal that the walk reads. -/
class SubtreeGoal (γ : Type) where
  id : γ → String
  parentGoalId : γ → Option String
  archived : γ → Bool

open SubtreeGoal (parentGoalId archived)

variable {γ : Type} [SubtreeGoal γ]

def SUBTREE_WALK_DEFAULT_DEPTH_CAP : Nat := 32

structure SubtreeWalkOpts (γ : Type) where
  includeRoot : Bool := true
  includeArchived : Bool := false
  maxDepth : Nat := SUBTREE_WALK_DEFAULT_DEPTH_CAP
  filter : Option (γ → Bool) := none

namespace SubtreeWalk

/-- A goal in the index from parents to children; a goal that is its own parent is left out. -/
def addChild (index : JsMap String (List γ)) (g : γ) : JsMap String (List γ) :=
  match parentGoalId g with
  | none => index
  | some pid =>
    if pid = "" then index
    else if pid = SubtreeGoal.id g then index
    else
      match JsMap.get? index pid with
      | some list => JsMap.set index pid (list ++ [g])
      | none => JsMap.set index pid [g]

/-- The index from parents to children. -/
def byParent (allGoals : List γ) : JsMap String (List γ) := allGoals.foldl addChild []

/-- The index of the goals by their ids. -/
def byId (allGoals : List γ) : JsMap String γ :=
  allGoals.foldl (fun index g => JsMap.set index (SubtreeGoal.id g) g) []

def accept (opts : SubtreeWalkOpts γ) (g : γ) : Bool :=
  if !opts.includeArchived && archived g then false
  else
    match opts.filter with
    | some filter => filter g
    | none => true

structure State (γ : Type) where
  out : List γ
  seen : JsSet String
  next : List String

/-- The body of the loop over the kids of a parent. -/
def visitKid (opts : SubtreeWalkOpts γ) (s : State γ) (kid : γ) : State γ :=
  if SubtreeGoal.id kid ∈ s.seen.members then s
  else
    { out := if accept opts kid then s.out ++ [kid] else s.out
      seen := s.seen.add (SubtreeGoal.id kid)
      next := s.next ++ [SubtreeGoal.id kid] }

/-- The body of the loop over the frontier. -/
def visitParent (opts : SubtreeWalkOpts γ) (index : JsMap String (List γ)) (s : State γ)
    (parentId : String) : State γ :=
  match JsMap.get? index parentId with
  | none => s
  | some kids => kids.foldl (visitKid opts) s

def visitFrontier (opts : SubtreeWalkOpts γ) (index : JsMap String (List γ)) (frontier : List String)
    (s : State γ) : State γ := frontier.foldl (visitParent opts index) s

/-- The loop over the depths, with the number of rounds that are left. -/
def loop (opts : SubtreeWalkOpts γ) (index : JsMap String (List γ)) :
    Nat → List String → List γ → JsSet String → List γ
  | 0, _, out, _ => out
  | rounds + 1, frontier, out, seen =>
    if frontier = [] then out
    else
      let s := visitFrontier opts index frontier { out := out, seen := seen, next := [] }
      loop opts index rounds s.next s.out s.seen

end SubtreeWalk

open SubtreeWalk in
def walkGoalSubtree (rootId : String) (allGoals : List γ) (opts : SubtreeWalkOpts γ) : List γ :=
  if rootId = "" then []
  else
    let out :=
      if opts.includeRoot then
        match JsMap.get? (byId allGoals) rootId with
        | some root => if accept opts root then [root] else []
        | none => []
      else []
    loop opts (byParent allGoals) opts.maxDepth [rootId] out (JsSet.ofList [rootId])

/-! ## Cascades -/

inductive CascadeOrder
  | topDown
  | bottomUp
  deriving DecidableEq

/-- An action on a world of type `σ`, which may fail. -/
structure CascadeOpts (γ σ ε τ : Type) where
  apply : γ → σ → Except ε τ × σ
  order : CascadeOrder
  stopOnError : Bool := false

structure CascadeResult (ε τ : Type) where
  processed : List (String × τ)
  errors : List (String × ε)

variable {σ ε τ : Type}

/-- The loop over the ordered goals. -/
def runCascade (opts : CascadeOpts γ σ ε τ) :
    List γ → CascadeResult ε τ → σ → CascadeResult ε τ × σ
  | [], result, world => (result, world)
  | g :: rest, result, world =>
    match opts.apply g world with
    | (.ok value, world) =>
      runCascade opts rest { result with processed := result.processed ++ [(SubtreeGoal.id g, value)] } world
    | (.error error, world) =>
      let result := { result with errors := result.errors ++ [(SubtreeGoal.id g, error)] }
      if opts.stopOnError then (result, world) else runCascade opts rest result world

def cascadeSubtree (rootId : String) (allGoals : List γ) (walkOpts : SubtreeWalkOpts γ)
    (cascadeOpts : CascadeOpts γ σ ε τ) (world : σ) : CascadeResult ε τ × σ :=
  let nodes := walkGoalSubtree rootId allGoals walkOpts
  let ordered := if cascadeOpts.order = .bottomUp then nodes.reverse else nodes
  runCascade cascadeOpts ordered ⟨[], []⟩ world

end Bobbit.Server
