import Bobbit.Server.GoalSubtree

/-!
# Tree costs

Model of the usage records and of `computeTreeCost` of `src/server/agent/cost-tracker.ts`. The
counters are numbers of any type with an addition and the rounding to six places (`CostNumber`).
The cached breakdowns of one tracker stand beside it. Saving the records is left out, and so is the
derived cache hit rate, which a breakdown does not have.
-/

namespace Bobbit.Server

open Lib

/-- The arithmetic of costs: `round6 x` is `Math.round(x * 1_000_000) / 1_000_000`. -/
class CostNumber (ν : Type) extends Zero ν, Add ν where
  round6 : ν → ν
  decEq : DecidableEq ν

instance decEqCostNumber (ν : Type) [CostNumber ν] : DecidableEq ν := CostNumber.decEq

open CostNumber (round6)

/-- Exact costs; `Math.round` takes a half up. -/
instance rationalCost : CostNumber Rat where
  round6 x := (⌊x * 1000000 + 1 / 2⌋ : Rat) / 1000000
  decEq := inferInstance

variable {ν : Type} [CostNumber ν]

/-! ## Usage records -/

structure RawSessionCost (ν : Type) where
  inputTokens : ν
  outputTokens : ν
  cacheReadTokens : ν
  cacheWriteTokens : ν
  totalCost : ν
  goalId : Option String
  firstSeenAt : Option Nat

structure UsageData (ν : Type) where
  inputTokens : Option ν
  outputTokens : Option ν
  cacheReadTokens : Option ν
  cacheWriteTokens : Option ν
  cost : Option ν

def emptyRaw : RawSessionCost ν where
  inputTokens := 0
  outputTokens := 0
  cacheReadTokens := 0
  cacheWriteTokens := 0
  totalCost := 0
  goalId := none
  firstSeenAt := none

/-- An id that is there, the empty one being none. -/
def presentId (id : Option String) : Option String := id.filter (· ≠ "")

structure CostTracker (ν : Type) where
  costs : JsMap String (RawSessionCost ν)
  generation : Nat

namespace CostTracker

/-- `recordUsage`, at the time `now`. -/
def recordUsage (t : CostTracker ν) (sessionId : String) (usage : UsageData ν)
    (goalId : Option String) (now : Nat) : CostTracker ν :=
  let existing := (JsMap.get? t.costs sessionId).getD emptyRaw
  let updated : RawSessionCost ν := {
    inputTokens := existing.inputTokens + usage.inputTokens.getD 0
    outputTokens := existing.outputTokens + usage.outputTokens.getD 0
    cacheReadTokens := existing.cacheReadTokens + usage.cacheReadTokens.getD 0
    cacheWriteTokens := existing.cacheWriteTokens + usage.cacheWriteTokens.getD 0
    totalCost := round6 (existing.totalCost + usage.cost.getD 0)
    goalId :=
      if (presentId goalId).isSome ∧ presentId existing.goalId = none then goalId
      else existing.goalId
    firstSeenAt := if existing.firstSeenAt.getD 0 = 0 then some now else existing.firstSeenAt }
  { costs := JsMap.set t.costs sessionId updated, generation := t.generation + 1 }

/-- `total += c`, field by field. -/
def addCost (total c : RawSessionCost ν) : RawSessionCost ν :=
  { total with
    inputTokens := total.inputTokens + c.inputTokens
    outputTokens := total.outputTokens + c.outputTokens
    cacheReadTokens := total.cacheReadTokens + c.cacheReadTokens
    cacheWriteTokens := total.cacheWriteTokens + c.cacheWriteTokens
    totalCost := total.totalCost + c.totalCost }

def getGoalCost (t : CostTracker ν) (goalId : String) : RawSessionCost ν :=
  t.costs.foldl (fun total entry =>
    if entry.2.goalId = some goalId then addCost total entry.2 else total) emptyRaw

/-- `getGoalCost(goalId, sessionIds)`. -/
def getSessionsCost (t : CostTracker ν) (sessionIds : List String) : RawSessionCost ν :=
  sessionIds.foldl (fun total sid =>
    match JsMap.get? t.costs sid with
    | some c => addCost total c
    | none => total) emptyRaw

def removeSession (t : CostTracker ν) (sessionId : String) : CostTracker ν :=
  if (JsMap.get? t.costs sessionId).isSome then
    { costs := JsMap.erase t.costs sessionId, generation := t.generation + 1 }
  else t

/-- The body of the loop of `backfillGoalIds`, with the number of entries that were stamped. -/
def backfillEntry (resolver : String → Option String) (stamped : Nat)
    (entry : String × RawSessionCost ν) : Nat × (String × RawSessionCost ν) :=
  if (presentId entry.2.goalId).isSome then (stamped, entry)
  else
    match presentId (resolver entry.1) with
    | some goalId => (stamped + 1, (entry.1, { entry.2 with goalId := some goalId }))
    | none => (stamped, entry)

def backfillGoalIds (t : CostTracker ν) (resolver : String → Option String) : CostTracker ν :=
  let (costs, stamped) := t.costs.foldl (fun state entry =>
    let (stamped, entry) := backfillEntry resolver state.2 entry
    (state.1 ++ [entry], stamped)) (([] : JsMap String (RawSessionCost ν)), 0)
  if 0 < stamped then { costs := costs, generation := t.generation + 1 } else t

end CostTracker

/-! ## Goals -/

/-- The id of a goal: not empty, and without the separators of the signature. -/
def IsGoalId (id : String) : Prop := id ≠ "" ∧ '|' ∉ id.toList ∧ ',' ∉ id.toList

structure TreeCostGoal where
  id : String
  title : Option String
  createdAt : Option Nat
  parentGoalId : Option String
  rootGoalId : Option String
  archived : Bool
  idOk : IsGoalId id
  parentOk : ∀ pid, parentGoalId = some pid → IsGoalId pid
  rootOk : ∀ rid, rootGoalId = some rid → IsGoalId rid

instance subtreeTreeCostGoal : SubtreeGoal TreeCostGoal :=
  ⟨TreeCostGoal.id, TreeCostGoal.parentGoalId, TreeCostGoal.archived⟩

/-! ## The cache -/

structure TreeCostEntry (ν : Type) where
  goalId : String
  depth : Nat
  title : String
  costUsd : ν
  tokensIn : ν
  tokensOut : ν

structure TreeCostBreakdown (ν : Type) where
  rootGoalId : String
  totalCostUsd : ν
  totalTokensIn : ν
  totalTokensOut : ν
  breakdown : List (TreeCostEntry ν)

structure TreeCostCacheEntry (ν : Type) where
  generation : Nat
  treeSignature : List Char
  hasSessionIdsResolver : Bool
  result : TreeCostBreakdown ν

/-- `{ includeRoot: true, includeArchived: true }`. -/
def treeOpts : SubtreeWalkOpts TreeCostGoal := { includeRoot := true, includeArchived := true }

def treeMembers (rootGoalId : String) (allGoals : List TreeCostGoal) : List TreeCostGoal :=
  walkGoalSubtree rootGoalId allGoals treeOpts

def signaturePart (g : TreeCostGoal) : List Char :=
  g.id.toList ++ '|' :: ((g.parentGoalId.getD "").toList ++ '|' :: ((g.rootGoalId.getD "").toList ++
    '|' :: ((if g.archived then ['a'] else []) ++ '|' :: (Nat.repr (g.createdAt.getD 0)).toList)))

/-- The order of `sort()` on strings. -/
def textLe : List Char → List Char → Bool
  | [], _ => true
  | _ :: _, [] => false
  | c :: s, d :: t => if c = d then textLe s t else c.val < d.val

def computeTreeSignature (rootGoalId : String) (allGoals : List TreeCostGoal) : List Char :=
  let parts := ((treeMembers rootGoalId allGoals).map signaturePart).mergeSort textLe
  (Nat.repr parts.length).toList ++ ':' :: [','].intercalate parts

/-! ## `computeTreeCost` -/

/-- `byId.get(id)`. -/
def goalById (allGoals : List TreeCostGoal) (id : String) : Option TreeCostGoal :=
  JsMap.get? (SubtreeWalk.byId allGoals) id

/-- The loop of `depthOf`, with the rounds that are left. -/
def depthFrom (allGoals : List TreeCostGoal) : Nat → List String → TreeCostGoal → Nat
  | 0, _, _ => 0
  | rounds + 1, seen, cur =>
    match presentId cur.parentGoalId with
    | none => 0
    | some pid =>
      if cur.id ∈ seen then 0
      else
        match goalById allGoals pid with
        | some next => depthFrom allGoals rounds (cur.id :: seen) next + 1
        | none => 0

def depthOf (allGoals : List TreeCostGoal) (g : TreeCostGoal) : Nat := depthFrom allGoals 32 [] g

/-- The cost of a goal; a resolver of sessions is a fallback for a goal without cost. -/
def treeGoalCost (tracker : CostTracker ν) (sessionIdsForGoal : Option (String → List String))
    (g : TreeCostGoal) : RawSessionCost ν :=
  let cost := tracker.getGoalCost g.id
  match sessionIdsForGoal with
  | none => cost
  | some resolver =>
    if cost.totalCost = 0 ∧ cost.inputTokens = 0 ∧ cost.outputTokens = 0 then
      let sids := resolver g.id
      if sids = [] then cost else tracker.getSessionsCost sids
    else cost

def treeEntry (allGoals : List TreeCostGoal) (tracker : CostTracker ν)
    (sessionIdsForGoal : Option (String → List String)) (g : TreeCostGoal) : TreeCostEntry ν :=
  let cost := treeGoalCost tracker sessionIdsForGoal g
  { goalId := g.id
    depth := depthOf allGoals g
    title := g.title.getD g.id
    costUsd := cost.totalCost
    tokensIn := cost.inputTokens
    tokensOut := cost.outputTokens }

def treeEntryLe (allGoals : List TreeCostGoal) (a b : TreeCostEntry ν) : Bool :=
  if a.depth ≠ b.depth then a.depth ≤ b.depth
  else
    ((goalById allGoals a.goalId).bind (·.createdAt)).getD 0 ≤
      ((goalById allGoals b.goalId).bind (·.createdAt)).getD 0

/-- The breakdown, computed afresh. -/
def freshTreeCost (rootGoalId : String) (allGoals : List TreeCostGoal) (tracker : CostTracker ν)
    (sessionIdsForGoal : Option (String → List String)) : TreeCostBreakdown ν :=
  match goalById allGoals rootGoalId with
  | none =>
    { rootGoalId := rootGoalId, totalCostUsd := 0, totalTokensIn := 0, totalTokensOut := 0
      breakdown := [] }
  | some _ =>
    let entries := (treeMembers rootGoalId allGoals).map
      (treeEntry allGoals tracker sessionIdsForGoal)
    { rootGoalId := rootGoalId
      totalCostUsd := round6 (entries.foldl (fun total e => total + e.costUsd) 0)
      totalTokensIn := entries.foldl (fun total e => total + e.tokensIn) 0
      totalTokensOut := entries.foldl (fun total e => total + e.tokensOut) 0
      breakdown := entries.mergeSort (treeEntryLe allGoals) }

abbrev TreeCostCache (ν : Type) := JsMap String (TreeCostCacheEntry ν)

/-- `computeTreeCost`, with the cache after it. -/
def computeTreeCost (rootGoalId : String) (allGoals : List TreeCostGoal) (tracker : CostTracker ν)
    (cache : TreeCostCache ν) (sessionIdsForGoal : Option (String → List String)) :
    TreeCostBreakdown ν × TreeCostCache ν :=
  let generation := tracker.generation
  let hasSessionIdsResolver := sessionIdsForGoal.isSome
  let treeSignature := computeTreeSignature rootGoalId allGoals
  let result := freshTreeCost rootGoalId allGoals tracker sessionIdsForGoal
  let cached := (JsMap.get? cache rootGoalId).filter fun cached =>
    cached.generation = generation && cached.treeSignature = treeSignature &&
      cached.hasSessionIdsResolver == hasSessionIdsResolver && !hasSessionIdsResolver
  match cached with
  | some cached => (cached.result, cache)
  | none =>
    (result, if hasSessionIdsResolver then cache else
      JsMap.set cache rootGoalId { generation, treeSignature, hasSessionIdsResolver, result })

end Bobbit.Server
