import Bobbit.Server.SqlitePersistence

/-!
# Gate store

Model of `GateStore` in `src/server/agent/gate-store.ts`: the mutations of the
gates of a goal, and the publications that report their status changes to
`onStatusCommitted`. An observer is installed; without one nothing is reported.
Errors thrown to the caller leave the state as it is.
-/

namespace Bobbit.Server

open Lib

inductive GateStatus
  | pending | passed | failed | bypassed
deriving DecidableEq

inductive VerificationStatus
  | running | passed | failed
deriving DecidableEq

structure GateSignal where
  id : String
  gateId : String
  goalId : String
  sessionId : String
  timestamp : Nat
  commitSha : String
  metadata : List (String × String)
  content : Option String
  verification : VerificationStatus

structure GateState where
  gateId : String
  goalId : String
  status : GateStatus
  statusRevision : Option Nat
  currentContent : Option String
  currentContentVersion : Option Nat
  currentMetadata : List (String × String)
  signals : List GateSignal
  verificationCacheInvalidatedAt : Option Nat
  updatedAt : Nat

structure GateStatusCommit where
  goalId : String
  gateId : String
  previousStatus : GateStatus
  status : GateStatus
  revision : Nat
deriving DecidableEq

structure WorkflowGate where
  id : String
  dependsOn : List String

def compositeKey (goalId gateId : String) : String := goalId ++ "::" ++ gateId

/-- What a reset restores when its publication fails. -/
structure GateSnapshot where
  status : GateStatus
  statusRevision : Option Nat
  updatedAt : Nat
  cacheAt : Option Nat

/-- A continuation that waits for a publication. -/
inductive GateWaiter
  /-- a strict reset -/
  | reset (affectedKeys : List String) (statusKeys : JsSet String)
      (snapshots : List (String × GateSnapshot))
  /-- a turn of the loop of `flushDetachedStatusCommits` -/
  | detached (keys : JsSet String)

inductive GateJob
  /-- the microtask of `publishStatusCommitsDetached` -/
  | flushDetached
  /-- a continuation goes on after its report -/
  | reported (waiter : GateWaiter)
  /-- the `finally` of `flushDetachedStatusCommits` -/
  | detachedSettled
  /-- a strict reset goes on after its publication -/
  | resetPublished (affectedKeys : List String)
  /-- a strict reset after its publication failed -/
  | resetFailed (snapshots : List (String × GateSnapshot))

/-- The reported commits come with the key under which they were found. -/
structure GateStore where
  persistence : SqlitePersistence String GateState GateWaiter GateJob (String × GateStatusCommit)
  pendingInMemoryStatusCommits : JsMap String (List GateStatusCommit)
  detachedStatusKeys : JsSet String
  detachedStatusFlush : Bool
  detachedStatusFlushScheduled : Bool

namespace GateState

def nextStatusCommit (gate : GateState) (status : GateStatus) (now : Nat) :
    Option (GateState × GateStatusCommit) :=
  if gate.status = status then none
  else
    let revision := gate.statusRevision.getD 0 + 1
    some ({ gate with
        status := status
        statusRevision := revision
        updatedAt := max now (gate.updatedAt + 1) },
      ⟨gate.goalId, gate.gateId, gate.status, status, revision⟩)

def new (goalId gateId : String) (now : Nat) : GateState where
  gateId := gateId
  goalId := goalId
  status := .pending
  statusRevision := none
  currentContent := none
  currentContentVersion := none
  currentMetadata := []
  signals := []
  verificationCacheInvalidatedAt := none
  updatedAt := now

def snapshot (gate : GateState) : GateSnapshot :=
  ⟨gate.status, gate.statusRevision, gate.updatedAt, gate.verificationCacheInvalidatedAt⟩

def restore (gate : GateState) (snapshot : GateSnapshot) : GateState :=
  { gate with
    status := snapshot.status
    statusRevision := snapshot.statusRevision
    updatedAt := snapshot.updatedAt
    verificationCacheInvalidatedAt := snapshot.cacheAt }

end GateState

def statusCommit (publication : Publication String GateState) (key : String) :
    Option GateStatusCommit :=
  match publication.previous key, publication.current key with
  | some previous, some current =>
    if previous.status = current.status then none
    else some ⟨current.goalId, current.gateId, previous.status, current.status,
      current.statusRevision.getD 1⟩
  | _, _ => none

def reportStatusCommits (keys : JsSet String) (publication : Publication String GateState) :
    List (String × GateStatusCommit) :=
  keys.members.filterMap fun key => (statusCommit publication key).map fun commit => (key, commit)

def GateWaiter.reportKeys : GateWaiter → JsSet String
  | .reset _ statusKeys _ => statusKeys
  | .detached keys => keys

/-- The direct dependents of a gate. -/
def adjacency (gates : List WorkflowGate) (gateId : String) : List String :=
  gates.flatMap fun gate => (gate.dependsOn.filter (· = gateId)).map fun _ => gate.id

/-- The breadth-first loop of `getDependentGateIds`. -/
def visitDependents (gates : List WorkflowGate) : Nat → List String → List String → List String
  | 0, _, _ => []
  | _ + 1, _, [] => []
  | fuel + 1, visited, current :: queue =>
    let fresh := (JsSet.ofList ((adjacency gates current).filter (· ∉ visited))).members
    current :: visitDependents gates fuel (visited ++ fresh) (queue ++ fresh)

/-- `getDependentGateIds`; `none` when the gate is unknown. A gate enters the queue
    once, so the number of gates bounds the loop. -/
def getDependentGateIds (gateId : String) (gates : List WorkflowGate) (includeRequested : Bool) :
    Option (List String) :=
  if gates.all (·.id ≠ gateId) then none
  else
    let result := visitDependents gates (gates.length + 1) [gateId] [gateId]
    some (if includeRequested then result else result.filter (· ≠ gateId))

namespace GateStore

def gates (s : GateStore) : JsMap String GateState := s.persistence.rows

def setGates (s : GateStore) (gates : JsMap String GateState) : GateStore :=
  { s with persistence := { s.persistence with rows := gates } }

def loaded (gates : JsMap String GateState) : GateStore where
  persistence := .loaded gates
  pendingInMemoryStatusCommits := []
  detachedStatusKeys := .empty
  detachedStatusFlush := false
  detachedStatusFlushScheduled := false

def save (s : GateStore) (keys : List String) : GateStore :=
  { s with persistence := s.persistence.schedule keys }

/-- One turn of the loop of `flushDetachedStatusCommits`; at its end the `finally`
    is queued. -/
def detachedLoop (s : GateStore) : GateStore :=
  if s.detachedStatusKeys.isEmpty then
    { s with persistence := s.persistence.enqueue (.other .detachedSettled) }
  else
    let keys := s.detachedStatusKeys
    { s with
      detachedStatusKeys := .empty
      persistence := s.persistence.publishStrict keys.members (.detached keys) }

def flushDetachedStatusCommits (s : GateStore) : GateStore :=
  if s.detachedStatusFlush then s else { s with detachedStatusFlush := true }.detachedLoop

def publishStatusCommitsDetached (s : GateStore) (keys : List String)
    (commits : List GateStatusCommit) : GateStore :=
  if commits = [] then s.save keys
  else
    let s := { s with detachedStatusKeys := s.detachedStatusKeys.addAll keys }
    if s.detachedStatusFlushScheduled || s.detachedStatusFlush then s
    else
      { s with
        detachedStatusFlushScheduled := true
        persistence := s.persistence.enqueue (.other .flushDetached) }

def flush (s : GateStore) : GateStore :=
  if ! s.detachedStatusKeys.isEmpty || s.detachedStatusFlush then s.flushDetachedStatusCommits
  else { s with persistence := s.persistence.flush }

/-! ## Mutations -/

def initGatesForGoal (s : GateStore) (goalId : String) (gateIds : List String) (now : Nat) :
    GateStore :=
  let (s, dirtyKeys) := gateIds.foldl (fun (s, dirtyKeys) gateId =>
    let key := compositeKey goalId gateId
    if (s.gates.get? key).isSome then (s, dirtyKeys)
    else (s.setGates (s.gates.set key (.new goalId gateId now)), dirtyKeys ++ [key])) (s, [])
  s.save dirtyKeys

/-- The gates that a reconciliation keeps, resets or deletes. -/
def reconcileExisting (goalId : String) (nextGateIds modifiedGateIds : List String) (now : Nat)
    (gates : JsMap String GateState) : JsMap String GateState × List String × List GateStatusCommit :=
  gates.foldr (fun (key, gate) (gates, dirtyKeys, commits) =>
    if gate.goalId ≠ goalId then ((key, gate) :: gates, dirtyKeys, commits)
    else if gate.gateId ∉ nextGateIds then (gates, key :: dirtyKeys, commits)
    else if gate.gateId ∉ modifiedGateIds then ((key, gate) :: gates, dirtyKeys, commits)
    else
      let next := gate.nextStatusCommit .pending now
      let gate := (next.map (·.1)).getD gate
      ((key, { gate with
          verificationCacheInvalidatedAt := some now
          updatedAt := max now gate.updatedAt }) :: gates,
        key :: dirtyKeys, (next.map (·.2)).toList ++ commits)) ([], [], [])

def reconcileGatesForGoal (s : GateStore) (goalId : String)
    (nextGateIds modifiedGateIds : List String) (now : Nat) : GateStore :=
  let present := s.gates.filterMap fun (_, gate) =>
    if gate.goalId = goalId then some gate.gateId else none
  let (gates, dirtyKeys, statusCommits) :=
    reconcileExisting goalId nextGateIds modifiedGateIds now s.gates
  let missing := (JsSet.ofList nextGateIds).members.filter (· ∉ present)
  let gates := missing.foldl (fun gates gateId =>
    gates.set (compositeKey goalId gateId) (.new goalId gateId now)) gates
  let dirtyKeys := dirtyKeys ++ missing.map (compositeKey goalId)
  let s := s.setGates gates
  if statusCommits = [] then s.save dirtyKeys
  else s.publishStatusCommitsDetached dirtyKeys statusCommits

/-- Change a gate in memory and schedule its key. -/
def updateGate (s : GateStore) (key : String) (update : GateState → GateState) : GateStore :=
  match s.gates.get? key with
  | none => s
  | some gate => (s.setGates (s.gates.set key (update gate))).save [key]

def recordSignal (s : GateStore) (signal : GateSignal) (now : Nat) : GateStore :=
  s.updateGate (compositeKey signal.goalId signal.gateId) fun gate =>
    { gate with signals := gate.signals ++ [signal], updatedAt := now }

def updateGateContent (s : GateStore) (goalId gateId content : String) (version now : Nat) :
    GateStore :=
  s.updateGate (compositeKey goalId gateId) fun gate =>
    { gate with
      currentContent := some content
      currentContentVersion := some version
      updatedAt := now }

def updateGateMetadata (s : GateStore) (goalId gateId : String) (metadata : List (String × String))
    (now : Nat) : GateStore :=
  s.updateGate (compositeKey goalId gateId) fun gate =>
    { gate with currentMetadata := metadata, updatedAt := now }

def bypassSignal (goalId gateId id whyBypassed whoAmI : String) (now : Nat) : GateSignal where
  id := "bypass-" ++ id
  gateId := gateId
  goalId := goalId
  sessionId := "human-bypass"
  timestamp := now
  commitSha := ""
  content := some whyBypassed
  metadata := [("bypass", "true"), ("whyBypassed", whyBypassed), ("whoAmI", whoAmI),
    ("bypassedAt", toString now)]
  verification := .passed

/-- `bypassGate`; `id` is the random part of the signal's id. -/
def bypassGate (s : GateStore) (goalId gateId id whyBypassed whoAmI : String) (now : Nat) :
    GateStore :=
  let key := compositeKey goalId gateId
  match s.gates.get? key with
  | none => s
  | some gate =>
    let gate := { gate with
      signals := gate.signals ++ [bypassSignal goalId gateId id whyBypassed whoAmI now] }
    match gate.nextStatusCommit .bypassed now with
    | some (gate, commit) =>
      (s.setGates (s.gates.set key gate)).publishStatusCommitsDetached [key] [commit]
    | none =>
      (s.setGates (s.gates.set key { gate with
        updatedAt := max now (gate.updatedAt + 1) })).save [key]

def updateGateStatus (s : GateStore) (goalId gateId : String) (status : GateStatus) (now : Nat) :
    GateStore :=
  let key := compositeKey goalId gateId
  match s.gates.get? key with
  | none => s
  | some gate =>
    match gate.nextStatusCommit status now with
    | none => s
    | some (gate, commit) =>
      (s.setGates (s.gates.set key gate)).publishStatusCommitsDetached [key] [commit]

def updateSignalVerification (s : GateStore) (signalId : String)
    (verification : VerificationStatus) (now : Nat) : GateStore :=
  match s.gates.find? fun (_, gate) => gate.signals.any (·.id = signalId) with
  | none => s
  | some (key, gate) =>
    match gate.signals.find? (·.id = signalId) with
    | none => s
    | some signal =>
      if signal.verification ≠ .running then s
      else
        let i := gate.signals.findIdx (·.id = signalId)
        let signals := gate.signals.set i { signal with verification := verification }
        (s.setGates (s.gates.set key { gate with signals := signals, updatedAt := now })).save [key]

/-- What the loop of a reset collects. -/
structure ResetPass where
  gates : JsMap String GateState
  affectedKeys : List String
  snapshots : List (String × GateSnapshot)
  statusCommits : List GateStatusCommit

/-- One turn of the loop of `resetGateAndDependentsInternal`. -/
def ResetPass.visit (goalId : String) (now : Nat) (pass : ResetPass) (gateId : String) : ResetPass :=
  let key := compositeKey goalId gateId
  match pass.gates.get? key with
  | none => pass
  | some gate =>
    let touched := { gate with
      verificationCacheInvalidatedAt := some now
      updatedAt := max now gate.updatedAt }
    let next := touched.nextStatusCommit .pending now
    { gates := pass.gates.set key ((next.map (·.1)).getD touched)
      affectedKeys := pass.affectedKeys ++ [key]
      snapshots := pass.snapshots ++ [(key, gate.snapshot)]
      statusCommits := pass.statusCommits ++ (next.map (·.2)).toList }

/-- Forget the pending commits of some keys. -/
def clearPending (s : GateStore) (keys : List String) : GateStore :=
  { s with
    pendingInMemoryStatusCommits := keys.foldl JsMap.erase s.pendingInMemoryStatusCommits }

def commitKey (commit : GateStatusCommit) : String := compositeKey commit.goalId commit.gateId

/-- Keep the commits of an in-memory reset for the next publication. -/
def keepPending (s : GateStore) (commits : List GateStatusCommit) : GateStore :=
  { s with
    pendingInMemoryStatusCommits := commits.foldl (fun pending commit =>
      pending.set (commitKey commit) ((pending.get? (commitKey commit)).getD [] ++ [commit]))
        s.pendingInMemoryStatusCommits }

/-- `resetGateAndDependentsInternal`, up to where a strict reset awaits its
    publication. -/
def resetGateAndDependentsInternal (s : GateStore) (goalId gateId : String)
    (workflow : List WorkflowGate) (strict persist : Bool) (now : Nat) : GateStore :=
  match getDependentGateIds gateId workflow true with
  | none => s
  | some affectedGateIds =>
    let pass := affectedGateIds.foldl (ResetPass.visit goalId now) ⟨s.gates, [], [], []⟩
    let s := s.setGates pass.gates
    if ! persist then s.keepPending pass.statusCommits
    else if pass.affectedKeys = [] then s
    else
      let pendingCommits := pass.affectedKeys.flatMap fun key =>
        (s.pendingInMemoryStatusCommits.get? key).getD []
      let commits := pendingCommits ++ pass.statusCommits
      if strict then
        { s with
          persistence := s.persistence.publishStrict pass.affectedKeys
            (.reset pass.affectedKeys (.ofList (commits.map commitKey)) pass.snapshots) }
      else if commits ≠ [] then
        (s.publishStatusCommitsDetached pass.affectedKeys commits).clearPending pass.affectedKeys
      else (s.save pass.affectedKeys).clearPending pass.affectedKeys

def cascadeReset (s : GateStore) (goalId gateId : String) (workflow : List WorkflowGate)
    (now : Nat) : GateStore :=
  match getDependentGateIds gateId workflow false with
  | none => s
  | some dependents =>
    let (s, dirtyKeys, commits) := dependents.foldl (fun (s, dirtyKeys, commits) depId =>
      let key := compositeKey goalId depId
      match (s.gates.get? key).bind (·.nextStatusCommit .pending now) with
      | none => (s, dirtyKeys, commits)
      | some (gate, commit) =>
        (s.setGates (s.gates.set key gate), dirtyKeys ++ [key], commits ++ [commit])) (s, [], [])
    if dirtyKeys = [] then s else s.publishStatusCommitsDetached dirtyKeys commits

def removeGoalGates (s : GateStore) (goalId : String) : GateStore :=
  let keysToRemove := (s.gates.filter (·.2.goalId = goalId)).map (·.1)
  (s.setGates (s.gates.filter (·.2.goalId ≠ goalId))).save keysToRemove

/-! ## Microtasks -/

def restoreGates (s : GateStore) (snapshots : List (String × GateSnapshot)) : GateStore :=
  s.setGates (snapshots.foldl (fun gates (key, snapshot) =>
    match gates.get? key with
    | none => gates
    | some gate => gates.set key (gate.restore snapshot)) s.gates)

def runOther (s : GateStore) : GateJob → GateStore
  | .flushDetached => { s with detachedStatusFlushScheduled := false }.flushDetachedStatusCommits
  | .reported (.reset affectedKeys _ _) =>
    { s with persistence := s.persistence.enqueue (.other (.resetPublished affectedKeys)) }
  | .reported (.detached _) => s.detachedLoop
  | .detachedSettled => { s with detachedStatusFlush := false }
  | .resetPublished affectedKeys => s.clearPending affectedKeys
  | .resetFailed snapshots => s.restoreGates snapshots

/-- A continuation gets the error of its publication. -/
def runRethrow (s : GateStore) : GateWaiter → GateStore
  | .reset _ _ snapshots =>
    { s with persistence := s.persistence.enqueue (.other (.resetFailed snapshots)) }
  | .detached keys =>
    { s with
      detachedStatusKeys := s.detachedStatusKeys.addAll keys.members
      persistence := s.persistence.enqueue (.other .detachedSettled) }

/-- The oldest microtask runs; `fails` says whether a transaction fails during it.
    After a report the observers come first, then the continuation goes on. -/
def runJob (s : GateStore) (fails : Bool) : GateStore :=
  let popped := { s with persistence := s.persistence.popped }
  match s.persistence.jobs with
  | [] => s
  | .drain :: _ => { popped with persistence := popped.persistence.drain fails }
  | .drained :: _ => { popped with persistence := popped.persistence.drained }
  | .startDrain :: _ => { popped with persistence := popped.persistence.startDrain }
  | .published waiter :: _ => { popped with persistence := popped.persistence.published waiter }
  | .rejected waiter :: _ =>
    { popped with persistence := popped.persistence.enqueue (.rethrow waiter) }
  | .report waiter publication number :: _ =>
    { popped with
      persistence := (popped.persistence.report number
        (reportStatusCommits waiter.reportKeys publication)).resume (.reported waiter) }
  | .rethrow waiter :: _ => popped.runRethrow waiter
  | .other job :: _ => popped.runOther job

inductive Event
  | initGatesForGoal (goalId : String) (gateIds : List String) (now : Nat)
  | reconcileGatesForGoal (goalId : String) (nextGateIds modifiedGateIds : List String) (now : Nat)
  | recordSignal (signal : GateSignal) (now : Nat)
  | bypassGate (goalId gateId id whyBypassed whoAmI : String) (now : Nat)
  | updateGateStatus (goalId gateId : String) (status : GateStatus) (now : Nat)
  | updateGateContent (goalId gateId content : String) (version now : Nat)
  | updateGateMetadata (goalId gateId : String) (metadata : List (String × String)) (now : Nat)
  | updateSignalVerification (signalId : String) (verification : VerificationStatus) (now : Nat)
  | resetGateAndDependents (goalId gateId : String) (workflow : List WorkflowGate)
      (strict persist : Bool) (now : Nat)
  | cascadeReset (goalId gateId : String) (workflow : List WorkflowGate) (now : Nat)
  | removeGoalGates (goalId : String)
  | flush
  | timerFired
  | runJob (fails : Bool)

def step (s : GateStore) : Event → GateStore
  | .initGatesForGoal goalId gateIds now => s.initGatesForGoal goalId gateIds now
  | .reconcileGatesForGoal goalId next modified now => s.reconcileGatesForGoal goalId next modified now
  | .recordSignal signal now => s.recordSignal signal now
  | .bypassGate goalId gateId id why who now => s.bypassGate goalId gateId id why who now
  | .updateGateStatus goalId gateId status now => s.updateGateStatus goalId gateId status now
  | .updateGateContent goalId gateId content version now =>
    s.updateGateContent goalId gateId content version now
  | .updateGateMetadata goalId gateId metadata now => s.updateGateMetadata goalId gateId metadata now
  | .updateSignalVerification signalId verification now =>
    s.updateSignalVerification signalId verification now
  | .resetGateAndDependents goalId gateId workflow strict persist now =>
    s.resetGateAndDependentsInternal goalId gateId workflow strict persist now
  | .cascadeReset goalId gateId workflow now => s.cascadeReset goalId gateId workflow now
  | .removeGoalGates goalId => s.removeGoalGates goalId
  | .flush => s.flush
  | .timerFired => { s with persistence := s.persistence.timerFired }
  | .runJob fails => s.runJob fails

end GateStore

end Bobbit.Server
