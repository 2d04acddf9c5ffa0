import Bobbit.Server.SqlitePersistence
import Bobbit.Server.TaskManager

/-!
# Task store

Model of `TaskStore` in `src/server/agent/task-store.ts`, with the calls that the
task manager makes of it. Committed tasks are published in batches, one at a time:
the reactions of a batch wait for the promise of the batch before it, and the facts
are computed from the rows of its publication. An observer is installed; without
one nothing is reported.
-/

namespace Bobbit.Server

open Lib

def TaskCommittedFact.taskId : TaskCommittedFact → String
  | .taskCreated taskId .. => taskId
  | .taskUpdated taskId .. => taskId
  | .taskStateChanged taskId .. => taskId

/-- `fact.kind === "taskStateChanged"`. -/
def TaskCommittedFact.isStateChanged : TaskCommittedFact → Bool
  | .taskStateChanged .. => true
  | _ => false

/-- The changed fields of a `taskUpdated` fact. -/
def TaskCommittedFact.updatedFields : TaskCommittedFact → Option (List String)
  | .taskUpdated _ _ _ changedFields _ => some changedFields
  | _ => none

inductive RecordValue
  | string (value : String)
  | strings (values : List String)
  | number (value : Nat)
deriving DecidableEq

/-- `task[field]`. -/
def PersistedTask.property (task : PersistedTask) : String → Option RecordValue
  | "id" => some (.string task.id)
  | "goalId" => some (.string task.goalId)
  | "parentTaskId" => task.parentTaskId.map .string
  | "title" => some (.string task.title)
  | "type" => some (.string task.type)
  | "state" => some (.string task.state.name)
  | "assignedSessionId" => task.assignedSessionId.map .string
  | "spec" => task.spec.map .string
  | "createdAt" => some (.number task.createdAt)
  | "updatedAt" => some (.number task.updatedAt)
  | "completedAt" => task.completedAt.map .number
  | "dependsOn" => task.dependsOn.map .strings
  | "baseSha" => task.baseSha.map .string
  | "headSha" => task.headSha.map .string
  | "branch" => task.branch.map .string
  | "resultSummary" => task.resultSummary.map .string
  | "workflowGateId" => task.workflowGateId.map .string
  | "inputGateIds" => task.inputGateIds.map .strings
  | _ => none

/-- The `taskUpdated` fact of a task that was durable before. -/
def updatedDelta (taskIntents : List TaskCommittedFact) (taskId : String)
    (previous current : PersistedTask) : List TaskCommittedFact :=
  let updateIntents := taskIntents.filterMap (·.updatedFields)
  if updateIntents = [] then []
  else
    let candidates := (JsSet.ofList updateIntents.flatten).members
    let changedFields := (candidates.filter fun field =>
      previous.property field ≠ current.property field).mergeSort (· ≤ ·)
    [.taskUpdated taskId current.goalId current.state changedFields current.updatedAt]

/-- Its `taskStateChanged` fact. -/
def stateDelta (taskIntents : List TaskCommittedFact) (taskId : String)
    (previous current : PersistedTask) : List TaskCommittedFact :=
  if taskIntents.any (·.isStateChanged) ∧ previous.state ≠ current.state then
    [.taskStateChanged taskId current.goalId previous.state current.state current.updatedAt]
  else []

/-- The facts that a publication yields about one task. -/
def taskDeltas (intents : List TaskCommittedFact) (publication : Publication String PersistedTask)
    (taskId : String) : List TaskCommittedFact :=
  let taskIntents := intents.filter (·.taskId = taskId)
  match publication.previous taskId, publication.current taskId with
  | _, none => []
  | none, some current =>
    [.taskCreated taskId current.goalId current.type current.state current.parentTaskId
      current.updatedAt]
  | some previous, some current =>
    updatedDelta taskIntents taskId previous current ++ stateDelta taskIntents taskId previous current

/-- The tasks that intents are about. -/
def intentIds (intents : List TaskCommittedFact) : JsSet String := .ofList (intents.map (·.taskId))

def reportCommittedTaskDeltas (intents : List TaskCommittedFact)
    (publication : Publication String PersistedTask) : List TaskCommittedFact :=
  (intentIds intents).members.flatMap (taskDeltas intents publication)

/-- A `TaskFactBatch`; `settled` tells how its promise is settled, `flushes` how many
    flushes wait for it. -/
structure TaskFactBatch where
  facts : List TaskCommittedFact
  started : Bool
  settled : Option Bool
  flushes : Nat

/-- The continuation of a batch that waits for its publication. -/
structure BatchWaiter where
  batch : Nat
  intents : List TaskCommittedFact

inductive TaskJob
  /-- the microtask of `putCommitted` -/
  | startBatch (batch : Nat)
  /-- the reaction on `factPublishTail` -/
  | publishBatch (batch : Nat)
  /-- the promise of that reaction is settled -/
  | publishSettled (batch : Nat) (resolved : Bool)
  /-- the `catch` that makes the next `factPublishTail` -/
  | tailSettled
  /-- `publish.then(batch.resolve, batch.reject)` -/
  | batchSettled (batch : Nat) (resolved : Bool)
  /-- the `finally` after it -/
  | batchFinally (batch : Nat)
  /-- the reaction of a `flush` on the promise of a batch -/
  | flushPersistence

/-- The batches are numbered in the order of their creation. While `factPublishTail`
    is pending, the reactions of later batches wait in turn. -/
structure TaskStore where
  persistence : SqlitePersistence String PersistedTask BatchWaiter TaskJob TaskCommittedFact
  batches : List TaskFactBatch
  committedFactBatch : Option Nat
  lastFactBatchPromise : Option Nat
  factPublishPending : Bool
  waitingBatches : List Nat
  retryCommittedFacts : List TaskCommittedFact

namespace TaskStore

def tasks (s : TaskStore) : Tasks := s.persistence.rows

def setTasks (s : TaskStore) (tasks : Tasks) : TaskStore :=
  { s with persistence := { s.persistence with rows := tasks } }

def queueMicrotask (s : TaskStore) (job : TaskJob) : TaskStore :=
  { s with persistence := s.persistence.enqueue (.other job) }

def loaded (tasks : Tasks) : TaskStore where
  persistence := .loaded tasks
  batches := []
  committedFactBatch := none
  lastFactBatchPromise := none
  factPublishPending := false
  waitingBatches := []
  retryCommittedFacts := []

def save (s : TaskStore) (ids : List String) : TaskStore :=
  { s with persistence := s.persistence.schedule ids }

def put (s : TaskStore) (task : PersistedTask) : TaskStore :=
  (s.setTasks (s.tasks.set task.id task)).save [task.id]

/-- `removeMany`; `remove` is the case of one id. -/
def removeMany (s : TaskStore) (ids : List String) : TaskStore :=
  (s.setTasks (TaskManager.removeMany s.tasks ids)).save ids

def updateBatch (s : TaskStore) (batch : Nat) (update : TaskFactBatch → TaskFactBatch) : TaskStore :=
  { s with batches := s.batches.modify batch update }

/-- `createCommittedFactBatch`, as the current batch. -/
def createCommittedFactBatch (s : TaskStore) : TaskStore :=
  { s with
    batches := s.batches ++ [⟨[], false, none, 0⟩]
    committedFactBatch := some s.batches.length }

def putCommitted (s : TaskStore) (task : PersistedTask) (facts : List TaskCommittedFact) :
    TaskStore :=
  let s := s.setTasks (s.tasks.set task.id task)
  if facts = [] then s.save [task.id]
  else
    match s.committedFactBatch with
    | some batch => s.updateBatch batch fun b => { b with facts := b.facts ++ facts }
    | none =>
      let batch := s.batches.length
      (s.createCommittedFactBatch.queueMicrotask (.startBatch batch)).updateBatch batch fun b =>
        { b with facts := b.facts ++ facts }

def startCommittedFactBatch (s : TaskStore) (batch : Nat) : TaskStore :=
  match s.batches[batch]? with
  | none => s
  | some b =>
    if b.started then s
    else
      let s := s.updateBatch batch fun b => { b with started := true }
      let s := { s with
        committedFactBatch := if s.committedFactBatch = some batch then none else s.committedFactBatch
        lastFactBatchPromise := some batch }
      if s.factPublishPending then { s with waitingBatches := s.waitingBatches ++ [batch] }
      else { s with factPublishPending := true }.queueMicrotask (.publishBatch batch)

/-- Flush the persistence when the promise of a batch is resolved. -/
def flushAfter (s : TaskStore) (batch : Nat) : TaskStore :=
  match (s.batches[batch]?).bind (·.settled) with
  | none => s.updateBatch batch fun b => { b with flushes := b.flushes + 1 }
  | some true => s.queueMicrotask .flushPersistence
  | some false => s

def flush (s : TaskStore) : TaskStore :=
  let s := if s.committedFactBatch = none ∧ s.retryCommittedFacts ≠ [] then
    s.createCommittedFactBatch else s
  let s := match s.committedFactBatch with
    | none => s
    | some batch => s.startCommittedFactBatch batch
  match s.lastFactBatchPromise with
  | none => { s with persistence := s.persistence.flush }
  | some batch => s.flushAfter batch

/-- The reaction on `factPublishTail`, up to where it awaits its publication. -/
def publishBatch (s : TaskStore) (batch : Nat) : TaskStore :=
  let intents := s.retryCommittedFacts ++ ((s.batches[batch]?).map (·.facts)).getD []
  { s with
    retryCommittedFacts := []
    persistence := s.persistence.publishStrict (intentIds intents).members ⟨batch, intents⟩ }

/-- `factPublishTail` is settled: the reaction of the next batch is due. -/
def tailSettled (s : TaskStore) : TaskStore :=
  match s.waitingBatches with
  | [] => { s with factPublishPending := false }
  | batch :: rest => { s with waitingBatches := rest }.queueMicrotask (.publishBatch batch)

def queueFlushes (s : TaskStore) : Nat → TaskStore
  | 0 => s
  | flushes + 1 => (s.queueMicrotask .flushPersistence).queueFlushes flushes

def batchSettled (s : TaskStore) (batch : Nat) (resolved : Bool) : TaskStore :=
  let flushes := ((s.batches[batch]?).map (·.flushes)).getD 0
  let s := s.updateBatch batch fun b => { b with settled := some resolved }
  let s := if resolved then s.queueFlushes flushes else s
  s.queueMicrotask (.batchFinally batch)

def runOther (s : TaskStore) : TaskJob → TaskStore
  | .startBatch batch => s.startCommittedFactBatch batch
  | .publishBatch batch => s.publishBatch batch
  | .publishSettled batch resolved =>
    (s.queueMicrotask .tailSettled).queueMicrotask (.batchSettled batch resolved)
  | .tailSettled => s.tailSettled
  | .batchSettled batch resolved => s.batchSettled batch resolved
  | .batchFinally batch =>
    if s.lastFactBatchPromise = some batch then { s with lastFactBatchPromise := none } else s
  | .flushPersistence => { s with persistence := s.persistence.flush }

/-- The continuation of a batch gets the error of its publication. -/
def runRethrow (s : TaskStore) (waiter : BatchWaiter) : TaskStore :=
  { s with retryCommittedFacts := waiter.intents ++ s.retryCommittedFacts }.queueMicrotask
    (.publishSettled waiter.batch false)

/-- The oldest microtask runs; `fails` says whether a transaction fails during it. -/
def runJob (s : TaskStore) (fails : Bool) : TaskStore :=
  let popped := { s with persistence := s.persistence.popped }
  match s.persistence.jobs with
  | [] => s
  | .drain :: _ => { popped with persistence := popped.persistence.drain fails }
  | .drained :: _ => { popped with persistence := popped.persistence.drained }
  | .startDrain :: _ => { popped with persistence := popped.persistence.startDrain }
  | .published waiter :: _ => { popped with persistence := popped.persistence.published waiter }
  | .rejected waiter :: _ =>
    { popped with persistence := popped.persistence.enqueue (.rethrow waiter) }
  | .report waiter publication number :: _ =>
    { popped with
      persistence := popped.persistence.report number
        (reportCommittedTaskDeltas waiter.intents publication) }.queueMicrotask
          (.publishSettled waiter.batch true)
  | .rethrow waiter :: _ => popped.runRethrow waiter
  | .other job :: _ => popped.runOther job

/-- `commitTask`, for each call that an operation of the manager makes. -/
def commitAll (s : TaskStore) (commits : List Commit) : TaskStore :=
  commits.foldl (fun s commit => s.putCommitted commit.task commit.facts) s

/-- The manager assigns to the tasks it was handed, and commits them. -/
def perform {ρ : Type} (s : TaskStore) : Except String (Done ρ) → TaskStore
  | .error _ => s
  | .ok done => (s.setTasks done.tasks).commitAll done.commits

/-- An operation of the task manager. -/
def manage (s : TaskStore) : TaskManager.Event → TaskStore
  | .createTask id goalId title type opts now =>
    s.perform (TaskManager.createTask s.tasks id goalId title type opts now)
  | .updateTask id updates now => s.perform (TaskManager.updateTask s.tasks id updates now)
  | .deleteTask id =>
    match s.tasks.get? id with
    | none => s
    | some _ => s.removeMany ((TaskManager.getByParentTaskId s.tasks id).map (·.id) ++ [id])
  | .deleteTasksForGoal goalId =>
    s.removeMany ((TaskManager.getByGoalId s.tasks goalId).map (·.id))
  | .assignTask taskId sessionId now =>
    s.perform (.ok (TaskManager.assignTask s.tasks taskId sessionId now))
  | .completeTask taskId now => s.perform (TaskManager.completeTask s.tasks taskId now)
  | .transitionTask taskId newState now =>
    s.perform (TaskManager.transitionTask s.tasks taskId newState now)

inductive Event
  | manage (event : TaskManager.Event)
  | put (task : PersistedTask)
  | putCommitted (task : PersistedTask) (facts : List TaskCommittedFact)
  | removeMany (ids : List String)
  | flush
  | timerFired
  | runJob (fails : Bool)

def step (s : TaskStore) : Event → TaskStore
  | .manage event => s.manage event
  | .put task => s.put task
  | .putCommitted task facts => s.putCommitted task facts
  | .removeMany ids => s.removeMany ids
  | .flush => s.flush
  | .timerFired => { s with persistence := s.persistence.timerFired }
  | .runJob fails => s.runJob fails

end TaskStore

end Bobbit.Server
