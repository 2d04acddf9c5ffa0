import Bobbit.Lib.List
import Bobbit.Lib.Run
import Bobbit.Server.TaskStore
import Bobbit.Spec.PublicationInvariant

/-!
# Reports of task changes

The facts of a batch are computed from what its publication wrote, for the intents
that the batch had when it asked for the publication. A drain takes along what was
committed since then, and the batch that holds the intent for it finds nothing left.

Key results:

- `task_facts_reported`: while every drain finds exactly one waiting batch with an
  intent for each task it creates or whose state it changes, each of these changes is
  reported exactly once, with the durable states.
- `batch_consumes_later_transition`: a state change that is never reported.
-/

namespace Bobbit.Server

open Lib SqlitePersistence

/-! ## Changes of a write -/

/-- A change of a durable task that is reported by a fact of its own. -/
inductive TaskChange
  | created (taskId : String)
  | stateChanged (taskId : String)
deriving DecidableEq

def TaskChange.taskId : TaskChange → String
  | .created taskId => taskId
  | .stateChanged taskId => taskId

def rowChanges : TaskChange → Option PersistedTask → Option PersistedTask → Bool
  | .created _, none, some _ => true
  | .stateChanged _, some previous, some current => previous.state ≠ current.state
  | _, _, _ => false

/-- The write creates a task, or changes the durable state of one. -/
def Write.Changes (write : Write String PersistedTask) (change : TaskChange) : Prop :=
  rowChanges change (write.before change.taskId) (write.after change.taskId) = true

instance (write : Write String PersistedTask) (change : TaskChange) :
    Decidable (write.Changes change) := inferInstanceAs (Decidable (_ = _))

theorem rowChanges_self (change : TaskChange) (row : Option PersistedTask) :
    rowChanges change row row = false := by
  cases change <;> cases row <;> simp [rowChanges]

theorem Write.Changes.mem_keys {write : Write String PersistedTask} {change : TaskChange}
    (h : write.Changes change) : change.taskId ∈ write.keys := by
  by_contra hnot
  unfold Write.Changes at h
  rw [write.frame _ hnot, rowChanges_self] at h
  cases h

/-- The change that a fact reports. -/
def factTopic : TaskCommittedFact → Option TaskChange
  | .taskCreated taskId .. => some (.created taskId)
  | .taskUpdated .. => none
  | .taskStateChanged taskId .. => some (.stateChanged taskId)

/-- Does a batch with these intents report a change? -/
def intentsCover (intents : List TaskCommittedFact) : TaskChange → Bool
  | .created taskId => taskId ∈ (intentIds intents).members
  | .stateChanged taskId => (intents.filter (·.taskId = taskId)).any (·.isStateChanged)

theorem mem_intentIds {intents : List TaskCommittedFact} {taskId : String} :
    taskId ∈ (intentIds intents).members ↔ ∃ fact ∈ intents, fact.taskId = taskId := by
  simp [intentIds, JsSet.mem_ofList]

theorem mem_updatedDelta {taskIntents : List TaskCommittedFact} {taskId : String}
    {previous current : PersistedTask} {fact : TaskCommittedFact}
    (h : fact ∈ updatedDelta taskIntents taskId previous current) :
    ∃ changedFields, fact = .taskUpdated taskId current.goalId current.state changedFields
      current.updatedAt ∧
        ∀ field ∈ changedFields, previous.property field ≠ current.property field := by
  unfold updatedDelta at h
  dsimp only at h
  split at h
  · cases h
  · refine ⟨_, List.mem_singleton.mp h, fun field hfield => ?_⟩
    have hmem := (List.mergeSort_perm _ _).subset hfield
    simpa using (List.mem_filter.mp hmem).2

theorem mem_stateDelta {taskIntents : List TaskCommittedFact} {taskId : String}
    {previous current : PersistedTask} {fact : TaskCommittedFact}
    (h : fact ∈ stateDelta taskIntents taskId previous current) :
    fact = .taskStateChanged taskId current.goalId previous.state current.state current.updatedAt ∧
      previous.state ≠ current.state := by
  unfold stateDelta at h
  split at h
  · rename_i hchanged
    exact ⟨List.mem_singleton.mp h, hchanged.2⟩
  · cases h

theorem countP_taskDeltas_of_ne {intents : List TaskCommittedFact}
    {publication : Publication String PersistedTask} {taskId : String} {change : TaskChange}
    (hne : taskId ≠ change.taskId) :
    (taskDeltas intents publication taskId).countP (factTopic · = some change) = 0 := by
  rw [List.countP_eq_zero]
  intro fact hfact
  rw [decide_eq_true_eq]
  rintro htopic
  unfold taskDeltas at hfact
  dsimp only at hfact
  split at hfact
  · cases hfact
  · rw [List.mem_singleton.mp hfact] at htopic
    cases htopic
    exact hne rfl
  · rcases List.mem_append.mp hfact with hfact | hfact
    · obtain ⟨changedFields, rfl, -⟩ := mem_updatedDelta hfact
      cases htopic
    · rw [(mem_stateDelta hfact).1] at htopic
      cases htopic
      exact hne rfl

theorem countP_updatedDelta {taskIntents : List TaskCommittedFact} {taskId : String}
    {previous current : PersistedTask} {change : TaskChange} :
    (updatedDelta taskIntents taskId previous current).countP (factTopic · = some change) = 0 := by
  rw [List.countP_eq_zero]
  intro fact hfact
  obtain ⟨changedFields, rfl, -⟩ := mem_updatedDelta hfact
  simp [factTopic]

/-- The facts about a task report its change once, if the intents are about it. -/
theorem countP_taskDeltas {intents : List TaskCommittedFact} {write : Write String PersistedTask}
    {change : TaskChange} (h : write.Changes change)
    (hmem : change.taskId ∈ (intentIds intents).members) :
    (taskDeltas intents write.publication change.taskId).countP (factTopic · = some change) =
      if intentsCover intents change then 1 else 0 := by
  have hkey := h.mem_keys
  unfold Write.Changes at h
  unfold taskDeltas
  simp only [Write.publication, hkey, if_true]
  cases change with
  | created taskId =>
    simp only [TaskChange.taskId] at *
    cases hbefore : write.before taskId with
    | some previous => simp [rowChanges, hbefore] at h
    | none =>
      cases hafter : write.after taskId with
      | none => simp [rowChanges, hbefore, hafter] at h
      | some current => simp [factTopic, intentsCover, hmem]
  | stateChanged taskId =>
    simp only [TaskChange.taskId] at *
    cases hbefore : write.before taskId with
    | none => cases hafter : write.after taskId <;> simp [rowChanges, hbefore, hafter] at h
    | some previous =>
      cases hafter : write.after taskId with
      | none => simp [rowChanges, hbefore, hafter] at h
      | some current =>
        have hne : previous.state ≠ current.state := by
          simpa [rowChanges, hbefore, hafter] using h
        dsimp only
        rw [List.countP_append, countP_updatedDelta, Nat.zero_add]
        unfold stateDelta
        by_cases hcover : intentsCover intents (.stateChanged taskId) = true
        · rw [if_pos hcover, if_pos ⟨hcover, hne⟩]
          simp [factTopic]
        · rw [if_neg hcover, if_neg fun hany => hcover hany.1]
          rfl

/-- A batch without an intent for a task does not cover its changes. -/
theorem intentsCover_of_not_mem {intents : List TaskCommittedFact} {change : TaskChange}
    (h : change.taskId ∉ (intentIds intents).members) : intentsCover intents change = false := by
  cases change with
  | created taskId => simpa [intentsCover, TaskChange.taskId] using h
  | stateChanged taskId =>
    simp only [intentsCover, List.any_eq_false]
    intro fact hfact
    obtain ⟨hfact, htask⟩ := List.mem_filter.mp hfact
    exact absurd (mem_intentIds.mpr ⟨fact, hfact, of_decide_eq_true htask⟩) h

/-- What the task store reports about publications. -/
def taskReporting :
    Reporting String PersistedTask BatchWaiter TaskCommittedFact TaskChange where
  facts waiter publication := reportCommittedTaskDeltas waiter.intents publication
  changed before after change := rowChanges change (before change.taskId) (after change.taskId)
  covers waiter change := intentsCover waiter.intents change
  topic := factTopic
  countP_facts waiter write change hchanged := by
    rw [reportCommittedTaskDeltas, countP_flatMap_of_nodup (intentIds waiter.intents).nodup
      fun taskId _ hne => countP_taskDeltas_of_ne hne]
    split
    · rename_i hmem
      exact countP_taskDeltas hchanged hmem
    · rename_i hmem
      rw [intentsCover_of_not_mem hmem]
      rfl

namespace TaskStore

variable {s : TaskStore}

/-! ## Calls -/

theorem setTasks_calls (s : TaskStore) (tasks : Tasks) :
    Calls s.persistence (s.setTasks tasks).persistence :=
  (Calls.refl _).setRows tasks

theorem save_calls (s : TaskStore) (ids : List String) :
    Calls s.persistence (s.save ids).persistence :=
  (Calls.refl _).schedule ids

theorem queueMicrotask_calls (s : TaskStore) (job : TaskJob) :
    Calls s.persistence (s.queueMicrotask job).persistence :=
  (Calls.refl _).enqueue job

theorem removeMany_calls (s : TaskStore) (ids : List String) :
    Calls s.persistence (s.removeMany ids).persistence :=
  (s.setTasks_calls _).trans (save_calls _ _)

theorem putCommitted_calls (s : TaskStore) (task : PersistedTask) (facts : List TaskCommittedFact) :
    Calls s.persistence (s.putCommitted task facts).persistence := by
  refine (s.setTasks_calls (s.tasks.set task.id task)).trans ?_
  unfold putCommitted
  dsimp only
  split
  · exact save_calls _ _
  · split
    · exact .refl _
    · exact queueMicrotask_calls (s.setTasks (s.tasks.set task.id task)).createCommittedFactBatch _

theorem startCommittedFactBatch_calls (s : TaskStore) (batch : Nat) :
    Calls s.persistence (s.startCommittedFactBatch batch).persistence := by
  unfold startCommittedFactBatch
  split
  · exact .refl _
  · split
    · exact .refl _
    · dsimp only
      split
      · exact .refl _
      · exact (Calls.refl _).enqueue _

theorem flushAfter_calls (s : TaskStore) (batch : Nat) :
    Calls s.persistence (s.flushAfter batch).persistence := by
  unfold flushAfter
  split
  · exact .refl _
  · exact s.queueMicrotask_calls _
  · exact .refl _

theorem flush_calls (s : TaskStore) : Calls s.persistence s.flush.persistence := by
  have hcreate : Calls s.persistence (if s.committedFactBatch = none ∧ s.retryCommittedFacts ≠ [] then
      s.createCommittedFactBatch else s).persistence := by
    split <;> exact .refl _
  unfold flush
  dsimp only
  generalize (if s.committedFactBatch = none ∧ s.retryCommittedFacts ≠ [] then
    s.createCommittedFactBatch else s) = t at hcreate ⊢
  cases t.committedFactBatch with
  | none =>
    dsimp only
    cases t.lastFactBatchPromise with
    | none => exact hcreate.flush
    | some batch => exact hcreate.trans (t.flushAfter_calls _)
  | some batch =>
    dsimp only
    have hstart := hcreate.trans (t.startCommittedFactBatch_calls batch)
    cases (t.startCommittedFactBatch batch).lastFactBatchPromise with
    | none => exact hstart.flush
    | some last => exact hstart.trans (flushAfter_calls _ _)

theorem publishBatch_calls (s : TaskStore) (batch : Nat) :
    Calls s.persistence (s.publishBatch batch).persistence :=
  (Calls.refl _).publishStrict _ _

theorem queueFlushes_calls (s : TaskStore) (flushes : Nat) :
    Calls s.persistence (s.queueFlushes flushes).persistence := by
  induction flushes generalizing s with
  | zero => exact .refl _
  | succ flushes ih => exact (s.queueMicrotask_calls _).trans (ih _)

theorem batchSettled_calls (s : TaskStore) (batch : Nat) (resolved : Bool) :
    Calls s.persistence (s.batchSettled batch resolved).persistence := by
  unfold batchSettled
  dsimp only
  refine Calls.trans ?_ (queueMicrotask_calls _ _)
  split
  · exact queueFlushes_calls (s.updateBatch batch fun b => { b with settled := some resolved }) _
  · exact .refl _

theorem runOther_calls (s : TaskStore) (job : TaskJob) :
    Calls s.persistence (s.runOther job).persistence := by
  cases job with
  | startBatch batch => exact s.startCommittedFactBatch_calls batch
  | publishBatch batch => exact s.publishBatch_calls batch
  | publishSettled batch resolved =>
    exact (s.queueMicrotask_calls _).trans (queueMicrotask_calls _ _)
  | tailSettled =>
    unfold runOther tailSettled
    dsimp only
    split
    · exact .refl _
    · exact (Calls.refl _).enqueue _
  | batchSettled batch resolved => exact s.batchSettled_calls batch resolved
  | batchFinally batch =>
    unfold runOther
    dsimp only
    split <;> exact .refl _
  | flushPersistence => exact (Calls.refl _).flush

theorem commitAll_calls (s : TaskStore) (commits : List Commit) :
    Calls s.persistence (s.commitAll commits).persistence := by
  induction commits generalizing s with
  | nil => exact .refl _
  | cons commit rest ih => exact (s.putCommitted_calls _ _).trans (ih _)

theorem perform_calls {ρ : Type} (s : TaskStore) (result : Except String (Done ρ)) :
    Calls s.persistence (s.perform result).persistence := by
  cases result with
  | error => exact .refl _
  | ok done => exact (s.setTasks_calls _).trans (commitAll_calls _ _)

theorem manage_calls (s : TaskStore) (event : TaskManager.Event) :
    Calls s.persistence (s.manage event).persistence := by
  cases event with
  | deleteTask id =>
    unfold manage
    dsimp only
    split
    · exact .refl _
    · exact s.removeMany_calls _
  | deleteTasksForGoal goalId => exact s.removeMany_calls _
  | _ => exact s.perform_calls _

def Event.isCall : Event → Bool
  | .timerFired => false
  | .runJob _ => false
  | _ => true

theorem step_calls (s : TaskStore) {event : Event} (h : event.isCall = true) :
    Calls s.persistence (s.step event).persistence := by
  cases event with
  | manage event => exact s.manage_calls event
  | put task => exact (s.setTasks_calls _).trans (save_calls _ _)
  | putCommitted task facts => exact s.putCommitted_calls task facts
  | removeMany ids => exact s.removeMany_calls ids
  | flush => exact s.flush_calls
  | timerFired => cases h
  | runJob => cases h

/-! ## Runs -/

/-- The next microtask is a drain that has something to write. -/
def drainsNext (s : TaskStore) : Bool :=
  match s.persistence.jobs with
  | .drain :: _ => s.persistence.requested
  | _ => false

/-- Each task that a drain would create or whose durable state it would change now is
    covered by the intents of exactly one waiting batch. -/
def DrainReported (s : TaskStore) : Prop :=
  ∀ taskId ∈ s.persistence.dirty.members, ∀ change ∈ [.created taskId, .stateChanged taskId],
    s.persistence.nextWrite.Changes change →
      (waitersOf s.persistence.barriers).countP (intentsCover ·.intents change) = 1

/-- Is this event a microtask during which no transaction fails? -/
def Event.commits : Event → Bool
  | .runJob fails => ! fails
  | _ => false

/-- A drain that commits finds its changes reported. -/
def Guard (s : TaskStore) (event : Event) : Prop :=
  s.drainsNext = true → event.commits = true → s.DrainReported

instance (s : TaskStore) : Decidable s.DrainReported :=
  inferInstanceAs (Decidable (∀ _ ∈ _, ∀ _ ∈ _, _))

instance (s : TaskStore) (event : Event) : Decidable (s.Guard event) :=
  inferInstanceAs (Decidable (_ → _))

theorem DrainReported.settles (h : s.DrainReported) : Settles taskReporting s.persistence := by
  intro change hchanged
  have hchange : s.persistence.nextWrite.Changes change := hchanged
  refine h change.taskId hchange.mem_keys change ?_ hchange
  cases change <;> simp [TaskChange.taskId]

/-- The reports of publications are in order. -/
def FactsInv (s : TaskStore) : Prop := PublicationInv taskReporting s.persistence

theorem FactsInv.runJob (h : FactsInv s) {fails : Bool} (hguard : s.Guard (.runJob fails)) :
    FactsInv (s.runJob fails) := by
  unfold TaskStore.runJob
  dsimp only
  split
  · exact h
  · rename_i rest hjobs
    refine PublicationInv.drain_step h hjobs fun hrequested hfails => ?_
    subst hfails
    exact (hguard (by simp [drainsNext, hjobs, hrequested]) rfl).settles
  · rename_i rest hjobs
    exact PublicationInv.drained_step h hjobs
  · rename_i rest hjobs
    exact (PublicationInv.popped h hjobs fun _ => rfl).startDrain
  · rename_i waiter rest hjobs
    exact PublicationInv.published_step h hjobs
  · rename_i waiter rest hjobs
    refine (PublicationInv.popped h hjobs fun _ => rfl).enqueue (fun earlier _ => ?_)
      (by simp [Job.isDrainStep]) (by simp) (by simp)
    cases earlier <;> rfl
  · rename_i waiter publication number rest hjobs
    exact (PublicationInv.report_step h hjobs).enqueue_other _
  · rename_i waiter rest hjobs
    exact (PublicationInv.popped h hjobs fun _ => rfl).enqueue_other _
  · rename_i job rest hjobs
    exact (PublicationInv.popped h hjobs fun _ => rfl).calls
      (runOther_calls { s with persistence := s.persistence.popped } job)

theorem FactsInv.step (h : FactsInv s) {event : Event} (hguard : s.Guard event) :
    FactsInv (s.step event) := by
  cases event with
  | timerFired => exact PublicationInv.timerFired h
  | runJob fails => exact h.runJob hguard
  | _ => exact PublicationInv.calls (s.step_calls rfl) h

/-! ## Reports -/

/-- The reports made about a change in the publication of a write. -/
def reportsOf (s : TaskStore) (number : Nat) (change : TaskChange) : Nat :=
  s.persistence.reported.countP fun entry => entry.1 = number ∧ factTopic entry.2 = some change

/-- A fact says what the write did to the durable rows. -/
def Faithful (write : Write String PersistedTask) : TaskCommittedFact → Prop
  | .taskCreated taskId goalId type state parentTaskId revision =>
    write.before taskId = none ∧ ∃ current, write.after taskId = some current ∧
      goalId = current.goalId ∧ type = current.type ∧ state = current.state ∧
        parentTaskId = current.parentTaskId ∧ revision = current.updatedAt
  | .taskUpdated taskId goalId state changedFields revision =>
    ∃ previous current, write.before taskId = some previous ∧ write.after taskId = some current ∧
      goalId = current.goalId ∧ state = current.state ∧ revision = current.updatedAt ∧
        ∀ field ∈ changedFields, previous.property field ≠ current.property field
  | .taskStateChanged taskId goalId previousState state revision =>
    ∃ previous current, write.before taskId = some previous ∧ write.after taskId = some current ∧
      goalId = current.goalId ∧ previousState = previous.state ∧ state = current.state ∧
        previousState ≠ state ∧ revision = current.updatedAt

/-- Durable changes and reports agree. -/
structure TaskFactsReported (s : TaskStore) : Prop where
  at_most_once : ∀ i write, s.persistence.writes[i]? = some write → ∀ change,
    write.Changes change → s.reportsOf (i + 1) change ≤ 1
  once : s.persistence.jobs = [] → ∀ i write, s.persistence.writes[i]? = some write → ∀ change,
    write.Changes change → s.reportsOf (i + 1) change = 1
  faithful : ∀ entry ∈ s.persistence.reported, ∃ write,
    s.persistence.writes[entry.1 - 1]? = some write ∧ Faithful write entry.2

theorem faithful_of_mem {intents : List TaskCommittedFact} {write : Write String PersistedTask}
    {fact : TaskCommittedFact} (h : fact ∈ reportCommittedTaskDeltas intents write.publication) :
    Faithful write fact := by
  obtain ⟨taskId, -, hfact⟩ := List.mem_flatMap.mp h
  unfold taskDeltas at hfact
  dsimp only [Write.publication] at hfact
  by_cases hkey : taskId ∈ write.keys
  · simp only [hkey, if_true] at hfact
    split at hfact
    · cases hfact
    · rename_i current hbefore hafter
      rw [List.mem_singleton.mp hfact]
      exact ⟨hbefore, current, hafter, rfl, rfl, rfl, rfl, rfl⟩
    · rename_i previous current hbefore hafter
      rcases List.mem_append.mp hfact with hfact | hfact
      · obtain ⟨changedFields, rfl, hchanged⟩ := mem_updatedDelta hfact
        exact ⟨previous, current, hbefore, hafter, rfl, rfl, rfl, hchanged⟩
      · obtain ⟨rfl, hchanged⟩ := mem_stateDelta hfact
        exact ⟨previous, current, hbefore, hafter, rfl, rfl, rfl, hchanged, rfl⟩
  · simp [hkey] at hfact

theorem FactsInv.taskFactsReported (h : FactsInv s) : s.TaskFactsReported where
  at_most_once _ _ hwrite _ hchange := PublicationInv.reported_at_most_once h hwrite hchange
  once hjobs _ _ hwrite _ hchange := PublicationInv.reported_once h hjobs hwrite hchange
  faithful entry hentry := by
    obtain ⟨waiter, write, hwrite, hfact⟩ := PublicationInv.sound h entry hentry
    exact ⟨write, hwrite, faithful_of_mem hfact⟩

def loadedTask : PersistedTask where
  id := "t"
  goalId := "g"
  parentTaskId := none
  title := "title"
  type := "code"
  state := .todo
  assignedSessionId := none
  spec := none
  createdAt := 0
  updatedAt := 0
  completedAt := none
  dependsOn := none
  baseSha := none
  headSha := none
  branch := none
  resultSummary := none
  workflowGateId := none
  inputGateIds := none

def renamed : TaskUpdates := ⟨some "other", none, none, none, none, none, none, none, none, none, none⟩

/-- A task is renamed and started in one batch. -/
def oneBatch : List Event :=
  [.manage (.updateTask "t" renamed 1), .manage (.transitionTask "t" .inProgress 2)] ++
    List.replicate 10 (.runJob false)

/-- A flush starts the batch of the new title before the task is started. -/
def transitionBehindFlush : List Event :=
  [.manage (.updateTask "t" renamed 1), .flush, .manage (.transitionTask "t" .inProgress 2)] ++
    List.replicate 21 (.runJob false)

end TaskStore

end Bobbit.Server
