import Bobbit.Lib.List
import Bobbit.Lib.Run
import Bobbit.Server.GateStore
import Bobbit.Spec.PublicationInvariant

/-!
# Reports of gate status changes

A drain writes the gates as they are when it runs. Whether a status change that
becomes durable is reported depends on who waits for that drain: the store adds a
status update to a detached batch of its own, but a drain that is already queued
for another reason takes the update with it.

Key results:

- `status_changes_reported`: while every drain finds exactly one continuation that
  reports on each status it is about to change, each durable status change is
  reported exactly once, with the durable statuses and in revision order.
- `queued_drain_consumes_update`: a status change that is never reported.
-/

namespace Bobbit.Server

open Lib SqlitePersistence

/-! ## Status changes of a write -/

/-- The durable status of a gate; a gate without a row is pending. -/
def durableStatus (rows : String → Option GateState) (key : String) : GateStatus :=
  ((rows key).map (·.status)).getD .pending

def Write.StatusChanges (write : Write String GateState) (key : String) : Prop :=
  (write.after key).isSome = true ∧ durableStatus write.before key ≠ durableStatus write.after key

instance (write : Write String GateState) (key : String) : Decidable (write.StatusChanges key) :=
  inferInstanceAs (Decidable (_ ∧ _))

theorem Write.StatusChanges.mem_keys {write : Write String GateState} {key : String}
    (h : write.StatusChanges key) : key ∈ write.keys := by
  by_contra hnot
  exact h.2 (by simp only [durableStatus, write.frame key hnot])

/-- The revision that a report of this row carries. -/
def reportedRevision (row : Option GateState) : Nat := (row.bind (·.statusRevision)).getD 1

def statusDiffers : Option GateState → Option GateState → Bool
  | some previous, some current => previous.status ≠ current.status
  | _, _ => false

/-- What the gate store reports about publications. -/
def gateReporting :
    Reporting String GateState GateWaiter (String × GateStatusCommit) String where
  facts waiter publication := reportStatusCommits waiter.reportKeys publication
  changed before after key := statusDiffers (before key) (after key)
  covers waiter key := key ∈ waiter.reportKeys.members
  topic fact := some fact.1
  countP_facts waiter write key hchanged := by
    have hmem : key ∈ write.keys := by
      by_contra hnot
      rw [write.frame key hnot] at hchanged
      cases hrow : write.before key <;> simp [statusDiffers, hrow] at hchanged
    obtain ⟨commit, hcommit⟩ : ∃ commit, statusCommit write.publication key = some commit := by
      simp only [statusCommit, Write.publication, if_pos hmem]
      cases hbefore : write.before key with
      | none => simp [statusDiffers, hbefore] at hchanged
      | some previous =>
        cases hafter : write.after key with
        | none => simp [statusDiffers, hafter] at hchanged
        | some current =>
          have hne : previous.status ≠ current.status := by
            simpa [statusDiffers, hbefore, hafter] using hchanged
          exact ⟨_, if_neg hne⟩
    have hcount : ∀ keys : List String,
        (keys.filterMap fun key => (statusCommit write.publication key).map fun commit =>
          (key, commit)).countP (fun fact => fact.1 = key) = keys.count key := by
      intro keys
      induction keys with
      | nil => rfl
      | cons first rest ih =>
        by_cases hfirst : first = key
        · subst hfirst
          simp [hcommit, ih]
        · cases hother : statusCommit write.publication first with
          | none => simp [hother, ih, hfirst]
          | some other => simp [hother, ih, hfirst]
    simp only [Option.some.injEq, reportStatusCommits, hcount]
    split
    · rename_i hcovers
      exact List.count_eq_one_of_mem waiter.reportKeys.nodup (by simpa using hcovers)
    · rename_i hcovers
      exact List.count_eq_zero_of_not_mem (by simpa using hcovers)

namespace GateStore

variable {s : GateStore}

/-! ## Calls -/

theorem save_calls (s : GateStore) (keys : List String) :
    Calls s.persistence (s.save keys).persistence :=
  (Calls.refl _).schedule keys

theorem setGates_calls (s : GateStore) (gates : JsMap String GateState) :
    Calls s.persistence (s.setGates gates).persistence :=
  (Calls.refl _).setRows gates

theorem publishStatusCommitsDetached_calls (s : GateStore) (keys : List String)
    (commits : List GateStatusCommit) :
    Calls s.persistence (s.publishStatusCommitsDetached keys commits).persistence := by
  unfold publishStatusCommitsDetached
  split
  · exact s.save_calls keys
  · dsimp only
    split
    · exact .refl _
    · exact (Calls.refl _).enqueue _

theorem detachedLoop_calls (s : GateStore) : Calls s.persistence s.detachedLoop.persistence := by
  unfold detachedLoop
  split
  · exact (Calls.refl _).enqueue _
  · exact (Calls.refl _).publishStrict _ _

theorem flushDetachedStatusCommits_calls (s : GateStore) :
    Calls s.persistence s.flushDetachedStatusCommits.persistence := by
  unfold flushDetachedStatusCommits
  split
  · exact .refl _
  · exact detachedLoop_calls { s with detachedStatusFlush := true }

theorem flush_calls (s : GateStore) : Calls s.persistence s.flush.persistence := by
  unfold flush
  split
  · exact s.flushDetachedStatusCommits_calls
  · exact (Calls.refl _).flush

theorem calls_foldl {σ β : Type} (persistence : σ → SqlitePersistence String GateState GateWaiter GateJob
    (String × GateStatusCommit))
    {f : σ → β → σ} (hf : ∀ a b, Calls (persistence a) (persistence (f a b))) (l : List β) (a : σ) :
    Calls (persistence a) (persistence (l.foldl f a)) := by
  induction l generalizing a with
  | nil => exact .refl _
  | cons b rest ih => exact (hf a b).trans (ih _)

theorem initGatesForGoal_calls (s : GateStore) (goalId : String) (gateIds : List String) (now : Nat) :
    Calls s.persistence (s.initGatesForGoal goalId gateIds now).persistence := by
  unfold initGatesForGoal
  dsimp only
  refine (calls_foldl (fun a : GateStore × List String => a.1.persistence) (fun a gateId => ?_)
    gateIds (s, [])).trans (save_calls _ _)
  split
  · exact .refl _
  · exact a.1.setGates_calls _

theorem reconcileGatesForGoal_calls (s : GateStore) (goalId : String) (next modified : List String)
    (now : Nat) :
    Calls s.persistence (s.reconcileGatesForGoal goalId next modified now).persistence := by
  unfold reconcileGatesForGoal
  dsimp only
  split
  · exact (s.setGates_calls _).trans (save_calls _ _)
  · exact (s.setGates_calls _).trans (publishStatusCommitsDetached_calls _ _ _)

theorem updateGate_calls (s : GateStore) (key : String) (update : GateState → GateState) :
    Calls s.persistence (s.updateGate key update).persistence := by
  unfold updateGate
  split
  · exact .refl _
  · exact (s.setGates_calls _).trans (save_calls _ _)

theorem bypassGate_calls (s : GateStore) (goalId gateId id why who : String) (now : Nat) :
    Calls s.persistence (s.bypassGate goalId gateId id why who now).persistence := by
  unfold bypassGate
  dsimp only
  split
  · exact .refl _
  · split
    · exact (s.setGates_calls _).trans (publishStatusCommitsDetached_calls _ _ _)
    · exact (s.setGates_calls _).trans (save_calls _ _)

theorem updateGateStatus_calls (s : GateStore) (goalId gateId : String) (status : GateStatus)
    (now : Nat) : Calls s.persistence (s.updateGateStatus goalId gateId status now).persistence := by
  unfold updateGateStatus
  dsimp only
  split
  · exact .refl _
  · split
    · exact .refl _
    · exact (s.setGates_calls _).trans (publishStatusCommitsDetached_calls _ _ _)

theorem updateSignalVerification_calls (s : GateStore) (signalId : String)
    (verification : VerificationStatus) (now : Nat) :
    Calls s.persistence (s.updateSignalVerification signalId verification now).persistence := by
  unfold updateSignalVerification
  split
  · exact .refl _
  · split
    · exact .refl _
    · split
      · exact .refl _
      · exact (s.setGates_calls _).trans (save_calls _ _)

theorem resetGateAndDependentsInternal_calls (s : GateStore) (goalId gateId : String)
    (workflow : List WorkflowGate) (strict persist : Bool) (now : Nat) :
    Calls s.persistence
      (s.resetGateAndDependentsInternal goalId gateId workflow strict persist now).persistence := by
  unfold resetGateAndDependentsInternal
  split
  · exact .refl _
  · rename_i affectedGateIds _
    generalize affectedGateIds.foldl (ResetPass.visit goalId now) ⟨s.gates, [], [], []⟩ = pass
    refine Calls.trans (s.setGates_calls pass.gates) ?_
    dsimp only
    split
    · exact .refl _
    · split
      · exact .refl _
      · split
        · exact (Calls.refl _).publishStrict _ _
        · split
          · exact publishStatusCommitsDetached_calls _ _ _
          · exact save_calls _ _

theorem cascadeReset_calls (s : GateStore) (goalId gateId : String) (workflow : List WorkflowGate)
    (now : Nat) : Calls s.persistence (s.cascadeReset goalId gateId workflow now).persistence := by
  unfold cascadeReset
  split
  · exact .refl _
  · rename_i dependents _
    dsimp only
    generalize hfold : dependents.foldl _ (s, [], []) = result
    have hresult : Calls s.persistence result.1.persistence := by
      rw [← hfold]
      refine calls_foldl (fun a : GateStore × List String × List GateStatusCommit => a.1.persistence)
        (fun a depId => ?_) dependents (s, [], [])
      split
      · exact .refl _
      · exact a.1.setGates_calls _
    split
    · exact hresult
    · exact hresult.trans (publishStatusCommitsDetached_calls _ _ _)

theorem removeGoalGates_calls (s : GateStore) (goalId : String) :
    Calls s.persistence (s.removeGoalGates goalId).persistence :=
  (s.setGates_calls _).trans (save_calls _ _)

theorem runOther_calls (s : GateStore) (job : GateJob) :
    Calls s.persistence (s.runOther job).persistence := by
  cases job with
  | flushDetached =>
    exact flushDetachedStatusCommits_calls { s with detachedStatusFlushScheduled := false }
  | reported waiter =>
    cases waiter with
    | reset => exact (Calls.refl _).enqueue _
    | detached => exact s.detachedLoop_calls
  | detachedSettled => exact .refl _
  | resetPublished => exact .refl _
  | resetFailed => exact s.setGates_calls _

theorem runRethrow_calls (s : GateStore) (waiter : GateWaiter) :
    Calls s.persistence (s.runRethrow waiter).persistence := by
  cases waiter <;> exact (Calls.refl _).enqueue _

def Event.isCall : Event → Bool
  | .timerFired => false
  | .runJob _ => false
  | _ => true

theorem step_calls (s : GateStore) {event : Event} (h : event.isCall = true) :
    Calls s.persistence (s.step event).persistence := by
  cases event with
  | initGatesForGoal => exact s.initGatesForGoal_calls _ _ _
  | reconcileGatesForGoal => exact s.reconcileGatesForGoal_calls _ _ _ _
  | recordSignal => exact s.updateGate_calls _ _
  | bypassGate => exact s.bypassGate_calls _ _ _ _ _ _
  | updateGateStatus => exact s.updateGateStatus_calls _ _ _ _
  | updateGateContent => exact s.updateGate_calls _ _
  | updateGateMetadata => exact s.updateGate_calls _ _
  | updateSignalVerification => exact s.updateSignalVerification_calls _ _ _
  | resetGateAndDependents => exact s.resetGateAndDependentsInternal_calls _ _ _ _ _ _
  | cascadeReset => exact s.cascadeReset_calls _ _ _ _
  | removeGoalGates => exact s.removeGoalGates_calls _
  | flush => exact s.flush_calls
  | timerFired => cases h
  | runJob => cases h

/-! ## Drains -/

/-- The next microtask is a drain that has something to write. -/
def drainsNext (s : GateStore) : Bool :=
  match s.persistence.jobs with
  | .drain :: _ => s.persistence.requested
  | _ => false

/-- Each status change that a drain would write now is of a durable gate, is
    covered by exactly one waiting continuation, and has a later revision than the
    durable changes before it. -/
def DrainReported (s : GateStore) : Prop :=
  ∀ key ∈ s.persistence.dirty.members, s.persistence.nextWrite.StatusChanges key →
    (s.persistence.durable key).isSome = true ∧
      (waitersOf s.persistence.barriers).countP (key ∈ ·.reportKeys.members) = 1 ∧
        ∀ write ∈ s.persistence.writes, write.StatusChanges key →
          reportedRevision (write.after key) <
            reportedRevision (s.persistence.nextWrite.after key)

/-- Is this event a microtask during which no transaction fails? -/
def Event.commits : Event → Bool
  | .runJob fails => ! fails
  | _ => false

/-- A drain that commits finds its status changes reported. -/
def Guard (s : GateStore) (event : Event) : Prop :=
  s.drainsNext = true → event.commits = true → s.DrainReported

instance (s : GateStore) : Decidable s.DrainReported := inferInstanceAs (Decidable (∀ _ ∈ _, _))

instance (s : GateStore) (event : Event) : Decidable (s.Guard event) :=
  inferInstanceAs (Decidable (_ → _))

/-- The writes so far change the statuses of durable gates, with increasing
    revisions. -/
structure WritesOrdered (writes : List (Write String GateState)) : Prop where
  durable : ∀ write ∈ writes, ∀ key, write.StatusChanges key → (write.before key).isSome = true
  ordered : writes.Pairwise fun write later => ∀ key, write.StatusChanges key →
    later.StatusChanges key → reportedRevision (write.after key) < reportedRevision (later.after key)

variable {write : Write String GateState}

/-- For a durable gate the two readings of a change agree. -/
theorem statusDiffers_iff {key : String} (hdurable : (write.before key).isSome = true) :
    statusDiffers (write.before key) (write.after key) = true ↔ write.StatusChanges key := by
  obtain ⟨previous, hprevious⟩ := Option.isSome_iff_exists.mp hdurable
  cases hcurrent : write.after key with
  | none => simp [statusDiffers, hprevious, hcurrent, Write.StatusChanges]
  | some current => simp [statusDiffers, hprevious, hcurrent, Write.StatusChanges, durableStatus]

theorem statusChanges_of_differs {key : String}
    (h : statusDiffers (write.before key) (write.after key) = true) : write.StatusChanges key := by
  cases hprevious : write.before key with
  | none => simp [statusDiffers, hprevious] at h
  | some previous => exact (statusDiffers_iff (by simp [hprevious])).mp h

theorem DrainReported.settles (h : s.DrainReported) : Settles gateReporting s.persistence := by
  intro key hchanged
  have hchange : s.persistence.nextWrite.StatusChanges key := statusChanges_of_differs hchanged
  exact (h key hchange.mem_keys hchange).2.1

theorem DrainReported.writesOrdered (h : s.DrainReported)
    (hwrites : WritesOrdered s.persistence.writes) :
    WritesOrdered (s.persistence.writes ++ [s.persistence.nextWrite]) where
  durable write hwrite key hchange := by
    rcases List.mem_append.mp hwrite with hwrite | hwrite
    · exact hwrites.durable write hwrite key hchange
    · obtain rfl := List.mem_singleton.mp hwrite
      exact (h key hchange.mem_keys hchange).1
  ordered := by
    refine List.pairwise_append.mpr ⟨hwrites.ordered, List.pairwise_singleton _ _, ?_⟩
    intro write hwrite later hlater key hchange hlaterChange
    obtain rfl := List.mem_singleton.mp hlater
    exact (h key hlaterChange.mem_keys hlaterChange).2.2 write hwrite hchange

/-! ## Steps -/

/-- What holds in every state of a run that meets the guard. -/
structure StatusInv (s : GateStore) : Prop where
  publications : PublicationInv gateReporting s.persistence
  writes : WritesOrdered s.persistence.writes

theorem StatusInv.loaded (gates : JsMap String GateState) : StatusInv (GateStore.loaded gates) where
  publications := .loaded gates
  writes := ⟨by simp [GateStore.loaded, SqlitePersistence.loaded],
    by simp [GateStore.loaded, SqlitePersistence.loaded]⟩

theorem StatusInv.calls {s' : GateStore} (h : StatusInv s)
    (hcalls : Calls s.persistence s'.persistence) : StatusInv s' where
  publications := h.publications.calls hcalls
  writes := hcalls.frame.1 ▸ h.writes

theorem StatusInv.drain (h : StatusInv s) {rest} (hjobs : s.persistence.jobs = .drain :: rest)
    {fails : Bool} (hguard : s.Guard (.runJob fails)) :
    StatusInv { s with persistence := s.persistence.popped.drain fails } where
  publications := by
    refine h.publications.drain_step hjobs fun hrequested hfails => ?_
    subst hfails
    exact (hguard (by simp [drainsNext, hjobs, hrequested]) rfl).settles
  writes := by
    cases hrequested : s.persistence.requested with
    | false =>
      simpa [SqlitePersistence.drain, SqlitePersistence.popped, SqlitePersistence.enqueue,
        hrequested] using h.writes
    | true =>
      cases fails with
      | true =>
        simpa [SqlitePersistence.drain, SqlitePersistence.popped, SqlitePersistence.enqueue,
          SqlitePersistence.drainFailed, hrequested] using h.writes
      | false =>
        have hreported := hguard (by simp [drainsNext, hjobs, hrequested]) rfl
        have hwrites : (s.persistence.popped.drain false).writes =
            s.persistence.writes ++ [s.persistence.nextWrite] := by
          rw [SqlitePersistence.drain, if_neg (by simp [SqlitePersistence.popped, hrequested])]
          rfl
        exact hwrites ▸ hreported.writesOrdered h.writes

theorem StatusInv.runJob (h : StatusInv s) {fails : Bool} (hguard : s.Guard (.runJob fails)) :
    StatusInv (s.runJob fails) := by
  unfold GateStore.runJob
  dsimp only
  have hpop : ∀ {job rest}, s.persistence.jobs = job :: rest →
      (∀ t, due gateReporting t job = false) →
        StatusInv { s with persistence := s.persistence.popped } :=
    fun hjobs hdue => ⟨h.publications.popped hjobs hdue, h.writes⟩
  split
  · exact h
  · rename_i rest hjobs
    exact h.drain hjobs hguard
  · rename_i rest hjobs
    refine ⟨h.publications.drained_step hjobs, ?_⟩
    unfold SqlitePersistence.drained
    dsimp only
    split <;> exact h.writes
  · rename_i rest hjobs
    refine ⟨(h.publications.popped hjobs fun _ => rfl).startDrain, ?_⟩
    show WritesOrdered s.persistence.popped.startDrain.writes
    rw [(SqlitePersistence.startDrain_writes _).1]
    exact h.writes
  · rename_i waiter rest hjobs
    exact ⟨h.publications.published_step hjobs, h.writes⟩
  · rename_i waiter rest hjobs
    refine ⟨(h.publications.popped hjobs fun _ => rfl).enqueue (fun earlier _ => ?_)
      (by simp [Job.isDrainStep]) (by simp) (by simp), h.writes⟩
    cases earlier <;> rfl
  · rename_i waiter publication number rest hjobs
    exact ⟨(h.publications.report_step hjobs).resume _, h.writes⟩
  · rename_i waiter rest hjobs
    exact (hpop hjobs fun _ => rfl).calls (runRethrow_calls _ _)
  · rename_i job rest hjobs
    exact (hpop hjobs fun _ => rfl).calls (runOther_calls _ _)

theorem StatusInv.step (h : StatusInv s) {event : Event} (hguard : s.Guard event) :
    StatusInv (s.step event) := by
  cases event with
  | timerFired =>
    refine ⟨h.publications.timerFired, ?_⟩
    show WritesOrdered s.persistence.timerFired.writes
    unfold SqlitePersistence.timerFired
    split
    · rw [(SqlitePersistence.startDrain_writes _).1]
      exact h.writes
    · exact h.writes
  | runJob fails => exact h.runJob hguard
  | _ => exact h.calls (s.step_calls rfl)

/-! ## Reports -/

/-- The reports made about the status of a gate in the publication of a write. -/
def reportsOf (s : GateStore) (number : Nat) (key : String) : Nat :=
  s.persistence.reported.countP fun entry => entry.1 = number ∧ entry.2.1 = key

structure StatusChangesReported (s : GateStore) : Prop where
  at_most_once : ∀ i write, s.persistence.writes[i]? = some write → ∀ key,
    write.StatusChanges key → s.reportsOf (i + 1) key ≤ 1
  once : s.persistence.jobs = [] → ∀ i write, s.persistence.writes[i]? = some write → ∀ key,
    write.StatusChanges key → s.reportsOf (i + 1) key = 1
  faithful : ∀ entry ∈ s.persistence.reported, ∃ write previous current,
    s.persistence.writes[entry.1 - 1]? = some write ∧ write.before entry.2.1 = some previous ∧
      write.after entry.2.1 = some current ∧ previous.status ≠ current.status ∧
        entry.2.2 = ⟨current.goalId, current.gateId, previous.status, current.status,
          current.statusRevision.getD 1⟩
  ordered : s.persistence.reported.Pairwise fun entry later => entry.2.1 = later.2.1 →
    entry.2.2.revision < later.2.2.revision

theorem reportsOf_eq (s : GateStore) (number : Nat) (key : String) :
    s.reportsOf number key = reportedCount gateReporting s.persistence number key := by
  simp [reportsOf, reportedCount, gateReporting]

theorem mem_reportStatusCommits {keys : JsSet String}
    {fact : String × GateStatusCommit} (h : fact ∈ reportStatusCommits keys write.publication) :
    ∃ previous current, write.before fact.1 = some previous ∧ write.after fact.1 = some current ∧
      previous.status ≠ current.status ∧
        fact.2 = ⟨current.goalId, current.gateId, previous.status, current.status,
          current.statusRevision.getD 1⟩ := by
  obtain ⟨key, -, hfact⟩ := List.mem_filterMap.mp h
  obtain ⟨commit, hcommit, rfl⟩ := Option.map_eq_some_iff.mp hfact
  unfold statusCommit at hcommit
  split at hcommit
  · rename_i previous current hprevious hcurrent
    split at hcommit
    · cases hcommit
    · rename_i hne
      obtain rfl := Option.some.inj hcommit
      simp only [Write.publication] at hprevious hcurrent
      split at hprevious
      · rename_i hmem
        rw [if_pos hmem] at hcurrent
        exact ⟨previous, current, hprevious, hcurrent, hne, rfl⟩
      · cases hprevious
  · cases hcommit

theorem StatusInv.faithful (h : StatusInv s) : ∀ entry ∈ s.persistence.reported,
    ∃ write previous current,
      s.persistence.writes[entry.1 - 1]? = some write ∧ write.before entry.2.1 = some previous ∧
        write.after entry.2.1 = some current ∧ previous.status ≠ current.status ∧
          entry.2.2 = ⟨current.goalId, current.gateId, previous.status, current.status,
            current.statusRevision.getD 1⟩ := by
  intro entry hentry
  obtain ⟨waiter, write, hwrite, hfact⟩ := h.publications.sound entry hentry
  obtain ⟨previous, current, hfacts⟩ := mem_reportStatusCommits hfact
  exact ⟨write, previous, current, hwrite, hfacts⟩

/-- A reported commit is of a change, and carries the revision of the written row. -/
theorem StatusInv.reported_change (h : StatusInv s) {entry} (hentry : entry ∈ s.persistence.reported) :
    ∃ write, s.persistence.writes[entry.1 - 1]? = some write ∧ write.StatusChanges entry.2.1 ∧
      entry.2.2.revision = reportedRevision (write.after entry.2.1) := by
  obtain ⟨write, previous, current, hwrite, hprevious, hcurrent, hne, hcommit⟩ :=
    h.faithful entry hentry
  refine ⟨write, hwrite, ⟨by simp [hcurrent], ?_⟩, ?_⟩
  · simpa [durableStatus, hprevious, hcurrent] using hne
  · simp [hcommit, reportedRevision, hcurrent]

theorem StatusInv.at_most_once (h : StatusInv s) {i : Nat}
    (hwrite : s.persistence.writes[i]? = some write) {key : String}
    (hchange : write.StatusChanges key) : s.reportsOf (i + 1) key ≤ 1 := by
  have hdurable := h.writes.durable write (List.mem_of_getElem? hwrite) key hchange
  rw [reportsOf_eq]
  exact h.publications.reported_at_most_once hwrite ((statusDiffers_iff hdurable).mpr hchange)

/-- Reports of one gate come with increasing revisions: they are of different
    writes, and the later report is of the later write. -/
theorem StatusInv.reports_ordered (h : StatusInv s) :
    s.persistence.reported.Pairwise fun entry later => entry.2.1 = later.2.1 →
      entry.2.2.revision < later.2.2.revision := by
  rw [List.pairwise_iff_getElem]
  intro i j hi hj hij hkey
  have hle : s.persistence.reported[i].1 ≤ s.persistence.reported[j].1 :=
    List.pairwise_iff_getElem.mp h.publications.sorted i j hi hj hij
  obtain ⟨write, hwrite, hchange, hrevision⟩ := h.reported_change (List.getElem_mem hi)
  obtain ⟨later, hlater, hlaterChange, hlaterRevision⟩ := h.reported_change (List.getElem_mem hj)
  have hnumber := h.publications.numbers _ (List.getElem_mem hi)
  have hlaterNumber := h.publications.numbers _ (List.getElem_mem hj)
  rw [hrevision, hlaterRevision, ← hkey]
  rw [← hkey] at hlaterChange
  rcases Nat.lt_or_eq_of_le hle with hlt | heq
  · obtain ⟨hindex, rfl⟩ := List.getElem?_eq_some_iff.mp hwrite
    obtain ⟨hlaterIndex, rfl⟩ := List.getElem?_eq_some_iff.mp hlater
    exact List.pairwise_iff_getElem.mp h.writes.ordered _ _ hindex hlaterIndex (by omega) _
      hchange hlaterChange
  · have hcount := h.at_most_once hwrite hchange
    rw [Nat.sub_add_cancel hnumber.1] at hcount
    exact absurd hcount (by
      rw [Nat.not_le]
      exact two_le_countP hij hj (by simp) (by simp [heq, hkey]))

theorem StatusInv.statusChangesReported (h : StatusInv s) : s.StatusChangesReported where
  at_most_once _ _ hwrite _ hchange := h.at_most_once hwrite hchange
  once hjobs i write hwrite key hchange := by
    have hdurable := h.writes.durable write (List.mem_of_getElem? hwrite) key hchange
    rw [reportsOf_eq]
    exact h.publications.reported_once hjobs hwrite ((statusDiffers_iff hdurable).mpr hchange)
  faithful := h.faithful
  ordered := h.reports_ordered

def gateWith (gateId : String) (status : GateStatus) : GateState :=
  { GateState.new "g" gateId 0 with status := status }

/-- The gates of the runs below, as loaded. -/
def twoGates : JsMap String GateState :=
  [("g::j", gateWith "j" .failed), ("g::k", gateWith "k" .pending)]

/-- A gate passes while nothing else is going on. -/
def statusUpdate : List Event :=
  .updateGateStatus "g" "k" .passed 1 :: List.replicate 7 (.runJob false)

/-- A strict reset of one gate has queued a drain when the content and the status
    of another gate change. -/
def updateBehindReset : List Event :=
  [.resetGateAndDependents "g" "j" [⟨"j", []⟩] true true 1,
    .updateGateContent "g" "k" "text" 1 2,
    .updateGateStatus "g" "k" .passed 3] ++ List.replicate 14 (.runJob false)

end GateStore

end Bobbit.Server
