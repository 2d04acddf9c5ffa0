import Bobbit.Lib.Run
import Bobbit.Server.GateStore
import Bobbit.Spec.GateStoreCorrect

/-!
# Failed strict resets

A strict reset changes its gates in memory, awaits the publication and, when that
fails, writes the fields it had saved back. Other operations may have changed the
same gates in between.

Key results:

- `rejected_reset_rolls_back`: the rollback of a rejected reset runs before the
  microtask queue is empty.
- `failed_reset_undone_iff`: it takes exactly the reset back when no saved field
  was changed in between.
- `rollback_loses_update`: a status update that the rollback takes back as well.
-/

namespace Bobbit.Server

open Lib

/-! ## The affected gates -/

theorem compositeKey_injective (goalId : String) {gateId other : String}
    (h : compositeKey goalId gateId = compositeKey goalId other) : gateId = other := by
  simpa [compositeKey, String.ext_iff] using h

theorem mem_visitDependents {gates : List WorkflowGate} {fuel : Nat} {visited queue : List String}
    {gateId : String} (h : gateId ∈ visitDependents gates fuel visited queue) :
    gateId ∈ queue ∨ gateId ∉ visited := by
  induction fuel generalizing visited queue with
  | zero => cases h
  | succ fuel ih =>
    cases queue with
    | nil => cases h
    | cons current queue =>
      simp only [visitDependents, List.mem_cons] at h ⊢
      rcases h with rfl | h
      · exact .inl (.inl rfl)
      · rcases ih h with hqueue | hvisited
        · rcases List.mem_append.mp hqueue with hqueue | hfresh
          · exact .inl (.inr hqueue)
          · exact .inr fun hmem => by simp [JsSet.mem_ofList, hmem] at hfresh
        · exact .inr fun hmem => hvisited (List.mem_append_left _ hmem)

theorem visitDependents_nodup (gates : List WorkflowGate) (fuel : Nat) {visited queue : List String}
    (hnodup : queue.Nodup) (hvisited : queue ⊆ visited) :
    (visitDependents gates fuel visited queue).Nodup := by
  induction fuel generalizing visited queue with
  | zero => exact List.nodup_nil
  | succ fuel ih =>
    cases queue with
    | nil => exact List.nodup_nil
    | cons current queue =>
      simp only [visitDependents]
      rw [List.nodup_cons] at hnodup
      have hcurrent : current ∈ visited := hvisited List.mem_cons_self
      refine List.nodup_cons.mpr ⟨fun hmem => ?_, ih ?_ ?_⟩
      · rcases mem_visitDependents hmem with hqueue | hnot
        · rcases List.mem_append.mp hqueue with hqueue | hfresh
          · exact hnodup.1 hqueue
          · simp [JsSet.mem_ofList, hcurrent] at hfresh
        · exact hnot (List.mem_append_left _ hcurrent)
      · refine List.nodup_append.mpr ⟨hnodup.2, JsSet.nodup _, fun a ha b hb hab => ?_⟩
        subst hab
        simp [JsSet.mem_ofList, hvisited (List.mem_cons_of_mem _ ha)] at hb
      · intro gateId hgate
        rcases List.mem_append.mp hgate with hgate | hgate
        · exact List.mem_append_left _ (hvisited (List.mem_cons_of_mem _ hgate))
        · exact List.mem_append_right _ hgate

theorem getDependentGateIds_nodup {gateId : String} {gates : List WorkflowGate} {all : Bool}
    {ids : List String} (h : getDependentGateIds gateId gates all = some ids) : ids.Nodup := by
  unfold getDependentGateIds at h
  split at h
  · cases h
  · have hnodup : (visitDependents gates (gates.length + 1) [gateId] [gateId]).Nodup :=
      visitDependents_nodup gates _ (List.nodup_singleton _) (List.Subset.refl _)
    obtain rfl := Option.some.inj h
    split
    · exact hnodup
    · exact hnodup.filter _

namespace GateState

def afterReset (gate : GateState) (now : Nat) : GateState :=
  let touched := { gate with
    verificationCacheInvalidatedAt := some now
    updatedAt := max now gate.updatedAt }
  ((touched.nextStatusCommit .pending now).map (·.1)).getD touched

end GateState

namespace GateStore

/-! ## The loop of a reset -/

section Reset

variable {goalId : String} {now : Nat}

theorem ResetPass.get?_visit (pass : ResetPass) (gateId key : String) :
    (pass.visit goalId now gateId).gates.get? key =
      if key = compositeKey goalId gateId then (pass.gates.get? key).map (·.afterReset now)
      else pass.gates.get? key := by
  unfold ResetPass.visit
  dsimp only
  split
  · rename_i hnone
    split
    · rename_i hkey
      rw [hkey, hnone]
      rfl
    · rfl
  · rename_i gate hgate
    rw [JsMap.get?_set]
    split
    · rename_i hkey
      rw [hkey, hgate]
      rfl
    · rfl

theorem ResetPass.get?_foldl {ids : List String} (hnodup : ids.Nodup) (pass : ResetPass)
    (key : String) :
    (ids.foldl (ResetPass.visit goalId now) pass).gates.get? key =
      if key ∈ ids.map (compositeKey goalId) then (pass.gates.get? key).map (·.afterReset now)
      else pass.gates.get? key := by
  induction ids generalizing pass with
  | nil => rfl
  | cons gateId rest ih =>
    rw [List.nodup_cons] at hnodup
    rw [List.foldl_cons, ih hnodup.2, ResetPass.get?_visit]
    by_cases hkey : key = compositeKey goalId gateId
    · have hnot : key ∉ rest.map (compositeKey goalId) := by
        rintro hmem
        obtain ⟨other, hother, hcomposite⟩ := List.mem_map.mp hmem
        exact hnodup.1 (compositeKey_injective goalId (hcomposite.trans hkey) ▸ hother)
      rw [if_neg hnot, if_pos hkey, if_pos (by simp [hkey])]
    · simp [hkey]

end Reset

/-! ## The rollback -/

variable {snapshots : List (String × GateSnapshot)}

theorem get?_restore
    (hnodup : (snapshots.map (·.1)).Nodup) (gates : JsMap String GateState) (key : String) :
    (snapshots.foldl (fun gates (key, snapshot) =>
      match gates.get? key with
      | none => gates
      | some gate => gates.set key (gate.restore snapshot)) gates).get? key =
      match snapshots.find? (·.1 = key) with
      | none => gates.get? key
      | some entry => (gates.get? key).map (·.restore entry.2) := by
  induction snapshots generalizing gates with
  | nil => rfl
  | cons entry rest ih =>
    rw [List.map_cons, List.nodup_cons] at hnodup
    rw [List.foldl_cons, ih hnodup.2]
    have hfirst : ∀ k, (match gates.get? entry.1 with
        | none => gates
        | some gate => gates.set entry.1 (gate.restore entry.2)).get? k =
          if k = entry.1 then (gates.get? k).map (·.restore entry.2) else gates.get? k := by
      intro k
      cases hgate : gates.get? entry.1 with
      | none =>
        dsimp only
        split
        · rename_i hk
          rw [hk, hgate]
          rfl
        · rfl
      | some gate =>
        dsimp only
        rw [JsMap.get?_set]
        split
        · rename_i hk
          rw [hk, hgate]
          rfl
        · rfl
    rw [hfirst]
    by_cases hkey : entry.1 = key
    · have hnone : rest.find? (·.1 = key) = none := by
        rw [List.find?_eq_none]
        intro other hother hmatch
        exact hnodup.1 (List.mem_map.mpr ⟨other, hother, by simpa [hkey] using hmatch⟩)
      simp [hkey, hnone]
    · simp [hkey, Ne.symm hkey]

variable (s : GateStore)

theorem get?_restoreGates (hnodup : (snapshots.map (·.1)).Nodup) (key : String) :
    (s.restoreGates snapshots).gates.get? key =
      match snapshots.find? (·.1 = key) with
      | none => s.gates.get? key
      | some entry => (s.gates.get? key).map (·.restore entry.2) :=
  get?_restore hnodup s.gates key

/-! ## The reset -/

def affectedGates (gateId : String) (workflow : List WorkflowGate) : List String :=
  (getDependentGateIds gateId workflow true).getD []

/-- What a reset saves: each affected gate as it is. -/
def resetSnapshots (s : GateStore) (goalId : String) (ids : List String) :
    List (String × GateSnapshot) :=
  ids.filterMap fun gateId => (s.gates.get? (compositeKey goalId gateId)).map fun gate =>
    (compositeKey goalId gateId, gate.snapshot)

theorem affectedGates_nodup (gateId : String) (workflow : List WorkflowGate) :
    (affectedGates gateId workflow).Nodup := by
  unfold affectedGates
  cases h : getDependentGateIds gateId workflow true with
  | none => exact List.nodup_nil
  | some ids => exact getDependentGateIds_nodup h

theorem resetSnapshots_nodup (goalId : String) {ids : List String}
    (hnodup : ids.Nodup) : ((s.resetSnapshots goalId ids).map (·.1)).Nodup := by
  have hsublist : (s.resetSnapshots goalId ids).map (·.1) =
      ids.filterMap fun gateId => (s.gates.get? (compositeKey goalId gateId)).map fun _ =>
        compositeKey goalId gateId := by
    simp [resetSnapshots, List.map_filterMap, Function.comp_def]
  rw [hsublist]
  refine hnodup.filterMap fun a b key ha hb => ?_
  obtain ⟨-, -, rfl⟩ := Option.map_eq_some_iff.mp ha
  obtain ⟨-, -, hkey⟩ := Option.map_eq_some_iff.mp hb
  exact (compositeKey_injective goalId hkey).symm

theorem find?_resetSnapshots (goalId : String) (ids : List String) (key : String) :
    (s.resetSnapshots goalId ids).find? (·.1 = key) =
      if key ∈ ids.map (compositeKey goalId) then
        (s.gates.get? key).map fun gate => (key, gate.snapshot)
      else none := by
  induction ids with
  | nil => rfl
  | cons gateId rest ih =>
    unfold resetSnapshots at ih ⊢
    rw [List.filterMap_cons]
    by_cases hkey : compositeKey goalId gateId = key
    · subst hkey
      cases hgate : s.gates.get? (compositeKey goalId gateId) with
      | none =>
        simp only [Option.map_none]
        rw [ih, hgate]
        simp
      | some gate => simp
    · have hkey' : key ≠ compositeKey goalId gateId := Ne.symm hkey
      cases hgate : s.gates.get? (compositeKey goalId gateId) with
      | none => simpa [hkey'] using ih
      | some gate => simpa [hkey, hkey'] using ih

theorem get?_reset (goalId gateId : String) (workflow : List WorkflowGate)
    (now : Nat) (key : String) :
    (s.step (.resetGateAndDependents goalId gateId workflow true true now)).gates.get? key =
      if key ∈ (affectedGates gateId workflow).map (compositeKey goalId) then
        (s.gates.get? key).map (·.afterReset now)
      else s.gates.get? key := by
  have hnodup := affectedGates_nodup gateId workflow
  show (s.resetGateAndDependentsInternal goalId gateId workflow true true now).gates.get? key = _
  unfold resetGateAndDependentsInternal affectedGates at *
  cases hids : getDependentGateIds gateId workflow true with
  | none => rfl
  | some ids =>
    rw [hids, Option.getD_some] at hnodup
    rw [Option.getD_some, ← ResetPass.get?_foldl hnodup ⟨s.gates, [], [], []⟩ key]
    dsimp only
    generalize ids.foldl (ResetPass.visit goalId now) ⟨s.gates, [], [], []⟩ = pass
    split
    · rfl
    · split
      · rfl
      · rw [if_pos rfl, gates, SqlitePersistence.publishStrict_rows]
        rfl

/-! ## Undoing a reset -/

/-- A field of a gate from before a reset, as the reset left it, as it was when the
    publication had failed, and after the rollback: the reset is taken back where
    it still stands, and a later change is kept. -/
def FieldUndone {β : Type} (before left current after : β) : Prop :=
  (current = left → after = before) ∧ (current ≠ left → after = current)

/-- The fields of a gate, and its revision, which falls below neither the one from
    before the reset nor one that another operation has given it. -/
structure GateUndone (before left current after : GateState) : Prop where
  gateId : FieldUndone before.gateId left.gateId current.gateId after.gateId
  goalId : FieldUndone before.goalId left.goalId current.goalId after.goalId
  status : FieldUndone before.status left.status current.status after.status
  statusRevision : FieldUndone before.statusRevision left.statusRevision current.statusRevision
    after.statusRevision
  currentContent : FieldUndone before.currentContent left.currentContent current.currentContent
    after.currentContent
  currentContentVersion : FieldUndone before.currentContentVersion left.currentContentVersion
    current.currentContentVersion after.currentContentVersion
  currentMetadata : FieldUndone before.currentMetadata left.currentMetadata current.currentMetadata
    after.currentMetadata
  signals : FieldUndone before.signals left.signals current.signals after.signals
  verificationCacheInvalidatedAt : FieldUndone before.verificationCacheInvalidatedAt
    left.verificationCacheInvalidatedAt current.verificationCacheInvalidatedAt
    after.verificationCacheInvalidatedAt
  updatedAt : FieldUndone before.updatedAt left.updatedAt current.updatedAt after.updatedAt
  revision_kept : before.statusRevision.getD 0 ≤ after.statusRevision.getD 0
  later_revision_kept : current.statusRevision ≠ left.statusRevision →
    current.statusRevision.getD 0 ≤ after.statusRevision.getD 0

/-- A rollback takes back exactly the reset. The stores are those before the reset,
    right after it, when the rollback runs, and after the rollback. -/
structure ResetUndone (goalId : String) (ids : List String)
    (s reset failed restored : GateStore) : Prop where
  affected : ∀ gateId ∈ ids, ∀ before left,
    s.gates.get? (compositeKey goalId gateId) = some before →
    reset.gates.get? (compositeKey goalId gateId) = some left →
      (failed.gates.get? (compositeKey goalId gateId) = none ∧
        restored.gates.get? (compositeKey goalId gateId) = none) ∨
      ∃ current after, failed.gates.get? (compositeKey goalId gateId) = some current ∧
        restored.gates.get? (compositeKey goalId gateId) = some after ∧
          GateUndone before left current after
  other : ∀ key, key ∉ ids.map (compositeKey goalId) ∨ s.gates.get? key = none →
    restored.gates.get? key = failed.gates.get? key

/-- A field has the value that the reset left, or the one from before it. -/
def FieldUndisturbed {β : Type} (before left current : β) : Prop :=
  current = left ∨ current = before

/-- No other operation has changed the saved fields of an affected gate that is
    still there. -/
def Undisturbed (goalId : String) (ids : List String) (s reset failed : GateStore) : Prop :=
  ∀ gateId ∈ ids, ∀ before left current,
    s.gates.get? (compositeKey goalId gateId) = some before →
    reset.gates.get? (compositeKey goalId gateId) = some left →
    failed.gates.get? (compositeKey goalId gateId) = some current →
      FieldUndisturbed before.status left.status current.status ∧
      FieldUndisturbed before.statusRevision left.statusRevision current.statusRevision ∧
      FieldUndisturbed before.updatedAt left.updatedAt current.updatedAt ∧
      FieldUndisturbed before.verificationCacheInvalidatedAt left.verificationCacheInvalidatedAt
        current.verificationCacheInvalidatedAt

theorem fieldUndone_before {β : Type} {before left current : β} :
    FieldUndone before left current before ↔ FieldUndisturbed before left current := by
  unfold FieldUndone FieldUndisturbed
  constructor
  · intro h
    by_cases hleft : current = left
    · exact .inl hleft
    · exact .inr (h.2 hleft).symm
  · rintro (h | h)
    · exact ⟨fun _ => rfl, fun hne => absurd h hne⟩
    · exact ⟨fun _ => rfl, fun _ => h.symm⟩

theorem fieldUndone_untouched {β : Type} (before current : β) :
    FieldUndone before before current current :=
  ⟨id, fun _ => rfl⟩

theorem afterReset_frame (gate : GateState) (now : Nat) :
    (gate.afterReset now).gateId = gate.gateId ∧ (gate.afterReset now).goalId = gate.goalId ∧
      (gate.afterReset now).currentContent = gate.currentContent ∧
      (gate.afterReset now).currentContentVersion = gate.currentContentVersion ∧
      (gate.afterReset now).currentMetadata = gate.currentMetadata ∧
      (gate.afterReset now).signals = gate.signals := by
  unfold GateState.afterReset GateState.nextStatusCommit
  dsimp only
  split <;> exact ⟨rfl, rfl, rfl, rfl, rfl, rfl⟩

/-- Writing the saved fields back undoes the reset of a gate exactly when they were
    not changed in between. -/
theorem gateUndone_restore_iff (before current : GateState) (now : Nat) :
    GateUndone before (before.afterReset now) current (current.restore before.snapshot) ↔
      FieldUndisturbed before.status (before.afterReset now).status current.status ∧
      FieldUndisturbed before.statusRevision (before.afterReset now).statusRevision
        current.statusRevision ∧
      FieldUndisturbed before.updatedAt (before.afterReset now).updatedAt current.updatedAt ∧
      FieldUndisturbed before.verificationCacheInvalidatedAt
        (before.afterReset now).verificationCacheInvalidatedAt
        current.verificationCacheInvalidatedAt := by
  obtain ⟨hgateId, hgoalId, hcontent, hversion, hmetadata, hsignals⟩ := afterReset_frame before now
  constructor
  · intro h
    exact ⟨fieldUndone_before.mp h.status, fieldUndone_before.mp h.statusRevision,
      fieldUndone_before.mp h.updatedAt, fieldUndone_before.mp h.verificationCacheInvalidatedAt⟩
  · rintro ⟨hstatus, hrevision, hupdated, hcache⟩
    exact {
      gateId := hgateId ▸ fieldUndone_untouched _ _
      goalId := hgoalId ▸ fieldUndone_untouched _ _
      status := fieldUndone_before.mpr hstatus
      statusRevision := fieldUndone_before.mpr hrevision
      currentContent := hcontent ▸ fieldUndone_untouched _ _
      currentContentVersion := hversion ▸ fieldUndone_untouched _ _
      currentMetadata := hmetadata ▸ fieldUndone_untouched _ _
      signals := hsignals ▸ fieldUndone_untouched _ _
      verificationCacheInvalidatedAt := fieldUndone_before.mpr hcache
      updatedAt := fieldUndone_before.mpr hupdated
      revision_kept := Nat.le_refl _
      later_revision_kept := fun hne => by
        rw [hrevision.resolve_left hne]
        exact Nat.le_refl _ }

/-! ## The way to the rollback -/

/-- The next microtask writes these snapshots back. -/
def RollsBack (snapshots : List (String × GateSnapshot)) (s : GateStore) : Prop :=
  s.persistence.jobs.head? = some (.other (.resetFailed snapshots))

/-- A microtask on the way from a rejected reset to its rollback. -/
inductive RollbackJob (snapshots : List (String × GateSnapshot)) :
    Job String GateState GateWaiter GateJob → Prop
  | rejected (keys statusKeys) : RollbackJob snapshots (.rejected (.reset keys statusKeys snapshots))
  | rethrow (keys statusKeys) : RollbackJob snapshots (.rethrow (.reset keys statusKeys snapshots))
  | failed : RollbackJob snapshots (.other (.resetFailed snapshots))

/-- The microtasks behind the one that runs stay queued. -/
theorem runJob_jobs (fails : Bool) {job rest}
    (hjobs : s.persistence.jobs = job :: rest) : rest ⊆ (s.runJob fails).persistence.jobs := by
  have hpopped : s.persistence.popped.jobs = rest := by simp [SqlitePersistence.popped, hjobs]
  have hcalls : ∀ {s' : GateStore}, Calls s.persistence.popped s'.persistence →
      rest ⊆ s'.persistence.jobs := fun h => hpopped ▸ h.jobs
  unfold GateStore.runJob
  simp only [hjobs]
  cases job with
  | drain =>
    show rest ⊆ (s.persistence.popped.drain fails).jobs
    rw [SqlitePersistence.drain]
    refine List.Subset.trans ?_ (List.subset_append_left _ _)
    split
    · exact hpopped ▸ List.Subset.refl _
    · split <;> exact hpopped ▸ List.subset_append_left _ _
  | drained =>
    show rest ⊆ s.persistence.popped.drained.jobs
    unfold SqlitePersistence.drained
    dsimp only
    split
    · exact hpopped ▸ List.subset_append_left _ _
    · exact hpopped ▸ List.Subset.refl _
  | startDrain =>
    show rest ⊆ s.persistence.popped.startDrain.jobs
    obtain ⟨more, hmore⟩ := s.persistence.popped.startDrain_jobs
    rw [hmore, hpopped]
    exact List.subset_append_left _ _
  | published waiter => exact hpopped ▸ List.subset_append_left _ _
  | rejected waiter => exact hpopped ▸ List.subset_append_left _ _
  | report waiter publication number => exact hpopped ▸ List.subset_cons_self _ _
  | rethrow waiter => exact hcalls (runRethrow_calls { s with persistence := s.persistence.popped } waiter)
  | other job => exact hcalls (runOther_calls { s with persistence := s.persistence.popped } job)

/-- The way to the rollback is kept by each step, until the rollback runs. -/
theorem rollbackJob_step {s : GateStore}
    (h : ∃ job ∈ s.persistence.jobs, RollbackJob snapshots job) (event : Event) :
    (∃ job ∈ (s.step event).persistence.jobs, RollbackJob snapshots job) ∨
      ∃ fails, event = .runJob fails ∧ s.RollsBack snapshots := by
  obtain ⟨job, hmem, hjob⟩ := h
  cases event with
  | timerFired =>
    refine .inl ⟨job, ?_, hjob⟩
    show job ∈ s.persistence.timerFired.jobs
    unfold SqlitePersistence.timerFired
    split
    · obtain ⟨more, hmore⟩ := ({ s.persistence with timer := false }).startDrain_jobs
      exact hmore ▸ List.mem_append_left _ hmem
    · exact hmem
  | runJob fails =>
    cases hjobs : s.persistence.jobs with
    | nil => simp [hjobs] at hmem
    | cons first rest =>
      rw [hjobs, List.mem_cons] at hmem
      rcases hmem with rfl | hmem
      · have hnext : ∀ next, (s.runJob fails).persistence.jobs = rest ++ [next] →
            RollbackJob snapshots next →
            ∃ job ∈ (s.step (.runJob fails)).persistence.jobs, RollbackJob snapshots job :=
          fun next heq hnext => ⟨next, heq ▸ List.mem_concat_self, hnext⟩
        cases hjob with
        | rejected keys statusKeys =>
          refine .inl (hnext (.rethrow (.reset keys statusKeys snapshots)) ?_ (.rethrow _ _))
          simp [GateStore.runJob, hjobs, SqlitePersistence.enqueue, SqlitePersistence.popped]
        | rethrow keys statusKeys =>
          refine .inl (hnext (.other (.resetFailed snapshots)) ?_ .failed)
          simp [GateStore.runJob, hjobs, GateStore.runRethrow, SqlitePersistence.enqueue,
            SqlitePersistence.popped]
        | failed => exact .inr ⟨fails, rfl, by simp [RollsBack, hjobs]⟩
      · exact .inl ⟨job, s.runJob_jobs fails hjobs hmem, hjob⟩
  | _ => exact .inl ⟨job, (s.step_calls rfl).jobs hmem, hjob⟩

/-- A rejected strict reset is rolled back before the microtask queue is empty. -/
theorem rejected_reset_rolls_back {s : GateStore}
    (h : ∃ job ∈ s.persistence.jobs, RollbackJob snapshots job) {events : List Event}
    (hend : (run step s events).persistence.jobs = []) :
    ∃ earlier fails later, events = earlier ++ .runJob fails :: later ∧
      RollsBack snapshots (run step s earlier) := by
  induction events generalizing s with
  | nil =>
    obtain ⟨job, hmem, -⟩ := h
    exact absurd (hend ▸ hmem) List.not_mem_nil
  | cons event rest ih =>
    rcases rollbackJob_step h event with hstep | ⟨fails, rfl, hnow⟩
    · obtain ⟨earlier, fails, later, rfl, hrolls⟩ := ih hstep hend
      exact ⟨event :: earlier, fails, later, rfl, hrolls⟩
    · exact ⟨[], fails, rest, rfl, hnow⟩

/-! ## Failed resets -/

theorem get?_rollback {s : GateStore}
    (hnodup : (snapshots.map (·.1)).Nodup) (h : RollsBack snapshots s) (fails : Bool) (key : String) :
    (s.step (.runJob fails)).gates.get? key =
      match snapshots.find? (·.1 = key) with
      | none => s.gates.get? key
      | some entry => (s.gates.get? key).map (·.restore entry.2) := by
  have hjobs : ∃ rest, s.persistence.jobs = .other (.resetFailed snapshots) :: rest := by
    unfold RollsBack at h
    cases hjobs : s.persistence.jobs with
    | nil => simp [hjobs] at h
    | cons job rest => exact ⟨rest, by simp_all⟩
  obtain ⟨rest, hjobs⟩ := hjobs
  rw [← get?_restoreGates s hnodup]
  simp only [step, GateStore.runJob, hjobs]
  rfl

def oneGateWorkflow : List WorkflowGate := [⟨"j", []⟩]

/-- A strict reset of a failed gate. -/
def resetJ : Event := .resetGateAndDependents "g" "j" oneGateWorkflow true true 1

/-- The transaction of the reset fails, and nothing else happens. -/
def failingReset : List Event := .runJob true :: List.replicate 3 (.runJob false)

/-- The gate passes before the transaction of the reset fails. -/
def failingResetWithUpdate : List Event :=
  .updateGateStatus "g" "j" .passed 2 :: .runJob true :: List.replicate 5 (.runJob false)

theorem affectedGates_oneGate : affectedGates "j" oneGateWorkflow = ["j"] := by decide +kernel

end GateStore

end Bobbit.Server
