import Bobbit.Lib.Run
import Bobbit.Server.SessionDeletion
import Bobbit.Spec.SessionSaverViews

/-!
# Deleted sessions

A session that has left memory is covered: its tombstone is in the file, or with the writer
of the file, or a call of `purgeAsync` will bring it there. Coverage outlives every step but
one: a save that fails while a purge waits for it makes the purge give up, and the next save
publishes the deletion without it.

## Key results

* `step_holds` — every other step keeps the invariant.
* `deleted_covered` — in runs without such a failure a published deletion has its tombstone.
* `purge_forgotten` — a run with one where it has not.
-/

namespace Bobbit.Server

open Lib SessionSaver

/-! ## Tombstone files -/

variable {entry : PendingTombstone}

theorem hasTombstone_pushTombstone {all : Tombstones} {other : PendingTombstone} :
    hasTombstone (pushTombstone all entry) other = true ↔
      hasTombstone all other = true ∨ other = entry := by
  unfold hasTombstone pushTombstone
  rw [JsMap.get?_set]
  split
  · rename_i hfile
    simp only [Option.getD_some, List.contains_eq_mem, decide_eq_true_eq, List.mem_append,
      List.mem_singleton, hfile, Prod.ext_iff, true_and]
  · rename_i hfile
    simp only [Prod.ext_iff, hfile, false_and, or_false]

variable {batch : List PendingTombstone}

/-- The loop over a batch keeps what is in the file and adds the batch. -/
theorem hasTombstone_foldl {state : Tombstones × Bool}
    (h : hasTombstone state.1 entry = true ∨ entry ∈ batch) :
    hasTombstone (batch.foldl (fun state entry =>
      if hasTombstone state.1 entry then state else (pushTombstone state.1 entry, true))
      state).1 entry = true := by
  induction batch generalizing state with
  | nil => simpa using h
  | cons first rest ih =>
    rw [List.foldl_cons]
    apply ih
    split
    · rename_i hfirst
      cases h with
      | inl hall => exact .inl hall
      | inr hmem =>
        cases List.mem_cons.mp hmem with
        | inl heq => exact .inl (heq ▸ hfirst)
        | inr hrest => exact .inr hrest
    · cases h with
      | inl hall => exact .inl (hasTombstone_pushTombstone.mpr (.inl hall))
      | inr hmem =>
        cases List.mem_cons.mp hmem with
        | inl heq => exact .inl (hasTombstone_pushTombstone.mpr (.inr heq))
        | inr hrest => exact .inr hrest

theorem hasTombstone_applyTombstones {all : Tombstones}
    (h : hasTombstone all entry = true ∨ entry ∈ batch) :
    hasTombstone (applyTombstones all batch).1 entry = true :=
  hasTombstone_foldl h

theorem applyTombstones_unchanged {all : Tombstones}
    (h : (applyTombstones all batch).2 = false) : (applyTombstones all batch).1 = all := by
  -- once the flag is set it stays set
  have hset : ∀ (batch : List PendingTombstone) (state : Tombstones × Bool),
      (batch.foldl (fun state entry =>
        if hasTombstone state.1 entry then state else (pushTombstone state.1 entry, true))
        state).2 = false →
      state.2 = false ∧ (batch.foldl (fun state entry =>
        if hasTombstone state.1 entry then state else (pushTombstone state.1 entry, true))
        state).1 = state.1 := by
    intro batch
    induction batch with
    | nil => exact fun state hflag => ⟨hflag, rfl⟩
    | cons first rest ih =>
      intro state hflag
      rw [List.foldl_cons] at hflag ⊢
      split at hflag
      · rename_i hfirst
        rw [if_pos hfirst]
        exact ih state hflag
      · exact absurd (ih _ hflag).1 (by simp)
  exact (hset batch (all, false) h).2

namespace SessionDeletion

variable {ρ : Type} {s s' : SessionDeletion ρ} {id : String}

/-! ## Coverage -/

/-- The tombstone is in the file, and stays there when the writer writes; or it is on its way. -/
def Recorded (s : SessionDeletion ρ) (entry : PendingTombstone) : Prop :=
  match s.writer with
  | none => hasTombstone s.tombstones entry = true
  | some writer =>
    entry ∈ writer.pending ∨
      match writer.phase with
      | .reading batch => entry ∈ batch ∨ hasTombstone s.tombstones entry = true
      | .writing all => hasTombstone all entry = true

/-- A call of `purgeAsync` has yet to record its tombstone. -/
def Deleting (call : PurgeCall) : Prop :=
  (∃ drain, call.phase = .persisting drain) ∨ call.phase = .persisted

/-- The deletion of `id` has its tombstone, or will have it. -/
def Covered (s : SessionDeletion ρ) (id : String) : Prop :=
  Recorded s (sessionsFile, id) ∨ ∃ call ∈ s.calls, call.id = id ∧ Deleting call

/-- The session is in a file of the log or in the payload that is being written. -/
def Seen (s : SessionDeletion ρ) (id : String) : Prop :=
  (∃ file ∈ s.published, (JsMap.get? file id).isSome) ∨
    ∃ g payload, s.saver.payload? = some (g, payload) ∧ (JsMap.get? payload id).isSome

/-- What holds of a call that has yet to record its tombstone. -/
def CallHolds (s : SessionDeletion ρ) (call : PurgeCall) : Prop :=
  (Deleting call → call.id ≠ "") ∧
    ∀ drain, call.phase = .persisting drain →
      call.targetGeneration ≤ s.saver.publishedGeneration ∨
        call.failureSequence = s.saver.persistenceFailureSequence

/-- Every file so far has only sessions that `sessions` has, or whose deletion is covered. -/
def Accounted (s : SessionDeletion ρ) (sessions : JsMap String ρ) : Prop :=
  ∀ file ∈ s.published, ∀ id, (JsMap.get? file id).isSome → JsMap.get? sessions id = none →
    Covered s id

structure Holds (s : SessionDeletion ρ) : Prop where
  memory : ∀ id, Seen s id → JsMap.get? s.saver.sessions id = none → Covered s id
  payload : ∀ g payload, s.saver.payload? = some (g, payload) → Accounted s payload
  last : ∀ file, s.published.getLast? = some file → Accounted s file
  calls : ∀ call ∈ s.calls, CallHolds s call

/-- A step that publishes nothing and starts no payload. -/
theorem Holds.evolve (hs : Holds s) (hpublished : s'.published = s.published)
    (hpayload : ∀ g payload, s'.saver.payload? = some (g, payload) →
      s.saver.payload? = some (g, payload))
    (hcovered : ∀ id, Covered s id → Covered s' id)
    (hmemory : ∀ id, JsMap.get? s'.saver.sessions id = none →
      JsMap.get? s.saver.sessions id = none ∨ Covered s' id)
    (hcalls : ∀ call ∈ s'.calls, CallHolds s' call) : Holds s' where
  memory := by
    intro id hseen hnone
    cases hmemory id hnone with
    | inl hbefore =>
      refine hcovered id (hs.memory id ?_ hbefore)
      cases hseen with
      | inl hfile => exact .inl (hpublished ▸ hfile)
      | inr hwriting =>
        obtain ⟨g, payload, hsome, hmem⟩ := hwriting
        exact .inr ⟨g, payload, hpayload g payload hsome, hmem⟩
    | inr hnow => exact hnow
  payload := by
    intro g payload hsome file hfile id hmem hnone
    exact hcovered id (hs.payload g payload (hpayload g payload hsome) file (hpublished ▸ hfile) id
      hmem hnone)
  last := by
    intro last hlast file hfile id hmem hnone
    rw [hpublished] at hlast hfile
    exact hcovered id (hs.last last hlast file hfile id hmem hnone)
  calls := hcalls

variable {call : PurgeCall}

theorem CallHolds.mono (h : CallHolds s call)
    (hpublished : s.saver.publishedGeneration ≤ s'.saver.publishedGeneration)
    (hfailures : s'.saver.persistenceFailureSequence = s.saver.persistenceFailureSequence) :
    CallHolds s' call := by
  refine ⟨h.1, fun drain hphase => ?_⟩
  rw [hfailures]
  exact (h.2 drain hphase).imp_left fun hle => hle.trans hpublished

/-! ## The tombstone writer -/

theorem readTombstones_true : s.readTombstones true = s.tombstones := rfl

variable {entry : PendingTombstone}

theorem recorded_nextBatch {pending : List PendingTombstone}
    (h : entry ∈ pending ∨ hasTombstone s.tombstones entry = true) :
    Recorded (s.nextBatch pending) entry := by
  unfold nextBatch
  split
  · rename_i hempty
    cases h with
    | inl hpending => simp [hempty] at hpending
    | inr hfile => exact hfile
  · exact .inr h

theorem recorded_tombstonesRead (h : Recorded s entry) :
    Recorded (s.tombstonesRead true) entry := by
  unfold tombstonesRead
  split
  · rename_i pending batch hwriter
    unfold Recorded at h
    rw [hwriter] at h
    dsimp only at h
    -- what is in the batch or the file is in the file that will be written
    have happlied : entry ∈ pending ∨
        hasTombstone (applyTombstones s.tombstones batch).1 entry = true :=
      h.imp_right fun h => hasTombstone_applyTombstones h.symm
    rw [readTombstones_true]
    dsimp only
    split
    · exact happlied
    · rename_i hunchanged
      rw [applyTombstones_unchanged (by simpa using hunchanged)] at happlied
      exact recorded_nextBatch happlied
  · exact h

theorem recorded_tombstonesWritten (h : Recorded s entry) : Recorded s.tombstonesWritten entry := by
  unfold tombstonesWritten
  split
  · rename_i pending all hwriter
    unfold Recorded at h
    rw [hwriter] at h
    exact recorded_nextBatch h
  · exact h

variable {key : String}

/-- A synchronous record keeps what is recorded, and records its own. -/
theorem recorded_recordDeletionTombstone {fileName : String}
    (h : Recorded s entry ∨ key ≠ "" ∧ entry = (fileName, key)) :
    Recorded (s.recordDeletionTombstone fileName key true) entry := by
  unfold recordDeletionTombstone
  split
  · rename_i hempty
    cases h with
    | inl hbefore => exact hbefore
    | inr hnew => exact absurd hempty hnew.1
  · split
    · -- the writer will take it along
      rename_i writer hwriter
      unfold Recorded at h ⊢
      rw [hwriter] at h
      dsimp only at h ⊢
      cases h with
      | inl hbefore => exact hbefore.imp_left fun h => List.mem_append_left _ h
      | inr hnew => exact .inl (List.mem_append_right _ (List.mem_singleton.mpr hnew.2))
    · rename_i hwriter
      have hfile : hasTombstone s.tombstones entry = true ∨ entry = (fileName, key) := by
        unfold Recorded at h
        rw [hwriter] at h
        exact h.imp_right fun h => h.2
      rw [readTombstones_true]
      dsimp only
      split
      · rename_i halready
        unfold Recorded
        rw [hwriter]
        cases hfile with
        | inl hbefore => exact hbefore
        | inr heq => exact heq ▸ halready
      · unfold Recorded
        rw [hwriter]
        exact hasTombstone_pushTombstone.mpr hfile

theorem recorded_recordDeletionTombstoneAsync {fileName : String}
    (h : Recorded s entry ∨ entry = (fileName, key)) :
    Recorded (s.recordDeletionTombstoneAsync fileName key) entry := by
  unfold recordDeletionTombstoneAsync
  split
  · rename_i writer hwriter
    unfold Recorded at h ⊢
    rw [hwriter] at h
    dsimp only at h ⊢
    cases h with
    | inl hbefore => exact hbefore.imp_left fun h => List.mem_append_left _ h
    | inr heq => exact .inl (List.mem_append_right _ (List.mem_singleton.mpr heq))
  · rename_i hwriter
    unfold Recorded at h
    rw [hwriter] at h
    exact .inr (h.symm.imp_left fun heq => List.mem_singleton.mpr heq)

/-- The writer's steps, and the records of other stores, keep the rows and the calls. -/
theorem Holds.of_recorded (hs : Holds s) (hsaver : s'.saver = s.saver)
    (hpublished : s'.published = s.published) (hcalls : s'.calls = s.calls)
    (hrecorded : ∀ entry, Recorded s entry → Recorded s' entry) : Holds s' := by
  refine hs.evolve hpublished (fun g payload h => hsaver ▸ h) (fun id hcovered => ?_)
    (fun id h => .inl (hsaver ▸ h)) fun call hcall => ?_
  · cases hcovered with
    | inl h => exact .inl (hrecorded _ h)
    | inr h => exact .inr (hcalls ▸ h)
  · exact (hs.calls call (hcalls ▸ hcall)).mono (by rw [hsaver]) (by rw [hsaver])

theorem recordDeletionTombstone_frame (fileName key : String) (readable : Bool) :
    (s.recordDeletionTombstone fileName key readable).saver = s.saver ∧
      (s.recordDeletionTombstone fileName key readable).published = s.published ∧
      (s.recordDeletionTombstone fileName key readable).calls = s.calls := by
  unfold recordDeletionTombstone
  split
  · exact ⟨rfl, rfl, rfl⟩
  · split
    · exact ⟨rfl, rfl, rfl⟩
    · dsimp only
      split <;> exact ⟨rfl, rfl, rfl⟩

theorem nextBatch_frame (pending : List PendingTombstone) :
    (s.nextBatch pending).saver = s.saver ∧ (s.nextBatch pending).published = s.published ∧
      (s.nextBatch pending).calls = s.calls := by
  unfold nextBatch
  split <;> exact ⟨rfl, rfl, rfl⟩

theorem record_holds (hs : Holds s) (fileName key : String) :
    Holds (s.recordDeletionTombstone fileName key true) := by
  obtain ⟨hsaver, hpublished, hcalls⟩ := @recordDeletionTombstone_frame ρ s fileName key true
  exact hs.of_recorded hsaver hpublished hcalls fun entry h =>
    recorded_recordDeletionTombstone (.inl h)

theorem tombstonesRead_holds (hs : Holds s) : Holds (s.tombstonesRead true) := by
  have hframe : (s.tombstonesRead true).saver = s.saver ∧
      (s.tombstonesRead true).published = s.published ∧
      (s.tombstonesRead true).calls = s.calls := by
    unfold tombstonesRead
    split
    · dsimp only
      split
      · exact ⟨rfl, rfl, rfl⟩
      · exact nextBatch_frame _
    · exact ⟨rfl, rfl, rfl⟩
  exact hs.of_recorded hframe.1 hframe.2.1 hframe.2.2 fun entry h => recorded_tombstonesRead h

theorem tombstonesWritten_holds (hs : Holds s) : Holds s.tombstonesWritten := by
  have hframe : s.tombstonesWritten.saver = s.saver ∧
      s.tombstonesWritten.published = s.published ∧ s.tombstonesWritten.calls = s.calls := by
    unfold tombstonesWritten
    split
    · exact nextBatch_frame _
    · exact ⟨rfl, rfl, rfl⟩
  exact hs.of_recorded hframe.1 hframe.2.1 hframe.2.2 fun entry h => recorded_tombstonesWritten h

/-! ## The rows -/

theorem Holds.of_rows (hs : Holds s) {saver : SessionSaver (JsMap String ρ)}
    (hwrites : s.saver.SameWrites saver) (hfailures : saver.persistenceFailureSequence =
      s.saver.persistenceFailureSequence)
    (hrows : ∀ id, JsMap.get? saver.sessions id = none →
      JsMap.get? s.saver.sessions id = none ∨ Covered s id) :
    Holds { s with saver := saver } :=
  hs.evolve rfl (fun _ _ h => hwrites.payload ▸ h) (fun _ h => h) hrows
    fun call hcall => (hs.calls call hcall).mono hwrites.published.ge hfailures

theorem mutateNow_holds (hs : Holds s) {sessions : JsMap String ρ}
    (hrows : ∀ id, JsMap.get? sessions id = none →
      JsMap.get? s.saver.sessions id = none ∨ Covered s id) : Holds (s.mutateNow sessions) := by
  refine hs.of_rows ((mutate_sameWrites _ _).trans (saveNow_sameWrites _))
    (saveNow_failures _) fun id hnone => hrows id ?_
  rw [← hnone, (saveNow_sameRows _).sessions]
  rfl

theorem get?_of_get?_set {sessions : JsMap String ρ} {session : ρ}
    (h : JsMap.get? (JsMap.set sessions key session) id = none) :
    JsMap.get? sessions id = none := by
  rw [JsMap.get?_set] at h
  split at h
  · cases h
  · exact h

theorem put_holds (hs : Holds s) (key : String) (session : ρ) : Holds (s.put key session) :=
  mutateNow_holds hs fun _ h => .inl (get?_of_get?_set h)

theorem update_holds (hs : Holds s) (key : String) (session : ρ) (critical : Bool) :
    Holds (s.update key session critical) := by
  unfold update
  split
  · split
    · exact mutateNow_holds hs fun _ h => .inl (get?_of_get?_set h)
    · exact hs.of_rows ((mutate_sameWrites _ _).trans (save_sameWrites _)) rfl
        fun _ h => .inl (get?_of_get?_set h)
  · exact hs

/-- A row that is erased together with a record of its tombstone. -/
theorem remove_holds (hs : Holds s) (hkey : key ≠ "") : Holds (s.remove key true) := by
  have herased : ∀ id, JsMap.get? (JsMap.erase s.saver.sessions key) id = none →
      JsMap.get? s.saver.sessions id = none ∨ id = key := by
    intro id hnone
    rw [JsMap.get?_erase] at hnone
    split at hnone
    · rename_i heq
      exact .inr heq
    · exact .inl hnone
  obtain ⟨hsaver, hpublished, hcalls⟩ := @recordDeletionTombstone_frame ρ
    (s.mutateNow (JsMap.erase s.saver.sessions key)) sessionsFile key true
  have hwrites : s.saver.SameWrites (s.remove key true).saver := by
    show s.saver.SameWrites ((s.mutateNow _).recordDeletionTombstone _ _ _).saver
    rw [hsaver]
    exact (mutate_sameWrites _ _).trans (saveNow_sameWrites _)
  have hfailures : (s.remove key true).saver.persistenceFailureSequence =
      s.saver.persistenceFailureSequence := by
    show ((s.mutateNow _).recordDeletionTombstone _ _ _).saver.persistenceFailureSequence = _
    rw [hsaver]
    exact saveNow_failures _
  refine hs.evolve hpublished (fun g payload h => hwrites.payload ▸ h) (fun id hcovered => ?_)
    (fun id hnone => ?_) fun call hcall => ?_
  · cases hcovered with
    | inl h => exact .inl (recorded_recordDeletionTombstone (.inl h))
    | inr h =>
      refine .inr ?_
      rw [show (s.remove key true).calls = s.calls from hcalls]
      exact h
  · replace hnone : JsMap.get? ((s.mutateNow (JsMap.erase s.saver.sessions key)).recordDeletionTombstone
      sessionsFile key true).saver.sessions id = none := hnone
    rw [hsaver, show (s.mutateNow (JsMap.erase s.saver.sessions key)).saver.sessions =
      JsMap.erase s.saver.sessions key from (saveNow_sameRows _).sessions] at hnone
    cases herased id hnone with
    | inl hbefore => exact .inl hbefore
    | inr heq => exact .inr (.inl (recorded_recordDeletionTombstone (.inr ⟨hkey, by rw [heq]⟩)))
  · rw [show (s.remove key true).calls = s.calls from hcalls] at hcall
    exact (hs.calls call hcall).mono hwrites.published.ge hfailures

theorem purge_holds (hs : Holds s) (hkey : key ≠ "") : Holds (s.purge key true) := by
  unfold purge
  split
  · exact remove_holds hs hkey
  · exact hs

/-! ## Purges -/

theorem Holds.addCall (hs : Holds s) {saver : SessionSaver (JsMap String ρ)}
    (hwrites : s.saver.SameWrites saver)
    (hfailures : saver.persistenceFailureSequence = s.saver.persistenceFailureSequence)
    (hrows : ∀ id, JsMap.get? saver.sessions id = none →
      JsMap.get? s.saver.sessions id = none ∨ call.id = id ∧ Deleting call)
    (hcall : CallHolds { s with saver := saver } call) :
    Holds { s with saver := saver, calls := s.calls ++ [call] } := by
  refine hs.evolve rfl (fun g payload h => hwrites.payload ▸ h) (fun id hcovered => ?_)
    (fun id hnone => ?_) fun call' hcall' => ?_
  · cases hcovered with
    | inl h => exact .inl h
    | inr h =>
      obtain ⟨old, hold, hid⟩ := h
      exact .inr ⟨old, List.mem_append_left _ hold, hid⟩
  · cases hrows id hnone with
    | inl h => exact .inl h
    | inr h => exact .inr (.inr ⟨call, List.mem_append_right _ (List.mem_singleton_self _), h⟩)
  · cases List.mem_append.mp hcall' with
    | inl hold => exact (hs.calls call' hold).mono hwrites.published.ge hfailures
    | inr hnew =>
      rw [List.mem_singleton.mp hnew]
      exact hcall

theorem persistThroughGeneration_ne_rejected (saver : SessionSaver (JsMap String ρ)) (g : Nat) :
    (saver.persistThroughGeneration g).2 ≠ .rejected := by
  unfold persistThroughGeneration
  split
  · simp
  · split <;> simp

/-- A barrier that is not rejected leaves its call deleting. -/
theorem deleting_of_ne_rejected {barrier : SessionSaver.Barrier}
    (h : barrier ≠ .rejected) (hphase : call.phase = persistPhase barrier) : Deleting call := by
  cases barrier with
  | awaiting drain => exact .inl ⟨drain, hphase⟩
  | persisted => exact .inr hphase
  | rejected => exact absurd rfl h

theorem purgeAsync_holds (hs : Holds s) (hkey : key ≠ "") : Holds (s.purgeAsync key) := by
  unfold purgeAsync
  split
  · have hwrites := (mutate_sameWrites s.saver (JsMap.erase s.saver.sessions key)).trans
      ((clearTimer_sameWrites _).trans (persistThroughGeneration_sameWrites _
        (s.saver.mutate (JsMap.erase s.saver.sessions key)).clearTimer.generation))
    have hrows := (clearTimer_sameRows (s.saver.mutate (JsMap.erase s.saver.sessions key))).trans
      (persistThroughGeneration_sameRows _
        (s.saver.mutate (JsMap.erase s.saver.sessions key)).clearTimer.generation)
    have hfailures := persistThroughGeneration_failures
      (s.saver.mutate (JsMap.erase s.saver.sessions key)).clearTimer
      (s.saver.mutate (JsMap.erase s.saver.sessions key)).clearTimer.generation
    refine hs.addCall hwrites hfailures (fun id hnone => ?_) ⟨fun _ => hkey, fun drain _ => .inr ?_⟩
    · rw [hrows.sessions] at hnone
      replace hnone : JsMap.get? (JsMap.erase s.saver.sessions key) id = none := hnone
      rw [JsMap.get?_erase] at hnone
      split at hnone
      · rename_i heq
        exact .inr ⟨heq.symm, deleting_of_ne_rejected (persistThroughGeneration_ne_rejected _ _) rfl⟩
      · exact .inl hnone
    · exact hfailures.symm
  · refine hs.addCall (.refl _) rfl (fun id h => .inl h) ⟨fun _ => hkey, fun drain hphase => ?_⟩
    dsimp only at hphase
    split at hphase <;> cases hphase

theorem Holds.setPhase {n : Nat} {phase : PurgePhase} (hs : Holds s)
    (hn : s.calls[n]? = some call) (hcall : CallHolds s { call with phase := phase })
    (hcovers : Deleting call → Deleting { call with phase := phase } ∨ Recorded s (sessionsFile, call.id)) :
    Holds (s.setPhase n call phase) := by
  have hlt := (List.getElem?_eq_some_iff.mp hn).1
  refine hs.evolve rfl (fun g payload h => h) (fun id hcovered => ?_) (fun id h => .inl h)
    fun call' hcall' => ?_
  · cases hcovered with
    | inl h => exact .inl h
    | inr h =>
      obtain ⟨old, hold, hid, hdeleting⟩ := h
      obtain ⟨m, hm⟩ := List.getElem?_of_mem hold
      by_cases heq : n = m
      · -- the call itself
        subst heq
        rw [hn, Option.some.injEq] at hm
        subst hm
        cases hcovers hdeleting with
        | inl hstill => exact .inr ⟨_, List.mem_set hlt _, hid, hstill⟩
        | inr hrecorded => exact .inl (hid ▸ hrecorded)
      · refine .inr ⟨old, List.mem_of_getElem? (i := m) ?_, hid, hdeleting⟩
        show (s.calls.set n _)[m]? = some old
        rw [List.getElem?_set_ne heq]
        exact hm
  · cases List.mem_or_eq_of_mem_set hcall' with
    | inl hold => exact (hs.calls call' hold).mono le_rfl rfl
    | inr hnew =>
      rw [hnew]
      exact ⟨hcall.1, hcall.2⟩

/-- A call in one of its later phases has nothing to hold. -/
theorem callHolds_of_not_deleting (h : ¬ Deleting call) : CallHolds s call :=
  ⟨fun hdeleting => absurd hdeleting h, fun drain hphase => absurd (.inl ⟨drain, hphase⟩) h⟩

theorem not_deleting_recording {writer : Nat}
    (h : call.phase = .recording writer) : ¬ Deleting call := by
  simp [Deleting, h]

theorem not_deleting_draining {drain : Nat}
    (h : call.phase = .draining drain) : ¬ Deleting call := by
  simp [Deleting, h]

theorem not_deleting_returned {outcome : Option Bool}
    (h : call.phase = .returned outcome) : ¬ Deleting call := by
  simp [Deleting, h]

theorem resume_holds (hs : Holds s) (n : Nat) : Holds (s.resume n) := by
  unfold resume
  split
  · exact hs
  · rename_i call hn
    have hc := hs.calls call (List.mem_of_getElem? hn)
    split
    · rename_i drain hphase
      split
      · -- a barrier is rejected only if it neither is published nor saw no failure
        have hwrites := persistResumed_sameWrites s.saver call.targetGeneration call.failureSequence
        have hrows := persistResumed_sameRows s.saver call.targetGeneration call.failureSequence
        have hfailures := persistResumed_failures s.saver call.targetGeneration call.failureSequence
        have hnot : (s.saver.persistResumed call.targetGeneration call.failureSequence).2 ≠ .rejected := by
          intro hrejected
          obtain ⟨hunpublished, hfailed⟩ := persistResumed_rejected hrejected
          cases hc.2 drain hphase with
          | inl hle => omega
          | inr heq => exact hfailed heq.symm
        have hresumed := hs.of_rows hwrites hfailures fun id h => .inl (hrows.sessions ▸ h)
        refine hresumed.setPhase hn ⟨fun _ => hc.1 (.inl ⟨drain, hphase⟩), fun drain' _ => ?_⟩
          fun _ => .inl (deleting_of_ne_rejected hnot rfl)
        exact ((hs.calls call (List.mem_of_getElem? hn)).mono hwrites.published.ge hfailures).2 drain hphase
      · exact hs
    · rename_i hphase
      split
      · rename_i hempty
        exact absurd hempty (hc.1 (.inr hphase))
      · -- the tombstone is with the writer now
        have hrecorded : Holds (s.recordDeletionTombstoneAsync sessionsFile call.id) := by
          have hframe : (s.recordDeletionTombstoneAsync sessionsFile call.id).saver = s.saver ∧
              (s.recordDeletionTombstoneAsync sessionsFile call.id).published = s.published ∧
              (s.recordDeletionTombstoneAsync sessionsFile call.id).calls = s.calls := by
            unfold recordDeletionTombstoneAsync
            split <;> exact ⟨rfl, rfl, rfl⟩
          exact hs.of_recorded hframe.1 hframe.2.1 hframe.2.2 fun entry h =>
            recorded_recordDeletionTombstoneAsync (.inl h)
        have hcalls : (s.recordDeletionTombstoneAsync sessionsFile call.id).calls = s.calls := by
          unfold recordDeletionTombstoneAsync
          split <;> rfl
        exact hrecorded.setPhase (hcalls ▸ hn)
          (callHolds_of_not_deleting (not_deleting_recording rfl))
          fun _ => .inr (recorded_recordDeletionTombstoneAsync (.inr rfl))
    · rename_i writer hphase
      split
      · exact hs.setPhase hn (callHolds_of_not_deleting (not_deleting_returned rfl))
          fun h => absurd h (not_deleting_recording hphase)
      · exact hs
    · rename_i drain hphase
      split
      · exact hs.setPhase hn (callHolds_of_not_deleting (not_deleting_returned rfl))
          fun h => absurd h (not_deleting_draining hphase)
      · exact hs
    · exact hs

/-! ## The drain -/

/-- The payload is the memory of the moment: what it lacks has left memory. -/
theorem serialize_holds (hs : Holds s) : Holds { s with saver := s.saver.serialize } where
  memory := by
    intro id hseen hnone
    rw [(serialize_sameRows s.saver).sessions] at hnone
    cases hseen with
    | inl hfile => exact hs.memory id (.inl hfile) hnone
    | inr hwriting =>
      obtain ⟨g, payload, hsome, hmem⟩ := hwriting
      cases payload?_serialize hsome with
      | inl hbefore => exact hs.memory id (.inr ⟨g, payload, hbefore, hmem⟩) hnone
      | inr hnow =>
        rw [hnow.2, hnone] at hmem
        cases hmem
  payload := by
    intro g payload hsome file hfile id hmem hnone
    cases payload?_serialize hsome with
    | inl hbefore => exact hs.payload g payload hbefore file hfile id hmem hnone
    | inr hnow => exact hs.memory id (.inl ⟨file, hfile, hmem⟩) (hnow.2 ▸ hnone)
  last := hs.last
  calls := by
    intro call hcall
    refine (hs.calls call hcall).mono ?_ ?_
    · show _ ≤ s.saver.serialize.publishedGeneration
      unfold SessionSaver.serialize
      split <;> exact le_rfl
    · show s.saver.serialize.persistenceFailureSequence = _
      unfold SessionSaver.serialize
      split <;> rfl

theorem rename_holds (hs : Holds s) : Holds s.rename := by
  have hcalls : ∀ call ∈ s.calls, CallHolds s.rename call := by
    intro call hcall
    refine (hs.calls call hcall).mono ?_ ?_
    · show _ ≤ s.saver.rename.publishedGeneration
      unfold SessionSaver.rename
      split <;> exact le_rfl
    · show s.saver.rename.persistenceFailureSequence = _
      unfold SessionSaver.rename
      split <;> rfl
  have hnone : ∀ g payload, s.rename.saver.payload? ≠ some (g, payload) := by
    intro g payload h
    rw [show s.rename.saver.payload? = none from payload?_rename] at h
    cases h
  cases hpayload : s.saver.payload? with
  | none =>
    -- nothing was being written
    have hpublished : s.rename.published = s.published := by
      show s.published ++ (s.saver.payload?.map (·.2)).toList = s.published
      rw [hpayload]
      exact List.append_nil _
    exact hs.evolve hpublished (fun g payload h => absurd h (hnone g payload)) (fun _ h => h)
      (fun id h => .inl ((rename_sameRows s.saver).sessions ▸ h)) hcalls
  | some written =>
    obtain ⟨g, payload⟩ := written
    have hpublished : s.rename.published = s.published ++ [payload] := by
      show s.published ++ (s.saver.payload?.map (·.2)).toList = _
      rw [hpayload]
      rfl
    refine ⟨fun id hseen hmissing => ?_, fun g' payload' h => absurd h (hnone g' payload'),
      fun last hlast file hfile id hmem hmissing => ?_, hcalls⟩
    · refine hs.memory id ?_ ((rename_sameRows s.saver).sessions ▸ hmissing)
      cases hseen with
      | inl hfile =>
        obtain ⟨file, hfile, hmem⟩ := hfile
        rw [hpublished] at hfile
        cases List.mem_append.mp hfile with
        | inl hbefore => exact .inl ⟨file, hbefore, hmem⟩
        | inr hnew => exact .inr ⟨g, payload, hpayload, List.mem_singleton.mp hnew ▸ hmem⟩
      | inr hwriting =>
        obtain ⟨g', payload', h, -⟩ := hwriting
        exact absurd h (hnone g' payload')
    · -- the last file is the payload
      rw [hpublished, List.getLast?_concat, Option.some.injEq] at hlast
      subst hlast
      rw [hpublished] at hfile
      cases List.mem_append.mp hfile with
      | inl hbefore => exact hs.payload g payload hpayload file hbefore id hmem hmissing
      | inr hnew =>
        rw [List.mem_singleton.mp hnew, hmissing] at hmem
        cases hmem

theorem drained_holds (hs : Holds s) : Holds { s with saver := s.saver.drained } :=
  hs.evolve rfl (fun _ _ h => payload?_drained h) (fun _ h => h)
    (fun _ h => .inl ((drained_sameRows s.saver).sessions ▸ h))
    fun call hcall => (hs.calls call hcall).mono publishedGeneration_drained (drained_failures _)

/-- A save fails while no purge is waiting for a later generation than the published one. -/
theorem failed_holds (hs : Holds s) (hwaiting : ∀ call ∈ s.calls, ∀ drain,
    call.phase = .persisting drain → call.targetGeneration ≤ s.saver.publishedGeneration) :
    Holds { s with saver := s.saver.failed } := by
  refine hs.evolve rfl (fun g payload h => ?_) (fun _ h => h)
    (fun id h => .inl ((failed_sameRows s.saver).sessions ▸ h)) fun call hcall => ?_
  · rw [show s.saver.failed.payload? = none from payload?_failed] at h
    cases h
  · refine ⟨(hs.calls call hcall).1, fun drain hphase => .inl ?_⟩
    show _ ≤ s.saver.failed.publishedGeneration
    rw [publishedGeneration_failed]
    exact hwaiting call hcall drain hphase

/-! ## Every run -/

/-- No deletion of an empty id, every tombstone file that is there is read, and no save fails while
    a purge waits for its deletion to be published. -/
def Spared (s : SessionDeletion ρ) : Event ρ → Prop
  | .remove id readable | .purge id readable => id ≠ "" ∧ readable = true
  | .purgeAsync id => id ≠ ""
  | .record _ _ readable | .tombstonesRead readable => readable = true
  | .failed => ∀ call ∈ s.calls, ∀ drain, call.phase = .persisting drain →
      call.targetGeneration ≤ s.saver.publishedGeneration
  | _ => True

/-- **One step.** -/
theorem step_holds (hs : Holds s) (event : Event ρ) (hspared : Spared s event) :
    Holds (s.step event) := by
  cases event with
  | put key session => exact put_holds hs key session
  | update key session critical => exact update_holds hs key session critical
  | remove key readable =>
    obtain ⟨hkey, rfl⟩ := hspared
    exact remove_holds hs hkey
  | purge key readable =>
    obtain ⟨hkey, rfl⟩ := hspared
    exact purge_holds hs hkey
  | purgeAsync key => exact purgeAsync_holds hs hspared
  | record fileName key readable =>
    cases hspared
    exact record_holds hs fileName key
  | clearTimer => exact hs.of_rows (clearTimer_sameWrites _) rfl fun _ h => .inl h
  | barrier targetGeneration =>
    exact hs.of_rows (persistThroughGeneration_sameWrites _ _) (persistThroughGeneration_failures _ _)
      fun id h => .inl ((persistThroughGeneration_sameRows s.saver targetGeneration).sessions ▸ h)
  | timerFired =>
    exact hs.of_rows (timerFired_sameWrites _) (timerFired_failures _)
      fun id h => .inl ((timerFired_sameRows s.saver).sessions ▸ h)
  | serialize => exact serialize_holds hs
  | rename => exact rename_holds hs
  | drained => exact drained_holds hs
  | failed => exact failed_holds hs hspared
  | tombstonesRead readable =>
    cases hspared
    exact tombstonesRead_holds hs
  | tombstonesWritten => exact tombstonesWritten_holds hs
  | resume n => exact resume_holds hs n

theorem loaded_holds (sessions : JsMap String ρ) (tombstones : Tombstones) :
    Holds (loaded sessions tombstones) where
  memory := by
    intro id hseen hnone
    cases hseen with
    | inl hfile =>
      obtain ⟨file, hfile, hmem⟩ := hfile
      rw [List.mem_singleton.mp hfile, show JsMap.get? sessions id = none from hnone] at hmem
      cases hmem
    | inr hwriting =>
      obtain ⟨g, payload, h, -⟩ := hwriting
      simp [loaded, SessionSaver.loaded, payload?] at h
  payload := by
    intro g payload h
    simp [loaded, SessionSaver.loaded, payload?] at h
  last := by
    intro last hlast file hfile id hmem hnone
    replace hlast : [sessions].getLast? = some last := hlast
    rw [List.getLast?_singleton, Option.some.injEq] at hlast
    rw [List.mem_singleton.mp hfile, hlast, hnone] at hmem
    cases hmem
  calls := by
    intro call hcall
    cases hcall

/-- No write is in flight: no drain, no tombstone writer and no call of `purgeAsync`. -/
def Quiet (s : SessionDeletion ρ) : Prop :=
  s.saver.asyncSaveInFlight = none ∧ s.writer = none ∧
    ∀ call ∈ s.calls, ∃ outcome, call.phase = .returned outcome

/-- A session of an earlier file that the published one lacks has its tombstone. -/
def DeletedStayDeleted (s : SessionDeletion ρ) : Prop :=
  ∀ last, s.published.getLast? = some last → ∀ file ∈ s.published, ∀ id,
    (JsMap.get? file id).isSome → JsMap.get? last id = none →
      hasTombstone s.tombstones (sessionsFile, id) = true

/-- **Quiet moments.** When no write is in flight, what is covered has its tombstone. -/
theorem Holds.deletedStayDeleted (hs : Holds s) (hquiet : Quiet s) : DeletedStayDeleted s := by
  obtain ⟨-, hwriter, hreturned⟩ := hquiet
  intro last hlast file hfile id hmem hnone
  cases hs.last last hlast file hfile id hmem hnone with
  | inl hrecorded =>
    unfold Recorded at hrecorded
    rw [hwriter] at hrecorded
    exact hrecorded
  | inr hcall =>
    obtain ⟨call, hcall, -, hdeleting⟩ := hcall
    obtain ⟨outcome, hphase⟩ := hreturned call hcall
    exact absurd hdeleting (not_deleting_returned hphase)

/-- **Deleted sessions.** In every run whose steps spare the purges, whenever no write is in flight
the deletions that have been published have their tombstones. -/
theorem deleted_covered (sessions : JsMap String ρ) (tombstones : Tombstones)
    (events : List (Event ρ)) (hspared : Along step Spared (loaded sessions tombstones) events) :
    Always step (fun s => Quiet s → DeletedStayDeleted s) (loaded sessions tombstones) events :=
  (always_of_along (I := Holds) (fun _ event hs h => step_holds hs event h)
    (loaded_holds sessions tombstones) hspared).mono fun _ hs => hs.deletedStayDeleted

/-- A purge whose save goes through. -/
def purgeSaved : List (Event Unit) :=
  [.purgeAsync "s1", .serialize, .rename, .drained, .resume 0, .resume 0, .tombstonesRead true,
    .tombstonesWritten, .resume 0]

theorem deleted_covered_purgeSaved :
    hasTombstone (run step (loaded [("s1", ())] []) purgeSaved).tombstones (sessionsFile, "s1") =
      true := by
  have hcalls : (run step (loaded [("s1", ())] []) purgeSaved).calls =
      [⟨"s1", 1, 0, .returned (some true)⟩] := by rfl
  have hid : "s1" ≠ "" := by decide
  refine (deleted_covered [("s1", ())] [] purgeSaved
    ⟨hid, trivial, trivial, trivial, trivial, trivial, rfl, trivial, trivial, trivial⟩).last
    ⟨rfl, rfl, fun call hcall => ?_⟩ [] rfl [("s1", ())] (List.mem_of_getElem? (i := 0) rfl)
    "s1" rfl rfl
  rw [hcalls] at hcall
  rw [List.mem_singleton.mp hcall]
  exact ⟨_, rfl⟩

/-- A purge whose save fails gives up without a tombstone; the next save, made for another session,
    publishes the deletion. -/
def purgeForgotten : List (Event Unit) :=
  [.purgeAsync "s1", .failed, .resume 0, .put "s2" (), .serialize, .rename, .drained]

theorem purge_forgotten :
    ¬ ∀ events : List (Event Unit),
      Always step (fun s => Quiet s → DeletedStayDeleted s) (loaded [("s1", ())] []) events := by
  intro h
  have hcalls : (run step (loaded [("s1", ())] []) purgeForgotten).calls =
      [⟨"s1", 1, 0, .returned none⟩] := by rfl
  have hrecorded := (h purgeForgotten).last
    ⟨rfl, rfl, fun call hcall => by
      rw [hcalls] at hcall
      rw [List.mem_singleton.mp hcall]
      exact ⟨_, rfl⟩⟩ [("s2", ())] rfl [("s1", ())]
      (List.mem_of_getElem? (i := 0) rfl) "s1" rfl rfl
  cases hrecorded

end SessionDeletion

end Bobbit.Server
