import Bobbit.Lib.Barrier
import Bobbit.Server.CoalescedJsonWriter
import Bobbit.Server.SqlitePersistence

/-!
# Durability barriers of the store writers

Both writers settle a barrier with the first write whose snapshot was taken after
its request.

Key result: `barriers_kept`, for the SQLite persistence and the JSON writer.
-/

namespace Bobbit.Server

open Lib

/-! ## SQLite -/

namespace SqlitePersistence

variable {κ α ω ε φ : Type} [DecidableEq κ]

/-- The next microtask is a drain that has something to do. -/
def drains (s : SqlitePersistence κ α ω ε φ) : Prop :=
  s.jobs.head? = some .drain ∧ s.requested = true

/-- A drain, its end or its start is queued. -/
def Draining (s : SqlitePersistence κ α ω ε φ) : Prop :=
  .drain ∈ s.jobs ∨ .drained ∈ s.jobs ∨ .startDrain ∈ s.jobs

def writer : Writer (SqlitePersistence κ α ω ε φ) (Event κ α ω ε) κ (Option α) where
  step := step
  rows s := s.rows.get?
  durable := durable
  dirty s key := key ∈ s.dirty.members
  pending s barrier := ∃ b ∈ s.barriers, b.revision = barrier
  resolves s event barrier :=
    s.drains ∧ (∃ b ∈ s.resolved, b.revision = barrier) ∧
      match event with
      | .runJob fails => fails = false
      | _ => False
  rejects s event barrier :=
    s.drains ∧ (∃ b ∈ s.rejected, b.revision = barrier) ∧
      match event with
      | .runJob fails => fails = true
      | _ => False
  fails s event barrier :=
    s.drains ∧ (∃ b ∈ s.barriers, b.revision = barrier) ∧
      match event with
      | .runJob fails => fails = true
      | _ => False
  draining := Draining

omit [DecidableEq κ] in
theorem startDrain_frame (s : SqlitePersistence κ α ω ε φ) :
    s.startDrain.barriers = s.barriers ∧ s.startDrain.revision = s.revision ∧
      s.startDrain.requested = s.requested ∧ s.startDrain.dirty = s.dirty ∧
      s.startDrain.rows = s.rows := by
  unfold SqlitePersistence.startDrain
  split <;> exact ⟨rfl, rfl, rfl, rfl, rfl⟩

structure BarrierInv (s : SqlitePersistence κ α ω ε φ) : Prop where
  revision : ∀ b ∈ s.barriers, b.revision ≤ s.revision
  requested : s.barriers ≠ [] → s.requested = true
  draining : s.barriers ≠ [] → s.Draining
  busy : s.inFlight = true → .drain ∈ s.jobs ∨ .drained ∈ s.jobs

namespace BarrierInv

variable {s : SqlitePersistence κ α ω ε φ}

theorem loaded (rows : JsMap κ α) :
    BarrierInv (SqlitePersistence.loaded rows : SqlitePersistence κ α ω ε φ) := by
  constructor <;> simp [SqlitePersistence.loaded]

omit [DecidableEq κ] in
theorem startDrain (hrevision : ∀ b ∈ s.barriers, b.revision ≤ s.revision)
    (hrequested : s.barriers ≠ [] → s.requested = true)
    (hbusy : s.inFlight = true → .drain ∈ s.jobs ∨ .drained ∈ s.jobs) : BarrierInv s.startDrain := by
  unfold SqlitePersistence.startDrain
  split
  · rename_i hinFlight
    refine ⟨hrevision, hrequested, fun _ => ?_, hbusy⟩
    exact (hbusy hinFlight).imp id .inl
  · exact ⟨hrevision, hrequested, fun _ => .inl List.mem_concat_self,
      fun _ => .inl List.mem_concat_self⟩

omit [DecidableEq κ] in
theorem requestBarrier (h : BarrierInv s) (waiter : Option ω) :
    BarrierInv (s.requestBarrier waiter) := by
  refine startDrain (fun b hb => ?_) (fun _ => rfl) h.busy
  rcases List.mem_append.mp hb with hb | hb
  · exact Nat.le_succ_of_le (h.revision b hb)
  · obtain rfl := List.mem_singleton.mp hb
    exact Nat.le_refl _

theorem schedule (h : BarrierInv s) (keys : List κ) : BarrierInv (s.schedule keys) := by
  unfold SqlitePersistence.schedule
  split
  · exact h
  · exact ⟨fun b hb => Nat.le_succ_of_le (h.revision b hb), fun _ => rfl, h.draining, h.busy⟩

omit [DecidableEq κ] in
theorem jobs (h : BarrierInv s) {jobs : List (Job κ α ω ε)} (hjobs : s.jobs ⊆ jobs) :
    BarrierInv { s with jobs := jobs } :=
  ⟨h.revision, h.requested,
    fun hne => (h.draining hne).imp (@hjobs _) fun hmem => hmem.imp (@hjobs _) (@hjobs _),
    fun hbusy => (h.busy hbusy).imp (@hjobs _) (@hjobs _)⟩

omit [DecidableEq κ] in
/-- So does taking off one that has no part in a drain. -/
theorem popped (h : BarrierInv s) {job rest} (hjobs : s.jobs = job :: rest) (hdrain : job ≠ .drain)
    (hdrained : job ≠ .drained) (hstart : job ≠ .startDrain) : BarrierInv s.popped := by
  have hmem : ∀ {other}, other ∈ s.jobs → job ≠ other → other ∈ s.popped.jobs := by
    intro other hother hne
    rw [hjobs, List.mem_cons] at hother
    simpa [SqlitePersistence.popped, hjobs] using hother.resolve_left (Ne.symm hne)
  exact ⟨h.revision, h.requested,
    fun hne => (h.draining hne).imp (hmem · hdrain) fun hmore =>
      hmore.imp (hmem · hdrained) (hmem · hstart),
    fun hbusy => (h.busy hbusy).imp (hmem · hdrain) (hmem · hdrained)⟩

omit [DecidableEq κ] in
theorem resolved_eq (h : BarrierInv s) : s.resolved = s.barriers :=
  List.filter_eq_self.mpr fun b hb => by
    have := h.revision b hb
    simp only [decide_eq_true_eq]
    omega

omit [DecidableEq κ] in
theorem rejected_eq (h : BarrierInv s) : s.rejected = s.barriers :=
  List.filter_eq_self.mpr fun b hb => by simpa using h.revision b hb

/-- A drain that has something to do settles all barriers. -/
theorem drain_barriers (hrevision : ∀ b ∈ s.barriers, b.revision ≤ s.revision)
    (hrequested : s.requested = true) (fails : Bool) : (s.drain fails).barriers = [] := by
  rw [SqlitePersistence.drain, if_neg (by simp [hrequested])]
  split
  · refine List.filter_eq_nil_iff.mpr fun b hb => ?_
    simpa using hrevision b hb
  · refine List.filter_eq_nil_iff.mpr fun b hb => ?_
    have := hrevision b hb
    simp
    omega

theorem drain (hrevision : ∀ b ∈ s.barriers, b.revision ≤ s.revision)
    (hrequested : s.barriers ≠ [] → s.requested = true) (fails : Bool) : BarrierInv (s.drain fails) := by
  have hdrained : .drained ∈ (s.drain fails).jobs := List.mem_concat_self
  by_cases h : s.requested = true
  · have hnone := drain_barriers hrevision h fails
    exact ⟨by simp [hnone], fun hne => absurd hnone hne, fun hne => absurd hnone hne,
      fun _ => .inr hdrained⟩
  · rw [SqlitePersistence.drain, if_pos (by simpa using h)] at hdrained ⊢
    exact ⟨hrevision, hrequested, fun _ => .inr (.inl hdrained), fun _ => .inr hdrained⟩

omit [DecidableEq κ] in
/-- The end of a drain queues another one while something is requested. -/
theorem drained (hrevision : ∀ b ∈ s.barriers, b.revision ≤ s.revision)
    (hrequested : s.barriers ≠ [] → s.requested = true) : BarrierInv s.drained := by
  unfold SqlitePersistence.drained
  dsimp only
  split
  · exact ⟨hrevision, hrequested, fun _ => .inr (.inr List.mem_concat_self), by
      simp [SqlitePersistence.enqueue]⟩
  · rename_i hidle
    exact ⟨hrevision, hrequested, fun hne => absurd (hrequested hne) hidle, by simp⟩

theorem runJob (h : BarrierInv s) (fails : Bool) : BarrierInv (s.runJob fails) := by
  unfold SqlitePersistence.runJob
  split
  · exact h
  · exact drain (s := s.popped) h.revision h.requested fails
  · exact drained (s := s.popped) h.revision h.requested
  · rename_i hjobs
    refine startDrain h.revision h.requested fun hbusy => ?_
    have hmem := h.busy hbusy
    simpa [SqlitePersistence.popped, hjobs] using hmem
  · rename_i hjobs
    exact (h.popped hjobs (by simp) (by simp) (by simp)).jobs (List.subset_append_left _ _)
  · rename_i hjobs
    exact (h.popped hjobs (by simp) (by simp) (by simp)).jobs (List.subset_append_left _ _)
  · rename_i hdrain hdrained hstart hpublished hrejected
    cases hjobs : s.jobs with
    | nil => simp_all
    | cons job rest =>
      exact h.popped hjobs (fun hjob => hdrain rest (by rw [hjobs, hjob]))
        (fun hjob => hdrained rest (by rw [hjobs, hjob]))
        fun hjob => hstart rest (by rw [hjobs, hjob])

theorem step (h : BarrierInv s) (event : Event κ α ω ε) : BarrierInv (s.step event) := by
  cases event with
  | mutate rows => exact ⟨h.revision, h.requested, h.draining, h.busy⟩
  | schedule keys => exact h.schedule keys
  | publishStrict keys waiter =>
    have hdirty : BarrierInv { s with dirty := s.dirty.addAll keys } :=
      ⟨h.revision, h.requested, h.draining, h.busy⟩
    exact hdirty.requestBarrier (some waiter)
  | flush =>
    show BarrierInv s.flush
    unfold SqlitePersistence.flush
    split
    · exact h.requestBarrier none
    · exact h
  | timerFired =>
    show BarrierInv s.timerFired
    unfold SqlitePersistence.timerFired
    split
    · exact startDrain h.revision h.requested h.busy
    · exact h
  | enqueue job => exact h.jobs (List.subset_append_left _ _)
  | runJob fails => exact h.runJob fails

end BarrierInv

/-- What a step does to barriers and dirty keys. -/
inductive StepCase (s s' : SqlitePersistence κ α ω ε φ) (event : Event κ α ω ε) : Prop
  /-- a drain settles all barriers -/
  | drain (fails : Bool) (hevent : event = .runJob fails) (hdrains : s.drains)
      (barriers : s'.barriers = [])
      (failed : fails = true → s'.dirty = s.dirty ∧ s'.durable = s.durable)
      (committed : fails = false → ∀ key ∈ s.dirty.members, s'.durable key = s.rows.get? key)
  | quiet (hevent : s.drains → ∀ fails, event ≠ .runJob fails) (barriers : s'.barriers = s.barriers)
      (dirty : s.dirty.members ⊆ s'.dirty.members)
  | request (hevent : ∀ fails, event ≠ .runJob fails) (waiter : Option ω)
      (barriers : s'.barriers = s.barriers ++ [⟨s.revision + 1, waiter⟩])
      (dirty : s.dirty.members ⊆ s'.dirty.members)

theorem subset_addAll (dirty : JsSet κ) (keys : List κ) :
    dirty.members ⊆ (dirty.addAll keys).members := fun _ hkey => JsSet.mem_addAll.mpr (.inl hkey)

omit [DecidableEq κ] in
theorem requestBarrier_frame (s : SqlitePersistence κ α ω ε φ) (waiter : Option ω) :
    (s.requestBarrier waiter).barriers = s.barriers ++ [⟨s.revision + 1, waiter⟩] ∧
      (s.requestBarrier waiter).dirty = s.dirty ∧
      (s.requestBarrier waiter).revision = s.revision + 1 ∧
      (s.requestBarrier waiter).rows = s.rows := by
  unfold requestBarrier
  obtain ⟨hbarriers, hrevision, -, hdirty, hrows⟩ := startDrain_frame { s with
    revision := s.revision + 1
    requested := true
    timer := false
    barriers := s.barriers ++ [⟨s.revision + 1, waiter⟩] }
  exact ⟨hbarriers, hdirty, hrevision, hrows⟩

variable {s : SqlitePersistence κ α ω ε φ}

theorem runJob_case (h : BarrierInv s) (fails : Bool) :
    StepCase s (s.runJob fails) (.runJob fails) := by
  have hquiet : ∀ {s' : SqlitePersistence κ α ω ε φ}, ¬ s.drains → s'.barriers = s.barriers →
      s'.dirty = s.dirty → StepCase s s' (.runJob fails) := fun hidle hbarriers hdirty =>
    .quiet (fun hdrains => absurd hdrains hidle) hbarriers (hdirty ▸ List.Subset.refl _)
  unfold runJob
  split
  · rename_i hjobs
    exact hquiet (by simp [drains, hjobs]) rfl rfl
  · rename_i hjobs
    by_cases hrequested : s.requested = true
    · have hpopped : s.popped.requested = true := hrequested
      refine .drain fails rfl ⟨by simp [hjobs], hrequested⟩
        (BarrierInv.drain_barriers (s := s.popped) h.revision hpopped fails) (fun hfails => ?_)
        fun hfails key hkey => ?_
      · subst hfails
        rw [SqlitePersistence.drain, if_neg (by simp [hpopped])]
        exact ⟨rfl, rfl⟩
      · subst hfails
        rw [SqlitePersistence.drain, if_neg (by simp [hpopped])]
        exact if_pos hkey
    · refine hquiet (fun hdrains => hrequested hdrains.2) ?_ ?_
      · rw [SqlitePersistence.drain, if_pos (by simpa [popped] using hrequested)]
        rfl
      · rw [SqlitePersistence.drain, if_pos (by simpa [popped] using hrequested)]
        rfl
  · rename_i hjobs
    refine hquiet (by simp [drains, hjobs]) ?_ ?_
    · unfold drained
      dsimp only
      split <;> rfl
    · unfold drained
      dsimp only
      split <;> rfl
  · rename_i hjobs
    obtain ⟨hbarriers, -, -, hdirty, -⟩ := s.popped.startDrain_frame
    exact hquiet (by simp [drains, hjobs]) hbarriers hdirty
  · rename_i hjobs
    exact hquiet (by simp [drains, hjobs]) rfl rfl
  · rename_i hjobs
    exact hquiet (by simp [drains, hjobs]) rfl rfl
  · rename_i hdrain _ _ _ _
    refine hquiet (fun hdrains => ?_) rfl rfl
    obtain ⟨rest, hjobs⟩ := List.head?_eq_some_iff.mp hdrains.1
    exact hdrain rest hjobs

theorem step_case (h : BarrierInv s) (event : Event κ α ω ε) : StepCase s (s.step event) event := by
  cases event with
  | mutate rows => exact .quiet (by simp) rfl (List.Subset.refl _)
  | schedule keys =>
    show StepCase s (s.schedule keys) _
    unfold schedule
    split
    · exact .quiet (by simp) rfl (List.Subset.refl _)
    · exact .quiet (by simp) rfl (subset_addAll _ _)
  | publishStrict keys waiter =>
    obtain ⟨hbarriers, hdirty, -, -⟩ :=
      requestBarrier_frame { s with dirty := s.dirty.addAll keys } (some waiter)
    refine .request (by simp) (some waiter) hbarriers ?_
    show _ ⊆ (requestBarrier _ _).dirty.members
    rw [hdirty]
    exact subset_addAll _ _
  | flush =>
    show StepCase s s.flush _
    unfold flush
    split
    · obtain ⟨hbarriers, hdirty, -, -⟩ := s.requestBarrier_frame none
      exact .request (by simp) none hbarriers (hdirty ▸ List.Subset.refl _)
    · exact .quiet (by simp) rfl (List.Subset.refl _)
  | timerFired =>
    show StepCase s s.timerFired _
    unfold timerFired
    split
    · obtain ⟨hbarriers, -, -, hdirty, -⟩ := startDrain_frame { s with timer := false }
      exact .quiet (by simp) hbarriers (by rw [hdirty]; exact List.Subset.refl _)
    · exact .quiet (by simp) rfl (List.Subset.refl _)
  | enqueue job => exact .quiet (by simp) rfl (List.Subset.refl _)
  | runJob fails => exact runJob_case h fails

theorem revision_step (s : SqlitePersistence κ α ω ε φ) (event : Event κ α ω ε) :
    s.revision ≤ (s.step event).revision := by
  have hstart : ∀ s : SqlitePersistence κ α ω ε φ, s.startDrain.revision = s.revision :=
    fun s => s.startDrain_frame.2.1
  have hbarrier : ∀ (s : SqlitePersistence κ α ω ε φ) (waiter : Option ω),
      s.revision ≤ (s.requestBarrier waiter).revision := by
    intro s waiter
    rw [(s.requestBarrier_frame waiter).2.2.1]
    exact Nat.le_succ _
  cases event with
  | mutate rows => exact Nat.le_refl _
  | schedule keys =>
    show s.revision ≤ (s.schedule keys).revision
    unfold schedule
    split
    · exact Nat.le_refl _
    · exact Nat.le_succ _
  | publishStrict keys waiter => exact hbarrier { s with dirty := s.dirty.addAll keys } (some waiter)
  | flush =>
    show s.revision ≤ s.flush.revision
    unfold flush
    split
    · exact hbarrier s none
    · exact Nat.le_refl _
  | timerFired =>
    show s.revision ≤ s.timerFired.revision
    unfold timerFired
    split
    · exact Nat.le_of_eq (hstart { s with timer := false }).symm
    · exact Nat.le_refl _
  | enqueue job => exact Nat.le_refl _
  | runJob fails =>
    show s.revision ≤ (s.runJob fails).revision
    unfold runJob
    split
    · exact Nat.le_refl _
    · unfold drain
      split
      · exact Nat.le_refl _
      · split <;> exact Nat.le_refl _
    · unfold drained
      dsimp only
      split <;> exact Nat.le_refl _
    · exact Nat.le_of_eq (hstart s.popped).symm
    · exact Nat.le_refl _
    · exact Nat.le_refl _
    · exact Nat.le_refl _

/-- What a barrier rests on: while it waits, its keys are dirty. -/
structure Waits (keys : κ → Prop) (barrier : Nat) (s : SqlitePersistence κ α ω ε φ) : Prop where
  inv : BarrierInv s
  known : barrier ≤ s.revision
  dirty : (∃ b ∈ s.barriers, b.revision = barrier) → ∀ key, keys key → key ∈ s.dirty.members

theorem Waits.step {keys : κ → Prop} {barrier : Nat}
    (h : Waits keys barrier s) (event : Event κ α ω ε) : Waits keys barrier (s.step event) where
  inv := h.inv.step event
  known := Nat.le_trans h.known (s.revision_step event)
  dirty := by
    rintro ⟨b, hb, hrevision⟩ key hkey
    cases step_case h.inv event with
    | drain fails hevent hdrains hbarriers =>
      rw [hbarriers] at hb
      cases hb
    | quiet hevent hbarriers hdirty =>
      exact hdirty (h.dirty ⟨b, hbarriers ▸ hb, hrevision⟩ key hkey)
    | request hevent waiter hbarriers hdirty =>
      rw [hbarriers, List.mem_append, List.mem_singleton] at hb
      rcases hb with hb | rfl
      · exact hdirty (h.dirty ⟨b, hb, hrevision⟩ key hkey)
      · have := h.known
        simp only at hrevision
        omega

theorem Waits.barrierKept {keys : κ → Prop} {barrier : Nat}
    (h : Waits keys barrier s) : BarrierKept writer s keys barrier := by
  refine .of_invariant (fun _ => Waits keys barrier) (fun _ h => h) h
    (fun _ s event _ h => h.step event) ?resolved ?failed ?rejected ?settled ?idle
  case resolved =>
    rintro seen s event hseen h ⟨hdrains, ⟨b, hb, hrevision⟩, hevent⟩
    refine ⟨_, hseen, fun key hkey => ?_⟩
    rw [h.inv.resolved_eq] at hb
    have hdirty := h.dirty ⟨b, hb, hrevision⟩ key hkey
    cases step_case h.inv event with
    | drain fails hrun _ _ _ hcommitted =>
      subst hrun
      exact hcommitted hevent key hdirty
    | quiet hquiet =>
      cases event with
      | runJob fails => exact absurd rfl (hquiet hdrains fails)
      | _ => cases hevent
    | request hrequest =>
      cases event with
      | runJob fails => exact absurd rfl (hrequest fails)
      | _ => cases hevent
  case failed =>
    rintro seen s event h - ⟨hdrains, hmem, hevent⟩
    exact ⟨hdrains, h.inv.rejected_eq.symm ▸ hmem, hevent⟩
  case rejected =>
    rintro seen s event h ⟨hdrains, ⟨b, hb, hrevision⟩, hevent⟩
    rw [h.inv.rejected_eq] at hb
    cases step_case h.inv event with
    | drain fails hrun _ _ hfailed _ =>
      subst hrun
      obtain ⟨hdirty, hdurable⟩ := hfailed hevent
      refine ⟨hdurable, fun key hkey => ?_⟩
      show key ∈ (s.step (.runJob fails)).dirty.members
      rw [hdirty]
      exact h.dirty ⟨b, hb, hrevision⟩ key hkey
    | quiet hquiet =>
      cases event with
      | runJob fails => exact absurd rfl (hquiet hdrains fails)
      | _ => cases hevent
    | request hrequest =>
      cases event with
      | runJob fails => exact absurd rfl (hrequest fails)
      | _ => cases hevent
  case settled =>
    rintro seen s event h ⟨b, hb, hrevision⟩
    cases step_case h.inv event with
    | drain fails hrun hdrains =>
      subst hrun
      cases fails with
      | false => exact .inr (.inl ⟨hdrains, ⟨b, h.inv.resolved_eq.symm ▸ hb, hrevision⟩, rfl⟩)
      | true => exact .inr (.inr ⟨hdrains, ⟨b, h.inv.rejected_eq.symm ▸ hb, hrevision⟩, rfl⟩)
    | quiet _ hbarriers => exact .inl ⟨b, hbarriers.symm ▸ hb, hrevision⟩
    | request _ _ hbarriers =>
      exact .inl ⟨b, hbarriers.symm ▸ List.mem_append_left _ hb, hrevision⟩
  case idle =>
    rintro seen s h hidle ⟨b, hb, -⟩
    exact hidle (h.inv.draining (List.ne_nil_of_mem hb))

theorem publishStrict_kept (h : BarrierInv s) (keys : List κ) (waiter : ω) :
    BarrierKept writer (s.step (.publishStrict keys waiter))
      (fun key => key ∈ s.dirty.members ∨ key ∈ keys) (s.revision + 1) := by
  obtain ⟨-, hdirty, hrevision, -⟩ :=
    requestBarrier_frame { s with dirty := s.dirty.addAll keys } (some waiter)
  refine Waits.barrierKept ⟨h.step _, Nat.le_of_eq hrevision.symm, fun _ key hkey => ?_⟩
  show key ∈ (requestBarrier _ _).dirty.members
  rw [hdirty]
  exact JsSet.mem_addAll.mpr hkey

theorem flush_kept (h : BarrierInv s) (hwork : s.hasPendingWork = true) :
    BarrierKept writer (s.step .flush) (· ∈ s.dirty.members) (s.revision + 1) := by
  obtain ⟨-, hdirty, hrevision, -⟩ := s.requestBarrier_frame none
  have hflush : s.step .flush = s.requestBarrier none := if_pos hwork
  refine Waits.barrierKept ⟨h.step _, ?_, fun _ key hkey => ?_⟩
  · exact Nat.le_of_eq (by rw [hflush, hrevision])
  · rw [hflush, hdirty]
    exact hkey

end SqlitePersistence

/-! ## JSON -/

namespace CoalescedJsonWriter

variable {κ α : Type} [DecidableEq κ]

/-- The writer; each write takes all keys along. -/
def writer : Writer (CoalescedJsonWriter κ α) (Event κ α) κ (Option α) where
  step := step
  rows s := s.rows.get?
  durable s := s.file.get?
  dirty _ _ := True
  pending s barrier := barrier ∈ s.barriers
  resolves s event barrier :=
    match event, s.inFlight with
    | .resumed, some (.written revision) => barrier ∈ s.resolved revision
    | _, _ => False
  rejects s event barrier :=
    match event, s.inFlight with
    | .resumed, some (.failed revision) => barrier ∈ s.rejected revision
    | _, _ => False
  fails s event barrier :=
    match event, s.inFlight with
    | .resumed, some (.failed revision) => barrier ≤ revision
    | _, _ => False
  draining s := s.inFlight.isSome = true ∨ 0 < s.retries

/-- The barriers that the drain in flight will not settle are requested. -/
def Requested (s : CoalescedJsonWriter κ α) (barrier : Nat) : Prop :=
  match s.inFlight with
  | some (.writing revision _) => s.requested = true ∨ barrier ≤ revision
  | some (.written revision) => s.requested = true ∨ barrier ≤ revision
  | some (.failed revision) => s.requested = true ∨ barrier ≤ revision
  | some .returned => s.requested = true
  | none => s.requested = true ∧ 0 < s.retries

/-- The bookkeeping of revisions, and what the drain in flight writes for a barrier. -/
structure BarrierInv (seen : (κ → Option α) → Prop) (barrier : Nat) (s : CoalescedJsonWriter κ α) :
    Prop where
  published : s.publishedRevision ≤ s.revision
  barriers : ∀ b ∈ s.barriers, s.publishedRevision < b ∧ b ≤ s.revision
  known : barrier ≤ s.revision
  writing : ∀ revision snapshot, s.inFlight = some (.writing revision snapshot) →
    revision ≤ s.revision ∧ (barrier ≤ revision → seen snapshot.get?)
  written : ∀ revision, s.inFlight = some (.written revision) →
    revision ≤ s.revision ∧ (barrier ≤ revision → seen s.file.get?)
  requested : ∀ b ∈ s.barriers, s.Requested b

namespace BarrierInv

variable {seen : (κ → Option α) → Prop} {barrier : Nat} {s : CoalescedJsonWriter κ α}

theorem mono {seen' : (κ → Option α) → Prop} (h : BarrierInv seen barrier s)
    (hseen : ∀ rows, seen rows → seen' rows) : BarrierInv seen' barrier s :=
  { h with
    writing := fun revision snapshot hphase =>
      ⟨(h.writing revision snapshot hphase).1, fun hle =>
        hseen _ ((h.writing revision snapshot hphase).2 hle)⟩
    written := fun revision hphase =>
      ⟨(h.written revision hphase).1, fun hle => hseen _ ((h.written revision hphase).2 hle)⟩ }

theorem loaded (rows : JsMap κ α) : BarrierInv (fun _ => True) 0 (CoalescedJsonWriter.loaded rows) := by
  constructor <;> simp [CoalescedJsonWriter.loaded]

theorem turn (hpublished : s.publishedRevision ≤ s.revision)
    (hbarriers : ∀ b ∈ s.barriers, s.publishedRevision < b ∧ b ≤ s.revision)
    (hknown : barrier ≤ s.revision) (hseen : seen s.rows.get?)
    (hrequested : s.barriers ≠ [] → s.requested = true) : BarrierInv seen barrier s.turn := by
  unfold CoalescedJsonWriter.turn
  split
  · refine ⟨hpublished, hbarriers, hknown, fun revision snapshot hphase => ?_, by simp, fun b hb =>
      .inr (hbarriers b hb).2⟩
    simp only [Option.some.injEq, JsonDrain.writing.injEq] at hphase
    obtain ⟨rfl, rfl⟩ := hphase
    exact ⟨Nat.le_refl _, fun _ => hseen⟩
  · rename_i hnot
    exact ⟨hpublished, hbarriers, hknown, by simp, by simp, fun b hb =>
      absurd (hrequested (List.ne_nil_of_mem hb)) hnot⟩

/-- `startDrain` starts a drain or leaves the one in flight alone. -/
theorem startDrain (h : s.inFlight.isNone = false → BarrierInv seen barrier s)
    (hpublished : s.publishedRevision ≤ s.revision)
    (hbarriers : ∀ b ∈ s.barriers, s.publishedRevision < b ∧ b ≤ s.revision)
    (hknown : barrier ≤ s.revision) (hseen : seen s.rows.get?)
    (hrequested : s.inFlight.isNone = true → s.barriers ≠ [] → s.requested = true) :
    BarrierInv seen barrier s.startDrain := by
  unfold CoalescedJsonWriter.startDrain
  split
  · rename_i hnone
    exact turn hpublished hbarriers hknown hseen (hrequested hnone)
  · rename_i hbusy
    exact h (Bool.eq_false_iff.mpr hbusy)

omit [DecidableEq κ] in
/-- When every barrier is requested, nothing depends on where a drain stands. -/
theorem requested_of_busy (hbusy : s.inFlight.isNone = false) (hrequested : s.requested = true)
    (b : Nat) : s.Requested b := by
  unfold Requested
  split
  · exact .inl hrequested
  · exact .inl hrequested
  · exact .inl hrequested
  · exact hrequested
  · rename_i hnone
    simp [hnone] at hbusy

/-- A barrier is requested; its drain may start at once. -/
theorem requestBarrier (h : BarrierInv seen barrier s) {seen' : (κ → Option α) → Prop}
    {barrier' : Nat} (hknown : barrier' ≤ s.revision + 1) (hseen : seen' s.rows.get?)
    (holder : barrier' = s.revision + 1 ∨ barrier' = barrier ∧ ∀ rows, seen rows → seen' rows) :
    BarrierInv seen' barrier' s.requestBarrier := by
  have hpublished : s.publishedRevision ≤ s.revision + 1 := Nat.le_succ_of_le h.published
  have hbarriers : ∀ b ∈ s.barriers ++ [s.revision + 1],
      s.publishedRevision < b ∧ b ≤ s.revision + 1 := by
    intro b hb
    rcases List.mem_append.mp hb with hb | hb
    · exact ⟨(h.barriers b hb).1, Nat.le_succ_of_le (h.barriers b hb).2⟩
    · rw [List.mem_singleton.mp hb]
      exact ⟨Nat.lt_succ_of_le h.published, Nat.le_refl _⟩
  have hold : ∀ revision, revision ≤ s.revision → barrier' ≤ revision →
      ∀ rows, (barrier ≤ revision → seen rows) → seen' rows := by
    intro revision hrevision hle rows hrows
    rcases holder with rfl | ⟨rfl, himp⟩
    · omega
    · exact himp rows (hrows hle)
  refine startDrain (fun hbusy => ?_) hpublished hbarriers hknown hseen fun _ _ => rfl
  exact {
    published := hpublished
    barriers := hbarriers
    known := hknown
    writing := fun revision snapshot hphase => by
      have hold' := h.writing revision snapshot hphase
      exact ⟨Nat.le_succ_of_le hold'.1, fun hle => hold revision hold'.1 hle _ hold'.2⟩
    written := fun revision hphase => by
      have hold' := h.written revision hphase
      exact ⟨Nat.le_succ_of_le hold'.1, fun hle => hold revision hold'.1 hle _ hold'.2⟩
    requested := fun b _ => requested_of_busy hbusy rfl b }

theorem schedule (h : BarrierInv seen barrier s) : BarrierInv seen barrier s.schedule where
  published := Nat.le_succ_of_le h.published
  barriers b hb := ⟨(h.barriers b hb).1, Nat.le_succ_of_le (h.barriers b hb).2⟩
  known := Nat.le_succ_of_le h.known
  writing revision snapshot hphase :=
    ⟨Nat.le_succ_of_le (h.writing revision snapshot hphase).1,
      (h.writing revision snapshot hphase).2⟩
  written revision hphase :=
    ⟨Nat.le_succ_of_le (h.written revision hphase).1, (h.written revision hphase).2⟩
  requested b hb := by
    cases hbusy : s.inFlight with
    | none =>
      have hold := h.requested b hb
      simp only [Requested, hbusy] at hold
      simp only [Requested, CoalescedJsonWriter.schedule, hbusy]
      exact ⟨trivial, hold.2⟩
    | some phase => exact requested_of_busy (by simp [CoalescedJsonWriter.schedule, hbusy]) rfl b

/-- In a state without a drain the barriers that are left are requested. -/
theorem requested_of_none (h : BarrierInv seen barrier s) (hnone : s.inFlight.isNone = true)
    (hne : s.barriers ≠ []) : s.requested = true ∧ 0 < s.retries := by
  obtain ⟨b, hb⟩ := List.exists_mem_of_ne_nil _ hne
  have hrequested := h.requested b hb
  rw [Option.isNone_iff_eq_none] at hnone
  simpa only [Requested, hnone] using hrequested

theorem timerFired (h : BarrierInv seen barrier s) (hseen : seen s.rows.get?) :
    BarrierInv seen barrier s.timerFired := by
  unfold CoalescedJsonWriter.timerFired
  split
  · exact startDrain (fun _ => ⟨h.published, h.barriers, h.known, h.writing, h.written, h.requested⟩)
      h.published h.barriers h.known hseen fun hnone hne => (h.requested_of_none hnone hne).1
  · exact h

theorem retried (h : BarrierInv seen barrier s) (hseen : seen s.rows.get?) :
    BarrierInv seen barrier s.retried := by
  unfold CoalescedJsonWriter.retried
  split
  · exact h
  · refine startDrain (fun hbusy => ?_) h.published h.barriers h.known hseen fun hnone hne =>
      (h.requested_of_none hnone hne).1
    refine ⟨h.published, h.barriers, h.known, h.writing, h.written, fun b hb => ?_⟩
    have hold := h.requested b hb
    unfold Requested at hold ⊢
    dsimp only at hbusy ⊢
    cases hphase : s.inFlight with
    | none => simp [hphase] at hbusy
    | some phase =>
      rw [hphase] at hold
      cases phase <;> exact hold

theorem renamed (h : BarrierInv seen barrier s) (fails : Bool) :
    BarrierInv seen barrier (s.renamed fails) := by
  unfold CoalescedJsonWriter.renamed
  split
  · rename_i revision snapshot hphase
    obtain ⟨hle, hsnapshot⟩ := h.writing revision snapshot hphase
    have hrequested : ∀ b ∈ s.barriers, s.requested = true ∨ b ≤ revision := fun b hb => by
      simpa only [Requested, hphase] using h.requested b hb
    split
    · exact ⟨h.published, h.barriers, h.known, by simp, by simp, hrequested⟩
    · refine ⟨h.published, h.barriers, h.known, by simp, fun r hr => ?_, hrequested⟩
      simp only [Option.some.injEq, JsonDrain.written.injEq] at hr
      subst hr
      exact ⟨hle, hsnapshot⟩
  · exact h

theorem resumed (h : BarrierInv seen barrier s) (hseen : seen s.rows.get?) :
    BarrierInv seen barrier s.resumed := by
  unfold CoalescedJsonWriter.resumed
  split
  · rename_i revision hphase
    have hle := (h.written revision hphase).1
    have hpublished := h.published
    refine turn (s := s.settlePublished revision) ?_ (fun b hb => ?_) h.known hseen fun hne => ?_
    · show max s.publishedRevision revision ≤ s.revision
      omega
    · have hmem := List.mem_filter.mp hb
      have hold := h.barriers b hmem.1
      have hnot : ¬ b ≤ max s.publishedRevision revision := by simpa using hmem.2
      exact ⟨Nat.lt_of_not_le hnot, hold.2⟩
    · obtain ⟨b, hb⟩ := List.exists_mem_of_ne_nil _ hne
      have hmem := List.mem_filter.mp hb
      have hnot : ¬ b ≤ max s.publishedRevision revision := by simpa using hmem.2
      have hold := h.requested b hmem.1
      simp only [Requested, hphase] at hold
      exact hold.resolve_right fun hle => hnot (by omega)
  · rename_i revision hphase
    refine ⟨h.published, fun b hb => h.barriers b (List.mem_of_mem_filter hb), h.known, by simp,
      by simp, fun b hb => ?_⟩
    have hmem := List.mem_filter.mp hb
    have hold := h.requested b hmem.1
    simp only [Requested, hphase] at hold
    exact hold.resolve_right (by simpa using hmem.2)
  · rename_i hphase
    refine ⟨h.published, h.barriers, h.known, by simp, by simp, fun b hb => ?_⟩
    have hold := h.requested b hb
    simp only [Requested, hphase] at hold
    simp [Requested, hold]
  · exact h

theorem step (h : BarrierInv seen barrier s) (hseen : seen s.rows.get?) (event : Event κ α) :
    BarrierInv seen barrier (s.step event) := by
  cases event with
  | mutate rows => exact ⟨h.published, h.barriers, h.known, h.writing, h.written, h.requested⟩
  | schedule => exact h.schedule
  | requestBarrier =>
    exact h.requestBarrier (Nat.le_succ_of_le h.known) hseen (.inr ⟨rfl, fun _ => id⟩)
  | timerFired => exact h.timerFired hseen
  | renamed fails => exact h.renamed fails
  | resumed => exact h.resumed hseen
  | retried => exact h.retried hseen

end BarrierInv

theorem pending_step {s : CoalescedJsonWriter κ α} (event : Event κ α) {barrier : Nat}
    (hmem : barrier ∈ s.barriers) :
    barrier ∈ (s.step event).barriers ∨ writer.resolves s event barrier ∨
      writer.rejects s event barrier := by
  have hturn : ∀ s : CoalescedJsonWriter κ α, s.turn.barriers = s.barriers := by
    intro s
    unfold turn
    split <;> rfl
  have hstart : ∀ s : CoalescedJsonWriter κ α, s.startDrain.barriers = s.barriers := by
    intro s
    unfold startDrain
    split
    · exact hturn s
    · rfl
  cases event with
  | mutate rows => exact .inl hmem
  | schedule => exact .inl hmem
  | requestBarrier =>
    refine .inl ?_
    show barrier ∈ s.requestBarrier.barriers
    unfold requestBarrier
    rw [hstart]
    exact List.mem_append_left _ hmem
  | timerFired =>
    refine .inl ?_
    show barrier ∈ s.timerFired.barriers
    unfold timerFired
    split
    · rw [hstart]
      exact hmem
    · exact hmem
  | renamed fails =>
    refine .inl ?_
    show barrier ∈ (s.renamed fails).barriers
    unfold renamed
    split
    · split <;> exact hmem
    · exact hmem
  | resumed =>
    simp only [writer, step, resumed]
    split
    · rename_i revision hphase
      rw [hturn]
      by_cases hle : barrier ≤ max s.publishedRevision revision
      · refine .inr (.inl ?_)
        rw [hphase]
        exact List.mem_filter.mpr ⟨hmem, by simpa using hle⟩
      · exact .inl (List.mem_filter.mpr ⟨hmem, by simpa using hle⟩)
    · rename_i revision hphase
      by_cases hle : barrier ≤ revision
      · refine .inr (.inr ?_)
        rw [hphase]
        exact List.mem_filter.mpr ⟨hmem, by simpa using hle⟩
      · exact .inl (List.mem_filter.mpr ⟨hmem, by simpa using hle⟩)
    · exact .inl hmem
    · exact .inl hmem
  | retried =>
    refine .inl ?_
    show barrier ∈ s.retried.barriers
    unfold retried
    split
    · exact hmem
    · rw [hstart]
      exact hmem

omit [DecidableEq κ] in
theorem resumed_file (s : CoalescedJsonWriter κ α) : s.resumed.file = s.file := by
  have hturn : ∀ s : CoalescedJsonWriter κ α, s.turn.file = s.file := by
    intro s
    unfold turn
    split <;> rfl
  unfold resumed
  split
  · exact hturn _
  · rfl
  · rfl
  · rfl

theorem requestBarrier_kept {s : CoalescedJsonWriter κ α} {seen : (κ → Option α) → Prop}
    {barrier : Nat} (h : BarrierInv seen barrier s) (keys : κ → Prop) :
    BarrierKept writer (s.step .requestBarrier) keys (s.revision + 1) := by
  have hstart : BarrierInv (· = (s.step .requestBarrier).rows.get?) (s.revision + 1)
      (s.step .requestBarrier) := by
    refine h.requestBarrier (Nat.le_refl _) ?_ (.inl rfl)
    show s.rows.get? = s.requestBarrier.rows.get?
    unfold requestBarrier startDrain turn
    dsimp only
    split
    · split <;> rfl
    · rfl
  refine .of_invariant (fun seen => BarrierInv seen (s.revision + 1)) (fun hseen h => h.mono hseen)
    hstart (fun _ s event hseen h => h.step hseen event) ?resolved ?failed ?rejected ?settled ?idle
  case resolved =>
    intro seen s event hseen h hresolves
    simp only [writer] at hresolves
    split at hresolves
    · rename_i revision hphase
      have hmem := List.mem_filter.mp hresolves
      have hbarrier := (h.barriers _ hmem.1).1
      have hle := of_decide_eq_true hmem.2
      refine ⟨s.file.get?, (h.written revision hphase).2 (by omega), fun key _ => ?_⟩
      show s.resumed.file.get? key = s.file.get? key
      rw [resumed_file]
    · cases hresolves
  case failed =>
    intro seen s event h hmem hfails
    simp only [writer] at hfails hmem ⊢
    split at hfails
    · rename_i revision hphase
      exact List.mem_filter.mpr ⟨hmem, by simpa using hfails⟩
    · cases hfails
  case rejected =>
    intro seen s event h hrejects
    simp only [writer] at hrejects ⊢
    split at hrejects
    · exact ⟨congrArg JsMap.get? (resumed_file s), fun _ _ => trivial⟩
    · cases hrejects
  case settled => exact fun seen s event h hmem => pending_step event hmem
  case idle =>
    intro seen s h hidle hmem
    have hnone : s.inFlight.isNone = true := by
      rw [← Bool.not_eq_false, Option.isNone_eq_false_iff]
      exact fun hsome => hidle (.inl hsome)
    exact hidle (.inr (h.requested_of_none hnone (List.ne_nil_of_mem hmem)).2)

end CoalescedJsonWriter

end Bobbit.Server
