import Bobbit.Lib.Keyed
import Bobbit.Spec.SchedulerInvariant

/-!
# Every entry keeps the scheduler's invariant

The operations of the scheduler, from `_terminal` up to whole entries, in terms
of the small transitions of `SchedulerInvariant`. `Guard` is the condition on an
entry, and `SchedulerInv.step` the step lemma.
-/

namespace Bobbit.Server

namespace ChildTeamScheduler

variable {R : GoalId → Option GoalId} {capOf : GoalId → Nat} {strict : Bool}
  {exempt credit : Option GoalId} {s s' : ChildTeamScheduler} {root child : GoalId}
  {deps : SchedulerDeps}

/-! ## Settling a loose child -/

@[simp] theorem clearTimer_none (s : ChildTeamScheduler) : s.clearTimer none = s := by
  simp [clearTimer]

variable {q : Nat}

/-- A permit changes hands without moving a loose child. -/
theorem Loose.releasePermit (hl : s.Loose child q) (root : GoalId) :
    (s.releasePermit root).Loose child q := by
  simp only [ChildTeamScheduler.releasePermit]
  split
  · exact hl
  · split
    · exact ⟨hl.request, hl.live, hl.untimed, hl.unqueued, hl.unheld, hl.unrepaired⟩
    · exact hl

/-- `_removePending`, which may or may not find the child. -/
theorem SchedulerInv.removePending (h : SchedulerInv R capOf strict exempt credit s)
    (root child : GoalId) (hex : ∀ c, exempt = some c → c = child) :
    SchedulerInv R capOf strict (some child) credit (s.removePending root child) :=
  h.dequeue hex List.erase_sublist fun _ hc hne => (List.mem_erase_of_ne hne).mpr hc

/-- Removing a child that is not queued changes nothing. -/
theorem removePending_of_not_mem (hmem : child ∉ s.pending root) :
    s.removePending root child = s := by
  simp [ChildTeamScheduler.removePending, setPending, List.erase_of_not_mem hmem]

theorem SchedulerInv.terminal (h : SchedulerInv R capOf strict exempt credit s)
    (hex : ∀ c, exempt = some c → c = child) (hl : s.Loose child q)
    (failure : Failure) (retryable : Bool) :
    SchedulerInv R capOf strict none credit (s.terminal deps root child q failure retryable) := by
  simp only [ChildTeamScheduler.terminal, hl.live, Bool.false_eq_true, if_false]
  have h1 := h.finish hex hl
  have htimer : ((s.setRequest q { s.heap q with terminal := true }).heap q).timer = none := by
    simpa [setRequest] using hl.untimed
  rw [htimer, clearTimer_none]
  have h2 := h1.removePending root child (by simp)
  have h3 := h2.located_of fun _ c q' hq hlive hc => by
    have hcc := Option.some.inj hc
    subst hcc
    have : q' = q := Option.some.inj (hq.symm.trans hl.request)
    simp [this, ChildTeamScheduler.removePending, setPending, setRequest] at hlive
  refine SchedulerInv.clearWatchdog ?_ root true
  split
  · exact h3.emit _
  · exact h3

/-- `_terminal` for a superseded request. It takes the child out of the queue all
    the same, which strands the request that has superseded it. -/
theorem SchedulerInv.terminalStale (h : SchedulerInv R capOf strict none credit s)
    (hstale : ∀ c, s.requests c ≠ some q) (htimer : (s.heap q).timer = none)
    (hplace : strict = true → child ∉ s.pending root) (failure : Failure) (retryable : Bool) :
    SchedulerInv R capOf strict none credit (s.terminal deps root child q failure retryable) := by
  simp only [ChildTeamScheduler.terminal]
  split
  · exact h
  · have h1 := h.finishStale hstale
    have htimer' : ((s.setRequest q { s.heap q with terminal := true }).heap q).timer = none := by
      simpa [setRequest] using htimer
    rw [htimer', clearTimer_none]
    have h2 : SchedulerInv R capOf strict none credit
        ((s.setRequest q { s.heap q with terminal := true }).removePending root child) := by
      cases strict with
      | true =>
        have hnone : child ∉ (s.setRequest q { s.heap q with terminal := true }).pending root :=
          hplace rfl
        rw [removePending_of_not_mem hnone]
        exact h1
      | false => exact (h1.removePending root child (by simp)).located_of (by simp)
    refine SchedulerInv.clearWatchdog ?_ root true
    split
    · exact h2.emit _
    · exact h2

theorem SchedulerInv.scheduleRetry (h : SchedulerInv R capOf strict exempt credit s)
    (hex : ∀ c, exempt = some c → c = child) (hl : s.Loose child q)
    (hR : R child = some root) (forcedDelay : Option Nat) :
    SchedulerInv R capOf strict none credit (s.scheduleRetry root child q forcedDelay) := by
  have h1 := h.enqueue hex hl hR
  have heq : s.enqueue root child = s.setPending root (s.pending root ++ [child]) :=
    if_neg (hl.unqueued root)
  rw [ChildTeamScheduler.scheduleRetry, if_neg (by simp [hl.live, hl.request])]
  rw [heq] at h1 ⊢
  exact h1.arm hl.request hl.live hl.untimed hl.unheld hl.unrepaired hR _

/-- A retry that is scheduled for a request that is no longer current does nothing. -/
theorem scheduleRetry_stale (s : ChildTeamScheduler) (root : GoalId)
    (hstale : s.requests child ≠ some q) (forcedDelay : Option Nat) : s.scheduleRetry root child q forcedDelay = s := by
  simp [ChildTeamScheduler.scheduleRetry, hstale]

/-! ## Start callbacks -/

/-- A success that belongs to another request than the current one does no harm:
    no request of the child carries its generation number. -/
def SuccessCurrent (s : ChildTeamScheduler) (call : StartCall) : Prop :=
  s.requests call.child = some call.request ∨
    ∀ q, s.requests call.child = some q → (s.heap q).generation ≠ call.generation

/-- A failure that belongs to another request than the current one does no harm:
    the child holds no permit under its generation number. -/
def FailureCurrent (s : ChildTeamScheduler) (call : StartCall) : Prop :=
  s.requests call.child = some call.request ∨
    s.heldGeneration call.root call.child ≠ some call.generation

/-- `_onStartSuccess` when the promise of `call` resolves. -/
theorem SchedulerInv.onStartSuccess (h : SchedulerInv R capOf strict none credit s)
    {call : StartCall} (hcall : call ∈ s.starts) (hg : SuccessCurrent s call) :
    SchedulerInv R capOf strict none credit
      ({ s with starts := s.starts.filter (·.id ≠ call.id),
                log := .succeeded call.id :: s.log }.onStartSuccess
        call.root call.child call.generation) := by
  by_cases hcur : s.requests call.child = some call.request
  · obtain ⟨g, hheld⟩ := (h.active _ _ _ (h.callCurrent call hcall hcur)).2
    have htimer := ((h.held _ _ g hheld).2.2.2 _ hcur).2.2
    have hgen := (h.calls call hcall).2.2.2
    simp only [ChildTeamScheduler.onStartSuccess, hcur, hgen, htimer, clearTimer_none, ne_eq,
      not_true_eq_false, if_false]
    exact ((h.settle hcall hcur).emit _).clearWatchdog _ _
  · have hstale := h.dropStale hcall hcur (Or.inl rfl)
    have hgen := hg.resolve_left hcur
    simp only [ChildTeamScheduler.onStartSuccess]
    split
    · exact hstale
    · rename_i q hq
      rw [if_pos (hgen q hq)]
      exact hstale

/-- A permit held under another generation number is not released. -/
theorem releaseHeldStart_none {generation : Nat}
    (hheld : s.heldGeneration root child ≠ some generation) :
    s.releaseHeldStart root child (some generation) = none := by
  simp only [releaseHeldStart]
  split
  · rfl
  · rename_i held hh
    have hne : generation ≠ held := fun hg => hheld (by rw [hh, hg])
    simp [hne]

/-- `_onStartFailure` when the promise of `call` rejects. -/
theorem SchedulerInv.onStartFailure {redrive : Bool → ChildTeamScheduler → ChildTeamScheduler}
    (hred : ∀ b s, SchedulerInv R capOf strict none none s →
      SchedulerInv R capOf strict none none (redrive b s))
    (h : SchedulerInv R capOf strict none none s) {call : StartCall} (hcall : call ∈ s.starts)
    (hg : FailureCurrent s call) (deps : SchedulerDeps) (err : StartError) :
    SchedulerInv R capOf strict none none
      (onStartFailureWith redrive deps
        { s with starts := s.starts.filter (·.id ≠ call.id), log := .failed call.id :: s.log }
        call.root call.child err call.generation) := by
  by_cases hcur : s.requests call.child = some call.request
  · obtain ⟨g, hheld⟩ := (h.active _ _ _ (h.callCurrent call hcall hcur)).2
    have hgen := (h.calls call hcall).2.2.2
    have hgg := ((h.held _ _ g hheld).2.2.2 _ hcur).1
    have hR := (h.calls call hcall).1
    obtain ⟨h1, hl⟩ := h.rejected hcall hcur
    have h2 := h1.releasePermit
    have hl2 := hl.releasePermit call.root
    have hrel : releaseHeldStart
        { s with starts := s.starts.filter (·.id ≠ call.id), log := .failed call.id :: s.log }
        call.root call.child (some call.generation) = some (s.rejected call) := by
      simp only [releaseHeldStart, heldGeneration] at hheld ⊢
      simp [hheld, ← hgg, hgen, ChildTeamScheduler.rejected]
    have hgen2 : (((s.rejected call).releasePermit call.root).heap call.request).generation =
        call.generation := by
      rw [← hgen]
      simp only [ChildTeamScheduler.releasePermit]
      repeat' split
      all_goals rfl
    simp only [onStartFailureWith, hrel, hl2.request]
    rw [if_neg (not_not.mpr hgen2)]
    generalize (s.rejected call).releasePermit call.root = s2 at h2 hl2
    have hex : ∀ c, some call.child = some c → c = call.child := fun c hc => (Option.some.inj hc).symm
    split
    · exact hred _ _ (h2.terminal hex hl2 _ _)
    · split
      · exact hred _ _ ((h2.awaitRepair hex hl2 hR).emit _)
      · split
        · exact hred _ _ (h2.terminal hex hl2 _ _)
        · split
          · exact hred _ _ (h2.terminal hex hl2 _ _)
          · exact hred _ _ (h2.scheduleRetry hex hl2 hR _)
  · have hstale := h.dropStale hcall hcur (Or.inr rfl)
    have hgen := hg.resolve_left hcur
    have hrel : releaseHeldStart
        { s with starts := s.starts.filter (·.id ≠ call.id), log := .failed call.id :: s.log }
        call.root call.child (some call.generation) = none := releaseHeldStart_none hgen
    simp only [onStartFailureWith, hrel]
    exact hstale

/-! ## Starting a loose child -/

/-- `_startHolding` on a loose child, with its permit on credit. -/
theorem SchedulerInv.startHolding {redrive : Bool → ChildTeamScheduler → ChildTeamScheduler}
    (hred : ∀ b s, SchedulerInv R capOf strict none none s →
      SchedulerInv R capOf strict none none (redrive b s))
    (h : SchedulerInv R capOf strict exempt (some root) s)
    (hex : ∀ c, exempt = some c → c = child) (hl : s.Loose child q)
    (hroot : s.childRoot child = some root) :
    SchedulerInv R capOf strict none none (startHoldingWith redrive deps s root child).2 := by
  have h1 := h.launched hex hl hroot
  have hreq : (s.launched root child q).requests child = some q := hl.request
  let call : StartCall := ⟨s.nextId, root, child, q, (s.heap q).generation⟩
  have hcall : call ∈ (s.launched root child q).starts := List.mem_append_right _ (by simp [call])
  have hfresh : (s.launched root child q).starts.filter (·.id ≠ call.id) = s.starts := by
    simp only [ChildTeamScheduler.launched, List.filter_append]
    rw [List.filter_eq_self.mpr, List.filter_eq_nil_iff.mpr, List.append_nil]
    · simp [call]
    · intro c hc
      simpa [call] using (h.calls c hc).2.1.ne
  simp only [startHoldingWith, hl.request, Option.isSome_some, if_true]
  cases hstart : deps.startChildTeam child with
  | promise => exact h1
  | returned =>
    have h2 := h1.onStartSuccess hcall (Or.inl hreq)
    rw [hfresh] at h2
    exact h2
  | threw err =>
    have h2 := h1.onStartFailure hred hcall (Or.inl hreq) deps err
    rw [hfresh] at h2
    exact h2

/-! ## The drain -/

/-- A queued child is in one queue only and holds no permit. -/
theorem SchedulerInv.only_queue (h : SchedulerInv R capOf strict none credit s)
    (hmem : child ∈ s.pending root) : ∀ r, child ∈ s.pending r → r = root := fun r hr =>
  Option.some.inj ((h.queued r child hr).1.symm.trans (h.queued root child hmem).1)

theorem SchedulerInv.unheld (h : SchedulerInv R capOf strict none credit s)
    (hmem : child ∈ s.pending root) (r : GoalId) : s.heldGeneration r child = none := by
  refine Option.eq_none_iff_forall_ne_some.mpr fun g hg => ?_
  have hr := Option.some.inj ((h.held r child g hg).1.symm.trans (h.queued root child hmem).1)
  subst hr
  simp [(h.queued r child hmem).2.1] at hg

theorem SchedulerInv.startNextEligibleWith {drain : ChildTeamScheduler → ChildTeamScheduler}
    (hdrain : ∀ s, SchedulerInv R capOf strict none none s →
      SchedulerInv R capOf strict none none (drain s))
    (h : SchedulerInv R capOf strict none none s) (root : GoalId) (immediate : Bool) :
    SchedulerInv R capOf strict none none (startNextEligibleWith drain deps root immediate s) := by
  have h1 : SchedulerInv R capOf strict none none
      (if immediate then s.recordUnproductiveRedrive deps root else (false, s)).2 := by
    cases immediate
    · exact h
    · exact h.recordUnproductiveRedrive deps root
  simp only [ChildTeamScheduler.startNextEligibleWith]
  generalize (if immediate then s.recordUnproductiveRedrive deps root else (false, s)) = p at h1
  obtain ⟨stop, s1⟩ := p
  dsimp only at h1 ⊢
  split
  · exact h1
  · split
    · split
      · split
        · exact h1
        · exact hdrain _ (h1.clearWatchdog root true)
      · exact hdrain _ h1
    · exact hdrain _ h1

/-- The drain loop keeps the invariant, whatever its fuel. -/
theorem SchedulerInv.drain (fuel : Nat) (i : Nat) (h : SchedulerInv R capOf strict none none s) :
    SchedulerInv R capOf strict none none (drain deps root fuel i s) := by
  induction fuel generalizing i s with
  | zero => exact h
  | succ fuel ih =>
    have hred : ∀ b s, SchedulerInv R capOf strict none none s → SchedulerInv R capOf strict none none
        (ChildTeamScheduler.startNextEligibleWith (ChildTeamScheduler.drain deps root fuel 0) deps root b s) :=
      fun b s hs => hs.startNextEligibleWith (fun s hs => ih 0 hs) root b
    simp only [ChildTeamScheduler.drain]
    split
    · rename_i sem child hsem hi
      have hmem : child ∈ s.pending root := List.mem_of_getElem? hi
      have herase : (s.pending root).eraseIdx i = (s.pending root).erase child := by
        obtain ⟨hlt, hget⟩ := List.getElem?_eq_some_iff.mp hi
        rw [← hget, (h.queueNodup root).erase_getElem i hlt]
      split
      · exact h
      · rename_i sem' htake
        by_cases hlive : deps.hasLiveTeam child = true
        · simp only [discardIfLive, hlive, if_true]
          exact ih i ((h.forget (h.only_queue hmem) (h.unheld hmem)).emit _)
        · simp only [discardIfLive, hlive, Bool.false_eq_true, if_false]
          split
          · exact ih _ h
          · rename_i huntimed
            split
            · simp only [dropQueued, herase]
              exact ih i (h.forget (h.only_queue hmem) (h.unheld hmem))
            · rename_i view hview
              split
              · simp only [dropQueued, herase]
                exact ih i (h.forget (h.only_queue hmem) (h.unheld hmem))
              · split
                · exact ih _ h
                · obtain ⟨hR, -, q, hq, hqlive⟩ := h.queued root child hmem
                  obtain ⟨r, hroot⟩ := h.requestRooted child q hq
                  have hr : r = root := Option.some.inj ((h.rooted child r hroot).1.symm.trans hR)
                  rw [hr] at hroot
                  have h1 := (h.acquire hsem htake).removePending root child (by simp)
                  have hl : (ChildTeamScheduler.removePending
                      { s with semaphores := Function.update s.semaphores root (some sem') }
                      root child).Loose child q := by
                    have hun : (s.heap q).timer = none := by simpa [hq] using huntimed
                    refine ⟨hq, hqlive, hun, fun r hr => ?_, h.unheld hmem,
                      fun call hcall hcq => ?_⟩
                    · exact ((mem_removePending h (h.only_queue hmem) r child).mp hr).2 rfl
                    · obtain ⟨-, -, -, -, hcur⟩ := h.repairs call hcall
                      exact ((hcur child (by rw [hq, hcq])).2.2 root).1 hmem
                  rw [herase]
                  exact ih i (h1.startHolding hred (fun c hc => (Option.some.inj hc).symm) hl hroot)
    · exact h

theorem SchedulerInv.startNextEligible (h : SchedulerInv R capOf strict none none s)
    (root : GoalId) (immediate : Bool) :
    SchedulerInv R capOf strict none none (s.startNextEligible deps root immediate) :=
  h.startNextEligibleWith (fun _ hs => hs.drain _ 0) root immediate

/-! ## Requests -/

theorem rootOf_eq_some (h : SchedulerInv R capOf strict exempt credit s)
    (hdeps : RootsAgree R deps) (hroot : s.rootOf deps child = some root) :
    R child = some root ∧ root ≠ "" := by
  simp only [rootOf, Option.filter_eq_some_iff, ne_eq, decide_eq_true_eq] at hroot
  obtain ⟨hroot, hne⟩ := hroot
  refine ⟨?_, hne⟩
  cases hview : deps.getChild child with
  | none => exact (h.rooted child root (by simpa [hview] using hroot)).1
  | some view =>
    have hR := hdeps child view hview
    rw [hview] at hroot
    cases hv : view.rootGoalId <;> cases hp : view.parentGoalId <;> simp [hv, hp] at hroot hR
    · exact (h.rooted child root hroot).1
    all_goals rw [← hR, hroot]

/-- A child with a recorded root has that root read for it. -/
theorem rootOf_of_childRoot (h : SchedulerInv R capOf strict exempt credit s)
    (hdeps : RootsAgree R deps) (hroot : s.childRoot child = some root) :
    s.rootOf deps child = some root := by
  obtain ⟨hR, hne⟩ := h.rooted child root hroot
  simp only [rootOf, Option.filter_eq_some_iff, ne_eq, decide_eq_true_eq]
  refine ⟨?_, hne⟩
  cases hview : deps.getChild child with
  | none => simpa using hroot
  | some view =>
    have hR' := hdeps child view hview
    rw [hR] at hR'
    cases hv : view.rootGoalId <;> cases hp : view.parentGoalId <;> simp_all

theorem SchedulerInv.setRoot (h : SchedulerInv R capOf strict exempt credit s)
    (hR : R child = some root) (hne : root ≠ "") :
    SchedulerInv R capOf strict exempt credit
      { s with childRoot := Function.update s.childRoot child (some root) } := by
  have hupd : ∀ c, Function.update s.childRoot child (some root) c =
      if c = child then some root else s.childRoot c := fun c => Function.update_apply ..
  generalize Function.update s.childRoot child (some root) = childRoot' at hupd
  refine { h with rooted := fun c r hc => ?_, held := fun r c g hg => ?_,
                  requestRooted := fun c q hq => ?_ }
  · have := h.rooted c r
    grind
  · have := h.held r c g hg
    grind
  · have := h.requestRooted c q hq
    grind

theorem SchedulerInv.admitRequest (h : SchedulerInv R capOf strict exempt none s)
    (hex : ∀ c, exempt = some c → c = child) (hl : s.Loose child q)
    (hroot : s.childRoot child = some root)
    (hcap : s.semaphores root = none → (deps.resolveCap root).getD 3 = capOf root) :
    SchedulerInv R capOf strict none none (s.admitRequest deps root child).2 := by
  have hR := (h.rooted child root hroot).1
  have h1 := h.getSemaphore deps hcap
  have hl1 : (s.getSemaphore deps root).Loose child q := by
    simp only [ChildTeamScheduler.getSemaphore]
    split
    · exact hl
    · exact ⟨hl.request, hl.live, hl.untimed, hl.unqueued, hl.unheld, hl.unrepaired⟩
  have hroot1 : (s.getSemaphore deps root).childRoot child = some root := by
    simp only [ChildTeamScheduler.getSemaphore]
    split <;> exact hroot
  simp only [ChildTeamScheduler.admitRequest]
  generalize s.getSemaphore deps root = s1 at h1 hl1 hroot1
  split
  · exact h1.enqueue hex hl1 hR
  · split
    · rename_i sem' htake
      obtain ⟨sem, hsem, htake⟩ := Option.bind_eq_some_iff.mp htake
      have hl2 : Loose { s1 with semaphores := Function.update s1.semaphores root (some sem') }
          child q :=
        ⟨hl1.request, hl1.live, hl1.untimed, hl1.unqueued, hl1.unheld, hl1.unrepaired⟩
      exact (h1.acquire hsem htake).startHolding
        (fun b s hs => hs.startNextEligible root b) hex hl2 hroot1
    · exact h1.enqueue hex hl1 hR

/-- A child that holds no permit under its root holds none at all. -/
theorem SchedulerInv.unheld_of_isHolding (h : SchedulerInv R capOf strict exempt credit s)
    (hdeps : RootsAgree R deps) (hfree : (s.rootOf deps child).any (s.isHolding · child) = false)
    (r : GoalId) : s.heldGeneration r child = none := by
  refine Option.eq_none_iff_forall_ne_some.mpr fun g hg => ?_
  have hroot := rootOf_of_childRoot h hdeps (h.held r child g hg).2.1
  rw [hroot] at hfree
  rw [heldGeneration] at hg
  simp [isHolding, hg] at hfree

theorem SchedulerInv.requestStart (h : SchedulerInv R capOf strict none none s)
    (hdeps : RootsAgree R deps) (child : GoalId)
    (hcap : ∀ r, s.semaphores r = none → (deps.resolveCap r).getD 3 = capOf r) :
    SchedulerInv R capOf strict none none (s.requestStart deps child).2 := by
  simp only [ChildTeamScheduler.requestStart]
  split
  · exact h
  · rename_i hfree
    have hunheld := h.unheld_of_isHolding hdeps (by simpa using hfree)
    have hqueued : ∀ r, child ∈ s.pending r → s.rootOf deps child = some r := by
      intro r hr
      obtain ⟨hR, -, q, hq, -⟩ := h.queued r child hr
      obtain ⟨r', hr'⟩ := h.requestRooted child q hq
      rw [rootOf_of_childRoot h hdeps hr', ← hR, (h.rooted child r' hr').1]
    generalize hroot : s.rootOf deps child = root at hqueued
    by_cases hlive : deps.hasLiveTeam child = true
    · simp only [discardIfLive, hlive, if_true]
      cases root with
      | none =>
        have hno : s.removePending "" child = s :=
          removePending_of_not_mem fun hr => by simpa using hqueued "" hr
        have hnone : ∀ r, child ∈ s.pending r → r = "" := fun r hr => by simpa using hqueued r hr
        have := h.forget hnone hunheld
        rw [hno] at this
        exact this.emit _
      | some root =>
        exact (h.forget (fun r hr => (Option.some.inj (hqueued r hr)).symm) hunheld).emit _
    · simp only [discardIfLive, hlive, Bool.false_eq_true, if_false]
      cases root with
      | none => exact h.emit _
      | some root =>
        obtain ⟨hR, hne⟩ := rootOf_eq_some h hdeps hroot
        have h1 := h.setRoot hR hne
        dsimp only
        split
        · dsimp only
          split
          · exact h1.startNextEligible root false
          · exact h1
        · rename_i hold
          have hterminal : ∀ q, s.requests child = some q → (s.heap q).terminal = true := by
            intro q hq
            simpa [hq] using hold
          obtain ⟨h2, hl⟩ := h1.newRequest (by simp) hterminal hunheld
            ⟨root, by simp⟩
          have h3 := (h2.emit (.onChildRecoveryCleared child)).clearWatchdog root true
          have hl3 : (((ChildTeamScheduler.newRequest
              { s with childRoot := Function.update s.childRoot child (some root) } child).emit
              (.onChildRecoveryCleared child)).clearWatchdog root true).Loose child s.nextId := by
            simp only [ChildTeamScheduler.clearWatchdog]
            split <;>
              exact ⟨hl.request, hl.live, hl.untimed, hl.unqueued, hl.unheld, hl.unrepaired⟩
          refine h3.admitRequest (fun c hc => (Option.some.inj hc).symm) hl3 ?_ ?_
          · simp only [ChildTeamScheduler.clearWatchdog]
            split <;> simp [ChildTeamScheduler.emit, ChildTeamScheduler.newRequest, clearTimer]
          · intro hsem
            refine hcap root ?_
            simp only [ChildTeamScheduler.clearWatchdog] at hsem
            split at hsem <;> exact hsem

/-- A terminal notification for a child without a root. -/
theorem SchedulerInv.logTerminal (h : SchedulerInv R capOf strict none none s)
    (hroot : s.childRoot child = none) :
    SchedulerInv R capOf strict none none { s with log := .terminal child :: s.log } := by
  have hactive : ∀ r c i, (c, i) ∈ activeStarts r (.terminal child :: s.log) ↔
      (c, i) ∈ activeStarts r s.log := by
    intro r c i
    rw [mem_activeStarts_terminal]
    refine ⟨And.left, fun hi => ⟨hi, fun hc => ?_⟩⟩
    obtain ⟨-, g, hg⟩ := h.active r c i hi
    have := (h.held r c g hg).2.1
    simp [hc, hroot] at this
  generalize StartEvent.terminal child :: s.log = log' at hactive
  refine { h with held := fun r c g hg => ?_, active := fun r c i hi => ?_,
                  callCurrent := fun call hcall hc => ?_, callActive := fun call hcall r c hc => ?_ }
  · have := h.held r c g hg
    grind
  · have := h.active r c i
    grind
  · have := h.callCurrent call hcall
    grind
  · have := h.callActive call hcall r c
    grind

theorem SchedulerInv.notifyTerminal (h : SchedulerInv R capOf strict none none s)
    (child : GoalId) : SchedulerInv R capOf strict none none (s.notifyTerminal deps child) := by
  simp only [ChildTeamScheduler.notifyTerminal]
  split
  · rename_i hnone
    refine h.logTerminal ?_
    cases hc : s.childRoot child with
    | none => rfl
    | some r => simp [hc] at hnone
  · rename_i root hroot
    have honly : ∀ r, s.childRoot child = some r → r = root := by
      intro r hr
      simpa [hr] using hroot
    have hqueued : ∀ r, child ∈ s.pending r → r = root := by
      intro r hr
      obtain ⟨hR, -, q, hq, -⟩ := h.queued r child hr
      obtain ⟨r', hr'⟩ := h.requestRooted child q hq
      have hrr : r = r' := Option.some.inj (hR.symm.trans (h.rooted child r' hr').1)
      rw [hrr]
      exact honly r' hr'
    have hheld : ∀ r, r ≠ root → s.heldGeneration r child = none := fun r hr =>
      Option.eq_none_iff_forall_ne_some.mpr fun g hg => hr (honly r (h.held r child g hg).2.1)
    have hmem := mem_removePending h hqueued
    have hnodup := removePending_nodup h root child
    cases hgen : s.heldGeneration root child with
    | none =>
      have hrel : releaseHeldStart { s with log := .terminal child :: s.log } root child none =
          none := by
        simp only [releaseHeldStart, heldGeneration] at hgen ⊢
        rw [hgen]
      simp only [hrel, Option.getD_none, Option.isSome_none, Bool.false_eq_true, if_false]
      refine SchedulerInv.startNextEligible (SchedulerInv.clearWatchdog
        (SchedulerInv.emit ?_ _) root true) root false
      refine h.retire hmem hnodup (fun r c => ?_)
        (fun r => by simp [clearRequest, clearTimer, ChildTeamScheduler.removePending, setPending])
        (by simp) (clearRequest_requests s child) (h.mem_clearTimer rfl)
        (update_none_eq_some s.childRoot child) (fun r c i => mem_activeStarts_terminal)
      split
      · rename_i hc
        rw [hc]
        by_cases hr : r = root
        · rw [hr]
          exact hgen
        · exact hheld r hr
      · rfl
    | some g =>
      have hrel : releaseHeldStart { s with log := .terminal child :: s.log } root child none =
          some { s with
            log := .terminal child :: s.log
            holding := Function.update s.holding root ((s.holding root).erase child) } := by
        simp only [releaseHeldStart, heldGeneration] at hgen ⊢
        rw [hgen]
        rfl
      simp only [hrel, Option.getD_some, Option.isSome_some, if_true]
      refine SchedulerInv.startNextEligible (SchedulerInv.clearWatchdog
        (SchedulerInv.releasePermit (SchedulerInv.emit ?_ _)) root true) root false
      refine h.retire hmem hnodup (fun r c => ?_)
        (fun r => ?_) (fun r hr => ?_) (clearRequest_requests s child) (h.mem_clearTimer rfl)
        (update_none_eq_some s.childRoot child) (fun r c i => mem_activeStarts_terminal)
      · refine (lookup_update_erase s.holding root child r c).trans ?_
        have := hheld r
        grind
      · simp only [ChildTeamScheduler.clearRequest, clearTimer, ChildTeamScheduler.removePending,
          setPending]
        by_cases hr : r = root
        · subst hr
          have := keys_erase_length hgen
          simp only [Function.update_self, if_true]
          omega
        · simp [hr, Ne.symm hr]
      · exact ⟨g, by rw [← Option.some.inj hr, hgen]⟩

/-! ## Timers and repairs -/

theorem SchedulerInv.requeue (h : SchedulerInv R capOf strict none credit s)
    (hq : s.requests child = some q) (hlive : (s.heap q).terminal = false)
    (htimer : (s.heap q).timer = none) (hheld : ∀ r, s.heldGeneration r child = none)
    (hrep : ∀ call ∈ s.repairs, call.request ≠ q) (hR : R child = some root) :
    SchedulerInv R capOf strict none credit (s.enqueue root child) := by
  by_cases hmem : child ∈ s.pending root
  · rw [ChildTeamScheduler.enqueue, if_pos hmem]
    exact h
  · refine h.enqueue (by simp) ⟨hq, hlive, htimer, fun r hr => hmem ?_, hheld, hrep⟩ hR
    rwa [← Option.some.inj ((h.queued r child hr).1.symm.trans hR)]

theorem SchedulerInv.timerFired (h : SchedulerInv R capOf strict none none s) (id : Nat) :
    SchedulerInv R capOf strict none none (s.timerFired deps id) := by
  simp only [ChildTeamScheduler.timerFired]
  split
  · exact h
  · rename_i timer hfind
    obtain ⟨htimer, hid⟩ := Lib.Keyed.mem_of_find?_key hfind
    obtain ⟨hR, -, q, hq, htq, hgen, hlive⟩ := h.timers timer htimer
    simp only [hq]
    rw [if_neg (by simp [hgen, hlive]), ← hid]
    have h1 := h.fire htimer hq
    split
    · exact h1
    · split
      · exact h1
      · refine SchedulerInv.startNextEligible ?_ timer.root false
        refine h1.requeue (q := q) hq (by simpa [setRequest] using hlive) (by simp [setRequest]) ?_ ?_ hR
        · intro r
          refine Option.eq_none_iff_forall_ne_some.mpr fun g hg => ?_
          have := ((h.held r timer.child g hg).2.2.2 q hq).2.2
          simp [htq] at this
        · intro call hcall hcq
          have := (h.repairs call hcall).2.2.2.1
          simp [hcq, htq] at this

/-- The child of a current repair is loose once the promise has come back. -/
theorem SchedulerInv.loose_of_repair (h : SchedulerInv R capOf strict none none s)
    {call : RepairCall} (hcall : call ∈ s.repairs)
    (hcur : s.requests call.child = some call.request) :
    Loose { s with repairs := s.repairs.filter (·.id ≠ call.id) } call.child call.request := by
  obtain ⟨-, -, -, htimer, hreq⟩ := h.repairs call hcall
  obtain ⟨-, hlive, hfree⟩ := hreq _ hcur
  refine ⟨hcur, hlive, htimer, fun r => (hfree r).1, fun r => (hfree r).2, fun c hc hq => ?_⟩
  simp only [ne_eq, decide_not, List.mem_filter, Bool.not_eq_true', decide_eq_false_iff_not] at hc
  exact hc.2 (by rw [h.repairsInj c hc.1 call hcall (Or.inr hq)])

theorem SchedulerInv.repairResolved (h : SchedulerInv R capOf strict none none s) (id : Nat) :
    SchedulerInv R capOf strict none none (s.repairResolved id) := by
  simp only [ChildTeamScheduler.repairResolved]
  split
  · exact h
  · rename_i call hfind
    obtain ⟨hcall, hid⟩ := Lib.Keyed.mem_of_find?_key hfind
    rw [← hid]
    have h1 := h.dropRepair hcall
    by_cases hcur : s.requests call.child = some call.request
    · rw [if_pos hcur] at h1
      exact h1.scheduleRetry (fun c hc => (Option.some.inj hc).symm)
        (h.loose_of_repair hcall hcur) (h.repairs call hcall).1 _
    · rw [if_neg hcur] at h1
      rw [scheduleRetry_stale { s with repairs := s.repairs.filter (·.id ≠ call.id) } _ hcur]
      exact h1

/-- A rejected repair of a superseded request does no harm: the child is not queued. -/
def RejectionCurrent (s : ChildTeamScheduler) (call : RepairCall) : Prop :=
  s.requests call.child = some call.request ∨ call.child ∉ s.pending call.root

theorem SchedulerInv.repairRejected (h : SchedulerInv R capOf strict none none s) (id : Nat)
    (err : StartError)
    (hg : strict = true → ∀ call ∈ s.repairs, call.id = id → RejectionCurrent s call) :
    SchedulerInv R capOf strict none none (s.repairRejected deps id err) := by
  simp only [ChildTeamScheduler.repairRejected]
  split
  · exact h
  · rename_i call hfind
    obtain ⟨hcall, hid⟩ := Lib.Keyed.mem_of_find?_key hfind
    rw [← hid]
    have h1 := h.dropRepair hcall
    by_cases hcur : s.requests call.child = some call.request
    · rw [if_pos hcur] at h1
      exact h1.terminal (fun c hc => (Option.some.inj hc).symm) (h.loose_of_repair hcall hcur) _ _
    · rw [if_neg hcur] at h1
      obtain ⟨-, -, -, htimer, hreq⟩ := h.repairs call hcall
      refine h1.terminalStale (fun c hc => ?_) htimer (fun hs => ?_) _ _
      · obtain ⟨hchild, -⟩ := hreq c hc
        exact hcur (hchild ▸ hc)
      · exact (hg hs call hcall hid).resolve_left hcur

/-! ## One step -/

/-- The condition on one entry. The goal store reports the roots `R`; a start
    callback belongs to the current request, or its generation number is not in
    use; and, for stranded requests only, a rejected repair belongs to the
    current request or finds nothing queued. -/
def Guard (R : GoalId → Option GoalId) (strict : Bool) (s : ChildTeamScheduler)
    (label : SchedulerDeps × Entry) : Prop :=
  RootsAgree R label.1 ∧
    match label.2 with
    | .startResolved id => ∀ call ∈ s.starts, call.id = id → SuccessCurrent s call
    | .startRejected id _ => ∀ call ∈ s.starts, call.id = id → FailureCurrent s call
    | .repairRejected id _ =>
      strict = true → ∀ call ∈ s.repairs, call.id = id → RejectionCurrent s call
    | _ => True

/-- The capacity of each pool after an entry: a pool that the entry makes gets
    the cap that `resolveCap` answers. -/
def capAfter (s : ChildTeamScheduler) (deps : SchedulerDeps) (r : GoalId) : Nat :=
  match s.semaphores r with
  | some sem => sem.capacity
  | none => (deps.resolveCap r).getD 3

/-- The pools made so far have the capacities they have. -/
theorem SchedulerInv.recap (h : SchedulerInv R capOf strict exempt credit s)
    (deps : SchedulerDeps) : SchedulerInv R (s.capAfter deps) strict exempt credit s := by
  refine { h with permits := fun r sem hsem => ?_ }
  obtain ⟨hp, -, hh⟩ := h.permits r sem hsem
  exact ⟨hp, by simp [capAfter, hsem], hh⟩

/-- **Step.** Every entry that meets the guard keeps the invariant. -/
theorem SchedulerInv.step (h : SchedulerInv R capOf strict none none s)
    {label : SchedulerDeps × Entry} (hg : Guard R strict s label) :
    SchedulerInv R (s.capAfter label.1) strict none none (step s label) := by
  obtain ⟨deps, entry⟩ := label
  obtain ⟨hdeps, hg⟩ := hg
  have h := h.recap deps
  cases entry with
  | requestStart child =>
    exact h.requestStart hdeps child fun r hr => by simp [capAfter, hr]
  | notifyTerminal child => exact h.notifyTerminal child
  | startNextEligible root => exact h.startNextEligible root false
  | retryRoot root => exact (h.clearWatchdog root false).startNextEligible root false
  | startResolved id =>
    simp only [ChildTeamScheduler.step, ChildTeamScheduler.startResolved]
    split
    · exact h
    · rename_i call hfind
      obtain ⟨hcall, hid⟩ := Lib.Keyed.mem_of_find?_key hfind
      rw [← hid]
      exact h.onStartSuccess hcall (hg call hcall hid)
  | startRejected id err =>
    simp only [ChildTeamScheduler.step, ChildTeamScheduler.startRejected]
    split
    · exact h
    · rename_i call hfind
      obtain ⟨hcall, hid⟩ := Lib.Keyed.mem_of_find?_key hfind
      rw [← hid]
      exact h.onStartFailure (fun b s hs => hs.startNextEligible call.root b) hcall
        (hg call hcall hid) deps err
  | timerFired id => exact h.timerFired id
  | repairResolved id => exact h.repairResolved id
  | repairRejected id err => exact h.repairRejected id err hg

/-- The invariant of a scheduler that has done nothing. -/
theorem SchedulerInv.new (R : GoalId → Option GoalId) (capOf : GoalId → Nat) (strict : Bool) :
    SchedulerInv R capOf strict none none new := by
  have hheld : ∀ r c, ChildTeamScheduler.new.heldGeneration r c = none := fun r c =>
    AList.lookup_empty c
  constructor
  case noPool => exact fun r _ => ⟨by simp, hheld r⟩
  case held => exact fun r c g hg => absurd (hg.symm.trans (hheld r c)) (by simp)
  all_goals simp [ChildTeamScheduler.new, activeStarts]

end ChildTeamScheduler

end Bobbit.Server
