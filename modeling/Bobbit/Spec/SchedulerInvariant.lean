import Bobbit.Server.ChildTeamScheduler

/-!
# The scheduler's invariant

`SchedulerInv` ties the scheduler's four structures (permits, queues, requests
and outstanding callbacks) to the history of starts. It is kept by every entry
that meets `Guard`: the goal store reports one root for each child, and no start
callback of a superseded request arrives while the child's current request or
permit carries the same generation number.

Inside an entry the invariant is relaxed in two places. `exempt` is a child
whose new request has not been parked or started yet, and `credit` a root with
one permit that has been taken but not recorded, or released but not returned.
-/

namespace Bobbit.Server

namespace ChildTeamScheduler

/-! ## Starts, read from the history -/

/-- The children of `root` whose latest start is in flight or has succeeded
    without a terminal notification since, each with the id of that start. -/
def activeStarts (root : GoalId) : List StartEvent → List (GoalId × Nat)
  | [] => []
  | .started id r child :: older =>
    if r = root then (child, id) :: (activeStarts root older).filter (·.1 ≠ child)
    else activeStarts root older
  | .succeeded _ :: older => activeStarts root older
  | .failed id :: older => (activeStarts root older).filter (·.2 ≠ id)
  | .terminal child :: older => (activeStarts root older).filter (·.1 ≠ child)

variable {root c : GoalId} {log : List StartEvent}

theorem mem_activeStarts_started {r child : GoalId} {id i : Nat} :
    (c, i) ∈ activeStarts root (.started id r child :: log) ↔
      (r = root ∧ c = child ∧ i = id) ∨
      ((c, i) ∈ activeStarts root log ∧ ¬ (r = root ∧ c = child)) := by
  simp only [activeStarts]
  split
  · rename_i hr
    simp [hr]
  · rename_i hr
    simp [hr]

@[simp] theorem activeStarts_succeeded (root : GoalId) (id : Nat) (log : List StartEvent) :
    activeStarts root (.succeeded id :: log) = activeStarts root log := rfl

@[simp] theorem mem_activeStarts_failed {id i : Nat} :
    (c, i) ∈ activeStarts root (.failed id :: log) ↔ (c, i) ∈ activeStarts root log ∧ i ≠ id := by
  simp [activeStarts]

@[simp] theorem mem_activeStarts_terminal {child : GoalId} {i : Nat} :
    (c, i) ∈ activeStarts root (.terminal child :: log) ↔
      (c, i) ∈ activeStarts root log ∧ c ≠ child := by
  simp [activeStarts]

theorem activeStarts_nodup (root : GoalId) (log : List StartEvent) :
    ((activeStarts root log).map Prod.fst).Nodup := by
  induction log with
  | nil => exact List.nodup_nil
  | cons event older ih =>
    have hfilter : ∀ p : GoalId × Nat → Bool,
        (((activeStarts root older).filter p).map Prod.fst).Nodup := fun p =>
      ih.sublist (List.filter_sublist.map _)
    cases event with
    | started id r child =>
      simp only [activeStarts]
      split
      · rw [List.map_cons, List.nodup_cons]
        refine ⟨?_, hfilter _⟩
        simp
      · exact ih
    | succeeded id => exact ih
    | failed id => exact hfilter _
    | terminal child => exact hfilter _

theorem activeStarts_unique {i j : Nat}
    (hi : (c, i) ∈ activeStarts root log) (hj : (c, j) ∈ activeStarts root log) : i = j :=
  (Prod.ext_iff.mp (List.inj_on_of_nodup_map (activeStarts_nodup root log) hi hj rfl)).2

/-! ## Field lemmas -/

theorem keys_insert_length {m : AList (fun _ : GoalId => Nat)} {g : Nat}
    (h : m.lookup c = none) : (m.insert c g).keys.length = m.keys.length + 1 := by
  have hc : c ∉ m := AList.lookup_eq_none.mp h
  rw [AList.keys_insert, List.length_cons, List.erase_of_not_mem (fun hk => hc (AList.mem_keys.mp hk))]

theorem keys_erase_length {m : AList (fun _ : GoalId => Nat)} {g : Nat}
    (h : m.lookup c = some g) : (m.erase c).keys.length + 1 = m.keys.length := by
  have hc : c ∈ m.keys := AList.mem_keys.mpr (AList.lookup_isSome.mp (by simp [h]))
  rw [AList.keys_erase, List.length_erase_of_mem hc]
  have := List.length_pos_of_mem hc
  omega

/-- Looking up a child after one was erased under a root. -/
theorem lookup_update_erase (m : GoalId → AList (fun _ : GoalId => Nat)) (root child r c : GoalId) :
    (Function.update m root ((m root).erase child) r).lookup c =
      if r = root ∧ c = child then none else (m r).lookup c := by
  by_cases hr : r = root
  · subst hr
    by_cases hc : c = child
    · subst hc
      simp
    · simp [hc, AList.lookup_erase_ne hc]
  · simp [hr]

section Fields

variable (s : ChildTeamScheduler)

theorem heldGeneration_markHolding (root child r c : GoalId) (g : Nat) :
    (s.markHolding root child g).heldGeneration r c =
      if r = root ∧ c = child then some g else s.heldGeneration r c := by
  simp only [heldGeneration, markHolding]
  by_cases hr : r = root
  · subst hr
    by_cases hc : c = child
    · subst hc
      simp [AList.lookup_insert]
    · simp [hc, AList.lookup_insert_ne hc]
  · simp [hr]

theorem mem_enqueue {root child r c : GoalId} :
    c ∈ (s.enqueue root child).pending r ↔ c ∈ s.pending r ∨ (r = root ∧ c = child) := by
  simp only [enqueue]
  split
  · rename_i h
    constructor
    · exact Or.inl
    · rintro (h' | ⟨rfl, rfl⟩)
      · exact h'
      · exact h
  · by_cases hr : r = root
    · subst hr
      simp [setPending]
    · simp [setPending, hr]

end Fields

/-! ## The invariant -/

/-- A dependency record reports the root that `R` names for every child it
    knows. -/
def RootsAgree (R : GoalId → Option GoalId) (deps : SchedulerDeps) : Prop :=
  ∀ c view, deps.getChild c = some view →
    (view.rootGoalId.orElse fun _ => view.parentGoalId) = R c

/-- The invariant. `R` names the root of each child and `capOf` the capacity of
    each pool; `strict` adds `located`, the clause about stranded requests. -/
structure SchedulerInv (R : GoalId → Option GoalId) (capOf : GoalId → Nat) (strict : Bool)
    (exempt credit : Option GoalId) (s : ChildTeamScheduler) : Prop where
  permits : ∀ r sem, s.semaphores r = some sem → sem.Plain ∧ sem.capacity = capOf r ∧
    sem.held = (s.holding r).keys.length + (if credit = some r then 1 else 0)
  noPool : ∀ r, s.semaphores r = none → credit ≠ some r ∧ ∀ c, s.heldGeneration r c = none
  rooted : ∀ c r, s.childRoot c = some r → R c = some r ∧ r ≠ ""
  queueNodup : ∀ r, (s.pending r).Nodup
  queued : ∀ r c, c ∈ s.pending r → R c = some r ∧ s.heldGeneration r c = none ∧
    ∃ q, s.requests c = some q ∧ (s.heap q).terminal = false
  held : ∀ r c g, s.heldGeneration r c = some g → R c = some r ∧ s.childRoot c = some r ∧
    (∃ i, (c, i) ∈ activeStarts r s.log) ∧
    ∀ q, s.requests c = some q →
      (s.heap q).generation = g ∧ (s.heap q).terminal = false ∧ (s.heap q).timer = none
  active : ∀ r c i, (c, i) ∈ activeStarts r s.log →
    i < s.nextId ∧ ∃ g, s.heldGeneration r c = some g
  requestFresh : ∀ c q, s.requests c = some q → q < s.nextId
  requestRooted : ∀ c q, s.requests c = some q → ∃ r, s.childRoot c = some r
  requestInj : ∀ c c' q, s.requests c = some q → s.requests c' = some q → c = c'
  calls : ∀ call ∈ s.starts, R call.child = some call.root ∧ call.id < s.nextId ∧
    call.request < s.nextId ∧ (s.heap call.request).generation = call.generation
  callsInj : ∀ a ∈ s.starts, ∀ b ∈ s.starts, a.id = b.id → a = b
  callCurrent : ∀ call ∈ s.starts, s.requests call.child = some call.request →
    (call.child, call.id) ∈ activeStarts call.root s.log
  callActive : ∀ call ∈ s.starts, ∀ r c, (c, call.id) ∈ activeStarts r s.log →
    r = call.root ∧ c = call.child ∧ s.requests c = some call.request
  timers : ∀ t ∈ s.timers, R t.child = some t.root ∧ t.id < s.nextId ∧
    ∃ q, s.requests t.child = some q ∧ (s.heap q).timer = some t.id ∧
      (s.heap q).generation = t.generation ∧ (s.heap q).terminal = false
  timersInj : ∀ a ∈ s.timers, ∀ b ∈ s.timers, a.id = b.id → a = b
  armed : ∀ c q t, s.requests c = some q → (s.heap q).timer = some t →
    ∃ x ∈ s.timers, x.id = t ∧ x.child = c
  repairs : ∀ call ∈ s.repairs, R call.child = some call.root ∧ call.id < s.nextId ∧
    call.request < s.nextId ∧ (s.heap call.request).timer = none ∧
    ∀ c, s.requests c = some call.request → c = call.child ∧
      (s.heap call.request).terminal = false ∧ ∀ r, c ∉ s.pending r ∧ s.heldGeneration r c = none
  repairsInj : ∀ a ∈ s.repairs, ∀ b ∈ s.repairs, a.id = b.id ∨ a.request = b.request → a = b
  located : strict = true → ∀ c q, s.requests c = some q → (s.heap q).terminal = false →
    exempt ≠ some c → (∃ r, c ∈ s.pending r) ∨
      (∃ call ∈ s.starts, call.child = c ∧ call.request = q) ∨
      ∃ call ∈ s.repairs, call.child = c ∧ call.request = q

section Transitions

variable {R : GoalId → Option GoalId} {capOf : GoalId → Nat} {strict : Bool}
  {exempt credit : Option GoalId} {s s' : ChildTeamScheduler} {root child : GoalId}

/-- The invariant reads neither the effects nor the watchdogs. -/
theorem SchedulerInv.frame (h : SchedulerInv R capOf strict exempt credit s)
    (effects : List SchedulerEffect) (watchdogs : GoalId → Option Watchdog) :
    SchedulerInv R capOf strict exempt credit
      { s with effects := effects, watchdogs := watchdogs } :=
  ⟨h.permits, h.noPool, h.rooted, h.queueNodup, h.queued, h.held, h.active, h.requestFresh,
    h.requestRooted, h.requestInj, h.calls, h.callsInj, h.callCurrent, h.callActive, h.timers, h.timersInj,
    h.armed, h.repairs, h.repairsInj, h.located⟩

theorem SchedulerInv.emit (h : SchedulerInv R capOf strict exempt credit s) (e : SchedulerEffect) :
    SchedulerInv R capOf strict exempt credit (s.emit e) :=
  h.frame (e :: s.effects) s.watchdogs

theorem SchedulerInv.clearWatchdog (h : SchedulerInv R capOf strict exempt credit s)
    (root : GoalId) (notify : Bool) :
    SchedulerInv R capOf strict exempt credit (s.clearWatchdog root notify) := by
  simp only [ChildTeamScheduler.clearWatchdog]
  split
  · exact h.frame _ _
  · exact h.frame s.effects _

theorem SchedulerInv.recordUnproductiveRedrive (h : SchedulerInv R capOf strict exempt credit s)
    (deps : SchedulerDeps) (root : GoalId) :
    SchedulerInv R capOf strict exempt credit (s.recordUnproductiveRedrive deps root).2 := by
  simp only [ChildTeamScheduler.recordUnproductiveRedrive]
  split
  · exact h.frame s.effects _
  · exact h.frame _ _

/-- Freeing the exempt child or dropping the located clause only weakens. -/
theorem SchedulerInv.located_of (h : SchedulerInv R capOf strict exempt credit s)
    (hloc : strict = true → ∀ c q, s.requests c = some q → (s.heap q).terminal = false →
      exempt = some c → (∃ r, c ∈ s.pending r) ∨
      (∃ call ∈ s.starts, call.child = c ∧ call.request = q) ∨
      ∃ call ∈ s.repairs, call.child = c ∧ call.request = q) :
    SchedulerInv R capOf strict none credit s :=
  { h with
    located := fun hs c q hq hl _ => by
      by_cases he : exempt = some c
      · exact hloc hs c q hq hl he
      · exact h.located hs c q hq hl he }

theorem SchedulerInv.getSemaphore (h : SchedulerInv R capOf strict exempt credit s)
    (deps : SchedulerDeps)
    (hcap : s.semaphores root = none → (deps.resolveCap root).getD 3 = capOf root) :
    SchedulerInv R capOf strict exempt credit (s.getSemaphore deps root) := by
  simp only [ChildTeamScheduler.getSemaphore]
  split
  · exact h
  · rename_i hnone
    obtain ⟨hcredit, hheld⟩ := h.noPool root hnone
    have hempty : (s.holding root).keys = [] :=
      List.eq_nil_iff_forall_not_mem.mpr fun c hc => by
        have := AList.lookup_isSome.mpr (AList.mem_keys.mpr hc)
        simp [heldGeneration] at hheld
        simp [hheld c] at this
    refine { h with permits := ?_, noPool := ?_ }
    · intro r sem hsem
      by_cases hr : r = root
      · subst hr
        simp only [Function.update_self, Option.some.injEq] at hsem
        subst hsem
        exact ⟨Semaphore.new_plain _, hcap hnone, by simp [hempty, hcredit]⟩
      · simp only [ne_eq, hr, not_false_eq_true, Function.update_of_ne] at hsem
        exact h.permits r sem hsem
    · intro r hr
      by_cases hr' : r = root
      · simp [hr'] at hr
      · simp only [ne_eq, hr', not_false_eq_true, Function.update_of_ne] at hr
        exact h.noPool r hr

theorem SchedulerInv.acquire (h : SchedulerInv R capOf strict exempt none s)
    {sem sem' : Semaphore} (hsem : s.semaphores root = some sem)
    (htake : sem.tryAcquire = some sem') :
    SchedulerInv R capOf strict exempt (some root)
      { s with semaphores := Function.update s.semaphores root (some sem') } := by
  obtain ⟨hheld, hcapacity, hplain⟩ := Semaphore.tryAcquire_some htake
  refine { h with permits := ?_, noPool := ?_ }
  · intro r sem'' hr
    by_cases hroot : r = root
    · subst hroot
      simp only [Function.update_self, Option.some.injEq] at hr
      subst hr
      obtain ⟨hp, hc, hh⟩ := h.permits r sem hsem
      exact ⟨hplain hp, by rw [hcapacity, hc], by simp [hheld, hh]⟩
    · simp only [ne_eq, hroot, not_false_eq_true, Function.update_of_ne] at hr
      simpa [Ne.symm hroot] using h.permits r sem'' hr
  · intro r hr
    by_cases hroot : r = root
    · simp [hroot] at hr
    · simp only [ne_eq, hroot, not_false_eq_true, Function.update_of_ne] at hr
      exact ⟨by simp [Ne.symm hroot], (h.noPool r hr).2⟩

theorem SchedulerInv.releasePermit (h : SchedulerInv R capOf strict exempt (some root) s) :
    SchedulerInv R capOf strict exempt none (s.releasePermit root) := by
  cases hsem : s.semaphores root with
  | none => exact absurd rfl (h.noPool root hsem).1
  | some sem =>
    obtain ⟨hp, hc, hh⟩ := h.permits root sem hsem
    simp only [if_true] at hh
    obtain ⟨sem', hrel, hheld', hcap', hplain'⟩ := Semaphore.release_plain hp (by omega)
    simp only [ChildTeamScheduler.releasePermit, hsem, hrel]
    refine { h with permits := ?_, noPool := ?_ }
    · intro r sem'' hr
      by_cases hroot : r = root
      · subst hroot
        simp only [Function.update_self, Option.some.injEq] at hr
        subst hr
        exact ⟨hplain', by rw [hcap', hc], by simp [hheld', hh]⟩
      · simp only [ne_eq, hroot, not_false_eq_true, Function.update_of_ne] at hr
        simpa [Ne.symm hroot] using h.permits r sem'' hr
    · intro r hr
      by_cases hroot : r = root
      · simp [hroot] at hr
      · simp only [ne_eq, hroot, not_false_eq_true, Function.update_of_ne] at hr
        exact ⟨by simp, (h.noPool r hr).2⟩

theorem SchedulerInv.dequeue (h : SchedulerInv R capOf strict exempt credit s)
    (hex : ∀ c, exempt = some c → c = child) {q : List GoalId} (hsub : q.Sublist (s.pending root))
    (hkeep : ∀ c ∈ s.pending root, c ≠ child → c ∈ q) :
    SchedulerInv R capOf strict (some child) credit (s.setPending root q) := by
  have hmem : ∀ r c, c ∈ (s.setPending root q).pending r → c ∈ s.pending r := by
    intro r c hc
    by_cases hr : r = root
    · subst hr
      exact hsub.subset (by simpa [setPending] using hc)
    · simpa [setPending, hr] using hc
  have hstay : ∀ r c, c ∈ s.pending r → c ≠ child → c ∈ (s.setPending root q).pending r := by
    intro r c hc hne
    by_cases hr : r = root
    · subst hr
      simpa [setPending] using hkeep c hc hne
    · simpa [setPending, hr] using hc
  refine { h with queueNodup := ?_, queued := ?_, repairs := ?_, located := ?_ }
  · intro r
    by_cases hr : r = root
    · subst hr
      simpa [setPending] using (h.queueNodup r).sublist hsub
    · simpa [setPending, hr] using h.queueNodup r
  · exact fun r c hc => h.queued r c (hmem r c hc)
  · intro call hcall
    obtain ⟨hR, hid, hreq, ht, hcur⟩ := h.repairs call hcall
    refine ⟨hR, hid, hreq, ht, fun c hc => ?_⟩
    obtain ⟨hchild, hlive, hfree⟩ := hcur c hc
    exact ⟨hchild, hlive, fun r => ⟨fun hp => (hfree r).1 (hmem r c hp), (hfree r).2⟩⟩
  · intro hs c q' hq' hlive hne
    have hne' : c ≠ child := fun hc => hne (by rw [hc])
    rcases h.located hs c q' hq' hlive (fun he => hne' (hex c he)) with ⟨r, hr⟩ | hrest
    · exact Or.inl ⟨r, hstay r c hr hne'⟩
    · exact Or.inr hrest

/-- Clearing the timer of the child's request removes the timers of that child. -/
theorem SchedulerInv.mem_clearTimer (h : SchedulerInv R capOf strict exempt credit s)
    {timer : Option Nat} (htimer : timer = (s.requests child).bind fun id => (s.heap id).timer)
    (t : RetryTimer) :
    t ∈ (s.clearTimer timer).timers ↔ t ∈ s.timers ∧ t.child ≠ child := by
  simp only [clearTimer, List.mem_filter, decide_eq_true_eq]
  refine and_congr_right fun ht => not_congr ?_
  rw [htimer, Option.bind_eq_some_iff]
  refine ⟨fun ⟨q, hq, hcl⟩ => ?_, fun hc => ?_⟩
  · obtain ⟨x, hx, hxid, hxc⟩ := h.armed child q t.id hq hcl
    rw [← hxc, h.timersInj x hx t ht hxid]
  · obtain ⟨-, -, q', hq', htq, -⟩ := h.timers t ht
    exact ⟨q', by rw [← hc, hq'], htq⟩

variable {log' : List StartEvent}

/-- Retiring a child: it leaves its queue, its permit, its request and its root
    behind, and the permit it held goes on credit. -/
theorem SchedulerInv.retire (h : SchedulerInv R capOf strict none none s)
    {pending' : GoalId → List GoalId} {holding' : GoalId → AList (fun _ : GoalId => Nat)}
    {requests' : GoalId → Option Nat} {timers' : List RetryTimer}
    {childRoot' : GoalId → Option GoalId}
    (hpending : ∀ r c, c ∈ pending' r ↔ c ∈ s.pending r ∧ c ≠ child)
    (hnodup : ∀ r, (pending' r).Nodup)
    (hhold : ∀ r c, (holding' r).lookup c = if c = child then none else s.heldGeneration r c)
    (hlen : ∀ r, ((holding' r).keys.length : Int) + (if credit = some r then 1 else 0) =
      (s.holding r).keys.length)
    (hcredit : ∀ r, credit = some r → ∃ g, s.heldGeneration r child = some g)
    (hreq : ∀ c q, requests' c = some q ↔ c ≠ child ∧ s.requests c = some q)
    (htimer : ∀ t, t ∈ timers' ↔ t ∈ s.timers ∧ t.child ≠ child)
    (hroot : ∀ c r, childRoot' c = some r ↔ c ≠ child ∧ s.childRoot c = some r)
    (hactive : ∀ r c i, (c, i) ∈ activeStarts r log' ↔
      (c, i) ∈ activeStarts r s.log ∧ c ≠ child) :
    SchedulerInv R capOf strict none credit
      { s with pending := pending', holding := holding', requests := requests', timers := timers',
               childRoot := childRoot', log := log' } := by
  refine { h with
    permits := fun r sem hsem => ?_
    noPool := fun r hr => ?_
    rooted := fun c r hc => ?_, queueNodup := hnodup, queued := fun r c hc => ?_,
    held := fun r c g hg => ?_,
    active := fun r c i hi => ?_,
    requestFresh := fun c q hc => ?_,
    requestRooted := fun c q hc => ?_,
    requestInj := fun c c' q hc hc' => ?_,
    callCurrent := fun call hcall hc => ?_,
    callActive := fun call hcall r c hc => ?_,
    timers := fun t ht => ?_,
    timersInj := fun a ha b hb => ?_,
    armed := fun c q t hc ht => ?_, repairs := fun call hcall => ?_,
    located := fun hs c q hc hl hne => ?_ }
  · obtain ⟨hp, hcap, hh⟩ := h.permits r sem hsem
    have := hlen r
    refine ⟨hp, hcap, ?_⟩
    rw [hh]
    grind
  · have := h.noPool r hr
    have := hcredit r
    grind
  · have := h.rooted c r
    grind
  · have := h.queued r c
    grind
  · have := h.held r c g
    grind
  · have := h.active r c i
    grind
  · have := h.requestFresh c q
    grind
  · have := h.requestRooted c q
    grind
  · have := h.requestInj c c' q
    grind
  · have := h.callCurrent call hcall
    grind
  · have := h.callActive call hcall r c
    grind
  · have := h.timers t
    grind
  · have := h.timersInj a
    grind
  · have := h.armed c q t
    grind
  · have := h.repairs call hcall
    grind
  · have hc' := (hreq c q).mp hc
    have := h.located hs c q hc'.2 hl
    grind

theorem clearRequest_requests (s : ChildTeamScheduler) (child c : GoalId) (q : Nat) :
    (s.clearRequest child).requests c = some q ↔ c ≠ child ∧ s.requests c = some q := by
  simp only [clearRequest, clearTimer, Function.update_apply]
  split <;> simp_all

theorem update_none_eq_some {β : Type*} (f : GoalId → Option β) (child c : GoalId) (b : β) :
    Function.update f child none c = some b ↔ c ≠ child ∧ f c = some b := by
  simp only [Function.update_apply]
  split <;> simp_all

/-- The queues after a child was removed from the only one it can be in. -/
theorem mem_removePending (h : SchedulerInv R capOf strict exempt credit s)
    (hroot : ∀ r, child ∈ s.pending r → r = root) (r c : GoalId) :
    c ∈ (s.removePending root child).pending r ↔ c ∈ s.pending r ∧ c ≠ child := by
  by_cases hr : r = root
  · subst hr
    simp only [removePending, setPending, Function.update_self, (h.queueNodup r).mem_erase_iff]
    exact and_comm
  · simp only [removePending, setPending, ne_eq, hr, not_false_eq_true, Function.update_of_ne]
    refine ⟨fun hc => ⟨hc, fun hcc => hr (hroot r (hcc ▸ hc))⟩, And.left⟩

theorem removePending_nodup (h : SchedulerInv R capOf strict exempt credit s)
    (root child r : GoalId) : ((s.removePending root child).pending r).Nodup := by
  by_cases hr : r = root
  · subst hr
    simpa [removePending, setPending] using (h.queueNodup r).erase child
  · simpa [removePending, setPending, hr] using h.queueNodup r

/-- Forgetting the queue entry, the request and the root of a child without a permit. -/
theorem SchedulerInv.forget (h : SchedulerInv R capOf strict none none s)
    (hroot : ∀ r, child ∈ s.pending r → r = root)
    (hheld : ∀ r, s.heldGeneration r child = none) :
    SchedulerInv R capOf strict none none
      { (s.removePending root child).clearRequest child with
        childRoot := Function.update s.childRoot child none } := by
  refine h.retire (mem_removePending h hroot) (removePending_nodup h root child) (fun r c => ?_)
    (fun r => by simp [clearRequest, clearTimer, removePending, setPending]) (by simp) (clearRequest_requests s child) (h.mem_clearTimer rfl)
    (update_none_eq_some s.childRoot child) (fun r c i => ?_)
  · split
    · rename_i hc
      rw [hc]
      exact hheld r
    · rfl
  · refine ⟨fun hi => ⟨hi, fun hc => ?_⟩, And.left⟩
    obtain ⟨-, g, hg⟩ := h.active r c i hi
    rw [hc] at hg
    exact absurd (hg.symm.trans (hheld r)) (by simp)

/-- A child whose live request is nowhere: not queued, not held, no timer, no repair. -/
structure Loose (s : ChildTeamScheduler) (child : GoalId) (q : Nat) : Prop where
  request : s.requests child = some q
  live : (s.heap q).terminal = false
  untimed : (s.heap q).timer = none
  unqueued : ∀ r, child ∉ s.pending r
  unheld : ∀ r, s.heldGeneration r child = none
  unrepaired : ∀ call ∈ s.repairs, call.request ≠ q

theorem newRequestAux (h : SchedulerInv R capOf strict exempt credit s)
    (hex : ∀ c, exempt = some c → c = child)
    (hold : ∀ q, s.requests child = some q → (s.heap q).terminal = true)
    (hheld : ∀ r, s.heldGeneration r child = none) (hroot : ∃ r, s.childRoot child = some r)
    {requests' : GoalId → Option Nat} {timers' : List RetryTimer} {heap' : Nat → RequestState}
    (htimer : ∀ t, t ∈ timers' ↔ t ∈ s.timers ∧ t.child ≠ child)
    (hreq : ∀ c, requests' c = if c = child then some s.nextId else s.requests c)
    (hheap : ∀ q, q ≠ s.nextId → heap' q = s.heap q)
    (hnew : (heap' s.nextId).terminal = false ∧ (heap' s.nextId).timer = none) :
    SchedulerInv R capOf strict (some child) credit
      { s with requests := requests', timers := timers', heap := heap', nextId := s.nextId + 1 } := by
  have hunqueued : ∀ r, child ∉ s.pending r := by
    intro r hr
    obtain ⟨-, -, q, hq, hlive⟩ := h.queued r child hr
    simp [hold q hq] at hlive
  have hfresh := h.requestFresh
  refine { h with
    rooted := fun c r hc => ?_, queued := fun r c hc => ?_, held := fun r c g hg => ?_,
    active := fun r c i hi => ?_,
    requestFresh := fun c q hc => ?_,
    requestRooted := fun c q hc => ?_,
    requestInj := fun c c' q hc hc' => ?_,
    calls := fun call hcall => ?_,
    callCurrent := fun call hcall hc => ?_,
    callActive := fun call hcall r c hc => ?_,
    timers := fun t ht => ?_,
    timersInj := fun a ha b hb => ?_,
    armed := fun c q t hc ht => ?_, repairs := fun call hcall => ?_, located := fun hs c q hc hl hne => ?_ }
  · have := h.rooted c r
    grind
  · have := h.queued r c hc
    grind
  · have := h.held r c g hg
    grind
  · have := h.active r c i hi
    grind
  · have := h.requestFresh c q
    grind
  · have := h.requestRooted c q
    grind
  · have := h.requestInj c c' q
    grind
  · have := h.calls call hcall
    grind
  · have := h.callCurrent call hcall
    have := h.calls call hcall
    grind
  · have := h.callActive call hcall r c hc
    have := h.active r c _ hc
    grind
  · have := h.timers t
    grind
  · have := h.timersInj a
    grind
  · have := h.armed c q t
    grind
  · have := h.repairs call hcall
    grind
  · have := h.located hs c q
    grind

/-- A new request for a child that has none, or a terminal one, and holds no permit. -/
theorem SchedulerInv.newRequest (h : SchedulerInv R capOf strict exempt credit s)
    (hex : ∀ c, exempt = some c → c = child)
    (hold : ∀ q, s.requests child = some q → (s.heap q).terminal = true)
    (hheld : ∀ r, s.heldGeneration r child = none) (hroot : ∃ r, s.childRoot child = some r) :
    SchedulerInv R capOf strict (some child) credit (s.newRequest child) ∧
      (s.newRequest child).Loose child s.nextId := by
  have htimer : (((s.requests child).map s.heap).bind fun r => r.timer) =
      (s.requests child).bind fun id => (s.heap id).timer := by
    cases s.requests child <;> rfl
  refine ⟨newRequestAux h hex hold hheld hroot (h.mem_clearTimer htimer)
    (fun c => Function.update_apply ..) (fun q hq => Function.update_of_ne hq ..)
    ⟨by simp [clearTimer], by simp [clearTimer]⟩, ?_⟩
  refine ⟨by simp [ChildTeamScheduler.newRequest, clearTimer],
    by simp [ChildTeamScheduler.newRequest, clearTimer],
    by simp [ChildTeamScheduler.newRequest, clearTimer], fun r hr => ?_, hheld, fun call hcall => ?_⟩
  · obtain ⟨-, -, q, hq, hlive⟩ := h.queued r child hr
    simp [hold q hq] at hlive
  · exact ((h.repairs call hcall).2.2.1).ne

variable {q : Nat}

theorem SchedulerInv.enqueue (h : SchedulerInv R capOf strict exempt credit s)
    (hex : ∀ c, exempt = some c → c = child) (hl : s.Loose child q) (hR : R child = some root) :
    SchedulerInv R capOf strict none credit (s.enqueue root child) := by
  have hmem : ∀ r c, c ∈ (s.enqueue root child).pending r ↔
      c ∈ s.pending r ∨ r = root ∧ c = child := fun r c => mem_enqueue s
  have heq : s.enqueue root child = s.setPending root (s.pending root ++ [child]) :=
    if_neg (hl.unqueued root)
  rw [heq] at hmem ⊢
  have := hl.request
  have := hl.live
  have := hl.unheld
  refine { h with queueNodup := fun r => ?_, queued := fun r c hc => ?_,
                  repairs := fun call hcall => ?_, located := fun hs c q' hc hlive hne => ?_ }
  · by_cases hr : r = root
    · subst hr
      simp only [setPending, Function.update_self]
      exact List.nodup_append.mpr ⟨h.queueNodup r, List.nodup_singleton _,
        fun a ha b hb hab => hl.unqueued r (by simp_all)⟩
    · simpa [setPending, hr] using h.queueNodup r
  · rw [hmem] at hc
    rcases hc with hc | ⟨rfl, rfl⟩
    · exact h.queued r c hc
    · exact ⟨hR, hl.unheld _, q, hl.request, hl.live⟩
  · obtain ⟨hRc, hid, hreq, ht, hcur⟩ := h.repairs call hcall
    refine ⟨hRc, hid, hreq, ht, fun c hc => ?_⟩
    obtain ⟨hchild, hlive, hfree⟩ := hcur c hc
    refine ⟨hchild, hlive, fun r => ⟨fun hp => ?_, (hfree r).2⟩⟩
    rw [hmem] at hp
    rcases hp with hp | ⟨rfl, rfl⟩
    · exact (hfree r).1 hp
    · exact hl.unrepaired call hcall (Option.some.inj (hc.symm.trans hl.request))
  · by_cases hcc : c = child
    · exact Or.inl ⟨root, (hmem root c).mpr (Or.inr ⟨rfl, hcc⟩)⟩
    · rcases h.located hs c q' hc hlive (fun he => hcc (hex c he)) with ⟨r, hr⟩ | hrest
      · exact Or.inl ⟨r, (hmem r c).mpr (Or.inl hr)⟩
      · exact Or.inr hrest

/-- The state right after `startChildTeam` was called for a loose child and
    returned a promise. -/
def launched (s : ChildTeamScheduler) (root child : GoalId) (q : Nat) : ChildTeamScheduler :=
  let r := s.heap q
  let call : StartCall := ⟨s.nextId, root, child, q, r.generation⟩
  { (s.setRequest q { r with attempts := r.attempts + 1 }).markHolding root child r.generation with
    nextId := s.nextId + 1
    log := .started s.nextId root child :: s.log
    effects := .startChildTeam child :: s.effects
    starts := s.starts ++ [call] }

theorem launchedAux (h : SchedulerInv R capOf strict exempt (some root) s)
    (hex : ∀ c, exempt = some c → c = child) (hl : s.Loose child q)
    (hroot : s.childRoot child = some root)
    {heap' : Nat → RequestState} {holding' : GoalId → AList (fun _ : GoalId => Nat)}
    {starts' : List StartCall} (hheap : ∀ q', (heap' q').generation = (s.heap q').generation ∧
      (heap' q').terminal = (s.heap q').terminal ∧ (heap' q').timer = (s.heap q').timer)
    (hhold : ∀ r c, (holding' r).lookup c =
      if r = root ∧ c = child then some (s.heap q).generation else s.heldGeneration r c)
    (hlen : ∀ r, ((holding' r).keys.length : Int) =
      (s.holding r).keys.length + if r = root then 1 else 0)
    (hactive : ∀ r c i, (c, i) ∈ activeStarts r log' ↔
      (r = root ∧ c = child ∧ i = s.nextId) ∨ (c, i) ∈ activeStarts r s.log)
    (hstarts : ∀ call, call ∈ starts' ↔
      call ∈ s.starts ∨ call = ⟨s.nextId, root, child, q, (s.heap q).generation⟩) :
    SchedulerInv R capOf strict none none
      { s with heap := heap', holding := holding', starts := starts', log := log',
               nextId := s.nextId + 1 } := by
  have hR : R child = some root := (h.rooted child root hroot).1
  have hnew := (hactive root child s.nextId).mpr (Or.inl ⟨rfl, rfl, rfl⟩)
  obtain ⟨hreq, hlive, huntimed, hunqueued, hunheld, hunrep⟩ := hl
  refine { h with
    permits := fun r sem hsem => ?_
    noPool := fun r hr => ?_
    queued := fun r c hc => ?_, held := fun r c g hg => ?_,
    active := fun r c i hi => ?_,
    requestFresh := fun c q hc => ?_,
    calls := fun call hcall => ?_,
    callsInj := fun a ha b hb => ?_,
    callCurrent := fun call hcall hc => ?_,
    callActive := fun call hcall r c hc => ?_,
    timers := fun t ht => ?_,
    armed := fun c q t hc ht => ?_, repairs := fun call hcall => ?_, located := fun hs c q' hc hl hne => ?_ }
  · obtain ⟨hp, hcap, hh⟩ := h.permits r sem hsem
    refine ⟨hp, hcap, ?_⟩
    rw [hh, hlen]
    grind
  · have := h.noPool r hr
    grind
  · have := h.queued r c hc
    grind
  · have := h.held r c g
    grind
  · have := h.active r c i
    grind
  · have := h.requestFresh c q
    grind
  · have := h.calls call
    have := h.requestFresh child q
    grind
  · have := h.callsInj a
    have := h.calls a
    have := h.calls b
    grind
  · rcases (hstarts call).mp hcall with hcall | rfl
    · exact (hactive _ _ _).mpr (Or.inr (h.callCurrent call hcall hc))
    · exact hnew
  · have := h.callActive call
    have := h.calls call
    have := h.active r c call.id
    grind
  · have := h.timers t ht
    grind
  · have := h.armed c q t
    grind
  · have := h.repairs call hcall
    grind
  · by_cases hcc : c = child
    · exact Or.inr (Or.inl ⟨_, (hstarts _).mpr (Or.inr rfl), hcc.symm, by grind⟩)
    · have := h.located hs c q'
      grind

theorem SchedulerInv.launched (h : SchedulerInv R capOf strict exempt (some root) s)
    (hex : ∀ c, exempt = some c → c = child) (hl : s.Loose child q)
    (hroot : s.childRoot child = some root) :
    SchedulerInv R capOf strict none none (s.launched root child q) := by
  refine (launchedAux h hex hl hroot ?_ ?_ ?_ ?_ ?_).frame _ s.watchdogs
  · intro q'
    by_cases hq : q' = q <;> simp [setRequest, markHolding, hq]
  · exact fun r c => heldGeneration_markHolding _ root child r c _
  · intro r
    by_cases hr : r = root
    · subst hr
      have := keys_insert_length (g := (s.heap q).generation) (hl.unheld r)
      simp only [markHolding, setRequest, Function.update_self, this]
      simp
    · simp [setRequest, markHolding, hr]
  · intro r c i
    have := h.active root child i
    have := hl.unheld root
    rw [mem_activeStarts_started]
    grind
  · intro call
    simp

/-- The rejection of a call whose request is still current. -/
def rejected (s : ChildTeamScheduler) (call : StartCall) : ChildTeamScheduler :=
  { s with
    starts := s.starts.filter (·.id ≠ call.id)
    log := .failed call.id :: s.log
    holding := Function.update s.holding call.root ((s.holding call.root).erase call.child) }

variable {call : StartCall}

theorem rejectedAux (h : SchedulerInv R capOf strict none none s)
    (hcall : call ∈ s.starts) (hcur : s.requests call.child = some call.request)
    {holding' : GoalId → AList (fun _ : GoalId => Nat)}
    {starts' : List StartCall} (hhold : ∀ r c, (holding' r).lookup c =
      if r = call.root ∧ c = call.child then none else s.heldGeneration r c)
    (hlen : ∀ r, ((holding' r).keys.length : Int) + (if r = call.root then 1 else 0) =
      (s.holding r).keys.length)
    (hactive : ∀ r c i, (c, i) ∈ activeStarts r log' ↔ (c, i) ∈ activeStarts r s.log ∧ i ≠ call.id)
    (hstarts : ∀ c, c ∈ starts' ↔ c ∈ s.starts ∧ c.id ≠ call.id) :
    SchedulerInv R capOf strict (some call.child) (some call.root)
      { s with holding := holding', starts := starts', log := log' } := by
  have hact := h.callCurrent call hcall hcur
  have hact' := h.callActive call hcall
  have hunique : ∀ i, (call.child, i) ∈ activeStarts call.root s.log → i = call.id :=
    fun i hi => activeStarts_unique hi hact
  obtain ⟨g, hg⟩ := (h.active _ _ _ hact).2
  have hheld := h.held _ _ g hg
  have hcalls := h.calls call hcall
  refine { h with
    permits := fun r sem hsem => ?_
    noPool := fun r hr => ?_
    queued := fun r c hc => ?_, held := fun r c g hg => ?_,
    active := fun r c i hi => ?_,
    calls := fun call hcall => ?_,
    callsInj := fun a ha b hb => ?_,
    callCurrent := fun call hcall hc => ?_,
    callActive := fun call hcall r c hc => ?_,
    repairs := fun call hcall => ?_, located := fun hs c q' hc hl hne => ?_ }
  · obtain ⟨hp, hcap, hh⟩ := h.permits r sem hsem
    have := hlen r
    refine ⟨hp, hcap, ?_⟩
    rw [hh]
    grind
  · have := h.noPool r hr
    grind
  · have := h.queued r c hc
    grind
  · have := h.held r c g
    grind
  · have := h.active r c i
    have := hact' r c
    grind
  · have := h.calls call
    grind
  · have := h.callsInj a
    grind
  · have := h.callCurrent call
    grind
  · have := h.callActive call
    grind
  · have := h.repairs call hcall
    grind
  · have := h.located hs c q'
    have := h.callsInj
    grind


/-- The rejection of a call whose request is current frees its permit and leaves
    its child loose. -/
theorem SchedulerInv.rejected (h : SchedulerInv R capOf strict none none s)
    (hcall : call ∈ s.starts) (hcur : s.requests call.child = some call.request) :
    SchedulerInv R capOf strict (some call.child) (some call.root) (s.rejected call) ∧
      (s.rejected call).Loose call.child call.request := by
  obtain ⟨g, hg⟩ := (h.active _ _ _ (h.callCurrent call hcall hcur)).2
  obtain ⟨hR, -, -, hreq⟩ := h.held _ _ g hg
  obtain ⟨-, hlive, huntimed⟩ := hreq _ hcur
  have hhold := lookup_update_erase s.holding call.root call.child
  refine ⟨rejectedAux h hcall hcur hhold ?_ (fun r c i => mem_activeStarts_failed)
    (fun c => by simp), hcur, hlive, huntimed, fun r hr => ?_, fun r => ?_, fun rep hrep hq => ?_⟩
  · intro r
    by_cases hr : r = call.root
    · subst hr
      have := keys_erase_length hg
      simp only [Function.update_self, if_true]
      omega
    · simp [hr]
  · have := h.queued r _ hr
    grind
  · refine (hhold r call.child).trans ?_
    split
    · rfl
    · rename_i hr
      refine Option.eq_none_iff_forall_ne_some.mpr fun g' hg' => hr ⟨?_, rfl⟩
      exact Option.some.inj ((h.held r _ g' hg').1.symm.trans hR)
  · have := h.repairs rep hrep
    grind

/-- A call has come back. Its child, if the call is current, has lost its place. -/
theorem SchedulerInv.dropCall (h : SchedulerInv R capOf strict none credit s)
    (hcall : call ∈ s.starts) (log' : List StartEvent)
    (hactive : ∀ r c i, (c, i) ∈ activeStarts r log' ↔ (c, i) ∈ activeStarts r s.log) :
    SchedulerInv R capOf strict
      (if s.requests call.child = some call.request then some call.child else none) credit
      { s with starts := s.starts.filter (·.id ≠ call.id), log := log' } := by
  have hstarts : ∀ c, c ∈ s.starts.filter (·.id ≠ call.id) ↔ c ∈ s.starts ∧ c.id ≠ call.id := by
    simp
  generalize s.starts.filter (·.id ≠ call.id) = starts' at hstarts
  refine { h with
    held := fun r c g hg => ?_,
    active := fun r c i hi => ?_,
    calls := fun call hcall => ?_,
    callsInj := fun a ha b hb => ?_,
    callCurrent := fun call hcall hc => ?_,
    callActive := fun call hcall r c hc => ?_,
    located := fun hs c q' hc hl hne => ?_ }
  · have := h.held r c g hg
    grind
  · have := h.active r c i
    grind
  · have := h.calls call
    grind
  · have := h.callsInj a
    grind
  · have := h.callCurrent call
    grind
  · have := h.callActive call
    grind
  · have := h.located hs c q'
    have := h.callsInj
    grind

/-- A call of a superseded request comes back: nothing else changes. -/
theorem SchedulerInv.dropStale (h : SchedulerInv R capOf strict none credit s)
    (hcall : call ∈ s.starts) (hstale : s.requests call.child ≠ some call.request)
    {event : StartEvent} (hevent : event = .succeeded call.id ∨ event = .failed call.id) :
    SchedulerInv R capOf strict none credit
      { s with starts := s.starts.filter (·.id ≠ call.id), log := event :: s.log } := by
  have := h.dropCall hcall (event :: s.log) ?_
  · rwa [if_neg hstale] at this
  · intro r c i
    have := h.callActive call hcall r c
    rcases hevent with rfl | rfl
    · simp
    · rw [mem_activeStarts_failed]
      grind

/-- A current call succeeds: its request is done, its permit stays. -/
theorem SchedulerInv.settle (h : SchedulerInv R capOf strict none credit s)
    (hcall : call ∈ s.starts) (hcur : s.requests call.child = some call.request) :
    SchedulerInv R capOf strict none credit
      { s with starts := s.starts.filter (·.id ≠ call.id), log := .succeeded call.id :: s.log,
               requests := Function.update s.requests call.child none } := by
  obtain ⟨g, hg⟩ := (h.active _ _ _ (h.callCurrent call hcall hcur)).2
  obtain ⟨hR, -, -, hreq⟩ := h.held _ _ g hg
  have hheld := hreq _ hcur
  have hunique : ∀ i, (call.child, i) ∈ activeStarts call.root s.log → i = call.id :=
    fun i hi => activeStarts_unique hi (h.callCurrent call hcall hcur)
  have h' := h.dropCall hcall (.succeeded call.id :: s.log) (fun r c i => Iff.rfl)
  rw [if_pos hcur] at h'
  have hreq : ∀ c q, Function.update s.requests call.child none c = some q ↔
      c ≠ call.child ∧ s.requests c = some q := by
    intro c q
    simp only [Function.update_apply]
    split <;> simp_all
  generalize Function.update s.requests call.child none = requests' at hreq
  have hstarts : ∀ c, c ∈ s.starts.filter (·.id ≠ call.id) ↔ c ∈ s.starts ∧ c.id ≠ call.id := by
    simp
  generalize s.starts.filter (·.id ≠ call.id) = starts' at hstarts h'
  refine { h' with
    queued := fun r c hc => ?_, held := fun r c g hg => ?_,
    requestFresh := fun c q hc => ?_,
    requestRooted := fun c q hc => ?_,
    requestInj := fun c c' q hc hc' => ?_,
    callCurrent := fun call hcall hc => ?_,
    callActive := fun call hcall r c hc => ?_,
    timers := fun t ht => ?_,
    armed := fun c q t hc ht => ?_, repairs := fun call hcall => ?_, located := fun hs c q hc hl hne => ?_ }
  · have := h'.queued r c hc
    grind
  · have := h'.held r c g hg
    grind
  · have := h'.requestFresh c q
    grind
  · have := h'.requestRooted c q
    grind
  · have := h'.requestInj c c' q
    grind
  · have := h'.callCurrent call hcall
    grind
  · have := h'.callActive call hcall r c hc
    have := h'.calls call hcall
    have : (c, call.id) ∈ activeStarts r s.log := hc
    grind
  · have := h'.timers t
    grind
  · have := h'.armed c q t
    grind
  · have := h'.repairs call hcall
    grind
  · have hc' := (hreq c q).mp hc
    exact h'.located hs c q hc'.2 hl fun hcc => hc'.1 (Option.some.inj hcc).symm


/-! ## A loose child finds its place -/

/-- The first failure of a loose child becomes its terminal one. -/
theorem SchedulerInv.finish (h : SchedulerInv R capOf strict exempt credit s)
    (hex : ∀ c, exempt = some c → c = child) (hl : s.Loose child q) :
    SchedulerInv R capOf strict none credit
      (s.setRequest q { s.heap q with terminal := true }) := by
  have hq := hl.request
  have hheap : ∀ q', (s.setRequest q { s.heap q with terminal := true }).heap q' =
      if q' = q then { s.heap q with terminal := true } else s.heap q' :=
    fun q' => Function.update_apply ..
  have hinj := h.requestInj
  obtain ⟨hreq, hlive, huntimed, hunqueued, hunheld, hunrep⟩ := hl
  simp only [setRequest] at hheap ⊢
  generalize Function.update s.heap q { s.heap q with terminal := true } = heap' at hheap
  refine { h with
    queued := fun r c hc => ?_, held := fun r c g hg => ?_,
    calls := fun call hcall => ?_,
    timers := fun t ht => ?_,
    armed := fun c q t hc ht => ?_, repairs := fun call hcall => ?_, located := fun hs c q' hc hl hne => ?_ }
  · have := h.queued r c hc
    grind
  · have := h.held r c g hg
    grind
  · have := h.calls call hcall
    grind
  · have := h.timers t ht
    grind
  · have := h.armed c q t
    grind
  · have := h.repairs call hcall
    have := hunrep call hcall
    grind
  · have hcc : c ≠ child := by
      intro hcc
      rw [hcc] at hc
      have : q' = q := Option.some.inj (hc.symm.trans hreq)
      simp [this, hheap] at hl
    have := h.located hs c q' hc (by grind) (fun he => hcc (hex c he))
    exact this

theorem SchedulerInv.awaitRepair (h : SchedulerInv R capOf strict exempt credit s)
    (hex : ∀ c, exempt = some c → c = child) (hl : s.Loose child q) (hR : R child = some root) :
    SchedulerInv R capOf strict none credit
      { s.setRequest q { s.heap q with repairAttempted := true } with
        repairs := s.repairs ++ [⟨s.nextId, root, child, q⟩], nextId := s.nextId + 1 } := by
  have hq := hl.request
  have hheap : ∀ q', (s.setRequest q { s.heap q with repairAttempted := true }).heap q' =
      if q' = q then { s.heap q with repairAttempted := true } else s.heap q' :=
    fun q' => Function.update_apply ..
  have hinj := h.requestInj
  obtain ⟨hreq, hlive, huntimed, hunqueued, hunheld, hunrep⟩ := hl
  simp only [setRequest] at hheap ⊢
  generalize Function.update s.heap q { s.heap q with repairAttempted := true } = heap' at hheap
  refine { h with
    queued := fun r c hc => ?_, held := fun r c g hg => ?_,
    active := fun r c i hi => ?_, requestFresh := fun c q hc => ?_,
    calls := fun call hcall => ?_,
    timers := fun t ht => ?_,
    armed := fun c q t hc ht => ?_, repairs := fun call hcall => ?_,
    repairsInj := fun a ha b hb hab => ?_, located := fun hs c q' hc hl hne => ?_ }
  · have := h.queued r c hc
    grind
  · have := h.held r c g hg
    grind
  · have := h.active r c i hi
    grind
  · have := h.requestFresh c q hc
    grind
  · have := h.calls call hcall
    grind
  · have := h.timers t ht
    grind
  · have := h.armed c q t
    grind
  · have := h.repairs call
    have := h.requestFresh child q
    grind
  · have := h.repairsInj a
    have := h.repairs a
    have := h.repairs b
    grind
  · by_cases hcc : c = child
    · rw [hcc] at hc
      have hqq : q = q' := Option.some.inj (hreq.symm.trans hc)
      exact Or.inr (Or.inr ⟨_, List.mem_append_right _ (List.mem_singleton_self _), hcc.symm, hqq⟩)
    · rcases h.located hs c q' hc (by grind) (fun he => hcc (hex c he)) with hp | hst | hre
      · exact Or.inl hp
      · exact Or.inr (Or.inl hst)
      · obtain ⟨call, hcall, hrest⟩ := hre
        exact Or.inr (Or.inr ⟨call, List.mem_append_left _ hcall, hrest⟩)

/-- Arming a retry timer for a child that is queued or about to be. -/
theorem SchedulerInv.arm (h : SchedulerInv R capOf strict exempt credit s)
    (hq : s.requests child = some q) (hlive : (s.heap q).terminal = false)
    (htimer : (s.heap q).timer = none)
    (hheld : ∀ r, s.heldGeneration r child = none)
    (hrep : ∀ call ∈ s.repairs, call.request ≠ q)
    (hR : R child = some root) (delay : Nat) :
    SchedulerInv R capOf strict exempt credit
      { s.setRequest q { s.heap q with timer := some s.nextId } with
        timers := s.timers ++ [⟨s.nextId, root, child, (s.heap q).generation, delay⟩],
        nextId := s.nextId + 1 } := by
  have hheap : ∀ q', (s.setRequest q { s.heap q with timer := some s.nextId }).heap q' =
      if q' = q then { s.heap q with timer := some s.nextId } else s.heap q' :=
    fun q' => Function.update_apply ..
  have hinj := h.requestInj
  simp only [setRequest] at hheap ⊢
  generalize Function.update s.heap q { s.heap q with timer := some s.nextId } = heap' at hheap
  refine { h with
    queued := fun r c hc => ?_, held := fun r c g hg => ?_,
    active := fun r c i hi => ?_, requestFresh := fun c q hc => ?_,
    calls := fun call hcall => ?_,
    timers := fun t ht => ?_, timersInj := fun a ha b hb hab => ?_,
    armed := fun c q' t hc ht => ?_, repairs := fun call hcall => ?_, located := fun hs c q' hc hl hne => ?_ }
  · have := h.queued r c hc
    grind
  · have := h.held r c g hg
    grind
  · have := h.active r c i hi
    grind
  · have := h.requestFresh c q hc
    grind
  · have := h.calls call hcall
    grind
  · have := h.timers t
    grind
  · have := h.timersInj a
    have := h.timers a
    have := h.timers b
    grind
  · by_cases hqq : q' = q
    · subst hqq
      simp only [hheap, if_true, Option.some.injEq] at ht
      exact ⟨_, List.mem_append_right _ (List.mem_singleton_self _), ht,
        hinj child c q' hq hc⟩
    · obtain ⟨x, hx, hrest⟩ := h.armed c q' t hc (by simpa [hheap, hqq] using ht)
      exact ⟨x, List.mem_append_left _ hx, hrest⟩
  · have := h.repairs call
    grind
  · have := h.located hs c q'
    grind


theorem SchedulerInv.fire (h : SchedulerInv R capOf strict exempt credit s) {timer : RetryTimer}
    (htimer : timer ∈ s.timers) (hq : s.requests timer.child = some q) :
    SchedulerInv R capOf strict exempt credit
      { s.setRequest q { s.heap q with timer := none } with
        timers := s.timers.filter (·.id ≠ timer.id) } := by
  have hheap : ∀ q', (s.setRequest q { s.heap q with timer := none }).heap q' =
      if q' = q then { s.heap q with timer := none } else s.heap q' :=
    fun q' => Function.update_apply ..
  have hinj := h.requestInj
  have htimers : ∀ t, t ∈ s.timers.filter (·.id ≠ timer.id) ↔ t ∈ s.timers ∧ t.id ≠ timer.id := by
    simp
  have htimer' := h.timers timer htimer
  have htinj := h.timersInj
  simp only [setRequest] at hheap ⊢
  generalize Function.update s.heap q { s.heap q with timer := none } = heap' at hheap
  generalize s.timers.filter (·.id ≠ timer.id) = timers' at htimers
  refine { h with
    queued := fun r c hc => ?_, held := fun r c g hg => ?_,
    calls := fun call hcall => ?_,
    timers := fun t ht => ?_, timersInj := fun a ha b hb hab => ?_,
    armed := fun c q' t hc ht => ?_, repairs := fun call hcall => ?_,
    located := fun hs c q' hc hl hne => ?_ }
  · have := h.queued r c hc
    grind
  · have := h.held r c g hg
    grind
  · have := h.calls call hcall
    grind
  · have := h.timers t
    grind
  · have := h.timersInj a
    grind
  · have := h.armed c q' t
    grind
  · have := h.repairs call hcall
    grind
  · have := h.located hs c q'
    grind

/-- The repair promise of a superseded or settled request is gone. -/
theorem SchedulerInv.dropRepair (h : SchedulerInv R capOf strict none credit s) {call : RepairCall}
    (hcall : call ∈ s.repairs) :
    SchedulerInv R capOf strict
      (if s.requests call.child = some call.request then some call.child else none) credit
      { s with repairs := s.repairs.filter (·.id ≠ call.id) } := by
  have hrepairs : ∀ c, c ∈ s.repairs.filter (·.id ≠ call.id) ↔ c ∈ s.repairs ∧ c.id ≠ call.id := by
    simp
  have hinj := h.repairsInj
  generalize s.repairs.filter (·.id ≠ call.id) = repairs' at hrepairs
  refine { h with
    repairs := fun call hcall => ?_
    repairsInj := fun a ha b hb hab => ?_, located := fun hs c q' hc hl hne => ?_ }
  · have := h.repairs call
    grind
  · have := h.repairsInj a
    grind
  · have := h.located hs c q'
    grind

/-- A stale repair is told to give up: its request record becomes terminal. -/
theorem SchedulerInv.finishStale (h : SchedulerInv R capOf strict exempt credit s)
    (hstale : ∀ c, s.requests c ≠ some q) :
    SchedulerInv R capOf strict exempt credit
      (s.setRequest q { s.heap q with terminal := true }) := by
  have hheap : ∀ q', (s.setRequest q { s.heap q with terminal := true }).heap q' =
      if q' = q then { s.heap q with terminal := true } else s.heap q' :=
    fun q' => Function.update_apply ..
  simp only [setRequest] at hheap ⊢
  generalize Function.update s.heap q { s.heap q with terminal := true } = heap' at hheap
  refine { h with
    queued := fun r c hc => ?_, held := fun r c g hg => ?_,
    calls := fun call hcall => ?_,
    timers := fun t ht => ?_,
    armed := fun c q t hc ht => ?_, repairs := fun call hcall => ?_, located := fun hs c q' hc hl hne => ?_ }
  · have := h.queued r c hc
    grind
  · have := h.held r c g hg
    grind
  · have := h.calls call hcall
    grind
  · have := h.timers t ht
    grind
  · have := h.armed c q t
    grind
  · have := h.repairs call hcall
    grind
  · have := h.located hs c q'
    grind

end Transitions

end ChildTeamScheduler

end Bobbit.Server
