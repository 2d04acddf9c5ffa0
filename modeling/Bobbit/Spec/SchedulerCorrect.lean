import Bobbit.Spec.SchedulerPreserved

/-!
# Permits and stranded requests

What `SchedulerInv` says to a user of the scheduler, over whole runs.

Key results:

- `permits_conserved`: while every entry meets `Guard R false`, the permits held
  under a root are the root's children whose latest start is in flight or has
  succeeded without a terminal notification, never more than the pool's cap, and
  a late callback releases nothing.
- `late_failure_releases_later_start`: generation numbers restart after
  `_clearRequest`, so a failure of an earlier start can carry the number of a
  later one and release its permit.
- `requests_placed`: while every entry meets `Guard R true`, every live request
  is queued, starting, waiting for an armed timer or awaiting its repair, and a
  callback of a superseded request takes no queue entry away.
- `repair_rejection_strands_successor`: the repair rejection handler does not
  check that its request is current.
-/

namespace Bobbit.Server

namespace ChildTeamScheduler

variable {R : GoalId → Option GoalId} {capOf : GoalId → Nat} {strict : Bool}
  {s : ChildTeamScheduler} {label : SchedulerDeps × Entry}

/-- The invariant with whatever capacities the pools have. -/
def Reachable (R : GoalId → Option GoalId) (strict : Bool) (s : ChildTeamScheduler) : Prop :=
  ∃ capOf, SchedulerInv R capOf strict none none s

theorem Reachable.step (h : Reachable R strict s) (hg : Guard R strict s label) :
    Reachable R strict (step s label) :=
  let ⟨_, h⟩ := h
  ⟨_, h.step hg⟩

theorem Reachable.new (R : GoalId → Option GoalId) (strict : Bool) : Reachable R strict new :=
  ⟨fun _ => 0, SchedulerInv.new R _ strict⟩

/-! ## Runs on one root -/

/-- Dependencies for a store whose children all belong to `"root"`, with a cap of
    one and starts that return promises. -/
def oneRootDeps : SchedulerDeps where
  resolveCap _ := some 1
  getChild _ := some ⟨false, some "root", some "root", false⟩
  startChildTeam _ := .promise
  hasLiveTeam _ := false
  repairUnavailableLead := true
  now := 0

def startError (code : String) : StartError := ⟨some code, some "boom", "boom"⟩

theorem oneRootDeps_agree : RootsAgree (fun _ => some "root") oneRootDeps := by
  intro c view hview
  simp only [oneRootDeps, Option.some.injEq] at hview
  rw [← hview]
  rfl

/-- A transient failure of a start that is current. -/
def transientFailure : List (SchedulerDeps × Entry) :=
  [(oneRootDeps, .requestStart "a"), (oneRootDeps, .requestStart "b"),
   (oneRootDeps, .startRejected 1 (startError "WORKTREE_BUSY")),
   (oneRootDeps, .notifyTerminal "b")]

/-- A failure that arrives when its child has been terminated and started again. -/
def lateFailure : List (SchedulerDeps × Entry) :=
  [(oneRootDeps, .requestStart "a"), (oneRootDeps, .notifyTerminal "a"),
   (oneRootDeps, .requestStart "a"),
   (oneRootDeps, .startRejected 1 (startError "WORKTREE_BUSY"))]

/-- A repair that fails when its child has been terminated and queued again. -/
def lateRepairRejection : List (SchedulerDeps × Entry) :=
  [(oneRootDeps, .requestStart "a"),
   (oneRootDeps, .startRejected 1 (startError "TEAM_LEAD_UNAVAILABLE")),
   (oneRootDeps, .requestStart "b"), (oneRootDeps, .notifyTerminal "a"),
   (oneRootDeps, .requestStart "a"),
   (oneRootDeps, .repairRejected 2 (startError "REPAIR_FAILED"))]

/-! ## Permits -/

/-- The permits out under each root are those of its active starts. -/
structure PermitsConserved (s : ChildTeamScheduler) : Prop where
  holders : ∀ r c, s.isHolding r c = true ↔ ∃ i, (c, i) ∈ activeStarts r s.log
  count : ∀ r sem, s.semaphores r = some sem → sem.held = (activeStarts r s.log).length
  capped : ∀ r sem, s.semaphores r = some sem → (activeStarts r s.log).length ≤ sem.capacity
  unpooled : ∀ r, s.semaphores r = none → activeStarts r s.log = []

/-- A start callback whose start is not the active one of any child leaves all
    permits where they are. -/
def LateCallbackHarmless (s : ChildTeamScheduler) (label : SchedulerDeps × Entry) : Prop :=
  match label.2 with
  | .startResolved id | .startRejected id _ =>
    (∀ r c, (c, id) ∉ activeStarts r s.log) →
      (step s label).holding = s.holding ∧ (step s label).semaphores = s.semaphores
  | _ => True

/-- A pool keeps its capacity, and a new one has the cap resolved for its root. -/
def PoolsCapped (s : ChildTeamScheduler) (label : SchedulerDeps × Entry) : Prop :=
  ∀ r sem, (step s label).semaphores r = some sem → sem.capacity = s.capAfter label.1 r

theorem mem_keys_iff {root c : GoalId} :
    c ∈ (s.holding root).keys ↔ s.isHolding root c = true := by
  rw [← AList.mem_keys, isHolding, heldGeneration, AList.lookup_isSome]

/-- The holders under a root and its active starts are equally many. -/
theorem SchedulerInv.keys_length (h : SchedulerInv R capOf strict none none s) (root : GoalId) :
    (s.holding root).keys.length = (activeStarts root s.log).length := by
  have hmem : ∀ c, c ∈ (s.holding root).keys ↔ c ∈ (activeStarts root s.log).map Prod.fst := by
    intro c
    rw [mem_keys_iff, isHolding, Option.isSome_iff_exists, List.mem_map]
    constructor
    · rintro ⟨g, hg⟩
      obtain ⟨i, hi⟩ := (h.held root c g hg).2.2.1
      exact ⟨(c, i), hi, rfl⟩
    · rintro ⟨⟨c', i⟩, hi, rfl⟩
      exact (h.active root c' i hi).2
  have hperm := (List.perm_ext_iff_of_nodup (s.holding root).keys_nodup
    (activeStarts_nodup root s.log)).mpr hmem
  rw [hperm.length_eq, List.length_map]

theorem Reachable.permitsConserved (h : Reachable R strict s) : PermitsConserved s := by
  obtain ⟨capOf, h⟩ := h
  have hcount : ∀ r sem, s.semaphores r = some sem →
      sem.held = (activeStarts r s.log).length := by
    intro r sem hsem
    obtain ⟨-, -, hheld⟩ := h.permits r sem hsem
    rw [hheld, h.keys_length r]
    simp
  refine ⟨fun r c => ?_, hcount, fun r sem hsem => ?_, fun r hr => ?_⟩
  · rw [isHolding, Option.isSome_iff_exists]
    constructor
    · rintro ⟨g, hg⟩
      exact (h.held r c g hg).2.2.1
    · rintro ⟨i, hi⟩
      exact (h.active r c i hi).2
  · have hheld := hcount r sem hsem
    obtain ⟨⟨-, hdebt⟩, -, -⟩ := h.permits r sem hsem
    simp only [Semaphore.held, hdebt] at hheld
    omega
  · refine List.eq_nil_iff_forall_not_mem.mpr fun start hi => ?_
    obtain ⟨-, g, hg⟩ := h.active r start.1 start.2 hi
    exact absurd (hg.symm.trans ((h.noPool r hr).2 start.1)) (by simp)

theorem Reachable.poolsCapped (h : Reachable R strict s) (hg : Guard R strict s label) :
    PoolsCapped s label := by
  obtain ⟨capOf, h⟩ := h
  exact fun r sem hsem => ((h.step hg).permits r sem hsem).2.1

/-- A failure that is not current goes no further than the log. -/
theorem startRejected_stale {deps : SchedulerDeps} {call : StartCall} {err : StartError}
    (hfind : s.starts.find? (·.id = call.id) = some call)
    (hheld : s.heldGeneration call.root call.child ≠ some call.generation) :
    s.startRejected deps call.id err =
      { s with starts := s.starts.filter (·.id ≠ call.id), log := .failed call.id :: s.log } := by
  have hrel : releaseHeldStart
      { s with starts := s.starts.filter (·.id ≠ call.id), log := .failed call.id :: s.log }
      call.root call.child (some call.generation) = none := releaseHeldStart_none hheld
  simp only [startRejected, hfind, ChildTeamScheduler.onStartFailure, onStartFailureWith, hrel]

theorem Reachable.lateCallbackHarmless (h : Reachable R strict s) (hg : Guard R strict s label) :
    LateCallbackHarmless s label := by
  obtain ⟨capOf, h⟩ := h
  obtain ⟨deps, entry⟩ := label
  cases entry with
  | startResolved id =>
    intro _
    simp only [ChildTeamScheduler.step, startResolved]
    split
    · exact ⟨rfl, rfl⟩
    · simp only [onStartSuccess]
      split
      · exact ⟨rfl, rfl⟩
      · split
        · exact ⟨rfl, rfl⟩
        · simp only [clearWatchdog]
          split <;> exact ⟨rfl, rfl⟩
  | startRejected id err =>
    intro hlate
    simp only [ChildTeamScheduler.step]
    cases hfind : s.starts.find? (·.id = id) with
    | none => simp [startRejected, hfind]
    | some call =>
      obtain ⟨hcall, hid⟩ := Lib.Keyed.mem_of_find?_key hfind
      subst hid
      have hstale : s.requests call.child ≠ some call.request := fun hcur =>
        hlate _ _ (h.callCurrent call hcall hcur)
      rw [startRejected_stale hfind ((hg.2 call hcall rfl).resolve_left hstale)]
      exact ⟨rfl, rfl⟩
  | _ => trivial

/-- **Permits are conserved** over every run whose entries meet the guard. -/
theorem permits_conserved (R : GoalId → Option GoalId) (labels : List (SchedulerDeps × Entry))
    (hrun : Lib.Along step (Guard R false) new labels) :
    Lib.Always step PermitsConserved new labels ∧ Lib.Along step PoolsCapped new labels ∧
      Lib.Along step LateCallbackHarmless new labels := by
  have hstep : ∀ s l, Reachable R false s → Guard R false s l → Reachable R false (step s l) :=
    fun s l h hg => h.step hg
  have h0 := Reachable.new R false
  exact ⟨(Lib.always_of_along hstep h0 hrun).mono fun s h => h.permitsConserved,
    Lib.along_of_along hstep (fun s l h hg => h.poolsCapped hg) h0 hrun,
    Lib.along_of_along hstep (fun s l h hg => h.lateCallbackHarmless hg) h0 hrun⟩

theorem guard_transientFailure (strict : Bool) :
    Lib.Along step (Guard (fun _ => some "root") strict) new transientFailure := by
  refine ⟨⟨oneRootDeps_agree, trivial⟩, ⟨oneRootDeps_agree, trivial⟩,
    ⟨oneRootDeps_agree, fun call hcall _ => Or.inl ?_⟩, ⟨oneRootDeps_agree, trivial⟩, trivial⟩
  have hstarts : (run (transientFailure.take 2)).starts = [⟨1, "root", "a", 0, 1⟩] := rfl
  have hcall : call ∈ (run (transientFailure.take 2)).starts := hcall
  rw [hstarts, List.mem_singleton] at hcall
  subst hcall
  rfl

theorem permits_conserved_transientFailure :
    Lib.Always step PermitsConserved new transientFailure ∧
      Lib.Along step PoolsCapped new transientFailure ∧
      Lib.Along step LateCallbackHarmless new transientFailure :=
  permits_conserved (fun _ => some "root") transientFailure (guard_transientFailure false)

/-- The failure of the first start of `"a"` releases the permit of its second
    start, which is still in flight. -/
theorem late_failure_releases_later_start :
    (∀ l ∈ lateFailure, RootsAgree (fun _ => some "root") l.1) ∧
      ¬ Lib.Always step PermitsConserved new lateFailure ∧
      ¬ Lib.Along step LateCallbackHarmless new lateFailure := by
  refine ⟨?_, fun h => ?_, fun h => ?_⟩
  · simp [lateFailure, oneRootDeps_agree]
  · have hhold : (run lateFailure).isHolding "root" "a" = false := rfl
    have hactive : activeStarts "root" (run lateFailure).log = [("a", 3)] := rfl
    have hlast : (run lateFailure).isHolding "root" "a" = true :=
      (h.last.holders "root" "a").mpr ⟨3, hactive ▸ List.mem_singleton_self _⟩
    simp [hhold] at hlast
  · have hlate := h.2.2.2.1
    have hlog : (run (lateFailure.take 3)).log =
        [.started 3 "root" "a", .terminal "a", .started 1 "root" "a"] := rfl
    have hinactive : ∀ r c, (c, 1) ∉ activeStarts r (run (lateFailure.take 3)).log := by
      intro r c
      rw [hlog]
      simp only [activeStarts]
      split <;> simp
    have hhold : (run lateFailure).holding = (run (lateFailure.take 3)).holding :=
      (hlate hinactive).1
    have hbefore : (run (lateFailure.take 3)).isHolding "root" "a" = true := rfl
    have hafter : (run lateFailure).isHolding "root" "a" = false := rfl
    rw [isHolding, heldGeneration, hhold] at hafter
    exact absurd (hbefore.symm.trans hafter) (by simp)

/-! ## Stranded requests -/

/-- The places where a live request of `c` can be. -/
inductive Placed (s : ChildTeamScheduler) (c : GoalId) (q : Nat) : Prop
  | queued (r : GoalId) (hroot : s.childRoot c = some r) (hmem : c ∈ s.pending r)
  | starting (call : StartCall) (hcall : call ∈ s.starts) (hchild : call.child = c)
      (hrequest : call.request = q) (hheld : s.isHolding call.root c = true)
  | waiting (timer : RetryTimer) (htimer : timer ∈ s.timers) (hchild : timer.child = c)
      (harmed : (s.heap q).timer = some timer.id)
  | repairing (call : RepairCall) (hcall : call ∈ s.repairs) (hchild : call.child = c)
      (hrequest : call.request = q)

/-- Every live request has a place, and a request that waits for a timer waits
    for one that is armed. -/
structure RequestsPlaced (s : ChildTeamScheduler) : Prop where
  placed : ∀ c q, s.requests c = some q → (s.heap q).terminal = false → s.Placed c q
  armed : ∀ c q t, s.requests c = some q → (s.heap q).timer = some t →
    ∃ timer ∈ s.timers, timer.id = t ∧ timer.child = c

/-- A callback whose request is superseded leaves the child where it is queued. -/
def SupersededKeepsQueue (s : ChildTeamScheduler) (label : SchedulerDeps × Entry) : Prop :=
  match label.2 with
  | .startResolved id | .startRejected id _ =>
    ∀ call ∈ s.starts, call.id = id → s.requests call.child ≠ some call.request →
      ∀ r, call.child ∈ s.pending r → call.child ∈ (step s label).pending r
  | .timerFired id =>
    ∀ timer ∈ s.timers, timer.id = id →
      (∀ q, s.requests timer.child = some q → (s.heap q).timer ≠ some timer.id) →
      ∀ r, timer.child ∈ s.pending r → timer.child ∈ (step s label).pending r
  | .repairResolved id | .repairRejected id _ =>
    ∀ call ∈ s.repairs, call.id = id → s.requests call.child ≠ some call.request →
      ∀ r, call.child ∈ s.pending r → call.child ∈ (step s label).pending r
  | _ => True

theorem Reachable.requestsPlaced (h : Reachable R true s) : RequestsPlaced s := by
  obtain ⟨capOf, h⟩ := h
  refine ⟨fun c q hq hlive => ?_, h.armed⟩
  rcases h.located rfl c q hq hlive (by simp) with ⟨r, hr⟩ | ⟨call, hcall, hc, hcq⟩ |
    ⟨call, hcall, hc, hcq⟩
  · obtain ⟨r', hr'⟩ := h.requestRooted c q hq
    have hrr : r' = r := Option.some.inj ((h.rooted c r' hr').1.symm.trans (h.queued r c hr).1)
    exact .queued r (hrr ▸ hr') hr
  · obtain ⟨-, g, hg⟩ := h.active _ _ _ (h.callCurrent call hcall (by rw [hc, hq, hcq]))
    refine .starting call hcall hc hcq ?_
    rw [isHolding, ← hc, hg]
    rfl
  · exact .repairing call hcall hc hcq

/-- Looking an element up by an id that no other element of the list has. -/
theorem find?_id_eq {α : Type*} (id : α → Nat) {l : List α} {a : α} (ha : a ∈ l)
    (hinj : ∀ b ∈ l, id b = id a → b = a) : l.find? (fun b => id b = id a) = some a := by
  cases hfind : l.find? (fun b => id b = id a) with
  | none => simpa using List.find?_eq_none.mp hfind a ha
  | some b =>
    have hid : id b = id a := by simpa using List.find?_some hfind
    rw [hinj b (List.mem_of_find?_eq_some hfind) hid]

theorem startResolved_pending (s : ChildTeamScheduler) (id : Nat) :
    (s.startResolved id).pending = s.pending := by
  simp only [startResolved]
  split
  · rfl
  · simp only [onStartSuccess]
    split
    · rfl
    · split
      · rfl
      · simp only [clearWatchdog]
        split <;> rfl

theorem Reachable.supersededKeepsQueue (h : Reachable R true s) (hg : Guard R true s label) :
    SupersededKeepsQueue s label := by
  obtain ⟨capOf, h⟩ := h
  obtain ⟨deps, entry⟩ := label
  cases entry with
  | startResolved id =>
    intro call _ _ _ r hr
    simp only [ChildTeamScheduler.step, startResolved_pending]
    exact hr
  | startRejected id err =>
    intro call hcall hid hstale r hr
    subst hid
    have hfind : s.starts.find? (·.id = call.id) = some call :=
      find?_id_eq StartCall.id hcall fun a ha hid => h.callsInj a ha call hcall hid
    simp only [ChildTeamScheduler.step]
    rw [startRejected_stale hfind ((hg.2 call hcall rfl).resolve_left hstale)]
    exact hr
  | timerFired id =>
    intro timer htimer _ hstale
    obtain ⟨-, -, q, hq, ht, -⟩ := h.timers timer htimer
    exact absurd ht (hstale q hq)
  | repairResolved id =>
    intro call hcall hid hstale r hr
    subst hid
    have hfind : s.repairs.find? (·.id = call.id) = some call :=
      find?_id_eq RepairCall.id hcall fun a ha hid => h.repairsInj a ha call hcall (Or.inl hid)
    simp only [ChildTeamScheduler.step, repairResolved, hfind]
    rw [scheduleRetry_stale { s with repairs := s.repairs.filter (·.id ≠ call.id) } _ hstale]
    exact hr
  | repairRejected id err =>
    intro call hcall hid hstale r hr
    have hroot : r = call.root :=
      Option.some.inj ((h.queued r call.child hr).1.symm.trans (h.repairs call hcall).1)
    exact absurd (hroot ▸ hr) ((hg.2 rfl call hcall hid).resolve_left hstale)
  | _ => trivial

/-- **No request is stranded** over every run whose entries meet the guard. -/
theorem requests_placed (R : GoalId → Option GoalId) (labels : List (SchedulerDeps × Entry))
    (hrun : Lib.Along step (Guard R true) new labels) :
    Lib.Always step RequestsPlaced new labels ∧ Lib.Along step SupersededKeepsQueue new labels := by
  have hstep : ∀ s l, Reachable R true s → Guard R true s l → Reachable R true (step s l) :=
    fun s l h hg => h.step hg
  have h0 := Reachable.new R true
  exact ⟨(Lib.always_of_along hstep h0 hrun).mono fun s h => h.requestsPlaced,
    Lib.along_of_along hstep (fun s l h hg => h.supersededKeepsQueue hg) h0 hrun⟩

theorem requests_placed_transientFailure :
    Lib.Always step RequestsPlaced new transientFailure ∧
      Lib.Along step SupersededKeepsQueue new transientFailure :=
  requests_placed (fun _ => some "root") transientFailure (guard_transientFailure true)

/-- The rejection of a repair that an earlier request asked for removes the queue
    entry of the request that has superseded it, which is then nowhere. -/
theorem repair_rejection_strands_successor :
    (∀ l ∈ lateRepairRejection, RootsAgree (fun _ => some "root") l.1) ∧
      ¬ Lib.Always step RequestsPlaced new lateRepairRejection ∧
      ¬ Lib.Along step SupersededKeepsQueue new lateRepairRejection := by
  refine ⟨?_, fun h => ?_, fun h => ?_⟩
  · simp [lateRepairRejection, oneRootDeps_agree]
  · have hplaced : (run lateRepairRejection).Placed "a" 5 := h.last.placed "a" 5 rfl rfl
    have hstarts : (run lateRepairRejection).starts = [⟨4, "root", "b", 3, 1⟩] := rfl
    have hroot : (run lateRepairRejection).childRoot "a" = some "root" := rfl
    have hpending : (run lateRepairRejection).pending "root" = [] := rfl
    have htimers : (run lateRepairRejection).timers = [] := rfl
    have hrepairs : (run lateRepairRejection).repairs = [] := rfl
    cases hplaced with
    | queued r hr hmem =>
      rw [hroot, Option.some.injEq] at hr
      simp [← hr, hpending] at hmem
    | starting call hcall hchild =>
      rw [hstarts, List.mem_singleton] at hcall
      simp [hcall] at hchild
    | waiting timer htimer => simp [htimers] at htimer
    | repairing call hcall => simp [hrepairs] at hcall
  · have hlate := h.2.2.2.2.2.1
    have hrepairs : (run (lateRepairRejection.take 5)).repairs = [⟨2, "root", "a", 0⟩] := rfl
    have hpending : (run lateRepairRejection).pending "root" = [] := rfl
    have hmem : "a" ∈ (run lateRepairRejection).pending "root" :=
      hlate ⟨2, "root", "a", 0⟩ (hrepairs ▸ List.mem_singleton_self _) rfl
        (by decide +kernel) "root" (by decide +kernel)
    simp [hpending] at hmem

end ChildTeamScheduler

end Bobbit.Server
