import Bobbit.Server.Semaphore
import Bobbit.Lib.Run

/-!
# Correctness of the counting semaphore

A `Usage` is a semaphore together with what its callers have seen of it so far: every
request, grant, abort, return and resize in the order they happened. Permits held are
counted from that log, so that the semaphore's own bookkeeping (`capacity`, `value`,
`debt`, the waiters) can be compared with them.

## Key results

- `grantUpTo_orderly`: granting `n` permits to the head of the queue keeps the order
- `resize_sound`, `release_sound`: the two operations that move debt
- `semaphore_sound`: the invariant over every run that never returns a permit nobody holds
-/

namespace Bobbit.Server.Semaphore

open Bobbit.Lib

/-! ## Runs -/

/-- A call on the semaphore. `acquire` says whether its signal was aborted already, and `abort`
    names the `acquire` whose signal fires. -/
inductive Call
  | acquire (aborted : Bool)
  | tryAcquire
  | abort (id : Nat)
  | resize (newCapacity : Option Rat)
  | release
deriving DecidableEq

/-- What a caller sees: `granted id` resolves an `acquire`, `aborted id` rejects it, `taken` is a
    `tryAcquire` that returned true, `threw` is the over-release error. -/
inductive Seen
  | requested (id : Nat)
  | granted (id : Nat)
  | aborted (id : Nat)
  | taken
  | returned
  | resized (capacity : Nat)
  | threw
deriving DecidableEq

/-- A semaphore in use; `next` numbers the next `acquire` call. -/
structure Usage where
  sem : Semaphore
  next : Nat
  log : List Seen

/-- A semaphore nobody has called yet. -/
def start (initial : Nat) : Usage := ⟨new initial, 0, []⟩

/-- The waiter that `release` wakes: none while there is debt to pay. -/
def wokenByRelease (s : Semaphore) : List Nat :=
  if s.debt > 0 then [] else (s.grantNextWaiter.map Prod.fst).toList

/-- One call and what is seen of it. -/
def step (u : Usage) : Call → Usage
  | .acquire true => { u with next := u.next + 1, log := u.log ++ [.aborted u.next] }
  | .acquire false =>
    let (free, sem) := u.sem.acquire u.next
    ⟨sem, u.next + 1, u.log ++ .requested u.next :: if free then [.granted u.next] else []⟩
  | .tryAcquire =>
    match u.sem.tryAcquire with
    | some sem => { u with sem, log := u.log ++ [.taken] }
    | none => u
  | .abort id =>
    if u.sem.waiters.any (fun w => w.id = id ∧ w.state = .queued) then
      { u with sem := u.sem.abortWaiter id, log := u.log ++ [.aborted id] }
    else u
  | .resize newCapacity =>
    let (woken, sem) := u.sem.resize newCapacity
    { u with sem, log := u.log ++ .resized sem.capacity :: woken.map .granted }
  | .release =>
    match u.sem.release with
    | .ok sem => { u with sem, log := u.log ++ .returned :: (u.sem.wokenByRelease).map .granted }
    | .error _ => { u with log := u.log ++ [.threw] }

/-! ## Reading the log -/

def Seen.grants : Seen → Bool
  | .granted _ => true
  | .taken => true
  | _ => false

/-- Permits handed out and not returned. -/
def holders (log : List Seen) : Int :=
  (log.countP Seen.grants : Int) - log.count .returned

def capacityAfter (initial : Nat) (log : List Seen) : Nat :=
  log.foldl (fun capacity e => match e with
    | .resized c => c
    | _ => capacity) initial

/-- The `acquire` calls that came in, in call order. -/
def requests (log : List Seen) : List Nat :=
  log.filterMap fun e => match e with
    | .requested id => some id
    | _ => none

/-- The `acquire` calls that were granted, in the order of the grants. -/
def grants (log : List Seen) : List Nat :=
  log.filterMap fun e => match e with
    | .granted id => some id
    | _ => none

/-- The `acquire` calls that were aborted. -/
def aborts (log : List Seen) : List Nat :=
  log.filterMap fun e => match e with
    | .aborted id => some id
    | _ => none

/-- The requests that were not aborted. -/
def standing (log : List Seen) : List Nat :=
  (requests log).filter (fun id => id ∉ aborts log)

/-- Whenever a permit is handed out, fewer are held than the capacity then in force. -/
def WithinCapacity (initial : Nat) (log : List Seen) : Prop :=
  ∀ pre e post, log = pre ++ e :: post → e.grants = true →
    holders pre < capacityAfter initial pre

/-- A caller returns only a permit that is held. -/
def Permitted (u : Usage) : Call → Prop
  | .release => 0 < holders u.log
  | _ => True

instance (u : Usage) : (c : Call) → Decidable (Permitted u c)
  | .release => inferInstanceAs (Decidable (0 < holders u.log))
  | .acquire _ => inferInstanceAs (Decidable True)
  | .tryAcquire => inferInstanceAs (Decidable True)
  | .abort _ => inferInstanceAs (Decidable True)
  | .resize _ => inferInstanceAs (Decidable True)

/-- What the semaphore promises its callers. -/
structure Sound (initial : Nat) (u : Usage) : Prop where
  /-- permits held are capacity minus available plus debt -/
  held_eq : holders u.log = u.sem.capacity - u.sem.available + u.sem.debt
  /-- the capacity is the one last set -/
  capacity_eq : u.sem.capacity = capacityAfter initial u.log
  not_both : u.sem.available = 0 ∨ u.sem.debt = 0
  waiters_nil : 0 < u.sem.available → u.sem.waiters = []
  /-- requests that were not aborted are granted first come, first served -/
  fifo : standing u.log = grants u.log ++ u.sem.waiters.map SemaphoreWaiter.id
  within : WithinCapacity initial u.log
  /-- an aborted request is never granted -/
  aborted_not_granted : ∀ id ∈ aborts u.log, id ∉ grants u.log
  /-- `release` did not throw -/
  quiet : Seen.threw ∉ u.log

/-! ## The log, one entry at a time -/

@[simp] theorem holders_nil : holders [] = 0 := rfl

theorem holders_concat (log : List Seen) (e : Seen) :
    holders (log ++ [e]) =
      holders log + (if e.grants then 1 else 0) - (if e = .returned then 1 else 0) := by
  simp only [holders, List.countP_append, List.count_append, List.countP_singleton,
    List.count_singleton, beq_iff_eq]
  split <;> split <;> omega

@[simp] theorem capacityAfter_nil (initial : Nat) : capacityAfter initial [] = initial := rfl

theorem capacityAfter_concat (initial : Nat) (log : List Seen) (e : Seen) :
    capacityAfter initial (log ++ [e]) =
      match e with
      | .resized c => c
      | _ => capacityAfter initial log := by
  simp only [capacityAfter, List.foldl_append, List.foldl_cons, List.foldl_nil]

@[simp] theorem requests_append (xs ys : List Seen) :
    requests (xs ++ ys) = requests xs ++ requests ys := List.filterMap_append

@[simp] theorem grants_append (xs ys : List Seen) :
    grants (xs ++ ys) = grants xs ++ grants ys := List.filterMap_append

@[simp] theorem aborts_append (xs ys : List Seen) :
    aborts (xs ++ ys) = aborts xs ++ aborts ys := List.filterMap_append

theorem withinCapacity_nil (initial : Nat) : WithinCapacity initial [] := by
  intro pre e post h
  simp at h

variable {log : List Seen} {initial : Nat}

/-- One more entry: if it is a grant, there was room for it. -/
theorem WithinCapacity.concat {e : Seen} (h : WithinCapacity initial log)
    (hroom : e.grants = true → holders log < capacityAfter initial log) :
    WithinCapacity initial (log ++ [e]) := by
  intro pre x post hsplit hx
  cases post using List.reverseRecOn with
  | nil =>
    -- the new entry itself
    obtain ⟨rfl, hcons⟩ := List.append_inj' hsplit rfl
    rw [List.cons.injEq] at hcons
    exact hroom (hcons.1 ▸ hx)
  | append_singleton post y =>
    rw [← List.cons_append, ← List.append_assoc] at hsplit
    exact h pre x post (List.append_inj' hsplit rfl).1 hx

/-! ## The invariant -/

/-- The queue and the log agree: what is proved about them does not mention the counters. -/
structure Orderly (initial : Nat) (waiters : List SemaphoreWaiter) (next : Nat)
    (log : List Seen) : Prop where
  queued : ∀ w ∈ waiters, w.state = .queued
  fifo : standing log = grants log ++ waiters.map SemaphoreWaiter.id
  requests_lt : ∀ id ∈ requests log, id < next
  aborts_lt : ∀ id ∈ aborts log, id < next
  nodup : (requests log).Nodup
  within : WithinCapacity initial log
  quiet : Seen.threw ∉ log

/-- The counters agree with the log. -/
structure Counted (initial : Nat) (s : Semaphore) (log : List Seen) : Prop where
  held_eq : holders log = s.capacity - s.value + s.debt
  capacity_eq : s.capacity = capacityAfter initial log
  not_both : s.value = 0 ∨ s.debt = 0
  waiters_nil : 0 < s.value → s.waiters = []

/-- The invariant of a semaphore in use. -/
def Inv (initial : Nat) (u : Usage) : Prop :=
  Orderly initial u.sem.waiters u.next u.log ∧ Counted initial u.sem u.log

theorem inv_start (initial : Nat) : Inv initial (start initial) := by
  constructor
  · exact ⟨by simp [start, new], rfl, by simp [start, requests], by simp [start, aborts],
      List.nodup_nil, withinCapacity_nil initial, by simp [start]⟩
  · exact ⟨by simp [start, new], rfl, .inr rfl, fun _ => rfl⟩

variable {waiters : List SemaphoreWaiter} {next : Nat}

/-- A standing request has been granted or is waiting, never both. -/
theorem Orderly.nodup_fifo (h : Orderly initial waiters next log) :
    (grants log ++ waiters.map SemaphoreWaiter.id).Nodup := by
  rw [← h.fifo]
  exact h.nodup.filter _

variable {u : Usage}

theorem Inv.sound (h : Inv initial u) : Sound initial u := by
  obtain ⟨ho, hc⟩ := h
  refine ⟨hc.held_eq, hc.capacity_eq, hc.not_both, hc.waiters_nil, ho.fifo, ho.within, ?_, ho.quiet⟩
  intro id haborted hgranted
  -- a granted request stands, so it was not aborted
  have hmem : id ∈ standing u.log := by
    rw [ho.fifo]
    exact List.mem_append_left _ hgranted
  have hnot := (List.mem_filter.mp hmem).2
  simp only [decide_eq_true_eq] at hnot
  exact hnot haborted

/-! ## Entries that leave the queue alone -/

/-- An entry that is no request and no abort, and no grant to an `acquire`. -/
theorem Orderly.note (h : Orderly initial waiters next log) {e : Seen}
    (he : requests [e] = [] ∧ grants [e] = [] ∧ aborts [e] = [] ∧ e ≠ .threw)
    (hroom : e.grants = true → holders log < capacityAfter initial log) :
    Orderly initial waiters next (log ++ [e]) := by
  obtain ⟨hr, hg, ha, hthrew⟩ := he
  refine ⟨h.queued, ?_, ?_, ?_, ?_, h.within.concat hroom, ?_⟩
  · simpa [standing, hr, hg, ha] using h.fifo
  · simpa [hr] using h.requests_lt
  · simpa [ha] using h.aborts_lt
  · simpa [hr] using h.nodup
  · simpa [h.quiet] using Ne.symm hthrew

theorem Orderly.grant {w : SemaphoreWaiter} {rest : List SemaphoreWaiter}
    (h : Orderly initial (w :: rest) next log) (hroom : holders log < capacityAfter initial log) :
    Orderly initial rest next (log ++ [.granted w.id]) := by
  refine ⟨fun x hx => h.queued x (List.mem_cons_of_mem _ hx), ?_, ?_, ?_, ?_,
    h.within.concat fun _ => hroom, ?_⟩
  · simpa [standing, requests, aborts, grants] using h.fifo
  · simpa [requests] using h.requests_lt
  · simpa [aborts] using h.aborts_lt
  · simpa [requests] using h.nodup
  · simpa using h.quiet

theorem Orderly.request (h : Orderly initial waiters next log) :
    Orderly initial (waiters ++ [⟨next, .queued⟩]) (next + 1) (log ++ [.requested next]) := by
  have hfresh : next ∉ aborts log := fun hmem => Nat.lt_irrefl _ (h.aborts_lt next hmem)
  refine ⟨?_, ?_, ?_, ?_, ?_, h.within.concat (by simp [Seen.grants]), ?_⟩
  · intro w hw
    rw [List.mem_append, List.mem_singleton] at hw
    cases hw with
    | inl hw => exact h.queued w hw
    | inr hw => rw [hw]
  · have hreq : requests [Seen.requested next] = [next] := rfl
    have hab : aborts [Seen.requested next] = [] := rfl
    have hgr : grants [Seen.requested next] = [] := rfl
    have hstand := h.fifo
    simp only [standing] at hstand
    simp only [standing, requests_append, aborts_append, grants_append, hreq, hab, hgr,
      List.append_nil, List.filter_append, hstand, List.map_append, List.append_assoc]
    simp [hfresh]
  · intro id hid
    simp only [requests_append, List.mem_append] at hid
    cases hid with
    | inl hid => exact Nat.lt_succ_of_lt (h.requests_lt id hid)
    | inr hid =>
      have : id = next := by simpa [requests] using hid
      omega
  · intro id hid
    have hold : id ∈ aborts log := by simpa [aborts] using hid
    exact Nat.lt_succ_of_lt (h.aborts_lt id hold)
  · have hnew : next ∉ requests log := fun hmem => Nat.lt_irrefl _ (h.requests_lt next hmem)
    rw [requests_append]
    exact List.Nodup.append h.nodup (by simp [requests])
      (by simpa [requests] using hnew)
  · simpa using h.quiet

/-- A number that was never requested can be reported as aborted. -/
theorem Orderly.skip (h : Orderly initial waiters next log) :
    Orderly initial waiters (next + 1) (log ++ [.aborted next]) := by
  have hnew : ∀ id ∈ requests log, id ≠ next := by
    intro id hid heq
    have := h.requests_lt id hid
    omega
  refine ⟨h.queued, ?_, ?_, ?_, ?_, h.within.concat (by simp [Seen.grants]), ?_⟩
  · have hsame : standing (log ++ [.aborted next]) = standing log := by
      simp only [standing, requests_append]
      have hreq : requests [Seen.aborted next] = [] := rfl
      rw [hreq, List.append_nil]
      apply List.filter_congr
      intro id hid
      simp [aborts, hnew id hid]
    rw [hsame, h.fifo]
    simp [grants]
  · intro id hid
    have hold : id ∈ requests log := by simpa [requests] using hid
    exact Nat.lt_succ_of_lt (h.requests_lt id hold)
  · intro id hid
    simp only [aborts_append, List.mem_append] at hid
    cases hid with
    | inl hid => exact Nat.lt_succ_of_lt (h.aborts_lt id hid)
    | inr hid =>
      have : id = next := by simpa [aborts] using hid
      omega
  · simpa [requests] using h.nodup
  · simpa using h.quiet

theorem Orderly.abort (h : Orderly initial waiters next log) {id : Nat}
    (hid : id ∈ waiters.map SemaphoreWaiter.id) :
    Orderly initial (waiters.filter fun w => ¬ (w.id = id ∧ w.state = .queued)) next
      (log ++ [.aborted id]) := by
  have hstanding : id ∈ standing log := by
    rw [h.fifo]
    exact List.mem_append_right _ hid
  have hrequested : id ∈ requests log := List.mem_of_mem_filter hstanding
  -- it waits, so it was not granted
  have hnot : id ∉ grants log := by
    intro hgranted
    exact List.disjoint_of_nodup_append h.nodup_fifo hgranted hid
  refine ⟨?_, ?_, ?_, ?_, ?_, h.within.concat (by simp [Seen.grants]), ?_⟩
  · intro w hw
    exact h.queued w (List.mem_of_mem_filter hw)
  · have hreq : requests [Seen.aborted id] = [] := rfl
    have hgr : grants [Seen.aborted id] = [] := rfl
    have hab : aborts [Seen.aborted id] = [id] := rfl
    have hfilter : standing (log ++ [.aborted id]) = (standing log).filter (fun x => x ≠ id) := by
      simp only [standing, requests_append, aborts_append, hreq, hab, List.append_nil,
        List.filter_filter]
      apply List.filter_congr
      intro x _
      by_cases hx : x = id <;> simp [hx]
    have hgrants : (grants log).filter (fun x => x ≠ id) = grants log := by
      rw [List.filter_eq_self]
      intro x hx
      simp only [decide_eq_true_eq]
      intro heq
      exact hnot (heq ▸ hx)
    have hwaiters : (waiters.map SemaphoreWaiter.id).filter (fun x => x ≠ id) =
        (waiters.filter fun w => ¬ (w.id = id ∧ w.state = .queued)).map SemaphoreWaiter.id := by
      rw [List.filter_map]
      congr 1
      apply List.filter_congr
      intro w hw
      simp [h.queued w hw]
    rw [hfilter, h.fifo, List.filter_append, hgrants, hwaiters, grants_append, hgr,
      List.append_nil]
  · simpa [requests] using h.requests_lt
  · intro x hx
    simp only [aborts_append, List.mem_append] at hx
    cases hx with
    | inl hx => exact h.aborts_lt x hx
    | inr hx =>
      have : x = id := by simpa [aborts] using hx
      exact this ▸ h.requests_lt id hrequested
  · simpa [requests] using h.nodup
  · simpa using h.quiet

/-! ## Granting -/

/-- With every waiter queued, the next grant goes to the head. -/
theorem grantNextWaiter_cons {s : Semaphore} {w : SemaphoreWaiter} {rest : List SemaphoreWaiter}
    (hs : s.waiters = w :: rest) (hw : w.state = .queued) :
    s.grantNextWaiter = some (w.id, { s with waiters := rest }) := by
  simp [grantNextWaiter, hs, grantNextWaiter.go, hw]

theorem grantNextWaiter_nil {s : Semaphore} (hs : s.waiters = []) :
    s.grantNextWaiter = none := by
  simp [grantNextWaiter, hs, grantNextWaiter.go]

theorem grantUpTo_nil (n : Nat) {s : Semaphore} (hs : s.waiters = []) :
    grantUpTo n s = ([], n, s) := by
  cases n with
  | zero => rfl
  | succ n => simp [grantUpTo, grantNextWaiter_nil hs]

/-- Notes of grants move no capacity and hand out one permit each. -/
theorem capacityAfter_grants (initial : Nat) (log : List Seen) (ids : List Nat) :
    capacityAfter initial (log ++ ids.map .granted) = capacityAfter initial log := by
  induction ids generalizing log with
  | nil => simp
  | cons id rest ih =>
    rw [List.map_cons, List.append_cons, ih, capacityAfter_concat]

theorem holders_grants (log : List Seen) (ids : List Nat) :
    holders (log ++ ids.map .granted) = holders log + ids.length := by
  induction ids generalizing log with
  | nil => simp
  | cons id rest ih =>
    rw [List.map_cons, List.append_cons, ih, holders_concat]
    simp [Seen.grants]
    omega

/-- `n` grants with room for all of them: the queue moves up in order, the counters stay, and a
    grant is left over only when nobody waits any more. -/
theorem grantUpTo_orderly (n : Nat) {s : Semaphore} (h : Orderly initial s.waiters next log)
    (hroom : 0 < n → holders log + n ≤ capacityAfter initial log) {ids : List Nat} {left : Nat}
    {s' : Semaphore} (hgrant : grantUpTo n s = (ids, left, s')) :
    Orderly initial s'.waiters next (log ++ ids.map .granted) ∧ ids.length + left = n ∧
      (0 < left → s'.waiters = []) ∧
      s'.capacity = s.capacity ∧ s'.value = s.value ∧ s'.debt = s.debt := by
  induction n generalizing s log ids left s' with
  | zero =>
    simp only [grantUpTo, Prod.mk.injEq] at hgrant
    obtain ⟨rfl, rfl, rfl⟩ := hgrant
    exact ⟨by simpa using h, rfl, fun hlt => absurd hlt (Nat.lt_irrefl 0), rfl, rfl, rfl⟩
  | succ n ih =>
    cases hw : s.waiters with
    | nil =>
      simp only [grantUpTo, grantNextWaiter_nil hw, Prod.mk.injEq] at hgrant
      obtain ⟨rfl, rfl, rfl⟩ := hgrant
      exact ⟨by simpa using h, by simp, fun _ => hw, rfl, rfl, rfl⟩
    | cons w rest =>
      rw [hw] at h
      have hnext := grantNextWaiter_cons hw (h.queued w List.mem_cons_self)
      simp only [grantUpTo, hnext] at hgrant
      cases hrec : grantUpTo n { s with waiters := rest } with
      | mk ids' tail =>
        obtain ⟨left', s''⟩ := tail
        simp only [hrec, Prod.mk.injEq] at hgrant
        obtain ⟨rfl, rfl, rfl⟩ := hgrant
        have hmore := hroom (Nat.succ_pos n)
        have hlt : holders log < capacityAfter initial log := by omega
        have hroom' : 0 < n → holders (log ++ [.granted w.id]) + n ≤
            capacityAfter initial (log ++ [.granted w.id]) := by
          intro _
          rw [holders_concat, capacityAfter_concat]
          simp only [Seen.grants, if_true, reduceCtorEq, if_false]
          omega
        obtain ⟨ho, hlen, hleft, hcap, hval, hdebt⟩ := ih (h.grant hlt) hroom' hrec
        rw [List.map_cons, List.append_cons]
        exact ⟨ho, by simp only [List.length_cons]; omega, hleft, hcap, hval, hdebt⟩

/-! ## Each call keeps the invariant -/

theorem acquire_inv (h : Inv initial u) (aborted : Bool) :
    Inv initial (step u (.acquire aborted)) := by
  obtain ⟨ho, hc⟩ := h
  cases aborted with
  | true =>
    refine ⟨ho.skip, ?_, ?_, hc.not_both, hc.waiters_nil⟩
    · simp only [step, holders_concat, Seen.grants]
      simpa using hc.held_eq
    · simp only [step, capacityAfter_concat]
      exact hc.capacity_eq
  | false =>
    by_cases hv : u.sem.value > 0
    · -- a free permit: the request is granted on the spot
      have hw : u.sem.waiters = [] := hc.waiters_nil hv
      have hdebt : u.sem.debt = 0 := by
        have := hc.not_both
        omega
      have hheld := hc.held_eq
      have hstep : step u (.acquire false) =
          ⟨{ u.sem with value := u.sem.value - 1 }, u.next + 1,
            u.log ++ [.requested u.next] ++ [.granted u.next]⟩ := by
        simp [step, acquire, hv]
      have hqueue := ho.request
      simp only [hw, List.nil_append] at hqueue
      have hroom : holders (u.log ++ [.requested u.next]) <
          capacityAfter initial (u.log ++ [.requested u.next]) := by
        have hcap := hc.capacity_eq
        simp only [holders_concat, capacityAfter_concat, Seen.grants, reduceCtorEq, if_false,
          Bool.false_eq_true]
        omega
      rw [hstep]
      refine ⟨?_, ?_, ?_, .inr hdebt, fun _ => hw⟩
      · show Orderly initial u.sem.waiters _ _
        rw [hw]
        exact hqueue.grant hroom
      · simp only [holders_concat, Seen.grants, reduceCtorEq, if_false, if_true,
          Bool.false_eq_true]
        omega
      · simp only [capacityAfter_concat]
        exact hc.capacity_eq
    · -- nothing free: the request joins the queue
      have hstep : step u (.acquire false) =
          ⟨{ u.sem with waiters := u.sem.waiters ++ [⟨u.next, .queued⟩] }, u.next + 1,
            u.log ++ [.requested u.next]⟩ := by
        simp [step, acquire, hv]
      rw [hstep]
      refine ⟨ho.request, ?_, ?_, hc.not_both, fun hpos => absurd hpos hv⟩
      · simp only [holders_concat, Seen.grants]
        simpa using hc.held_eq
      · simp only [capacityAfter_concat]
        exact hc.capacity_eq

theorem tryAcquire_inv (h : Inv initial u) : Inv initial (step u .tryAcquire) := by
  obtain ⟨ho, hc⟩ := h
  by_cases hv : u.sem.value > 0
  · have hw : u.sem.waiters = [] := hc.waiters_nil hv
    have hdebt : u.sem.debt = 0 := by
      have := hc.not_both
      omega
    have hheld := hc.held_eq
    have hcap := hc.capacity_eq
    have hstep : step u .tryAcquire =
        { u with sem := { u.sem with value := u.sem.value - 1 }, log := u.log ++ [.taken] } := by
      simp [step, tryAcquire, hv]
    rw [hstep]
    refine ⟨ho.note ⟨rfl, rfl, rfl, by simp⟩ (fun _ => by omega), ?_, ?_, .inr hdebt, fun _ => hw⟩
    · simp only [holders_concat, Seen.grants, reduceCtorEq, if_false, if_true]
      omega
    · simp only [capacityAfter_concat]
      exact hcap
  · have hstep : step u .tryAcquire = u := by simp [step, tryAcquire, hv]
    rw [hstep]
    exact ⟨ho, hc⟩

theorem abort_inv (h : Inv initial u) (id : Nat) : Inv initial (step u (.abort id)) := by
  obtain ⟨ho, hc⟩ := h
  simp only [step]
  split
  · rename_i hany
    simp only [List.any_eq_true, decide_eq_true_eq] at hany
    obtain ⟨w, hw, hid, -⟩ := hany
    refine ⟨ho.abort (List.mem_map.mpr ⟨w, hw, hid⟩), ?_, ?_, hc.not_both, ?_⟩
    · simp only [abortWaiter, holders_concat, Seen.grants]
      simpa using hc.held_eq
    · simp only [abortWaiter, capacityAfter_concat]
      exact hc.capacity_eq
    · intro hpos
      simp only [abortWaiter, hc.waiters_nil hpos, List.filter_nil]
  · exact ⟨ho, hc⟩

/-- Growing pays the debt before it grants, and shrinking takes free permits before it makes
    debt, so the two are never both positive. -/
theorem resize_inv (h : Inv initial u) (newCapacity : Option Rat) :
    Inv initial (step u (.resize newCapacity)) := by
  obtain ⟨ho, hc⟩ := h
  have hheld := hc.held_eq
  have hcap := hc.capacity_eq
  have hboth := hc.not_both
  cases newCapacity with
  | none =>
    refine ⟨?_, ?_, ?_, hboth, hc.waiters_nil⟩
    · exact ho.note ⟨rfl, rfl, rfl, by simp⟩ (by simp [Seen.grants])
    · simp only [step, resize, List.map_nil, holders_concat, Seen.grants]
      simpa using hheld
    · simp only [step, resize, List.map_nil, capacityAfter_concat]
  | some c =>
    simp only [step, resize]
    generalize (max 1 ⌊c⌋).toNat = next
    split
    · -- growing
      rename_i hgrow
      generalize hpaid : min (next - u.sem.capacity) u.sem.debt = paid
      cases hgrant : grantUpTo (next - u.sem.capacity - paid)
          { u.sem with capacity := next, debt := u.sem.debt - paid } with
      | mk ids tail =>
        obtain ⟨left, s'⟩ := tail
        have hnote : Orderly initial u.sem.waiters u.next (u.log ++ [.resized next]) :=
          ho.note ⟨rfl, rfl, rfl, by simp⟩ (by simp [Seen.grants])
        have hholders : holders (u.log ++ [.resized next]) = holders u.log := by
          rw [holders_concat]
          simp [Seen.grants]
        have hafter : capacityAfter initial (u.log ++ [.resized next]) = next :=
          capacityAfter_concat initial u.log _
        have hgrown : grantUpTo (next - u.sem.capacity - paid)
            ⟨u.sem.value, next, u.sem.waiters, u.sem.debt - paid⟩ = (ids, left, s') := hgrant
        by_cases hfree : 0 < u.sem.value
        · -- with free permits nobody waits and nothing is owed
          have hw : u.sem.waiters = [] := hc.waiters_nil hfree
          rw [grantUpTo_nil (s := ⟨u.sem.value, next, u.sem.waiters, u.sem.debt - paid⟩) _ hw]
            at hgrown
          simp only [Prod.mk.injEq] at hgrown
          obtain ⟨rfl, rfl, rfl⟩ := hgrown
          refine ⟨hnote, ?_, ?_, ?_, fun _ => hw⟩
          · simp only [List.map_nil, hholders]
            omega
          · simp only [List.map_nil, hafter]
          · exact .inr (by show u.sem.debt - paid = 0; omega)
        · have hroom : 0 < next - u.sem.capacity - paid →
              holders (u.log ++ [.resized next]) + (next - u.sem.capacity - paid : Nat) ≤
                capacityAfter initial (u.log ++ [.resized next]) := by
            intro hpos
            rw [hholders, hafter]
            omega
          obtain ⟨hord, hlen, hleft, hcap', hval', hdebt'⟩ :=
            grantUpTo_orderly (s := ⟨u.sem.value, next, u.sem.waiters, u.sem.debt - paid⟩)
              _ hnote hroom hgrown
          dsimp only at hcap' hval' hdebt' ⊢
          rw [hcap', List.append_cons]
          refine ⟨hord, ?_, ?_, ?_, ?_⟩
          · simp only [holders_grants, hholders]
            omega
          · simp only [capacityAfter_grants, hafter]
          · show s'.value + left = 0 ∨ s'.debt = 0
            omega
          · intro hpos
            apply hleft
            have : 0 < s'.value + left := hpos
            omega
    · -- shrinking, or the same capacity
      rename_i hshrink
      dsimp only
      refine ⟨?_, ?_, ?_, ?_, ?_⟩
      · exact ho.note ⟨rfl, rfl, rfl, by simp⟩ (by simp [Seen.grants])
      · simp only [List.map_nil, holders_concat, Seen.grants, reduceCtorEq, if_false,
          Bool.false_eq_true]
        omega
      · simp only [List.map_nil, capacityAfter_concat]
      · show u.sem.value - min (u.sem.capacity - next) u.sem.value = 0 ∨
          u.sem.debt + (u.sem.capacity - next - min (u.sem.capacity - next) u.sem.value) = 0
        omega
      · intro hpos
        apply hc.waiters_nil
        have : 0 < u.sem.value - min (u.sem.capacity - next) u.sem.value := hpos
        omega

/-- A returned permit pays debt, or goes to the head of the queue, or is free again; it never
    overflows the capacity when it was really held. -/
theorem release_inv (h : Inv initial u)
    (hheld : 0 < holders u.log) : Inv initial (step u .release) := by
  obtain ⟨ho, hc⟩ := h
  have hcount := hc.held_eq
  have hcap := hc.capacity_eq
  have hboth := hc.not_both
  have hnote : Orderly initial u.sem.waiters u.next (u.log ++ [.returned]) :=
    ho.note ⟨rfl, rfl, rfl, by simp⟩ (by simp [Seen.grants])
  have hholders : holders (u.log ++ [.returned]) = holders u.log - 1 := by
    rw [holders_concat]
    simp [Seen.grants]
  have hafter : capacityAfter initial (u.log ++ [.returned]) = u.sem.capacity := by
    rw [capacityAfter_concat]
    exact hcap.symm
  by_cases hdebt : u.sem.debt > 0
  · -- the permit pays debt
    have hstep : step u .release =
        { u with sem := { u.sem with debt := u.sem.debt - 1 }, log := u.log ++ [.returned] } := by
      simp [step, release, wokenByRelease, hdebt]
    rw [hstep]
    refine ⟨hnote, ?_, hafter.symm, .inl (by show u.sem.value = 0; omega), hc.waiters_nil⟩
    simp only [hholders]
    omega
  · cases hw : u.sem.waiters with
    | cons w rest =>
      -- the permit goes to the head of the queue
      rw [hw] at hnote ho
      have hnext := grantNextWaiter_cons hw (ho.queued w List.mem_cons_self)
      have hvalue : u.sem.value = 0 := by
        by_contra hne
        have := hc.waiters_nil (by omega)
        rw [hw] at this
        cases this
      have hstep : step u .release =
          { u with sem := { u.sem with waiters := rest },
                   log := u.log ++ [.returned] ++ [.granted w.id] } := by
        simp [step, release, wokenByRelease, hdebt, hnext]
      have hroom : holders (u.log ++ [.returned]) <
          capacityAfter initial (u.log ++ [.returned]) := by
        rw [hholders, hafter]
        omega
      rw [hstep]
      refine ⟨hnote.grant hroom, ?_, ?_, hboth, fun hpos => ?_⟩
      · rw [holders_concat, hholders]
        simp only [Seen.grants, if_true, reduceCtorEq, if_false]
        omega
      · rw [capacityAfter_concat, hafter]
      · have : 0 < u.sem.value := hpos
        omega
    | nil =>
      -- the permit is free again; it was held, so there is room for it
      have hnot : ¬ u.sem.value ≥ u.sem.capacity := by omega
      have hstep : step u .release =
          { u with sem := { u.sem with value := u.sem.value + 1 },
                   log := u.log ++ [.returned] } := by
        simp [step, release, wokenByRelease, hdebt, grantNextWaiter_nil hw, hnot]
      rw [hstep]
      refine ⟨hnote, ?_, hafter.symm, .inr (by show u.sem.debt = 0; omega), fun _ => hw⟩
      simp only [hholders]
      omega

theorem step_inv (u : Usage) (call : Call) (h : Inv initial u)
    (hp : Permitted u call) : Inv initial (step u call) := by
  cases call with
  | acquire aborted => exact acquire_inv h aborted
  | tryAcquire => exact tryAcquire_inv h
  | abort id => exact abort_inv h id
  | resize newCapacity => exact resize_inv h newCapacity
  | release => exact release_inv h hp

/-- **The semaphore invariant.** In every state of every run in which no more permits are
    returned than are held. -/
theorem semaphore_sound (initial : Nat) (calls : List Call)
    (hcalls : Along step Permitted (start initial) calls) :
    Always step (Sound initial) (start initial) calls :=
  (always_of_along step_inv (inv_start initial) hcalls).mono fun _ h => h.sound

/-- Three requests on two permits, a shrink to one, an abort, and returns that pay the debt
    before the capacity grows again. -/
theorem semaphore_sound_shrink :
    Always step (Sound 2) (start 2)
      [.acquire false, .acquire false, .acquire false, .acquire true, .acquire false,
       .resize (some 1), .abort 2, .release, .release, .tryAcquire, .resize (some (5 / 2)),
       .release] :=
  semaphore_sound 2 _ (by decide +kernel)

end Bobbit.Server.Semaphore
