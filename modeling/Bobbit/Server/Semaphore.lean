import Mathlib

/-!
# Counting semaphore

Model of `src/server/agent/semaphore.ts`. A waiter is named by the number its
`acquire` call was given; resolving or rejecting its promise is reported in the
result of the operation that does it.
-/

namespace Bobbit.Server

/-- The state of a queued `acquire`. -/
inductive WaiterState
  | queued
  | granted
  | aborted
deriving DecidableEq

/-- A queued `acquire` call. -/
structure SemaphoreWaiter where
  id : Nat
  state : WaiterState
deriving DecidableEq

/-- `debt` counts the permits that a shrink could not take back because they
    were held; each later `release` pays one of them down. -/
structure Semaphore where
  value : Nat
  capacity : Nat
  waiters : List SemaphoreWaiter
  debt : Nat
deriving DecidableEq

namespace Semaphore

def new (initial : Nat) : Semaphore := ⟨initial, initial, [], 0⟩

def available (s : Semaphore) : Nat := s.value

/-- Permits in the hands of callers. -/
def held (s : Semaphore) : Int := s.capacity + s.debt - s.value

/-- `_grantNextWaiter`: shift waiters until one is still queued and resolve it. -/
def grantNextWaiter (s : Semaphore) : Option (Nat × Semaphore) :=
  go s.waiters
where
  go : List SemaphoreWaiter → Option (Nat × Semaphore)
    | [] => none
    | w :: rest =>
      if w.state = .queued then some (w.id, { s with waiters := rest }) else go rest

/-- Grant up to `n` waiters; returns the ids granted and how many grants are left. -/
def grantUpTo : Nat → Semaphore → List Nat × Nat × Semaphore
  | 0, s => ([], 0, s)
  | n + 1, s =>
    match s.grantNextWaiter with
    | none => ([], n + 1, s)
    | some (id, s') =>
      let (ids, left, s'') := grantUpTo n s'
      (id :: ids, left, s'')

/-- `resize`; `none` is NaN or +∞, which the finiteness check drops (−∞ is clamped to 1 like every
    other capacity below it). Growing pays down debt,
    then wakes waiters, then frees slots; shrinking takes free slots and records
    the rest as debt. Returns the ids of the waiters it wakes. -/
def resize (s : Semaphore) (newCapacity : Option Rat) : List Nat × Semaphore :=
  match newCapacity with
  | none => ([], s)
  | some c =>
    let next := (max 1 ⌊c⌋).toNat
    if next > s.capacity then
      let delta := next - s.capacity
      let paid := min delta s.debt
      let (ids, left, s') := grantUpTo (delta - paid) { s with capacity := next, debt := s.debt - paid }
      (ids, { s' with value := s'.value + left })
    else
      let toRemove := s.capacity - next
      let fromValue := min toRemove s.value
      ([], { s with capacity := next
                    value := s.value - fromValue
                    debt := s.debt + (toRemove - fromValue) })

/-- `acquire` without a pre-aborted signal: take a free permit or queue `id`. -/
def acquire (s : Semaphore) (id : Nat) : Bool × Semaphore :=
  if s.value > 0 then (true, { s with value := s.value - 1 })
  else (false, { s with waiters := s.waiters ++ [⟨id, .queued⟩] })

/-- `tryAcquire`: take a permit if one is free, never queue. -/
def tryAcquire (s : Semaphore) : Option Semaphore :=
  if s.value > 0 then some { s with value := s.value - 1 } else none

/-- `release`; the error is the over-release that the source throws. -/
def release (s : Semaphore) : Except String Semaphore :=
  if s.debt > 0 then .ok { s with debt := s.debt - 1 }
  else match s.grantNextWaiter with
    | some (_, s') => .ok s'
    | none =>
      if s.value ≥ s.capacity then
        .error s!"Semaphore over-release: value would exceed capacity ({s.capacity})"
      else .ok { s with value := s.value + 1 }

/-- `_abortWaiter`: remove a queued waiter by identity. -/
def abortWaiter (s : Semaphore) (id : Nat) : Semaphore :=
  { s with waiters := s.waiters.filter (fun w => ¬ (w.id = id ∧ w.state = .queued)) }

/-! ## Without waiters -/

/-- A semaphore whose callers never queue and whose capacity was never shrunk. -/
def Plain (s : Semaphore) : Prop := s.waiters = [] ∧ s.debt = 0

theorem new_plain (n : Nat) : (new n).Plain := ⟨rfl, rfl⟩

@[simp] theorem new_held (n : Nat) : (new n).held = 0 := by simp [held, new]

/-- A successful `tryAcquire` hands out one more permit. -/
theorem tryAcquire_some {s s' : Semaphore} (h : s.tryAcquire = some s') :
    s'.held = s.held + 1 ∧ s'.capacity = s.capacity ∧ (s.Plain → s'.Plain) := by
  simp only [tryAcquire] at h
  split at h
  · rw [Option.some.injEq] at h
    subst h
    refine ⟨?_, rfl, id⟩
    simp only [held]
    omega
  · exact absurd h (by simp)

/-- A plain semaphore with a permit out takes one back without an error. -/
theorem release_plain {s : Semaphore} (hp : s.Plain) (hheld : 0 < s.held) :
    ∃ s', s.release = .ok s' ∧ s'.held = s.held - 1 ∧ s'.capacity = s.capacity ∧ s'.Plain := by
  obtain ⟨hw, hd⟩ := hp
  simp only [held, hd] at hheld
  refine ⟨{ s with value := s.value + 1 }, ?_, ?_, rfl, hw, hd⟩
  · have hnot : ¬ s.value ≥ s.capacity := by omega
    simp [release, hd, grantNextWaiter, grantNextWaiter.go, hw, hnot]
  · simp only [held]
    omega

end Semaphore

end Bobbit.Server
