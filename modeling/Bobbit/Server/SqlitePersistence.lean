import Bobbit.Lib.JsMap
import Bobbit.Lib.JsSet

/-!
# Coalesced SQLite persistence

Model of `SqliteGatePersistence` in `src/server/agent/gate-store.ts` and of
`SqliteTaskPersistence` in `src/server/agent/task-store.ts`, which differ in their
row types only. A store mutates its rows in memory and schedules their keys; a
drain, running as a microtask, writes whatever the dirty keys hold at that moment
in one transaction and settles the barriers that were requested before it.

The microtask queue is part of the state: `jobs` are run one after the other,
oldest first. Calls of the store may come between any two of them.
-/

namespace Bobbit.Server

open Lib

/-- What a publication tells those who wait for it: the rows of the written keys
    immediately before and after the write. -/
structure Publication (κ α : Type) where
  previous : κ → Option α
  current : κ → Option α

/-- A durable write: the keys, and the durable rows before and after it. -/
structure Write (κ α : Type) where
  keys : List κ
  before : κ → Option α
  after : κ → Option α
  /-- other rows stay as they are -/
  frame : ∀ key, key ∉ keys → after key = before key

/-- A barrier, with the continuation that waits for it; `flush` has none. -/
structure Barrier (ω : Type) where
  revision : Nat
  waiter : Option ω

/-- A microtask. `ω` are the continuations of strict publications, `ε` the other
    microtasks of the store. -/
inductive Job (κ α ω ε : Type)
  /-- the reaction of `startDrain` that drains -/
  | drain
  /-- the `finally` after it -/
  | drained
  /-- `queueMicrotask(() => this.startDrain())` -/
  | startDrain
  /-- the reaction of a resolved barrier, which reads `lastPublication` -/
  | published (waiter : ω)
  /-- the same reaction, of a rejected barrier -/
  | rejected (waiter : ω)
  /-- the continuation gets publication `number` -/
  | report (waiter : ω) (publication : Publication κ α) (number : Nat)
  /-- the continuation gets the error -/
  | rethrow (waiter : ω)
  | other (job : ε)

/-- The persistence, with the rows of its store and the microtask queue. The last
    two fields are history: the durable writes so far, and what the continuations
    have reported, each with the number of its publication. -/
structure SqlitePersistence (κ α ω ε φ : Type) where
  rows : JsMap κ α
  durable : κ → Option α
  dirty : JsSet κ
  revision : Nat
  publishedRevision : Nat
  requested : Bool
  timer : Bool
  inFlight : Bool
  barriers : List (Barrier ω)
  lastPublication : Publication κ α
  jobs : List (Job κ α ω ε)
  writes : List (Write κ α)
  reported : List (Nat × φ)

variable {κ α ω ε φ : Type}

namespace Write

variable [DecidableEq κ]

def publication (write : Write κ α) : Publication κ α where
  previous key := if key ∈ write.keys then write.before key else none
  current key := if key ∈ write.keys then write.after key else none

end Write

namespace SqlitePersistence

variable [DecidableEq κ]

/-- A fresh persistence over loaded rows. -/
def loaded (rows : JsMap κ α) : SqlitePersistence κ α ω ε φ where
  rows := rows
  durable := rows.get?
  dirty := .empty
  revision := 0
  publishedRevision := 0
  requested := false
  timer := false
  inFlight := false
  barriers := []
  lastPublication := ⟨fun _ => none, fun _ => none⟩
  jobs := []
  writes := []
  reported := []

def enqueue (s : SqlitePersistence κ α ω ε φ) (job : Job κ α ω ε) : SqlitePersistence κ α ω ε φ :=
  { s with jobs := s.jobs ++ [job] }

def schedule (s : SqlitePersistence κ α ω ε φ) (keys : List κ) : SqlitePersistence κ α ω ε φ :=
  if keys = [] then s
  else
    { s with
      dirty := s.dirty.addAll keys
      revision := s.revision + 1
      requested := true
      timer := s.timer || ! s.inFlight }

def startDrain (s : SqlitePersistence κ α ω ε φ) : SqlitePersistence κ α ω ε φ :=
  if s.inFlight then s else { s with inFlight := true, jobs := s.jobs ++ [.drain] }

def requestBarrier (s : SqlitePersistence κ α ω ε φ) (waiter : Option ω) :
    SqlitePersistence κ α ω ε φ :=
  let barrier : Barrier ω := ⟨s.revision + 1, waiter⟩
  { s with
    revision := s.revision + 1
    requested := true
    timer := false
    barriers := s.barriers ++ [barrier] }.startDrain

/-- `publishStrict`, with the continuation of the caller. -/
def publishStrict (s : SqlitePersistence κ α ω ε φ) (keys : List κ) (waiter : ω) :
    SqlitePersistence κ α ω ε φ :=
  { s with dirty := s.dirty.addAll keys }.requestBarrier (some waiter)

def hasPendingWork (s : SqlitePersistence κ α ω ε φ) : Bool :=
  ! s.dirty.isEmpty || s.requested || s.inFlight || s.timer

def flush (s : SqlitePersistence κ α ω ε φ) : SqlitePersistence κ α ω ε φ :=
  if s.hasPendingWork then s.requestBarrier none else s

def timerFired (s : SqlitePersistence κ α ω ε φ) : SqlitePersistence κ α ω ε φ :=
  if s.timer then { s with timer := false }.startDrain else s

def nextWrite (s : SqlitePersistence κ α ω ε φ) : Write κ α where
  keys := s.dirty.members
  before := s.durable
  after key := if key ∈ s.dirty.members then s.rows.get? key else s.durable key
  frame _ hkey := if_neg hkey

/-- The continuations of some barriers. -/
def waitersOf (barriers : List (Barrier ω)) : List ω := barriers.filterMap (·.waiter)

/-- One turn of the loop of `drain`, when the transaction commits. -/
def drainCommitted (s : SqlitePersistence κ α ω ε φ) : SqlitePersistence κ α ω ε φ :=
  let publishedRevision := max s.publishedRevision s.revision
  let settled := s.barriers.filter (·.revision ≤ publishedRevision)
  { s with
    requested := false
    dirty := .empty
    durable := s.nextWrite.after
    lastPublication := s.nextWrite.publication
    publishedRevision := publishedRevision
    barriers := s.barriers.filter (¬ ·.revision ≤ publishedRevision)
    jobs := s.jobs ++ (waitersOf settled).map .published
    writes := s.writes ++ [s.nextWrite] }

/-- One turn of the loop of `drain`, when the transaction fails. -/
def drainFailed (s : SqlitePersistence κ α ω ε φ) : SqlitePersistence κ α ω ε φ :=
  let settled := s.barriers.filter (·.revision ≤ s.revision)
  { s with
    requested := false
    barriers := s.barriers.filter (¬ ·.revision ≤ s.revision)
    jobs := s.jobs ++ (waitersOf settled).map .rejected }

/-- `drain`, then the `finally` of `startDrain` is queued. Nothing else runs during
    the loop, so no turn follows the first. -/
def drain (s : SqlitePersistence κ α ω ε φ) (fails : Bool) : SqlitePersistence κ α ω ε φ :=
  (if ! s.requested then s else if fails then s.drainFailed else s.drainCommitted).enqueue .drained

/-- The `finally` of `startDrain`. -/
def drained (s : SqlitePersistence κ α ω ε φ) : SqlitePersistence κ α ω ε φ :=
  let s := { s with inFlight := false }
  if s.requested then s.enqueue .startDrain else s

/-- The reaction of a resolved barrier: the continuation gets `lastPublication`. -/
def published (s : SqlitePersistence κ α ω ε φ) (waiter : ω) : SqlitePersistence κ α ω ε φ :=
  s.enqueue (.report waiter s.lastPublication s.writes.length)

/-- A continuation reports facts about a publication. -/
def report (s : SqlitePersistence κ α ω ε φ) (number : Nat) (facts : List φ) :
    SqlitePersistence κ α ω ε φ :=
  { s with reported := s.reported ++ facts.map fun fact => (number, fact) }

/-- Go on with the microtask that is running, before all others. -/
def resume (s : SqlitePersistence κ α ω ε φ) (job : ε) : SqlitePersistence κ α ω ε φ :=
  { s with jobs := .other job :: s.jobs }

/-- Take the oldest microtask off the queue. -/
def popped (s : SqlitePersistence κ α ω ε φ) : SqlitePersistence κ α ω ε φ :=
  { s with jobs := s.jobs.tail }

/-- The barriers that `settlePublished` resolves when a drain commits now. -/
def resolved (s : SqlitePersistence κ α ω ε φ) : List (Barrier ω) :=
  s.barriers.filter (·.revision ≤ max s.publishedRevision s.revision)

/-- The barriers that `settleFailed` rejects when a drain fails now. -/
def rejected (s : SqlitePersistence κ α ω ε φ) : List (Barrier ω) :=
  s.barriers.filter (·.revision ≤ s.revision)

/-- The oldest microtask runs. Of those that belong to the store nothing is left but
    their calls, which are events of their own. -/
def runJob (s : SqlitePersistence κ α ω ε φ) (fails : Bool) : SqlitePersistence κ α ω ε φ :=
  match s.jobs with
  | [] => s
  | .drain :: _ => s.popped.drain fails
  | .drained :: _ => s.popped.drained
  | .startDrain :: _ => s.popped.startDrain
  | .published waiter :: _ => s.popped.published waiter
  | .rejected waiter :: _ => s.popped.enqueue (.rethrow waiter)
  | _ => s.popped

/-- What can happen to a persistence. -/
inductive Event (κ α ω ε : Type)
  /-- the store changes its rows -/
  | mutate (rows : JsMap κ α)
  | schedule (keys : List κ)
  | publishStrict (keys : List κ) (waiter : ω)
  | flush
  | timerFired
  /-- the store queues a microtask -/
  | enqueue (job : ε)
  | runJob (fails : Bool)

def step (s : SqlitePersistence κ α ω ε φ) : Event κ α ω ε → SqlitePersistence κ α ω ε φ
  | .mutate rows => { s with rows := rows }
  | .schedule keys => s.schedule keys
  | .publishStrict keys waiter => s.publishStrict keys waiter
  | .flush => s.flush
  | .timerFired => s.timerFired
  | .enqueue job => s.enqueue (.other job)
  | .runJob fails => s.runJob fails

end SqlitePersistence

end Bobbit.Server
