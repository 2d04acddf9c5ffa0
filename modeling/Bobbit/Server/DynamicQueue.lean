import Bobbit.Lib.Run

/-!
# The bounded dynamic queue (`server/agent/bounded-async-work.ts`)

`processDynamicQueue` runs one worker call per item, at most `limit` at a time. The running
workers may offer more items, which wait in `pending`, at most `maxQueued` of them; a failure
stops the intake and the promise settles once nothing is running.

What the event loop decides is an event: a worker call that was scheduled begins
(`Promise.resolve().then(...)`), a running worker offers an item, a running worker's promise
settles, the deferred turn (`setImmediate`) comes. The queue's closure variables are the fields
of `Queue`. Three more fields say what the outside sees, and no function of the source reads them:
`calls`, every worker call with where it stands; `started`, the items the worker was
invoked with; `accepted`, the items `tryEnqueue` answered `true` for; `failures`, the errors in
the order they were recorded.
-/

namespace Bobbit.Server.DynamicQueue

/-- `COOPERATIVE_YIELD_INTERVAL`. -/
def cooperativeYieldInterval : Nat := 256

/-- The arguments of `processDynamicQueue` once they are validated. -/
structure Config (α : Type*) where
  initialItems : List α
  limit : Nat
  maxQueued : Nat
  limit_pos : 0 < limit
  maxQueued_pos : 0 < maxQueued

/-- `validateConcurrency` and the check of `maxQueued`, with the texts of the `RangeError`s;
    `options.maxQueued` defaults to the limit. -/
def configure {α : Type*} (initialItems : List α) (limit : Int) (maxQueued : Option Int) :
    Except String (Config α) :=
  if hlimit : limit ≤ 0 then
    .error "concurrency limit must be a positive integer"
  else if hqueued : maxQueued.getD limit ≤ 0 then
    .error "pending queue limit must be a positive integer"
  else
    .ok {
      initialItems := initialItems
      limit := limit.toNat
      maxQueued := (maxQueued.getD limit).toNat
      limit_pos := by omega
      maxQueued_pos := by omega }

/-- Where one worker call stands: its item is taken and the call scheduled, the worker runs, or
    its promise has settled. -/
inductive Phase (ε : Type*) where
  | taken
  | running
  | completed
  | failed (error : ε)
  deriving DecidableEq, Repr

structure Call (α ε : Type*) where
  item : α
  phase : Phase ε
  deriving DecidableEq, Repr

/-- The call's promise has not settled. -/
def Call.unsettled {α ε : Type*} (call : Call α ε) : Bool :=
  match call.phase with
  | .taken | .running => true
  | .completed | .failed _ => false

def Call.begun {α ε : Type*} (call : Call α ε) : Bool :=
  match call.phase with
  | .taken => false
  | .running | .completed | .failed _ => true

/-- The state of one `processDynamicQueue`: its closure variables, the first settlement of its
    promise, and the logs. -/
structure Queue (α ε : Type*) where
  initialCursor : Nat := 0
  pending : List α := []
  pendingCursor : Nat := 0
  active : Nat := 0
  stopped : Bool := false
  firstError : Option ε := none
  completionsSinceYield : Nat := 0
  yieldScheduled : Bool := false
  settled : Option (Except ε Unit) := none
  calls : List (Call α ε) := []
  started : List α := []
  accepted : List α := []
  failures : List ε := []

/-- What the event loop may do next; `call` is the call's place in `calls`, the outcome of
    `finish` the error of a rejected promise. -/
inductive Event (α ε : Type*) where
  | begin (call : Nat)
  | offer (call : Nat) (item : α)
  | finish (call : Nat) (error : Option ε)
  | immediate

variable {α ε : Type*} (c : Config α)

def pendingLength (q : Queue α ε) : Nat := q.pending.length - q.pendingCursor

def hasWork (q : Queue α ε) : Bool :=
  0 < pendingLength q || q.initialCursor < c.initialItems.length

/-- One round of the loop of `schedule`: `takeWork`, `active++` and the scheduled call. -/
def takeWork (q : Queue α ε) : Queue α ε :=
  let take (item : α) (q : Queue α ε) : Queue α ε :=
    { q with active := q.active + 1, calls := q.calls ++ [⟨item, .taken⟩] }
  match q.pending[q.pendingCursor]? with
  | some item =>
    -- the consumed front of `pending` is dropped once it is long
    if cooperativeYieldInterval ≤ q.pendingCursor + 1 ∧
        q.pending.length ≤ (q.pendingCursor + 1) * 2 then
      take item { q with pending := q.pending.drop (q.pendingCursor + 1), pendingCursor := 0 }
    else
      take item { q with pendingCursor := q.pendingCursor + 1 }
  | none =>
    match c.initialItems[q.initialCursor]? with
    | some item => take item { q with initialCursor := q.initialCursor + 1 }
    -- `hasWork` excludes this
    | none => q

/-- `while (active < limit && hasWork())`; every round takes one place of the room left. -/
def takeWhileRoom : Nat → Queue α ε → Queue α ε
  | 0, q => q
  | room + 1, q => if hasWork c q then takeWhileRoom room (takeWork c q) else q

/-- A promise keeps its first settlement. -/
def settle (result : Except ε Unit) (q : Queue α ε) : Queue α ε :=
  match q.settled with
  | some _ => q
  | none => { q with settled := some result }

def settleIfDone (q : Queue α ε) : Queue α ε :=
  if q.active ≠ 0 then q
  else if q.stopped then
    match q.firstError with
    | some error => settle (.error error) q
    -- `stopped` is only set with the error
    | none => q
  else if hasWork c q then q
  else settle (.ok ()) q

def schedule (q : Queue α ε) : Queue α ε :=
  if q.stopped || q.yieldScheduled then settleIfDone c q
  else settleIfDone c (takeWhileRoom c (c.limit - q.active) q)

/-- `controller.tryEnqueue`: the answer and the queue it leaves. -/
def tryEnqueue (item : α) (q : Queue α ε) : Bool × Queue α ε :=
  if q.stopped || c.maxQueued ≤ pendingLength q then (false, q)
  else
    (true, schedule c
      { q with pending := q.pending ++ [item], accepted := q.accepted ++ [item] })

/-- The first part of `afterWork`: the first failure stops the intake and empties the queue. -/
def recordOutcome (error : Option ε) (q : Queue α ε) : Queue α ε :=
  match error with
  | none => q
  | some error =>
    let q := { q with failures := q.failures ++ [error] }
    if q.stopped then q
    else
      { q with
        stopped := true, firstError := some error, pending := [], pendingCursor := 0
        initialCursor := c.initialItems.length }

def afterWork (error : Option ε) (q : Queue α ε) : Queue α ε :=
  let q := recordOutcome c error { q with active := q.active - 1 }
  let q := { q with completionsSinceYield := q.completionsSinceYield + 1 }
  let q :=
    if !q.stopped && cooperativeYieldInterval ≤ q.completionsSinceYield && hasWork c q then
      { q with completionsSinceYield := 0, yieldScheduled := true }
    else schedule c q
  settleIfDone c q

/-- The call at a place moves on to another phase. -/
def setPhase (call : Nat) (phase : Phase ε) (q : Queue α ε) : Queue α ε :=
  { q with calls := q.calls.modify call fun made => { made with phase := phase } }

/-- The settlement of a worker's promise. -/
def Phase.ofOutcome : Option ε → Phase ε
  | none => .completed
  | some error => .failed error

/-- One event. An event that cannot happen (a call that never was, a worker that does not run, a
    turn nobody asked for) changes nothing. -/
def step (q : Queue α ε) (event : Event α ε) : Queue α ε :=
  match event with
  | .begin call =>
    match q.calls[call]? with
    | some ⟨item, .taken⟩ => setPhase call .running { q with started := q.started ++ [item] }
    | _ => q
  | .offer call item =>
    match q.calls[call]? with
    | some ⟨_, .running⟩ => (tryEnqueue c item q).2
    | _ => q
  | .finish call error =>
    match q.calls[call]? with
    | some ⟨_, .running⟩ => afterWork c error (setPhase call (.ofOutcome error) q)
    | _ => q
  | .immediate => if q.yieldScheduled then schedule c { q with yieldScheduled := false } else q

/-- `processDynamicQueue` as far as it runs before its first `await`. -/
def processDynamicQueue : Queue α ε :=
  if c.initialItems.isEmpty then { settled := some (.ok ()) }
  else schedule c {}

end Bobbit.Server.DynamicQueue
