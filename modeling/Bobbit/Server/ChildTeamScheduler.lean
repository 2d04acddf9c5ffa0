import Mathlib
import Bobbit.Lib.Run
import Bobbit.Server.Semaphore

/-!
# Child team scheduler

Model of `src/server/agent/child-team-scheduler.ts`: one permit pool for each
root goal, a queue of parked child starts, retry timers and repair promises.

The state holds the scheduler's own maps together with the asynchronous work it
has set going: the promises of `startChildTeam` still outstanding (`starts`),
the armed retry timers, and the outstanding repair promises. Request records
live in `heap`, so that a callback that closed over a record keeps referring to
it after the request map has moved on.

A label of `step` is one entry into the scheduler: a call, or the delivery of
one callback. What the dependencies answer during that entry comes with the
label (`SchedulerDeps`).
-/

namespace Bobbit.Server

abbrev GoalId := String

/-- The child-goal projection used for eligibility. -/
structure SchedulerChildView where
  archived : Bool
  rootGoalId : Option GoalId
  parentGoalId : Option GoalId
  paused : Bool

/-- A thrown or rejected value: its `code` and `message` where they are strings,
    and `String(err)`. -/
structure StartError where
  code : Option String
  message : Option String
  text : String

/-- What `startChildTeam` does before it returns. -/
inductive StartResult
  | promise
  | returned
  | threw (err : StartError)

/-- The answers of the dependencies during one entry. A `resolveCap` of `none`
    is a number that is not finite. -/
structure SchedulerDeps where
  resolveCap : GoalId → Option Nat
  getChild : GoalId → Option SchedulerChildView
  startChildTeam : GoalId → StartResult
  hasLiveTeam : GoalId → Bool
  /-- whether `repairUnavailableLead` is provided -/
  repairUnavailableLead : Bool
  now : Nat

structure Failure where
  code : String
  reason : String
deriving DecidableEq

inductive SchedulerRecovery
  | child (rootGoalId childGoalId : GoalId) (failure : Failure) (retryable : Bool)
  | root (rootGoalId : GoalId) (affectedChildGoalIds : List GoalId) (failure : Failure)
      (retryable : Bool)
deriving DecidableEq

/-- A call the scheduler makes into its dependencies. -/
inductive SchedulerEffect
  | startChildTeam (child : GoalId)
  | repairUnavailableLead (child : GoalId)
  | onRecovery (recovery : SchedulerRecovery)
  | onChildRecoveryCleared (child : GoalId)
  | onRootRecoveryCleared (root : GoalId)
deriving DecidableEq

structure RequestState where
  generation : Nat
  attempts : Nat
  terminal : Bool
  repairAttempted : Bool
  timer : Option Nat
deriving DecidableEq

structure Watchdog where
  count : Nat
  startedAt : Nat
  tripped : Bool
deriving DecidableEq

/-- An outstanding promise of `startChildTeam` and what its callbacks closed over. -/
structure StartCall where
  id : Nat
  root : GoalId
  child : GoalId
  request : Nat
  generation : Nat
deriving DecidableEq

/-- An armed retry timer and what its callback closed over. -/
structure RetryTimer where
  id : Nat
  root : GoalId
  child : GoalId
  generation : Nat
  delay : Nat
deriving DecidableEq

/-- An outstanding repair promise and what its callbacks closed over. -/
structure RepairCall where
  id : Nat
  root : GoalId
  child : GoalId
  request : Nat
deriving DecidableEq

/-- What has happened to starts under a root, for stating the permit law. -/
inductive StartEvent
  | started (id : Nat) (root child : GoalId)
  | succeeded (id : Nat)
  | failed (id : Nat)
  | terminal (child : GoalId)
deriving DecidableEq

/-- The scheduler and its outstanding work. `log` and `effects` grow at the head. -/
structure ChildTeamScheduler where
  semaphores : GoalId → Option Semaphore
  pending : GoalId → List GoalId
  holding : GoalId → AList (fun _ : GoalId => Nat)
  childRoot : GoalId → Option GoalId
  requests : GoalId → Option Nat
  watchdogs : GoalId → Option Watchdog
  heap : Nat → RequestState
  nextId : Nat
  starts : List StartCall
  timers : List RetryTimer
  repairs : List RepairCall
  log : List StartEvent
  effects : List SchedulerEffect

def permanentCodes : List String :=
  ["TEAM_ALREADY_ACTIVE", "GOAL_NOT_FOUND", "GOAL_ARCHIVED", "TEAM_DISABLED",
   "GOAL_BLOCKED", "GOAL_COMPLETE", "GOAL_SHELVED", "GOAL_PAUSED"]

def maxTransientAttempts : Nat := 8
def retryBaseMs : Nat := 100
def retryMaxMs : Nat := 5000
def watchdogLimit : Nat := 32
def watchdogWindowMs : Nat := 1000

namespace ChildTeamScheduler

/-- A scheduler that has done nothing. -/
def new : ChildTeamScheduler where
  semaphores _ := none
  pending _ := []
  holding _ := ∅
  childRoot _ := none
  requests _ := none
  watchdogs _ := none
  heap _ := ⟨0, 0, false, false, none⟩
  nextId := 0
  starts := []
  timers := []
  repairs := []
  log := []
  effects := []

/-! ## Small transitions -/

def emit (s : ChildTeamScheduler) (e : SchedulerEffect) : ChildTeamScheduler :=
  { s with effects := e :: s.effects }

def setPending (s : ChildTeamScheduler) (root : GoalId) (q : List GoalId) : ChildTeamScheduler :=
  { s with pending := Function.update s.pending root q }

def setRequest (s : ChildTeamScheduler) (id : Nat) (r : RequestState) : ChildTeamScheduler :=
  { s with heap := Function.update s.heap id r }

/-- The generation recorded for the permit that `child` holds under `root`. -/
abbrev heldGeneration (s : ChildTeamScheduler) (root child : GoalId) : Option Nat :=
  (s.holding root).lookup child

/-- `getSemaphore`, for its effect on the map. -/
def getSemaphore (deps : SchedulerDeps) (s : ChildTeamScheduler) (root : GoalId) :
    ChildTeamScheduler :=
  match s.semaphores root with
  | some _ => s
  | none =>
    let sem := Semaphore.new ((deps.resolveCap root).getD 3)
    { s with semaphores := Function.update s.semaphores root (some sem) }

/-- `_rootOf`, with the empty id read as absent, as every caller does. -/
def rootOf (deps : SchedulerDeps) (s : ChildTeamScheduler) (child : GoalId) : Option GoalId :=
  let view := deps.getChild child
  ((view.bind (·.rootGoalId)).orElse fun _ =>
    (view.bind (·.parentGoalId)).orElse fun _ => s.childRoot child).filter (· ≠ "")

/-- `clearTimer` on an optional timer. -/
def clearTimer (s : ChildTeamScheduler) (timer : Option Nat) : ChildTeamScheduler :=
  { s with timers := s.timers.filter fun t => timer ≠ some t.id }

def newRequest (s : ChildTeamScheduler) (child : GoalId) : ChildTeamScheduler :=
  let old := (s.requests child).map s.heap
  let s := s.clearTimer (old.bind (·.timer))
  let generation := (old.map (·.generation)).getD 0 + 1
  let next : RequestState := ⟨generation, 0, false, false, none⟩
  { s with requests := Function.update s.requests child (some s.nextId)
           heap := Function.update s.heap s.nextId next
           nextId := s.nextId + 1 }

def clearRequest (s : ChildTeamScheduler) (child : GoalId) : ChildTeamScheduler :=
  let s := s.clearTimer ((s.requests child).bind fun id => (s.heap id).timer)
  { s with requests := Function.update s.requests child none }

def isHolding (s : ChildTeamScheduler) (root child : GoalId) : Bool :=
  (s.heldGeneration root child).isSome

def markHolding (s : ChildTeamScheduler) (root child : GoalId) (generation : Nat) :
    ChildTeamScheduler :=
  { s with holding := Function.update s.holding root ((s.holding root).insert child generation) }

/-- `_releaseHeldStart`: the state without the hold, or `none` when there is no
    hold or its generation is another one. -/
def releaseHeldStart (s : ChildTeamScheduler) (root child : GoalId) (generation : Option Nat) :
    Option ChildTeamScheduler :=
  match s.heldGeneration root child with
  | none => none
  | some held =>
    if generation.any (· ≠ held) then none
    else some { s with holding := Function.update s.holding root ((s.holding root).erase child) }

/-- `semaphores.get(root)?.release()`. -/
def releasePermit (s : ChildTeamScheduler) (root : GoalId) : ChildTeamScheduler :=
  match s.semaphores root with
  | none => s
  | some sem =>
    match sem.release with
    | .ok sem' => { s with semaphores := Function.update s.semaphores root (some sem') }
    | .error _ => s

def enqueue (s : ChildTeamScheduler) (root child : GoalId) : ChildTeamScheduler :=
  if child ∈ s.pending root then s else s.setPending root (s.pending root ++ [child])

def removePending (s : ChildTeamScheduler) (root child : GoalId) : ChildTeamScheduler :=
  s.setPending root ((s.pending root).erase child)

/-- `_failure`. -/
def failureOf (err : StartError) (fallback : String) : Failure :=
  ⟨err.code.getD fallback, err.message.getD err.text⟩

def needsOperatorAction (code : String) : Bool :=
  code ∉ ["GOAL_NOT_FOUND", "GOAL_COMPLETE", "GOAL_ARCHIVED", "GOAL_BLOCKED", "GOAL_PAUSED"]

def clearWatchdog (s : ChildTeamScheduler) (root : GoalId) (notify : Bool) : ChildTeamScheduler :=
  let tripped := (s.watchdogs root).any (·.tripped)
  let s := { s with watchdogs := Function.update s.watchdogs root none }
  if tripped && notify then s.emit (.onRootRecoveryCleared root) else s

/-- The breaker's window after one more unproductive re-drive: a fresh one when
    there is none or the old one has run out. -/
def bumpWatchdog (now : Nat) (old : Option Watchdog) : Watchdog :=
  let fresh : Watchdog := ⟨0, now, false⟩
  let w := match old with
    | none => fresh
    | some w => if now - w.startedAt > watchdogWindowMs then fresh else w
  { w with count := w.count + 1 }

/-- `_recordUnproductiveRedrive`: the breaker's verdict and the new state. -/
def recordUnproductiveRedrive (deps : SchedulerDeps) (s : ChildTeamScheduler) (root : GoalId) :
    Bool × ChildTeamScheduler :=
  let w := bumpWatchdog deps.now (s.watchdogs root)
  if w.count ≤ watchdogLimit ∨ w.tripped then
    (w.tripped, { s with watchdogs := Function.update s.watchdogs root (some w) })
  else
    let s := { s with watchdogs := Function.update s.watchdogs root (some { w with tripped := true }) }
    (true, s.emit (.onRecovery (.root root (s.pending root).dedup
      ⟨"SCHEDULER_CIRCUIT_OPEN", "unproductive immediate re-drive storm"⟩ true)))

/-- `_discardIfLive`: the verdict and the new state. -/
def discardIfLive (deps : SchedulerDeps) (s : ChildTeamScheduler) (root : Option GoalId)
    (child : GoalId) : Bool × ChildTeamScheduler :=
  if deps.hasLiveTeam child then
    let s := match root with
      | some r => s.removePending r child
      | none => s
    let s := s.clearRequest child
    let s := { s with childRoot := Function.update s.childRoot child none }
    (true, s.emit (.onChildRecoveryCleared child))
  else (false, s)

def terminal (deps : SchedulerDeps) (s : ChildTeamScheduler) (root child : GoalId) (request : Nat)
    (failure : Failure) (retryable : Bool) : ChildTeamScheduler :=
  if (s.heap request).terminal then s
  else
    let s := s.setRequest request { s.heap request with terminal := true }
    let s := s.clearTimer (s.heap request).timer
    let s := s.removePending root child
    let s := if (deps.getChild child).isSome then
        s.emit (.onRecovery (.child root child failure retryable)) else s
    s.clearWatchdog root true

/-- The delay of the next retry: exponential backoff with a ceiling. -/
def retryDelay (attempts : Nat) : Nat := min (retryBaseMs * 2 ^ (attempts - 1)) retryMaxMs

def scheduleRetry (s : ChildTeamScheduler) (root child : GoalId) (request : Nat)
    (forcedDelay : Option Nat) : ChildTeamScheduler :=
  if (s.heap request).terminal ∨ s.requests child ≠ some request then s
  else
    let s := s.enqueue root child
    let r := s.heap request
    let timer : RetryTimer :=
      ⟨s.nextId, root, child, r.generation, forcedDelay.getD (retryDelay r.attempts)⟩
    { (s.setRequest request { r with timer := some s.nextId }) with
        timers := s.timers ++ [timer], nextId := s.nextId + 1 }

def onStartSuccess (s : ChildTeamScheduler) (root child : GoalId) (generation : Nat) :
    ChildTeamScheduler :=
  match s.requests child with
  | none => s
  | some id =>
    if (s.heap id).generation ≠ generation then s
    else
      let s := s.clearTimer (s.heap id).timer
      let s := { s with requests := Function.update s.requests child none }
      (s.emit (.onChildRecoveryCleared child)).clearWatchdog root true

/-! ## The mutually recursive part

`_startNextEligible`, `_startHolding` and `_onStartFailure` call each other. The
first two take the re-drive they end in as an argument; `drain` ties the knot,
with fuel for the loop and for the calls nested in it. -/

/-- `_startNextEligible` around its loop: the circuit breaker, then `drain`. -/
def startNextEligibleWith (drain : ChildTeamScheduler → ChildTeamScheduler) (deps : SchedulerDeps)
    (root : GoalId) (immediateFailureRedrive : Bool) (s : ChildTeamScheduler) :
    ChildTeamScheduler :=
  let (stop, s) := if immediateFailureRedrive then s.recordUnproductiveRedrive deps root
    else (false, s)
  if stop then s
  else
    match s.watchdogs root with
    | some w =>
      if w.tripped then
        if deps.now - w.startedAt ≤ watchdogWindowMs then s
        else drain (s.clearWatchdog root true)
      else drain s
    | none => drain s

/-- `_onStartFailure`. -/
def onStartFailureWith (redrive : Bool → ChildTeamScheduler → ChildTeamScheduler)
    (deps : SchedulerDeps) (s : ChildTeamScheduler) (root child : GoalId) (err : StartError)
    (generation : Nat) : ChildTeamScheduler :=
  match s.releaseHeldStart root child (some generation) with
  | none => s
  | some s =>
    let s := s.releasePermit root
    match s.requests child with
    | none => s
    | some id =>
      let request := s.heap id
      if request.generation ≠ generation then s
      else
        let failure := failureOf err "START_FAILED"
        if request.repairAttempted ∧ failure.code = "TEAM_LEAD_UNAVAILABLE" then
          redrive false (s.terminal deps root child id failure true)
        else if failure.code = "TEAM_LEAD_UNAVAILABLE" ∧ deps.repairUnavailableLead ∧
            ¬ request.repairAttempted then
          let s := s.setRequest id { request with repairAttempted := true }
          let call : RepairCall := ⟨s.nextId, root, child, id⟩
          let s := { s with repairs := s.repairs ++ [call], nextId := s.nextId + 1 }
          redrive false (s.emit (.repairUnavailableLead child))
        else if failure.code ∈ permanentCodes ∨ failure.code = "TEAM_LEAD_UNAVAILABLE" then
          redrive false (s.terminal deps root child id failure (needsOperatorAction failure.code))
        else if request.attempts ≥ maxTransientAttempts then
          redrive false (s.terminal deps root child id
            ⟨"RETRY_EXHAUSTED", failure.code ++ ": " ++ failure.reason⟩ true)
        else
          redrive true (s.scheduleRetry root child id none)

/-- `_startHolding`, called with a permit already taken: did it start? -/
def startHoldingWith (redrive : Bool → ChildTeamScheduler → ChildTeamScheduler)
    (deps : SchedulerDeps) (s : ChildTeamScheduler) (root child : GoalId) :
    Bool × ChildTeamScheduler :=
  let s := if (s.requests child).isSome then s else s.newRequest child
  match s.requests child with
  | none => (false, s)
  | some request =>
    let r := s.heap request
    let s := s.setRequest request { r with attempts := r.attempts + 1 }
    let s := s.markHolding root child r.generation
    let id := s.nextId
    let s := { s with nextId := id + 1, log := .started id root child :: s.log }
    let s := s.emit (.startChildTeam child)
    match deps.startChildTeam child with
    | .promise =>
      (true, { s with starts := s.starts ++ [⟨id, root, child, request, r.generation⟩] })
    | .returned =>
      (true, { s with log := .succeeded id :: s.log }.onStartSuccess root child r.generation)
    | .threw err =>
      (false, onStartFailureWith redrive deps { s with log := .failed id :: s.log }
        root child err r.generation)

/-- The branch of the drain loop for a queued child that is gone or archived. -/
def dropQueued (s : ChildTeamScheduler) (root : GoalId) (i : Nat) (child : GoalId) :
    ChildTeamScheduler :=
  let s := s.setPending root ((s.pending root).eraseIdx i)
  let s := s.clearRequest child
  { s with childRoot := Function.update s.childRoot child none }

/-- The loop of `_startNextEligible` from queue index `i` on. -/
def drain (deps : SchedulerDeps) (root : GoalId) : Nat → Nat → ChildTeamScheduler → ChildTeamScheduler
  | 0, _, s => s
  | fuel + 1, i, s =>
    match s.semaphores root, (s.pending root)[i]? with
    | some sem, some child =>
      match sem.tryAcquire with
      | none => s
      | some sem' =>
        let (live, s) := s.discardIfLive deps (some root) child
        if live then drain deps root fuel i s
        else if ((s.requests child).bind fun id => (s.heap id).timer).isSome then
          drain deps root fuel (i + 1) s
        else
          match deps.getChild child with
          | none => drain deps root fuel i (s.dropQueued root i child)
          | some view =>
            if view.archived then drain deps root fuel i (s.dropQueued root i child)
            else if view.paused then drain deps root fuel (i + 1) s
            else
              let s := { s with semaphores := Function.update s.semaphores root (some sem') }
              let s := s.setPending root ((s.pending root).eraseIdx i)
              let redrive := fun immediate =>
                startNextEligibleWith (drain deps root fuel 0) deps root immediate
              drain deps root fuel i (startHoldingWith redrive deps s root child).2
    | _, _ => s

/-- Fuel for a drain that starts with this queue: the loop visits each entry at
    most once after each start that fails before it returns. -/
def drainFuel (s : ChildTeamScheduler) (root : GoalId) : Nat := ((s.pending root).length + 1) ^ 2

def startNextEligible (deps : SchedulerDeps) (root : GoalId) (immediateFailureRedrive : Bool)
    (s : ChildTeamScheduler) : ChildTeamScheduler :=
  startNextEligibleWith (fun s => drain deps root (s.drainFuel root) 0 s) deps root
    immediateFailureRedrive s

def onStartFailure (deps : SchedulerDeps) (s : ChildTeamScheduler) (root child : GoalId)
    (err : StartError) (generation : Nat) : ChildTeamScheduler :=
  onStartFailureWith (startNextEligible deps root) deps s root child err generation

def startHolding (deps : SchedulerDeps) (s : ChildTeamScheduler) (root child : GoalId) :
    Bool × ChildTeamScheduler :=
  startHoldingWith (startNextEligible deps root) deps s root child

/-! ## Entries -/

/-- What `requestStart` and `retry` answer. -/
inductive StartOutcome
  | started
  | capacityBlocked
deriving DecidableEq

/-- The part of `requestStart` after a new request was made: park a paused
    child, else start it if a permit is free. -/
def admitRequest (deps : SchedulerDeps) (s : ChildTeamScheduler) (root child : GoalId) :
    StartOutcome × ChildTeamScheduler :=
  let s := s.getSemaphore deps root
  if (deps.getChild child).any (·.paused) then (.capacityBlocked, s.enqueue root child)
  else
    match (s.semaphores root).bind (·.tryAcquire) with
    | some sem =>
      let s := { s with semaphores := Function.update s.semaphores root (some sem) }
      let (ok, s) := s.startHolding deps root child
      (if ok then .started else .capacityBlocked, s)
    | none => (.capacityBlocked, s.enqueue root child)

def requestStart (deps : SchedulerDeps) (s : ChildTeamScheduler) (child : GoalId) :
    StartOutcome × ChildTeamScheduler :=
  let root := s.rootOf deps child
  if root.any (s.isHolding · child) then (.started, s)
  else
    let (live, s) := s.discardIfLive deps root child
    if live then (.started, s)
    else match root with
      | none => (.started, s.emit (.startChildTeam child))
      | some root =>
        let s := { s with childRoot := Function.update s.childRoot child (some root) }
        let existing := (s.requests child).map s.heap
        if existing.any (fun r => ! r.terminal) then
          let s := if existing.any (·.timer.isNone) && ! (deps.getChild child).any (·.paused) then
              s.startNextEligible deps root false else s
          (if s.isHolding root child then .started else .capacityBlocked, s)
        else
          let s := s.newRequest child
          let s := (s.emit (.onChildRecoveryCleared child)).clearWatchdog root true
          s.admitRequest deps root child

def notifyTerminal (deps : SchedulerDeps) (s : ChildTeamScheduler) (child : GoalId) :
    ChildTeamScheduler :=
  let s := { s with log := .terminal child :: s.log }
  match (s.childRoot child).orElse fun _ => s.rootOf deps child with
  | none => s
  | some root =>
    let released := s.releaseHeldStart root child none
    let s := released.getD s
    let s := (s.removePending root child).clearRequest child
    let s := { s with childRoot := Function.update s.childRoot child none }
    let s := s.emit (.onChildRecoveryCleared child)
    let s := if released.isSome then s.releasePermit root else s
    (s.clearWatchdog root true).startNextEligible deps root false

/-- `retryRoot`: re-drive a root without consuming its durable recovery. -/
def retryRoot (deps : SchedulerDeps) (s : ChildTeamScheduler) (root : GoalId) :
    ChildTeamScheduler :=
  (s.clearWatchdog root false).startNextEligible deps root false

/-- The promise of `startChildTeam` call `id` resolves. -/
def startResolved (s : ChildTeamScheduler) (id : Nat) : ChildTeamScheduler :=
  match s.starts.find? (·.id = id) with
  | none => s
  | some call =>
    { s with starts := s.starts.filter (·.id ≠ id)
             log := .succeeded id :: s.log }.onStartSuccess call.root call.child call.generation

/-- The promise of `startChildTeam` call `id` rejects. -/
def startRejected (deps : SchedulerDeps) (s : ChildTeamScheduler) (id : Nat) (err : StartError) :
    ChildTeamScheduler :=
  match s.starts.find? (·.id = id) with
  | none => s
  | some call =>
    { s with starts := s.starts.filter (·.id ≠ id)
             log := .failed id :: s.log }.onStartFailure deps call.root call.child err
      call.generation

/-- Retry timer `id` fires. -/
def timerFired (deps : SchedulerDeps) (s : ChildTeamScheduler) (id : Nat) : ChildTeamScheduler :=
  match s.timers.find? (·.id = id) with
  | none => s
  | some timer =>
    let s := { s with timers := s.timers.filter (·.id ≠ id) }
    match s.requests timer.child with
    | none => s
    | some request =>
      let current := s.heap request
      if current.generation ≠ timer.generation ∨ current.terminal then s
      else
        let s := s.setRequest request { current with timer := none }
        match deps.getChild timer.child with
        | none => s
        | some view =>
          if view.archived ∨ view.paused then s
          else (s.enqueue timer.root timer.child).startNextEligible deps timer.root false

/-- Repair promise `id` resolves. -/
def repairResolved (s : ChildTeamScheduler) (id : Nat) : ChildTeamScheduler :=
  match s.repairs.find? (·.id = id) with
  | none => s
  | some call =>
    { s with repairs := s.repairs.filter (·.id ≠ id) }.scheduleRetry call.root call.child
      call.request (some 0)

/-- Repair promise `id` rejects. -/
def repairRejected (deps : SchedulerDeps) (s : ChildTeamScheduler) (id : Nat) (err : StartError) :
    ChildTeamScheduler :=
  match s.repairs.find? (·.id = id) with
  | none => s
  | some call =>
    { s with repairs := s.repairs.filter (·.id ≠ id) }.terminal deps call.root call.child
      call.request (failureOf err "TEAM_LEAD_UNAVAILABLE") true

/-- One entry into the scheduler. A callback that is not outstanding does not
    happen: it leaves the state as it is. -/
inductive Entry
  | requestStart (child : GoalId)
  | notifyTerminal (child : GoalId)
  | startNextEligible (root : GoalId)
  | retryRoot (root : GoalId)
  | startResolved (id : Nat)
  | startRejected (id : Nat) (err : StartError)
  | timerFired (id : Nat)
  | repairResolved (id : Nat)
  | repairRejected (id : Nat) (err : StartError)

/-- One step: an entry and what the dependencies answer during it. -/
def step (s : ChildTeamScheduler) (label : SchedulerDeps × Entry) : ChildTeamScheduler :=
  match label.2 with
  | .requestStart child => (s.requestStart label.1 child).2
  | .notifyTerminal child => s.notifyTerminal label.1 child
  | .startNextEligible root => s.startNextEligible label.1 root false
  | .retryRoot root => s.retryRoot label.1 root
  | .startResolved id => s.startResolved id
  | .startRejected id err => s.startRejected label.1 id err
  | .timerFired id => s.timerFired label.1 id
  | .repairResolved id => s.repairResolved id
  | .repairRejected id err => s.repairRejected label.1 id err

/-- The scheduler after a list of entries. -/
def run (labels : List (SchedulerDeps × Entry)) : ChildTeamScheduler := Lib.run step new labels

end ChildTeamScheduler

end Bobbit.Server
