import Bobbit.Lib.JsMap
import Bobbit.Lib.Run

/-!
# Remote state coordinator

Model of the record and permit logic of `src/server/remote-state-coordinator.ts`. The
state holds the coordinator's own fields together with the refreshes it has started, each
with the point its `async` function has reached. A label of `step` is one entry: a call,
the start of a refresh that was given a permit, the outcome of a fetch, the outcome of a
projection, or the end of a broadcast. Each entry reads the clock once.

Telemetry, the aliases of identities and the identity probes are left out: nothing here
reads them.
-/

namespace Bobbit.Server

open Lib

inductive RemoteStateErrorKind
  | offline | auth | rateLimited | unavailable
deriving DecidableEq

inductive RemoteStateIntent
  | automatic | visible | explicit
deriving DecidableEq

inductive RemoteStateSource
  | repository | pullRequest
deriving DecidableEq

inductive RemoteStateCadence
  | active | sidebar
deriving DecidableEq

structure RemoteStateLastError where
  kind : RemoteStateErrorKind
  observedAt : Int
deriving DecidableEq

structure RemoteStateSnapshot (α : Type) where
  data : Option α
  observedAt : Int
  refreshedAt : Option Int
  stale : Bool
  source : RemoteStateSource
  lastError : Option RemoteStateLastError
  ageMs : Option Int

structure RemoteStateAddress where
  kind : String
  id : String
deriving DecidableEq

structure RemoteStateReadOptions where
  intent : Option RemoteStateIntent
  cadence : Option RemoteStateCadence
  address : Option RemoteStateAddress
  forceRequestedAt : Option Int
  forceCoalesceMs : Option Int

/-- The constructor's options; `broadcast` says whether there is one. -/
structure RemoteStateCoordinatorOptions where
  maxConcurrent : Option Int
  broadcast : Bool
  repositoryFreshnessMs : Option Int
  activePrFreshnessMs : Option Int
  sidebarPrFreshnessMs : Option Int
  backoffBaseMs : Option Int
  backoffMaxMs : Option Int

/-- `refresh` is left out: what it fetches comes with the label that settles it. -/
structure RemoteStateRecord (α : Type) where
  source : RemoteStateSource
  lastGood : Option α
  refreshedAt : Option Int
  lastAttemptAt : Option Int
  lastForceRequestAt : Option Int
  invalidated : Bool
  invalidationVersion : Nat
  failureCount : Nat
  nextRetryAt : Int
  lastError : Option RemoteStateLastError
  /-- the number of the refresh whose promise is installed -/
  inFlight : Option Nat
  addresses : JsMap String RemoteStateAddress
  repositoryBindings : JsMap String RemoteStateAddress

/-- How far a refresh has got: it waits in `queued`, has a permit, awaits its fetch, awaits
    the projection of the binding at a position, has only to remove its promise, or has
    ended. -/
inductive RefreshPhase
  | queued
  | granted
  | running (invalidationVersion : Nat)
  | projecting (next : Nat)
  | finishing
  | done
deriving DecidableEq

/-- A call of the closure that `startRefresh` builds. -/
structure RemoteRefresh where
  key : String
  phase : RefreshPhase

structure RemoteStateCoordinator (α : Type) where
  records : JsMap String (RemoteStateRecord α)
  active : Int
  /-- the refreshes whose `resolve` waits for a permit, oldest first -/
  queued : List Nat
  /-- every refresh that was started, by its number -/
  refreshes : List RemoteRefresh

/-- A snapshot that leaves the coordinator; `projected` when a binding supplied its data. -/
structure RemoteStateReport (α : Type) where
  key : String
  projected : Bool
  snapshot : RemoteStateSnapshot α

inductive RemoteStateLabel (α : Type)
  | register (key : String) (source : RemoteStateSource)
      (address binding : Option RemoteStateAddress)
  | readSnapshot (key : String) (options : RemoteStateReadOptions) (now : Int)
  | ensureFreshRepository (key : String) (address : Option RemoteStateAddress) (now : Int)
  | refreshSnapshot (key : String) (options : RemoteStateReadOptions) (now : Int)
  /-- what the last two do once the promise they awaited has settled -/
  | awaited (key : String) (cadence : RemoteStateCadence) (now : Int)
  | invalidate (key : String) (allowImmediateRefresh : Bool)
  | begin (refresh : Nat) (now : Int)
  | settle (refresh : Nat) (result : Except RemoteStateErrorKind (Option α)) (now : Int)
  | project (refresh : Nat) (data : Option (Option α)) (now : Int)
  | finish (refresh : Nat)

namespace RemoteStateCoordinatorOptions

variable (options : RemoteStateCoordinatorOptions)

/-- `Math.max(1, options.maxConcurrent ?? 4)`. -/
def limit : Int := max 1 (options.maxConcurrent.getD 4)

def freshness {α : Type} (record : RemoteStateRecord α) (cadence : RemoteStateCadence) : Int :=
  match record.source, cadence with
  | .repository, _ => options.repositoryFreshnessMs.getD 30000
  | .pullRequest, .sidebar => options.sidebarPrFreshnessMs.getD 60000
  | .pullRequest, .active => options.activePrFreshnessMs.getD 20000

/-- `Math.min(backoffMaxMs, backoffBaseMs * 2 ** exponent)` after some failures. -/
def backoff (failureCount : Nat) : Int :=
  min (options.backoffMaxMs.getD 300000)
    (options.backoffBaseMs.getD 5000 * 2 ^ min (failureCount - 1) 16)

end RemoteStateCoordinatorOptions

namespace RemoteStateCoordinator

variable {α : Type} (options : RemoteStateCoordinatorOptions)

def addressKey (address : RemoteStateAddress) : String := address.kind ++ ":" ++ address.id

def new : RemoteStateCoordinator α := ⟨[], 0, [], []⟩

def newRecord (source : RemoteStateSource) : RemoteStateRecord α :=
  { source, lastGood := none, refreshedAt := none, lastAttemptAt := none,
    lastForceRequestAt := none, invalidated := false, invalidationVersion := 0,
    failureCount := 0, nextRetryAt := 0, lastError := none, inFlight := none,
    addresses := [], repositoryBindings := [] }

/-- Record an address, if there is one. -/
def addAddress (record : RemoteStateRecord α) (address : Option RemoteStateAddress) :
    RemoteStateRecord α :=
  match address with
  | none => record
  | some address => { record with addresses := record.addresses.set (addressKey address) address }

def addBinding (record : RemoteStateRecord α) (binding : Option RemoteStateAddress) :
    RemoteStateRecord α :=
  match binding with
  | none => record
  | some address =>
    { record with repositoryBindings := record.repositoryBindings.set (addressKey address) address }

def setRecord (s : RemoteStateCoordinator α) (key : String) (record : RemoteStateRecord α) :
    RemoteStateCoordinator α :=
  { s with records := s.records.set key record }

def setPhase (s : RemoteStateCoordinator α) (i : Nat) (phase : RefreshPhase) :
    RemoteStateCoordinator α :=
  { s with refreshes := s.refreshes.modify i fun refresh => { refresh with phase } }

/-- `register`; a key of another source is refused. -/
def register (s : RemoteStateCoordinator α) (key : String) (source : RemoteStateSource)
    (address binding : Option RemoteStateAddress) : RemoteStateCoordinator α :=
  match s.records.get? key with
  | some existing =>
    if existing.source ≠ source then s
    else s.setRecord key (addBinding (addAddress existing address) binding)
  | none => s.setRecord key (addBinding (addAddress (newRecord source) address) binding)

def isFresh (record : RemoteStateRecord α) (intent : RemoteStateIntent) (now : Int)
    (cadence : RemoteStateCadence) : Bool :=
  match record.refreshedAt with
  | none => false
  | some refreshedAt =>
    if intent == .explicit || record.invalidated then false
    else now - refreshedAt < options.freshness record cadence

def snapshot (record : RemoteStateRecord α) (observedAt : Int) (cadence : RemoteStateCadence) :
    RemoteStateSnapshot α :=
  { data := record.lastGood
    observedAt
    refreshedAt := record.refreshedAt
    stale := match record.refreshedAt with
      | none => true
      | some refreshedAt =>
        record.invalidated || observedAt - refreshedAt ≥ options.freshness record cadence
    source := record.source
    lastError := record.lastError
    ageMs := record.refreshedAt.map fun refreshedAt => max 0 (observedAt - refreshedAt) }

/-! ## Refreshing -/

/-- `acquire` for the refresh that is about to be numbered: a free permit or a place in the
    queue. -/
def acquire (s : RemoteStateCoordinator α) : RemoteStateCoordinator α × RefreshPhase :=
  if s.active < options.limit then ({ s with active := s.active + 1 }, .granted)
  else ({ s with queued := s.queued ++ [s.refreshes.length] }, .queued)

/-- `release`: the permit goes to the first refresh that waits. -/
def release (s : RemoteStateCoordinator α) : RemoteStateCoordinator α :=
  match s.queued with
  | [] => { s with active := s.active - 1 }
  | next :: rest => setPhase { s with queued := rest } next .granted

def startRefresh (s : RemoteStateCoordinator α) (key : String) (record : RemoteStateRecord α) :
    RemoteStateCoordinator α :=
  if record.inFlight.isSome then s
  else
    let (s, phase) := s.acquire options
    let i := s.refreshes.length
    let s : RemoteStateCoordinator α := { s with refreshes := s.refreshes ++ [⟨key, phase⟩] }
    s.setRecord key { record with inFlight := some i }

/-- Was this force already served by one shortly before? -/
def coalesced (record : RemoteStateRecord α) (request : RemoteStateReadOptions) : Bool :=
  match request.forceRequestedAt, request.forceCoalesceMs, record.lastForceRequestAt with
  | some requestedAt, some coalesceMs, some last => (requestedAt - last).natAbs < coalesceMs
  | _, _, _ => false

/-- Has an attempt used up the budget of the period? -/
def overBudget (record : RemoteStateRecord α) (now : Int) (cadence : RemoteStateCadence) : Bool :=
  match record.lastAttemptAt with
  | none => false
  | some last => now - last < options.freshness record cadence

def requestRefresh (s : RemoteStateCoordinator α) (key : String) (record : RemoteStateRecord α)
    (intent : RemoteStateIntent) (now : Int) (request : RemoteStateReadOptions) :
    RemoteStateCoordinator α :=
  let cadence := request.cadence.getD .active
  if isFresh options record intent now cadence then s
  else if record.inFlight.isSome then s
  else if intent ≠ .explicit ∧ now < record.nextRetryAt then s
  else if intent = .explicit ∧ coalesced record request then s
  else if intent ≠ .explicit ∧ overBudget options record now cadence then s
  else
    let record := if intent = .explicit ∧ request.forceRequestedAt.isSome then
      { record with lastForceRequestAt := request.forceRequestedAt } else record
    s.startRefresh options key record

/-- What the three reading operations do first. -/
def read (s : RemoteStateCoordinator α) (key : String) (record : RemoteStateRecord α)
    (intent : RemoteStateIntent) (now : Int) (request : RemoteStateReadOptions) :
    RemoteStateCoordinator α :=
  let record := addAddress record request.address
  (s.setRecord key record).requestRefresh options key record intent now request

/-- The snapshot of a key that is registered. -/
def report (s : RemoteStateCoordinator α) (key : String) (now : Int)
    (cadence : RemoteStateCadence) : List (RemoteStateReport α) :=
  match s.records.get? key with
  | none => []
  | some record => [⟨key, false, snapshot options record now cadence⟩]

def readSnapshot (s : RemoteStateCoordinator α) (key : String) (request : RemoteStateReadOptions)
    (now : Int) : RemoteStateCoordinator α × List (RemoteStateReport α) :=
  match s.records.get? key with
  | none => (s, [])
  | some record =>
    let s := s.read options key record (request.intent.getD .automatic) now request
    (s, s.report options key now (request.cadence.getD .active))

/-- `ensureFreshRepository` up to its `await`. -/
def ensureFreshRepository (s : RemoteStateCoordinator α) (key : String)
    (address : Option RemoteStateAddress) (now : Int) : RemoteStateCoordinator α :=
  match s.records.get? key with
  | none => s
  | some record =>
    if record.source ≠ .repository then s
    else s.read options key record .automatic now
      { intent := none, cadence := some .active, address, forceRequestedAt := none,
        forceCoalesceMs := none }

/-- `refreshSnapshot` up to its `await`. -/
def refreshSnapshot (s : RemoteStateCoordinator α) (key : String)
    (request : RemoteStateReadOptions) (now : Int) : RemoteStateCoordinator α :=
  match s.records.get? key with
  | none => s
  | some record => s.read options key record (request.intent.getD .explicit) now request

def invalidate (s : RemoteStateCoordinator α) (key : String) (allowImmediateRefresh : Bool) :
    RemoteStateCoordinator α :=
  match s.records.get? key with
  | none => s
  | some record =>
    s.setRecord key { record with
      invalidated := true
      invalidationVersion := record.invalidationVersion + 1
      lastForceRequestAt := none
      lastAttemptAt := if allowImmediateRefresh then none else record.lastAttemptAt }

/-! ## The course of a refresh -/

/-- From the start of the closure to its `await`. -/
def begin (s : RemoteStateCoordinator α) (i : Nat) (key : String) (record : RemoteStateRecord α)
    (now : Int) : RemoteStateCoordinator α :=
  (s.setRecord key { record with lastAttemptAt := some now }).setPhase i
    (.running record.invalidationVersion)

/-- The record after a fetch that began at some invalidation version. -/
def settledRecord (record : RemoteStateRecord α) (invalidationVersion : Nat)
    (result : Except RemoteStateErrorKind (Option α)) (now : Int) : RemoteStateRecord α :=
  match result with
  | .ok data =>
    { record with
      lastGood := data
      refreshedAt := some now
      invalidated := record.invalidationVersion ≠ invalidationVersion
      failureCount := 0
      nextRetryAt := 0
      lastError := none }
  | .error kind =>
    { record with
      invalidated := true
      failureCount := record.failureCount + 1
      lastError := some ⟨kind, now⟩
      nextRetryAt := now + options.backoff (record.failureCount + 1) }

/-- The end of `broadcastRecord`: the addresses that no binding has served. -/
def broadcastRest (key : String) (record : RemoteStateRecord α) (now : Int)
    (projected : List String) : List (RemoteStateReport α) :=
  (record.addresses.filter fun entry => addressKey entry.2 ∉ projected).map fun _ =>
    ⟨key, false, snapshot options record now .active⟩

/-- `broadcastRecord` from the binding at a position on. -/
def broadcastFrom (s : RemoteStateCoordinator α) (i : Nat) (key : String)
    (record : RemoteStateRecord α) (next : Nat) (now : Int) :
    RemoteStateCoordinator α × List (RemoteStateReport α) :=
  let bindings := if record.source = .repository then record.repositoryBindings else []
  if next < bindings.length then (s.setPhase i (.projecting next), [])
  else (s.setPhase i .finishing, broadcastRest options key record now (bindings.map (·.1)))

/-- After the fetch: the permit is returned before the broadcast. -/
def settle (s : RemoteStateCoordinator α) (i : Nat) (key : String) (record : RemoteStateRecord α)
    (invalidationVersion : Nat) (result : Except RemoteStateErrorKind (Option α)) (now : Int) :
    RemoteStateCoordinator α × List (RemoteStateReport α) :=
  let record := settledRecord options record invalidationVersion result now
  let s := (s.setRecord key record).release
  if options.broadcast then s.broadcastFrom options i key record 0 now
  else (s.setPhase i .finishing, [])

/-- After a projection; `none` when it failed. -/
def project (s : RemoteStateCoordinator α) (i : Nat) (key : String) (record : RemoteStateRecord α)
    (next : Nat) (data : Option (Option α)) (now : Int) :
    RemoteStateCoordinator α × List (RemoteStateReport α) :=
  let snapshot := snapshot options record now .active
  let projected : RemoteStateReport α := match data with
    | some data => ⟨key, true, { snapshot with data }⟩
    | none => ⟨key, false, snapshot⟩
  let (s, rest) := s.broadcastFrom options i key record (next + 1) now
  (s, projected :: rest)

def finish (s : RemoteStateCoordinator α) (i : Nat) (key : String) (record : RemoteStateRecord α) :
    RemoteStateCoordinator α :=
  (s.setRecord key { record with inFlight := none }).setPhase i .done

/-- A refresh together with its record. -/
def refreshOf (s : RemoteStateCoordinator α) (i : Nat) :
    Option (RemoteRefresh × RemoteStateRecord α) :=
  match s.refreshes[i]? with
  | none => none
  | some refresh => (s.records.get? refresh.key).map (refresh, ·)

/-- One entry. A continuation that is not due does nothing. -/
def step (s : RemoteStateCoordinator α) :
    RemoteStateLabel α → RemoteStateCoordinator α × List (RemoteStateReport α)
  | .register key source address binding => (s.register key source address binding, [])
  | .readSnapshot key request now => s.readSnapshot options key request now
  | .ensureFreshRepository key address now => (s.ensureFreshRepository options key address now, [])
  | .refreshSnapshot key request now => (s.refreshSnapshot options key request now, [])
  | .awaited key cadence now => (s, s.report options key now cadence)
  | .invalidate key allowImmediateRefresh => (s.invalidate key allowImmediateRefresh, [])
  | .begin i now =>
    match s.refreshOf i with
    | some (⟨key, .granted⟩, record) => (s.begin i key record now, [])
    | _ => (s, [])
  | .settle i result now =>
    match s.refreshOf i with
    | some (⟨key, .running version⟩, record) => s.settle options i key record version result now
    | _ => (s, [])
  | .project i data now =>
    match s.refreshOf i with
    | some (⟨key, .projecting next⟩, record) => s.project options i key record next data now
    | _ => (s, [])
  | .finish i =>
    match s.refreshOf i with
    | some (⟨key, .finishing⟩, record) => (s.finish i key record, [])
    | _ => (s, [])

end RemoteStateCoordinator

end Bobbit.Server
