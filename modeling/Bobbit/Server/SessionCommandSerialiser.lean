import Bobbit.Lib.JsMap
import Bobbit.Lib.Run

/-!
# Session command serialiser

Model of `src/server/ws/session-command-serialiser.ts`. The state holds the maps of the
class together with every command it has accepted; a command's number also names its
result promise and its abort controller. A label of `step` is one entry: a call of a
method, the end of a command's synchronous part, the settlement of the promise a command
has returned, or one microtask.

Calls may arrive while the synchronous part of a command is on the call stack; microtasks
run when the stack is empty. The constructor's limits are the model's parameters, already
past their `RangeError` checks.
-/

namespace Bobbit.Server

open Lib

/-- `MAX_PENDING_SESSION_COMMANDS`. -/
def maxPendingSessionCommands : Nat := 64

/-- `MAX_PENDING_SESSION_COMMAND_BYTES`. -/
def maxPendingSessionCommandBytes : Nat := 64 * 1024 * 1024

/-- `Number.isSafeInteger(value) && value >= 0`. -/
def isSafeCount (value : Int) : Bool := 0 ≤ value && value ≤ 2 ^ 53 - 1

inductive SessionCommandQueueLimit
  | count | bytes
deriving DecidableEq

structure PendingUsage where
  count : Int
  bytes : Int
deriving DecidableEq

/-- How far a command has come. `ok` is whether it was fulfilled. -/
inductive CommandPhase
  /-- `previous.then(invoke, invoke)` has not run. -/
  | waiting (previous : Nat)
  /-- `Promise.resolve().then(invoke)` has not run. -/
  | ready
  /-- Its synchronous part is on the call stack; `atOnce` when `run` itself called it. -/
  | synchronous (atOnce : Bool)
  /-- It has returned a promise that is pending. -/
  | running
  /-- Its promise has settled. -/
  | settled (ok : Bool)
  /-- The `finally` callback of `invoke` has run. -/
  | finished (ok : Bool)
  /-- Its result promise has settled and the clean-up that was registered first has run. -/
  | done (ok : Bool)
deriving DecidableEq

namespace CommandPhase

def isWaiting : CommandPhase → Bool
  | .waiting _ => true
  | _ => false

/-- The command's own code has been called and has not ended. -/
def isRunning : CommandPhase → Bool
  | .synchronous _ | .running => true
  | _ => false

def isDone : CommandPhase → Bool
  | .done _ => true
  | _ => false

end CommandPhase

/-- A submitted command; a control callback is charged nothing. -/
structure SessionCommand where
  key : String
  control : Bool
  frameBytes : Nat
  phase : CommandPhase
  aborted : Bool
deriving DecidableEq

inductive Submission
  | created (command : Nat)
  | shared (command : Nat)
  | queueFull (limit : SessionCommandQueueLimit)
  | rangeError
deriving DecidableEq

structure SessionCommandSerialiser where
  maxPendingCommands : Nat
  maxPendingBytes : Nat
  tails : JsMap String Nat
  active : JsMap String Nat
  pending : JsMap String PendingUsage
  controls : JsMap String Nat
  commands : List SessionCommand
  /-- The commands whose synchronous part is on the call stack, the innermost first. -/
  stack : List Nat
  /-- The commands that have been called, in that order. -/
  started : List Nat

namespace SessionCommandSerialiser

/-- The constructor; `none` is its `RangeError`. -/
def new (maxPendingCommands maxPendingBytes : Option Int) : Option SessionCommandSerialiser :=
  let commands := maxPendingCommands.getD maxPendingSessionCommands
  let bytes := maxPendingBytes.getD maxPendingSessionCommandBytes
  if !isSafeCount commands then none
  else if !isSafeCount bytes then none
  else some ⟨commands.toNat, bytes.toNat, [], [], [], [], [], [], []⟩

def has (s : SessionCommandSerialiser) (key : String) : Bool := (s.tails.get? key).isSome

def pendingCount (s : SessionCommandSerialiser) : Int := (s.pending.map (·.2.count)).sum

def pendingBytes (s : SessionCommandSerialiser) : Int := (s.pending.map (·.2.bytes)).sum

def modify (s : SessionCommandSerialiser) (i : Nat) (f : SessionCommand → SessionCommand) :
    SessionCommandSerialiser :=
  { s with commands := s.commands.modify i f }

def setPhase (s : SessionCommandSerialiser) (i : Nat) (phase : CommandPhase) :
    SessionCommandSerialiser :=
  s.modify i ({ · with phase })

def cancelActive (s : SessionCommandSerialiser) (key : String) :
    SessionCommandSerialiser × Bool :=
  match s.active.get? key with
  | none => (s, false)
  | some i =>
    if (s.commands[i]?).any (·.aborted) then (s, false)
    else (s.modify i ({ · with aborted := true }), true)

/-- The `pendingReserved` branch of `invoke`. -/
def releasePending (s : SessionCommandSerialiser) (key : String) (frameBytes : Nat) :
    SessionCommandSerialiser :=
  match s.pending.get? key with
  | none => s
  | some usage =>
    if usage.count - 1 = 0 then { s with pending := s.pending.erase key }
    else
      { s with pending := s.pending.set key ⟨usage.count - 1, usage.bytes - frameBytes⟩ }

/-- The command is called: its synchronous part goes on the call stack. -/
def call (s : SessionCommandSerialiser) (i : Nat) (atOnce : Bool) : SessionCommandSerialiser :=
  { s.setPhase i (.synchronous atOnce) with stack := i :: s.stack, started := s.started ++ [i] }

/-- `invoke` of `run`, for a command that has waited, and of `serialiseControl`. -/
def invoke (s : SessionCommandSerialiser) (i : Nat) (c : SessionCommand) :
    SessionCommandSerialiser :=
  if c.control then s.call i false
  else
    let s := s.releasePending c.key c.frameBytes
    { s with active := s.active.set c.key i }.call i false

/-- `run`, up to the call of a command that does not wait. -/
def run (s : SessionCommandSerialiser) (key : String) (frameBytes : Int) :
    SessionCommandSerialiser × Submission :=
  if !isSafeCount frameBytes then (s, .rangeError)
  else
    let i := s.commands.length
    match s.tails.get? key with
    | some previous =>
      let usage := (s.pending.get? key).getD ⟨0, 0⟩
      if usage.count ≥ s.maxPendingCommands then (s, .queueFull .count)
      else if frameBytes > s.maxPendingBytes - usage.bytes then (s, .queueFull .bytes)
      else
        ({ s with
            pending := s.pending.set key ⟨usage.count + 1, usage.bytes + frameBytes⟩
            commands := s.commands ++ [⟨key, false, frameBytes.toNat, .waiting previous, false⟩]
            tails := s.tails.set key i }, .created i)
    | none =>
      -- `tails` is set when `invoke` has returned, see `returns`
      ({ s with
          active := s.active.set key i
          commands := s.commands ++ [⟨key, false, frameBytes.toNat, .synchronous true, false⟩]
          stack := i :: s.stack
          started := s.started ++ [i] }, .created i)

def serialiseControl (s : SessionCommandSerialiser) (key : String) :
    SessionCommandSerialiser × Submission :=
  match s.controls.get? key with
  | some existing => (s, .shared existing)
  | none =>
    let i := s.commands.length
    let phase := match s.tails.get? key with
      | some previous => CommandPhase.waiting previous
      | none => .ready
    ({ s with
        commands := s.commands ++ [⟨key, true, 0, phase, false⟩]
        controls := s.controls.set key i
        tails := s.tails.set key i }, .created i)

/-- The innermost synchronous part ends: with a pending promise, or with a value, a settled
    promise or a throw. Where `run` itself called the command it now sets the tail. -/
def returns (s : SessionCommandSerialiser) (outcome : Option Bool) : SessionCommandSerialiser :=
  match s.stack with
  | [] => s
  | i :: rest =>
    match s.commands[i]? with
    | none => s
    | some c =>
      let s := { s.setPhase i (outcome.elim .running .settled) with stack := rest }
      if c.phase = .synchronous true then { s with tails := s.tails.set c.key i } else s

/-- The promise that a command has returned settles. -/
def settle (s : SessionCommandSerialiser) (i : Nat) (ok : Bool) : SessionCommandSerialiser :=
  if (s.commands[i]?).any (·.phase = .running) then s.setPhase i (.settled ok) else s

/-- `if (map.get(key) === value) map.delete(key)`. -/
def deleteIf (map : JsMap String Nat) (key : String) (value : Nat) : JsMap String Nat :=
  if map.get? key = some value then map.erase key else map

/-- The `finally` callback of `invoke`. -/
def releaseActive (s : SessionCommandSerialiser) (i : Nat) (c : SessionCommand) (ok : Bool) :
    SessionCommandSerialiser :=
  { s.setPhase i (.finished ok) with active := deleteIf s.active c.key i }

def removeIdleKey (s : SessionCommandSerialiser) (i : Nat) (c : SessionCommand) (ok : Bool) :
    SessionCommandSerialiser :=
  { s.setPhase i (.done ok) with tails := deleteIf s.tails c.key i }

def releaseControl (s : SessionCommandSerialiser) (i : Nat) (c : SessionCommand) (ok : Bool) :
    SessionCommandSerialiser :=
  { s.setPhase i (.done ok) with
    controls := deleteIf s.controls c.key i
    tails := deleteIf s.tails c.key i }

/-- A command's result has settled and its first reaction has run. -/
def isDone (s : SessionCommandSerialiser) (i : Nat) : Bool :=
  (s.commands[i]?).any (·.phase.isDone)

/-- The next microtask of a command. The reactions of one promise run in the order they
    were registered, so a command that waits is called after the clean-up of the one before. -/
def microtask (s : SessionCommandSerialiser) (i : Nat) : SessionCommandSerialiser :=
  match s.stack, s.commands[i]? with
  | [], some c =>
    match c.phase with
    | .waiting previous => if s.isDone previous then s.invoke i c else s
    | .ready => s.invoke i c
    | .settled ok => if c.control then s.releaseControl i c ok else s.releaseActive i c ok
    | .finished ok => s.removeIdleKey i c ok
    | _ => s
  | _, _ => s

inductive Event
  | run (key : String) (frameBytes : Int)
  | serialiseControl (key : String)
  | cancelActive (key : String)
  | returns (outcome : Option Bool)
  | settle (command : Nat) (ok : Bool)
  | microtask (command : Nat)
deriving DecidableEq

def step (s : SessionCommandSerialiser) : Event → SessionCommandSerialiser
  | .run key frameBytes => (s.run key frameBytes).1
  | .serialiseControl key => (s.serialiseControl key).1
  | .cancelActive key => (s.cancelActive key).1
  | .returns outcome => s.returns outcome
  | .settle i ok => s.settle i ok
  | .microtask i => s.microtask i

end SessionCommandSerialiser

end Bobbit.Server
