import Bobbit.Lib.JsMap
import Bobbit.Server.SessionSaver

/-!
# Session deletion

Model of `remove`, `purge` and `purgeAsync` of `SessionStore` in
`src/server/agent/session-store.ts` with the deletion tombstones that
`src/server/agent/deletion-tombstones.ts` writes beside the session file. The
tombstone file has one asynchronous writer at a time, which synchronous callers join.
-/

namespace Bobbit.Server

open Lib

/-- The tombstone file: the deleted keys of each store file. -/
abbrev Tombstones := JsMap String (List String)

/-- A tombstone to be recorded: a store file and a key. -/
abbrev PendingTombstone := String × String

def hasTombstone (all : Tombstones) (entry : PendingTombstone) : Bool :=
  ((JsMap.get? all entry.1).getD []).contains entry.2

/-- `list.push(key)`. -/
def pushTombstone (all : Tombstones) (entry : PendingTombstone) : Tombstones :=
  JsMap.set all entry.1 ((JsMap.get? all entry.1).getD [] ++ [entry.2])

/-- The loop over a batch in `drainTombstones`, with its flag `changed`. -/
def applyTombstones (all : Tombstones) (batch : List PendingTombstone) : Tombstones × Bool :=
  batch.foldl
    (fun state entry =>
      if hasTombstone state.1 entry then state else (pushTombstone state.1 entry, true))
    (all, false)

/-- Where the writer in `asyncWriters` stands. -/
inductive TombstonePhase
  /-- before or in the read of the file -/
  | reading (batch : List PendingTombstone)
  | writing (all : Tombstones)

/-- A `TombstoneWriteState`. -/
structure TombstoneWriter where
  pending : List PendingTombstone
  phase : TombstonePhase

/-- Where a call of `purgeAsync` stands. -/
inductive PurgePhase
  /-- in `persistThroughGeneration`, awaiting a drain -/
  | persisting (drain : Nat)
  /-- `persistThroughGeneration` has returned -/
  | persisted
  /-- awaiting the tombstone writer of this number -/
  | recording (writer : Nat)
  /-- without a row, awaiting a drain -/
  | draining (drain : Nat)
  /-- `none` for a rejection -/
  | returned (outcome : Option Bool)
  deriving DecidableEq

/-- A call of `purgeAsync`. -/
structure PurgeCall where
  id : String
  targetGeneration : Nat
  failureSequence : Nat
  phase : PurgePhase

/-- The session store with the tombstone file of its directory; `published` are the session files
    so far, and `writers` counts the tombstone writers that have ended. -/
structure SessionDeletion (ρ : Type) where
  saver : SessionSaver (JsMap String ρ)
  published : List (JsMap String ρ)
  tombstones : Tombstones
  writer : Option TombstoneWriter
  writers : Nat
  calls : List PurgeCall

namespace SessionDeletion

variable {ρ : Type}

/-- A new store over the rows of the session file. -/
def loaded (sessions : JsMap String ρ) (tombstones : Tombstones) : SessionDeletion ρ where
  saver := .loaded sessions
  published := [sessions]
  tombstones := tombstones
  writer := none
  writers := 0
  calls := []

/-- A mutation of the rows that is saved at once. -/
def mutateNow (s : SessionDeletion ρ) (sessions : JsMap String ρ) : SessionDeletion ρ :=
  { s with saver := (s.saver.mutate sessions).saveNow }

def put (s : SessionDeletion ρ) (id : String) (session : ρ) : SessionDeletion ρ :=
  s.mutateNow (JsMap.set s.saver.sessions id session)

/-- `update`, which leaves the row as `session`. -/
def update (s : SessionDeletion ρ) (id : String) (session : ρ) (critical : Bool) :
    SessionDeletion ρ :=
  if (JsMap.get? s.saver.sessions id).isSome then
    if critical then s.mutateNow (JsMap.set s.saver.sessions id session)
    else { s with saver := (s.saver.mutate (JsMap.set s.saver.sessions id session)).save }
  else s

/-- `readAllDeletionTombstones`, which takes a file it cannot read for an empty one. -/
def readTombstones (s : SessionDeletion ρ) (readable : Bool) : Tombstones :=
  if readable then s.tombstones else []

def recordDeletionTombstone (s : SessionDeletion ρ) (fileName key : String) (readable : Bool) :
    SessionDeletion ρ :=
  if key = "" then s
  else
    match s.writer with
    | some writer =>
      { s with writer := some { writer with pending := writer.pending ++ [(fileName, key)] } }
    | none =>
      let all := s.readTombstones readable
      if hasTombstone all (fileName, key) then s
      else { s with tombstones := pushTombstone all (fileName, key) }

/-- `recordDeletionTombstoneAsync`, with the turn of `drainTombstones` up to its first await. -/
def recordDeletionTombstoneAsync (s : SessionDeletion ρ) (fileName key : String) :
    SessionDeletion ρ :=
  match s.writer with
  | some writer =>
    { s with writer := some { writer with pending := writer.pending ++ [(fileName, key)] } }
  | none => { s with writer := some { pending := [], phase := .reading [(fileName, key)] } }

/-- The head of the loop of `drainTombstones`, or its `finally`. -/
def nextBatch (s : SessionDeletion ρ) (pending : List PendingTombstone) : SessionDeletion ρ :=
  if pending = [] then { s with writer := none, writers := s.writers + 1 }
  else { s with writer := some { pending := [], phase := .reading pending } }

/-- The tombstone writer reads the file and adds its batch. -/
def tombstonesRead (s : SessionDeletion ρ) (readable : Bool) : SessionDeletion ρ :=
  match s.writer with
  | some { pending := pending, phase := .reading batch } =>
    let applied := applyTombstones (s.readTombstones readable) batch
    if applied.2 then { s with writer := some { pending := pending, phase := .writing applied.1 } }
    else s.nextBatch pending
  | _ => s

def tombstonesWritten (s : SessionDeletion ρ) : SessionDeletion ρ :=
  match s.writer with
  | some { pending := pending, phase := .writing all } =>
    { s with tombstones := all }.nextBatch pending
  | _ => s

/-- The store file whose keys are session ids. -/
def sessionsFile : String := "sessions.json"

def remove (s : SessionDeletion ρ) (id : String) (readable : Bool) : SessionDeletion ρ :=
  (s.mutateNow (JsMap.erase s.saver.sessions id)).recordDeletionTombstone sessionsFile id readable

def purge (s : SessionDeletion ρ) (id : String) (readable : Bool) : SessionDeletion ρ :=
  if (JsMap.get? s.saver.sessions id).isSome then s.remove id readable else s

/-- What comes after a turn of `persistThroughGeneration`. -/
def persistPhase : SessionSaver.Barrier → PurgePhase
  | .awaiting drain => .persisting drain
  | .persisted => .persisted
  | .rejected => .returned none

/-- `purgeAsync`, up to its first await. -/
def purgeAsync (s : SessionDeletion ρ) (id : String) : SessionDeletion ρ :=
  if (JsMap.get? s.saver.sessions id).isSome then
    let saver := (s.saver.mutate (JsMap.erase s.saver.sessions id)).clearTimer
    let barrier := saver.persistThroughGeneration saver.generation
    { s with
      saver := barrier.1
      calls := s.calls ++ [{
        id := id
        targetGeneration := saver.generation
        failureSequence := saver.persistenceFailureSequence
        phase := persistPhase barrier.2 }] }
  else
    { s with
      calls := s.calls ++ [{
        id := id
        targetGeneration := s.saver.generation
        failureSequence := s.saver.persistenceFailureSequence
        phase :=
          if s.saver.asyncSaveInFlight.isSome then .draining s.saver.drains
          else .returned (some false) }] }

/-- A call of `purgeAsync` goes on from its phase. -/
def setPhase (s : SessionDeletion ρ) (n : Nat) (call : PurgeCall) (phase : PurgePhase) :
    SessionDeletion ρ :=
  { s with calls := s.calls.set n { call with phase := phase } }

/-- The await of a call comes back, if what it awaits has ended. -/
def resume (s : SessionDeletion ρ) (n : Nat) : SessionDeletion ρ :=
  match s.calls[n]? with
  | none => s
  | some call =>
    match call.phase with
    | .persisting drain =>
      if drain < s.saver.drains then
        let barrier := s.saver.persistResumed call.targetGeneration call.failureSequence
        { s with saver := barrier.1 }.setPhase n call (persistPhase barrier.2)
      else s
    | .persisted =>
      if call.id = "" then s.setPhase n call (.returned (some true))
      else
        (s.recordDeletionTombstoneAsync sessionsFile call.id).setPhase n call (.recording s.writers)
    | .recording writer =>
      if writer < s.writers then s.setPhase n call (.returned (some true)) else s
    | .draining drain =>
      if drain < s.saver.drains then s.setPhase n call (.returned (some false)) else s
    | .returned _ => s

def rename (s : SessionDeletion ρ) : SessionDeletion ρ :=
  { s with
    saver := s.saver.rename
    published := s.published ++ (s.saver.payload?.map (·.2)).toList }

/-- What can happen to a store and its tombstones; `readable` says whether the tombstone file can
    be read. -/
inductive Event (ρ : Type)
  | put (id : String) (session : ρ)
  | update (id : String) (session : ρ) (critical : Bool)
  | remove (id : String) (readable : Bool)
  | purge (id : String) (readable : Bool)
  | purgeAsync (id : String)
  /-- another store of the directory records a tombstone -/
  | record (fileName key : String) (readable : Bool)
  | clearTimer
  /-- a call of `flushAsync` or `archiveAsync` is at the head of its loop -/
  | barrier (targetGeneration : Nat)
  | timerFired
  | serialize
  | rename
  | drained
  | failed
  | tombstonesRead (readable : Bool)
  | tombstonesWritten
  /-- the await of a call of `purgeAsync` comes back -/
  | resume (call : Nat)

def step (s : SessionDeletion ρ) : Event ρ → SessionDeletion ρ
  | .put id session => s.put id session
  | .update id session critical => s.update id session critical
  | .remove id readable => s.remove id readable
  | .purge id readable => s.purge id readable
  | .purgeAsync id => s.purgeAsync id
  | .record fileName key readable => s.recordDeletionTombstone fileName key readable
  | .clearTimer => { s with saver := s.saver.clearTimer }
  | .barrier targetGeneration =>
    { s with saver := (s.saver.persistThroughGeneration targetGeneration).1 }
  | .timerFired => { s with saver := s.saver.timerFired }
  | .serialize => { s with saver := s.saver.serialize }
  | .rename => s.rename
  | .drained => { s with saver := s.saver.drained }
  | .failed => { s with saver := s.saver.failed }
  | .tombstonesRead readable => s.tombstonesRead readable
  | .tombstonesWritten => s.tombstonesWritten
  | .resume n => s.resume n

end SessionDeletion

end Bobbit.Server
