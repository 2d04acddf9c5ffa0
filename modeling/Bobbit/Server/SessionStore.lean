import Bobbit.Lib.JsMap
import Bobbit.Server.SessionSaver

/-!
# Session store

Model of the rows of `SessionStore` in `src/server/agent/session-store.ts` and of
`archive`, `archiveAsync`, `update`, `put`, `remove` and `purge` on them. A call of
`archiveAsync` goes through its awaits one at a time, and anything else may come between.

Beside the fields of the source the state keeps a log of the published payloads, of the
transitions from live to archived, and of the steps that bring a row back.
-/

namespace Bobbit.Server

open Lib

/-- A `PersistedSession`, as far as archiving looks at it; `ref` is the identity of the object. -/
structure SessionRow where
  ref : Nat
  archived : Bool
  archivedAt : Option Int
  deriving DecidableEq

/-- An entry of `pendingArchives`, which its generation identifies; `began` is the number of
    restores before it. -/
structure PendingArchive where
  generation : Nat
  row : Nat
  archivedAt : Int
  began : Nat
  deriving DecidableEq

/-- Where a call of `archiveAsync` stands. An outcome is `none` when the call is rejected. -/
inductive ArchivePhase
  /-- its attempt is in `persistThroughGeneration`, awaiting a drain -/
  | persisting (drain : Nat)
  /-- `persistThroughGeneration` has returned -/
  | persisted
  /-- it awaits the attempt of another call -/
  | joined (call : Nat)
  /-- it has nothing to archive and awaits a drain -/
  | draining (drain : Nat)
  /-- its last await is over -/
  | returned (outcome : Option Bool)
  | settled (outcome : Option Bool)
  deriving DecidableEq

/-- A call of `archiveAsync`; `pending` is what its own attempt archives. -/
structure ArchiveCall (κ : Type) where
  id : κ
  pending : Option PendingArchive
  failureSequence : Nat
  began : Nat
  phase : ArchivePhase

/-- The store and its calls of `archiveAsync`, which their place in the list identifies. -/
structure SessionStore (κ : Type) where
  saver : SessionSaver (JsMap κ SessionRow)
  pendingArchives : JsMap κ PendingArchive
  archiveAttempts : JsMap κ Nat
  calls : List (ArchiveCall κ)
  published : List (JsMap κ SessionRow)
  transitions : List (κ × Nat)
  restores : List κ

/-- The row of `id` is there and not archived. -/
def isLive {κ : Type} [DecidableEq κ] (sessions : JsMap κ SessionRow) (id : κ) : Bool :=
  (JsMap.get? sessions id).any (!·.archived)

/-- The row of `id` is there and archived. -/
def isArchived {κ : Type} [DecidableEq κ] (sessions : JsMap κ SessionRow) (id : κ) : Bool :=
  (JsMap.get? sessions id).any (·.archived)

namespace SessionStore

variable {κ : Type}

/-- A new store over its loaded rows. -/
def loaded (sessions : JsMap κ SessionRow) : SessionStore κ where
  saver := .loaded sessions
  pendingArchives := []
  archiveAttempts := []
  calls := []
  published := []
  transitions := []
  restores := []

variable [DecidableEq κ]

/-- A mutation of the rows that may change the row of `id`. -/
def mutate (s : SessionStore κ) (id : κ) (sessions : JsMap κ SessionRow) : SessionStore κ :=
  { s with
    saver := s.saver.mutate sessions
    transitions :=
      if isLive s.saver.sessions id && isArchived sessions id then
        s.transitions ++ [(id, s.saver.generation + 1)]
      else s.transitions }

def saveNow (s : SessionStore κ) : SessionStore κ := { s with saver := s.saver.saveNow }

/-- The row of `id` may be live again. -/
def restored (s : SessionStore κ) (id : κ) : SessionStore κ :=
  { s with restores := s.restores ++ [id] }

def put (s : SessionStore κ) (id : κ) (session : SessionRow) : SessionStore κ :=
  ((s.mutate id (JsMap.set s.saver.sessions id session)).restored id).saveNow

def remove (s : SessionStore κ) (id : κ) : SessionStore κ :=
  (s.mutate id (JsMap.erase s.saver.sessions id)).saveNow

def purge (s : SessionStore κ) (id : κ) : SessionStore κ :=
  if (JsMap.get? s.saver.sessions id).isSome then s.remove id else s

/-- `purgeAsync`, up to its first await. -/
def purgeAsync (s : SessionStore κ) (id : κ) : SessionStore κ :=
  if (JsMap.get? s.saver.sessions id).isSome then
    let s := s.mutate id (JsMap.erase s.saver.sessions id)
    { s with saver := (s.saver.clearTimer.persistThroughGeneration s.saver.generation).1 }
  else s

/-- `update`; an inner `none` of `archivedAt` sets the field to `undefined`, and `critical` says
    that some other recovery-critical field is among the updates. -/
def update (s : SessionStore κ) (id : κ) (archived : Option Bool)
    (archivedAt : Option (Option Int)) (critical : Bool) : SessionStore κ :=
  match JsMap.get? s.saver.sessions id with
  | none => s
  | some existing =>
    let row := { existing with
      archived := archived.getD existing.archived
      archivedAt := archivedAt.getD existing.archivedAt }
    let s := s.mutate id (JsMap.set s.saver.sessions id row)
    let s := if archived = some false then s.restored id else s
    if archived.isSome || archivedAt.isSome || critical then s.saveNow
    else { s with saver := s.saver.save }

/-- The row as `archive` and `archiveAsync` leave it. -/
def archivedRow (existing : SessionRow) (now : Int) : SessionRow :=
  { existing with archived := true, archivedAt := some now }

def archive (s : SessionStore κ) (id : κ) (now : Int) : SessionStore κ :=
  match JsMap.get? s.saver.sessions id with
  | none => s
  | some existing =>
    if existing.archived then s
    else (s.mutate id (JsMap.set s.saver.sessions id (archivedRow existing now))).saveNow

/-- A call of `archiveAsync` goes on from its phase. -/
def setPhase (s : SessionStore κ) (n : Nat) (phase : ArchivePhase) : SessionStore κ :=
  { s with calls := s.calls.modify n fun call => { call with phase := phase } }

/-- A new call of `archiveAsync`. -/
def addCall (s : SessionStore κ) (call : ArchiveCall κ) : SessionStore κ :=
  { s with calls := s.calls ++ [call] }

/-- What comes after a turn of `persistThroughGeneration`. -/
def persistPhase : SessionSaver.Barrier → ArchivePhase
  | .awaiting drain => .persisting drain
  | .persisted => .persisted
  | .rejected => .returned none

/-- The call has nothing to archive: `if (this.asyncSaveInFlight) await …; return false`. -/
def archiveNothing (s : SessionStore κ) (id : κ) : SessionStore κ :=
  s.addCall {
    id := id
    pending := none
    failureSequence := s.saver.persistenceFailureSequence
    began := s.restores.length
    phase :=
      if s.saver.asyncSaveInFlight.isSome then .draining s.saver.drains
      else .returned (some false) }

def joinAttempt (s : SessionStore κ) (id : κ) (call : Nat) : SessionStore κ :=
  s.addCall {
    id := id
    pending := none
    failureSequence := s.saver.persistenceFailureSequence
    began := ((s.calls[call]?).map ArchiveCall.began).getD s.restores.length
    phase := .joined call }

/-- The call starts an attempt, which runs up to its first await. -/
def startAttempt (s : SessionStore κ) (id : κ) (pending : PendingArchive) : SessionStore κ :=
  let saver := s.saver.clearTimer.persistThroughGeneration pending.generation
  { s with
    saver := saver.1
    archiveAttempts := JsMap.set s.archiveAttempts id s.calls.length }.addCall {
      id := id
      pending := some pending
      failureSequence := s.saver.persistenceFailureSequence
      began := pending.began
      phase := persistPhase saver.2 }

/-- `archiveAsync`, up to its first await. -/
def archiveAsync (s : SessionStore κ) (id : κ) (now : Int) : SessionStore κ :=
  match JsMap.get? s.saver.sessions id with
  | none => s.archiveNothing id
  | some existing =>
    match JsMap.get? s.archiveAttempts id with
    | some activeAttempt => s.joinAttempt id activeAttempt
    | none =>
      match JsMap.get? s.pendingArchives id with
      | some pending => s.startAttempt id pending
      | none =>
        if existing.archived then s.archiveNothing id
        else
          let pending := {
            generation := s.saver.generation + 1
            row := existing.ref
            archivedAt := now
            began := s.restores.length }
          let s := s.mutate id (JsMap.set s.saver.sessions id (archivedRow existing now))
          { s with
            pendingArchives := JsMap.set s.pendingArchives id pending }.startAttempt id pending

/-- The tests of an attempt once `persistThroughGeneration` has returned. -/
def acknowledges (s : SessionStore κ) (id : κ) (pending : PendingArchive) : Bool :=
  match JsMap.get? s.saver.sessions id with
  | none => false
  | some current =>
    current.ref = pending.row && current.archived && current.archivedAt = some pending.archivedAt

def finishAttempt (s : SessionStore κ) (n : Nat) (id : κ) (pending : PendingArchive) :
    SessionStore κ :=
  if JsMap.get? s.pendingArchives id = some pending then
    { s with pendingArchives := JsMap.erase s.pendingArchives id }.setPhase n
      (.returned (some (s.acknowledges id pending)))
  else s.setPhase n (.returned (some false))

/-- The await of a call comes back, if what it awaits has ended. -/
def resume (s : SessionStore κ) (n : Nat) : SessionStore κ :=
  match s.calls[n]? with
  | none => s
  | some call =>
    match call.phase, call.pending with
    | .persisting drain, some pending =>
      if drain < s.saver.drains then
        let saver := s.saver.persistResumed pending.generation call.failureSequence
        { s with saver := saver.1 }.setPhase n (persistPhase saver.2)
      else s
    | .persisted, some pending => s.finishAttempt n call.id pending
    | .joined attempt, _ =>
      match (s.calls[attempt]?).map ArchiveCall.phase with
      | some (.returned outcome) | some (.settled outcome) =>
        s.setPhase n (.returned (outcome.map fun _ => false))
      | _ => s
    | .draining drain, _ =>
      if drain < s.saver.drains then s.setPhase n (.returned (some false)) else s
    | _, _ => s

/-- A call that is past its last await settles, after its `finally`. -/
def settle (s : SessionStore κ) (n : Nat) : SessionStore κ :=
  match s.calls[n]? with
  | none => s
  | some call =>
    match call.phase with
    | .returned outcome =>
      { s with
        archiveAttempts :=
          if JsMap.get? s.archiveAttempts call.id = some n then
            JsMap.erase s.archiveAttempts call.id
          else s.archiveAttempts }.setPhase n (.settled outcome)
    | _ => s

def rename (s : SessionStore κ) : SessionStore κ :=
  { s with
    saver := s.saver.rename
    published := s.published ++ (s.saver.payload?.map (·.2)).toList }

inductive Event (κ : Type)
  | put (id : κ) (session : SessionRow)
  | remove (id : κ)
  | purge (id : κ)
  | update (id : κ) (archived : Option Bool) (archivedAt : Option (Option Int)) (critical : Bool)
  | archive (id : κ) (now : Int)
  | archiveAsync (id : κ) (now : Int)
  | purgeAsync (id : κ)
  | clearTimer
  /-- a call of `flushAsync` or `purgeAsync` is at the head of its loop -/
  | barrier (targetGeneration : Nat)
  | timerFired
  | serialize
  | rename
  | drained
  | failed
  /-- the await of a call of `archiveAsync` comes back -/
  | resume (call : Nat)
  | settle (call : Nat)

def step (s : SessionStore κ) : Event κ → SessionStore κ
  | .put id session => s.put id session
  | .remove id => s.remove id
  | .purge id => s.purge id
  | .update id archived archivedAt critical => s.update id archived archivedAt critical
  | .archive id now => s.archive id now
  | .archiveAsync id now => s.archiveAsync id now
  | .purgeAsync id => s.purgeAsync id
  | .clearTimer => { s with saver := s.saver.clearTimer }
  | .barrier targetGeneration =>
    { s with saver := (s.saver.persistThroughGeneration targetGeneration).1 }
  | .timerFired => { s with saver := s.saver.timerFired }
  | .serialize => { s with saver := s.saver.serialize }
  | .rename => s.rename
  | .drained => { s with saver := s.saver.drained }
  | .failed => { s with saver := s.saver.failed }
  | .resume n => s.resume n
  | .settle n => s.settle n

end SessionStore

end Bobbit.Server
