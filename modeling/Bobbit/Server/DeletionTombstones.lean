import Bobbit.Server.SessionDeletion

/-!
# The writers of deletion tombstones

Model of `recordDeletionTombstone`, `recordDeletionTombstoneAsync` and `drainTombstones` of
`src/server/agent/deletion-tombstones.ts`, for one tombstone file and a file system that succeeds.
The file is what `readAllDeletionTombstones` returns for it. An asynchronous operation of the file
system takes effect at a moment of its own before the writer goes on.
-/

namespace Bobbit.Server

open Lib

/-- Where a call of `drainTombstones` stands. -/
inductive TombstoneDrain
  /-- awaiting `mkdir` -/
  | mkdir (batch : List PendingTombstone)
  /-- awaiting `readFile`, which has not read yet -/
  | readFile (batch : List PendingTombstone)
  /-- awaiting `readFile`, which has read -/
  | readDone (batch : List PendingTombstone) (all : Tombstones)
  /-- awaiting `writeFile`, which has not written yet -/
  | writeFile (all : Tombstones)
  /-- awaiting `writeFile`, which has written -/
  | writeDone

/-- A `TombstoneWriteState` with its drain; `inFlight` is the number of the promise. -/
structure DrainWriter where
  pending : List PendingTombstone
  phase : TombstoneDrain
  inFlight : Nat

/-- The file with its entry in `asyncWriters`. `promises` counts the promises of drains and
`settled` are those that have settled; `recorded` are the tombstones of all calls so far, and
`returned` those of the asynchronous calls with the promise that each got. -/
structure TombstoneStore where
  file : Tombstones
  writer : Option DrainWriter
  promises : Nat
  settled : List Nat
  recorded : List PendingTombstone
  returned : List (Nat × PendingTombstone)

namespace TombstoneStore

def started (file : Tombstones) : TombstoneStore where
  file := file
  writer := none
  promises := 0
  settled := []
  recorded := []
  returned := []

/-- `drainTombstones` up to its first `await`, with tombstones pending. -/
def startDrain (s : TombstoneStore) (pending : List PendingTombstone) : TombstoneStore :=
  { s with
    writer := some { pending := [], phase := .mkdir pending, inFlight := s.promises }
    promises := s.promises + 1 }

/-- The `finally` block of `drainTombstones`. -/
def retire (s : TombstoneStore) (writer : DrainWriter) : TombstoneStore :=
  let s := { s with writer := none, settled := s.settled ++ [writer.inFlight] }
  if writer.pending = [] then s else s.startDrain writer.pending

/-- The loop test of `drainTombstones`. -/
def drainLoop (s : TombstoneStore) (writer : DrainWriter) : TombstoneStore :=
  if writer.pending = [] then s.retire writer
  else { s with writer := some { writer with pending := [], phase := .mkdir writer.pending } }

/-- The next thing that happens to the drain: an operation of the file system takes effect, or the
drain goes on after one. -/
def advance (s : TombstoneStore) : TombstoneStore :=
  match s.writer with
  | none => s
  | some writer =>
    match writer.phase with
    | .mkdir batch => { s with writer := some { writer with phase := .readFile batch } }
    | .readFile batch => { s with writer := some { writer with phase := .readDone batch s.file } }
    | .readDone batch all =>
      let (all, changed) := applyTombstones all batch
      if changed then { s with writer := some { writer with phase := .writeFile all } }
      else s.drainLoop writer
    | .writeFile all =>
      { s with file := all, writer := some { writer with phase := .writeDone } }
    | .writeDone => s.drainLoop writer

def recordDeletionTombstone (s : TombstoneStore) (fileName key : String) : TombstoneStore :=
  if key = "" then s
  else
    let entry := (fileName, key)
    let s := { s with recorded := s.recorded ++ [entry] }
    match s.writer with
    | some writer =>
      { s with writer := some { writer with pending := writer.pending ++ [entry] } }
    | none => if hasTombstone s.file entry then s else { s with file := pushTombstone s.file entry }

def recordDeletionTombstoneAsync (s : TombstoneStore) (fileName key : String) : TombstoneStore :=
  if key = "" then s
  else
    let entry := (fileName, key)
    let s := { s with recorded := s.recorded ++ [entry] }
    match s.writer with
    | some writer =>
      { s with
        writer := some { writer with pending := writer.pending ++ [entry] }
        returned := s.returned ++ [(writer.inFlight, entry)] }
    | none =>
      { s.startDrain [entry] with returned := s.returned ++ [(s.promises, entry)] }

end TombstoneStore

inductive TombstoneEvent
  | record (fileName key : String)
  | recordAsync (fileName key : String)
  /-- something happens to the drain -/
  | advance
  deriving DecidableEq

def TombstoneStore.step (s : TombstoneStore) : TombstoneEvent → TombstoneStore
  | .record fileName key => s.recordDeletionTombstone fileName key
  | .recordAsync fileName key => s.recordDeletionTombstoneAsync fileName key
  | .advance => s.advance

end Bobbit.Server
