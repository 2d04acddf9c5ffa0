import Bobbit.Lib.JsMap

/-!
# Coalesced JSON writer

Model of `CoalescedJsonWriter` in `src/server/agent/coalesced-json-writer.ts`, with
the rows of its store. A drain takes a snapshot of all rows, writes it to a
temporary file and renames that; calls may come at each of its awaits.
-/

namespace Bobbit.Server

open Lib

/-- Where the drain in flight stands. -/
inductive JsonDrain (κ α : Type)
  /-- the snapshot of a revision is being written and renamed -/
  | writing (revision : Nat) (snapshot : JsMap κ α)
  /-- it has been renamed -/
  | written (revision : Nat)
  /-- it has failed, and the temporary file is being removed -/
  | failed (revision : Nat)
  /-- `drain` has returned, and the `finally` of `startDrain` is queued -/
  | returned

/-- The writer; barriers are known by their revision, and `retries` counts the queued
    microtasks of `startDrain`. -/
structure CoalescedJsonWriter (κ α : Type) where
  rows : JsMap κ α
  file : JsMap κ α
  requested : Bool
  timer : Bool
  revision : Nat
  publishedRevision : Nat
  barriers : List Nat
  inFlight : Option (JsonDrain κ α)
  retries : Nat

namespace CoalescedJsonWriter

variable {κ α : Type}

/-- A fresh writer over loaded rows. -/
def loaded (rows : JsMap κ α) : CoalescedJsonWriter κ α where
  rows := rows
  file := rows
  requested := false
  timer := false
  revision := 0
  publishedRevision := 0
  barriers := []
  inFlight := none
  retries := 0

/-- `drain`, up to its next await. -/
def turn (s : CoalescedJsonWriter κ α) : CoalescedJsonWriter κ α :=
  if s.requested then { s with requested := false, inFlight := some (.writing s.revision s.rows) }
  else { s with inFlight := some .returned }

def startDrain (s : CoalescedJsonWriter κ α) : CoalescedJsonWriter κ α :=
  if s.inFlight.isNone then s.turn else s

def schedule (s : CoalescedJsonWriter κ α) : CoalescedJsonWriter κ α :=
  { s with
    revision := s.revision + 1
    requested := true
    timer := s.timer || s.inFlight.isNone }

/-- `requestBarrier`, which `flush` and `publishStrict` call. -/
def requestBarrier (s : CoalescedJsonWriter κ α) : CoalescedJsonWriter κ α :=
  { s with
    revision := s.revision + 1
    requested := true
    timer := false
    barriers := s.barriers ++ [s.revision + 1] }.startDrain

def timerFired (s : CoalescedJsonWriter κ α) : CoalescedJsonWriter κ α :=
  if s.timer then { s with timer := false }.startDrain else s

/-- The awaited file operations end; the file changes with the rename. -/
def renamed (s : CoalescedJsonWriter κ α) (fails : Bool) : CoalescedJsonWriter κ α :=
  match s.inFlight with
  | some (.writing revision snapshot) =>
    if fails then { s with inFlight := some (.failed revision) }
    else { s with file := snapshot, inFlight := some (.written revision) }
  | _ => s

/-- The barriers that `settlePublished` resolves. -/
def resolved (s : CoalescedJsonWriter κ α) (revision : Nat) : List Nat :=
  s.barriers.filter (· ≤ max s.publishedRevision revision)

/-- The barriers that `settleFailed` rejects. -/
def rejected (s : CoalescedJsonWriter κ α) (revision : Nat) : List Nat :=
  s.barriers.filter (· ≤ revision)

def settlePublished (s : CoalescedJsonWriter κ α) (revision : Nat) : CoalescedJsonWriter κ α :=
  { s with
    publishedRevision := max s.publishedRevision revision
    barriers := s.barriers.filter (¬ · ≤ max s.publishedRevision revision) }

def settleFailed (s : CoalescedJsonWriter κ α) (revision : Nat) : CoalescedJsonWriter κ α :=
  { s with barriers := s.barriers.filter (¬ · ≤ revision) }

/-- The drain goes on after its awaits, and at last the `finally` of `startDrain`. -/
def resumed (s : CoalescedJsonWriter κ α) : CoalescedJsonWriter κ α :=
  match s.inFlight with
  | some (.written revision) => (s.settlePublished revision).turn
  | some (.failed revision) => { s.settleFailed revision with inFlight := some .returned }
  | some .returned =>
    { s with inFlight := none, retries := if s.requested then s.retries + 1 else s.retries }
  | _ => s

/-- A queued `startDrain` runs. -/
def retried (s : CoalescedJsonWriter κ α) : CoalescedJsonWriter κ α :=
  if s.retries = 0 then s else { s with retries := s.retries - 1 }.startDrain

inductive Event (κ α : Type)
  /-- the store changes its rows -/
  | mutate (rows : JsMap κ α)
  | schedule
  | requestBarrier
  | timerFired
  | renamed (fails : Bool)
  | resumed
  | retried

def step (s : CoalescedJsonWriter κ α) : Event κ α → CoalescedJsonWriter κ α
  | .mutate rows => { s with rows := rows }
  | .schedule => s.schedule
  | .requestBarrier => s.requestBarrier
  | .timerFired => s.timerFired
  | .renamed fails => s.renamed fails
  | .resumed => s.resumed
  | .retried => s.retried

end CoalescedJsonWriter

end Bobbit.Server
