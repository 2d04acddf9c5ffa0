import Mathlib.Order.Lattice

/-!
# Session saver

Model of the serialized writer of `SessionStore` in `src/server/agent/session-store.ts`:
the generation counter, the debounce timer, the drain loop and the barrier
`persistThroughGeneration`. The rows are a parameter here; the file they are written
to is the business of the models that use the saver.
-/

namespace Bobbit.Server

/-- Where the drain in flight stands. -/
inductive SessionDrain (σ : Type)
  /-- waiting for its write slot, or at the checks and before `JSON.stringify` -/
  | admitted
  /-- the payload of a generation is being written and renamed -/
  | writing (serializedGeneration : Nat) (payload : σ)
  /-- it has been renamed, and the loop of `drainAsyncSaves` is about to go on -/
  | renamed (serializedGeneration : Nat)

/-- The fields of a `SessionStore` that decide what is written when; `drains` counts the
    drains that have ended, and is the number of the one in flight. -/
structure SessionSaver (σ : Type) where
  sessions : σ
  generation : Nat
  publishedGeneration : Nat
  persistenceFailureSequence : Nat
  asyncSaveRequested : Bool
  asyncSaveInFlight : Option (SessionDrain σ)
  saveTimer : Bool
  drains : Nat

namespace SessionSaver

variable {σ : Type}

/-- The fields of a new store over its loaded rows. -/
def loaded (sessions : σ) : SessionSaver σ where
  sessions := sessions
  generation := 0
  publishedGeneration := 0
  persistenceFailureSequence := 0
  asyncSaveRequested := false
  asyncSaveInFlight := none
  saveTimer := false
  drains := 0

/-- `requestAsyncSave`, with the turn of `drainAsyncSaves` up to its first await. -/
def requestAsyncSave (s : SessionSaver σ) : SessionSaver σ :=
  if s.asyncSaveInFlight.isSome then { s with asyncSaveRequested := true }
  else { s with asyncSaveRequested := false, asyncSaveInFlight := some .admitted }

def save (s : SessionSaver σ) : SessionSaver σ := { s with saveTimer := true }

def clearTimer (s : SessionSaver σ) : SessionSaver σ := { s with saveTimer := false }

def saveNow (s : SessionSaver σ) : SessionSaver σ := s.clearTimer.requestAsyncSave

def timerFired (s : SessionSaver σ) : SessionSaver σ :=
  if s.saveTimer then s.clearTimer.requestAsyncSave else s

/-- A mutation of the rows in memory. -/
def mutate (s : SessionSaver σ) (sessions : σ) : SessionSaver σ :=
  { s with sessions := sessions, generation := s.generation + 1 }

/-- `JSON.stringify(payload)` in `saveNowUnlockedAsync`. -/
def serialize (s : SessionSaver σ) : SessionSaver σ :=
  match s.asyncSaveInFlight with
  | some .admitted => { s with asyncSaveInFlight := some (.writing s.generation s.sessions) }
  | _ => s

/-- The rename of the written payload. -/
def rename (s : SessionSaver σ) : SessionSaver σ :=
  match s.asyncSaveInFlight with
  | some (.writing serializedGeneration _) =>
    { s with asyncSaveInFlight := some (.renamed serializedGeneration) }
  | _ => s

/-- The payload that the rename publishes. -/
def payload? (s : SessionSaver σ) : Option (Nat × σ) :=
  match s.asyncSaveInFlight with
  | some (.writing serializedGeneration payload) => some (serializedGeneration, payload)
  | _ => none

/-- `drainAsyncSaves` after a save that went through: the next turn of its loop, or its end. -/
def drained (s : SessionSaver σ) : SessionSaver σ :=
  match s.asyncSaveInFlight with
  | some (.renamed serializedGeneration) =>
    let s := { s with publishedGeneration := max s.publishedGeneration serializedGeneration }
    if s.asyncSaveRequested && !(s.generation ≤ serializedGeneration) then
      { s with asyncSaveRequested := false, asyncSaveInFlight := some .admitted }
    else { s with
      asyncSaveRequested := false
      asyncSaveInFlight := none
      drains := s.drains + 1 }
  | _ => s

/-- `drainAsyncSaves` after a save that was rejected, at any await up to its rename. -/
def failed (s : SessionSaver σ) : SessionSaver σ :=
  match s.asyncSaveInFlight with
  | some .admitted | some (.writing _ _) =>
    { s with
      persistenceFailureSequence := s.persistenceFailureSequence + 1
      asyncSaveRequested := false
      asyncSaveInFlight := none
      drains := s.drains + 1 }
  | _ => s

/-- What a turn of `persistThroughGeneration` comes to. -/
inductive Barrier
  | awaiting (drain : Nat)
  | persisted
  | rejected
  deriving DecidableEq

/-- The head of the loop of `persistThroughGeneration`, up to its await. -/
def persistThroughGeneration (s : SessionSaver σ) (targetGeneration : Nat) :
    SessionSaver σ × Barrier :=
  if targetGeneration ≤ s.publishedGeneration then (s, .persisted)
  else if s.asyncSaveInFlight.isSome then (s, .awaiting s.drains)
  else (s.requestAsyncSave, .awaiting s.drains)

/-- The rest of the loop's body, once the awaited drain has ended, and its head again. -/
def persistResumed (s : SessionSaver σ) (targetGeneration failureSequence : Nat) :
    SessionSaver σ × Barrier :=
  if targetGeneration ≤ s.publishedGeneration then (s, .persisted)
  else if s.persistenceFailureSequence ≠ failureSequence then (s, .rejected)
  else s.persistThroughGeneration targetGeneration

end SessionSaver

end Bobbit.Server
