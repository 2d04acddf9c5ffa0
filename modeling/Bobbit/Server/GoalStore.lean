import Bobbit.Lib.JsMap
import Bobbit.Lib.Run

/-!
# Goal store

Model of the `GoalStore` class of `src/server/agent/goal-store.ts`. Goals are objects that
the store changes in place and hands out by reference, so the state has a heap of objects
and the map of the store names places of it. A goal object handed to `put` or `putStrict`
comes with what it holds at the call: callers change a stored object and put it back.

A strict call waits for the barrier of its publication. A drain settles every barrier
requested before it, all with one outcome; the calls then go on one after the other, as
microtasks, and other calls may come between any two of them. What is written, the
callbacks and the closing of the store are left out: nothing modelled here reads them.
-/

namespace Bobbit.Server

open Lib

/-- The value of a property; an object or an array is known by its identity. -/
inductive GoalValue
  | undefined
  | null
  | bool (value : Bool)
  | num (value : Int)
  | str (value : String)
  | ref (number : Nat)
deriving DecidableEq

/-- `String(value)`. -/
def GoalValue.text : GoalValue → String
  | .undefined => "undefined"
  | .null => "null"
  | .bool value => if value then "true" else "false"
  | .num value => toString value
  | .str value => value
  | .ref _ => "[object Object]"

/-- A goal: its id, which no call changes, and its other own properties. -/
structure GoalRecord where
  id : String
  fields : JsMap String GoalValue
deriving DecidableEq

namespace GoalRecord

/-- `record[key]`. -/
def get (record : GoalRecord) (key : String) : GoalValue :=
  (record.fields.get? key).getD .undefined

/-- `record[key] = value`, and `delete record[key]` for none: `restoreProperty`. -/
def restoreProperty (record : GoalRecord) (key : String) (previous : Option GoalValue) :
    GoalRecord :=
  match previous with
  | some value => { record with fields := record.fields.set key value }
  | none => { record with fields := record.fields.erase key }

def assign (record : GoalRecord) (values : JsMap String GoalValue) : GoalRecord :=
  { record with fields := values.foldl (fun fields entry => fields.set entry.1 entry.2) record.fields }

/-- `restoreRecord`. -/
def restore (record previous : GoalRecord) : GoalRecord :=
  { record with
    fields := record.fields.filter fun entry => (previous.fields.get? entry.1).isSome }.assign
      previous.fields

def updatedAt (record : GoalRecord) : Int :=
  match record.fields.get? "updatedAt" with
  | some (.num value) => value
  | _ => 0

/-- A goal without an active error has no error message: the first line of `put`. -/
def withoutStaleError (record : GoalRecord) : GoalRecord :=
  if record.get "setupStatus" ≠ .str "error" then record.restoreProperty "setupError" none else record

end GoalRecord

def nextGoalRevision (now previous : Int) : Int := max now (previous + 1)

/-- `SETUP_STATUSES`. -/
def setupStatuses : List String := ["ready", "preparing", "retrying", "error"]

/-- What `prepareUpdate` makes of the updates. -/
structure PreparedUpdate where
  cleaned : JsMap String GoalValue
  clearSetupError : Bool
deriving DecidableEq

def prepareUpdate (updates : JsMap String GoalValue) : Except String PreparedUpdate :=
  let cleaned : JsMap String GoalValue := updates.filter (·.2 ≠ .undefined)
  match cleaned.get? "setupStatus" with
  | none => .ok ⟨cleaned, false⟩
  | some status =>
    if !setupStatuses.any (fun name => status = .str name) then
      .error s!"Invalid goal setup status: {status.text}"
    else if status ≠ .str "error" then .ok ⟨cleaned.erase "setupError", true⟩
    else .ok ⟨cleaned, false⟩

namespace PreparedUpdate

/-- `hasUpdateChanged`. -/
def changes (update : PreparedUpdate) (existing : GoalRecord) : Bool :=
  (update.clearSetupError && existing.get "setupError" ≠ .undefined) ||
    update.cleaned.any fun entry => existing.get entry.1 ≠ entry.2

/-- `applyUpdate`. -/
def apply (update : PreparedUpdate) (now : Int) (existing : GoalRecord) : GoalRecord :=
  let updatedAt := nextGoalRevision now existing.updatedAt
  let record := (existing.assign update.cleaned).restoreProperty "updatedAt" (some (.num updatedAt))
  if update.clearSetupError then record.restoreProperty "setupError" none else record

def ownedKeys (update : PreparedUpdate) : List String :=
  JsMap.keys update.cleaned ++
    if update.clearSetupError && (update.cleaned.get? "setupError").isNone then ["setupError"] else []

end PreparedUpdate

/-- A property that a strict call owns: what it held before the call and after it. -/
structure OwnedProperty where
  key : String
  previous : Option GoalValue
  applied : Option GoalValue
deriving DecidableEq

/-- A strict call that waits for its publication. -/
inductive StrictCall
  /-- `putStrict`; `previous` is the object it replaced -/
  | put (id : String) (goal : Nat) (previous : Option Nat)
  /-- `updateStrict`; `previous` is a copy of the record it changed -/
  | update (id : String) (existing : Nat) (previous : GoalRecord) (owned : List OwnedProperty)
  /-- `archiveStrictOnce`; `revision` is the time it stamped -/
  | archive (id : String) (existing : Nat) (previous : GoalRecord) (revision : Int)
  /-- an `updateStrict` or `archiveStrictOnce` that changes nothing -/
  | fence (id : String) (archive : Bool)
  /-- a rolled back call that publishes its compensation before it rejects -/
  | compensation (id : String) (archive : Bool)
deriving DecidableEq

/-- A waiting call with its number and what `recordMutation` answered it. -/
structure Waiting where
  number : Nat
  call : StrictCall
  mutationRevision : Nat
  mutationGeneration : Int
deriving DecidableEq

inductive GoalJob
  /-- a strict call goes on; `fails` is whether its publication was rejected -/
  | settle (waiting : Waiting) (fails : Bool)
  /-- `clear` of `archiveStrict` -/
  | clear (id : String) (operation : Nat)
deriving DecidableEq

structure GoalStore where
  /-- every goal object the store has seen -/
  objects : List GoalRecord
  goals : JsMap String Nat
  generation : Int
  goalMutationRevisions : JsMap String Nat
  archiveStrictInFlight : JsMap String Nat
  /-- the barriers that no drain has settled yet, with the calls that wait for them -/
  waiting : List Waiting
  jobs : List GoalJob
  /-- the number of strict calls so far -/
  calls : Nat
deriving DecidableEq

namespace GoalStore

def loaded (goals : List GoalRecord) : GoalStore where
  objects := goals
  goals := (goals.zipIdx).foldl (fun map entry => map.set entry.1.id entry.2) []
  generation := 0
  goalMutationRevisions := []
  archiveStrictInFlight := []
  waiting := []
  jobs := []
  calls := 0

def get (s : GoalStore) (id : String) : Option GoalRecord :=
  (s.goals.get? id).bind (s.objects[·]?)

def getAll (s : GoalStore) : List GoalRecord := s.goals.filterMap (s.objects[·.2]?)

def getGeneration (s : GoalStore) : Int := s.generation

/-- The mutation revision of a goal. -/
def revisionOf (s : GoalStore) (id : String) : Nat := (s.goalMutationRevisions.get? id).getD 0

def recordMutation (s : GoalStore) (id : String) : GoalStore :=
  { s with
    generation := s.generation + 1
    goalMutationRevisions := s.goalMutationRevisions.set id (s.revisionOf id + 1) }

def modify (s : GoalStore) (object : Nat) (f : GoalRecord → GoalRecord) : GoalStore :=
  { s with objects := s.objects.modify object f }

/-- `saveStrict`, with the call that waits for it. -/
def saveStrict (s : GoalStore) (number : Nat) (call : StrictCall) (mutationRevision : Nat)
    (mutationGeneration : Int) : GoalStore :=
  { s with waiting := s.waiting ++ [⟨number, call, mutationRevision, mutationGeneration⟩] }

def bumpGeneration (s : GoalStore) : GoalStore := { s with generation := s.generation + 1 }

/-- The goal object of a `put`: an object that the store has seen, with what it holds now,
    or a new one. -/
def hold (s : GoalStore) (object : Nat) (goal : GoalRecord) : GoalStore × Nat :=
  if (s.objects[object]?).any (·.id = goal.id) then
    (s.modify object fun _ => goal.withoutStaleError, object)
  else ({ s with objects := s.objects ++ [goal.withoutStaleError] }, s.objects.length)

def put (s : GoalStore) (object : Nat) (goal : GoalRecord) : GoalStore :=
  let (s, object) := s.hold object goal
  let s := s.recordMutation goal.id
  { s with goals := s.goals.set goal.id object }

/-- `putStrict`, up to its publication. -/
def putStrict (s : GoalStore) (object : Nat) (goal : GoalRecord) : GoalStore :=
  let number := s.calls
  let (s, object) := { s with calls := s.calls + 1 }.hold object goal
  let previous := s.goals.get? goal.id
  let s := s.recordMutation goal.id
  { s with goals := s.goals.set goal.id object }.saveStrict number
    (.put goal.id object previous) (s.revisionOf goal.id) s.generation

def remove (s : GoalStore) (id : String) : GoalStore :=
  let s := s.recordMutation id
  { s with goals := s.goals.erase id }

/-- The fields that `archive` and `archiveStrictOnce` set. -/
def archived (revision : Int) (record : GoalRecord) : GoalRecord :=
  record.assign
    [("archived", .bool true), ("archivedAt", .num revision), ("updatedAt", .num revision)]

def archive (s : GoalStore) (id : String) (now : Int) : GoalStore × Bool :=
  match s.goals.get? id with
  | none => (s, false)
  | some object =>
    match s.objects[object]? with
    | none => (s, false)
    | some existing =>
      if existing.get "archived" = .bool true then (s, true)
      else
        ((s.recordMutation id).modify object
          (archived (nextGoalRevision now existing.updatedAt)), true)

/-- `archiveStrictOnce`, up to its publication; `number` names the operation. -/
def archiveStrictOnce (s : GoalStore) (number : Nat) (id : String) (now : Int) : GoalStore :=
  match s.goals.get? id with
  | none => { s with jobs := s.jobs ++ [.clear id number] }
  | some object =>
    match s.objects[object]? with
    | none => { s with jobs := s.jobs ++ [.clear id number] }
    | some existing =>
      if existing.get "archived" = .bool true then
        s.saveStrict number (.fence id true) (s.revisionOf id) s.generation
      else
        let s := s.recordMutation id
        let revision := nextGoalRevision now existing.updatedAt
        (s.modify object (archived revision)).saveStrict number
          (.archive id object existing revision) (s.revisionOf id) s.generation

/-- `archiveStrict`: archives of one goal share an operation. -/
def archiveStrict (s : GoalStore) (id : String) (now : Int) : GoalStore :=
  match s.archiveStrictInFlight.get? id with
  | some _ => s
  | none =>
    { s with
      archiveStrictInFlight := s.archiveStrictInFlight.set id s.calls
      calls := s.calls + 1 }.archiveStrictOnce s.calls id now

def clearSchedulerRecovery (s : GoalStore) (id : String) (now : Int) : GoalStore × Bool :=
  match s.goals.get? id with
  | none => (s, false)
  | some object =>
    match s.objects[object]? with
    | none => (s, false)
    | some existing =>
      if existing.get "schedulerRecovery" = .undefined then (s, false)
      else
        ((s.recordMutation id).modify object fun record =>
          (record.restoreProperty "schedulerRecovery" none).restoreProperty "updatedAt"
            (some (.num (nextGoalRevision now record.updatedAt))), true)

def update (s : GoalStore) (id : String) (updates : JsMap String GoalValue) (now : Int) :
    GoalStore × Except String Bool :=
  match s.goals.get? id with
  | none => (s, .ok false)
  | some object =>
    match s.objects[object]?, prepareUpdate updates with
    | none, _ => (s, .ok false)
    | some _, .error message => (s, .error message)
    | some existing, .ok update =>
      if !update.changes existing then (s, .ok true)
      else ((s.recordMutation id).modify object (update.apply now), .ok true)

/-- `previousOwned` and `appliedOwned`. -/
def ownedProperties (update : PreparedUpdate) (now : Int) (existing : GoalRecord) :
    List OwnedProperty :=
  update.ownedKeys.map fun key =>
    ⟨key, existing.fields.get? key, (update.apply now existing).fields.get? key⟩

/-- `updateStrict`, up to its publication; the answer is that of a call that ends at once. -/
def updateStrict (s : GoalStore) (id : String) (updates : JsMap String GoalValue) (now : Int) :
    GoalStore × Option (Except String Bool) :=
  match s.goals.get? id with
  | none => (s, some (.ok false))
  | some object =>
    match s.objects[object]?, prepareUpdate updates with
    | none, _ => (s, some (.ok false))
    | some _, .error message => (s, some (.error message))
    | some existing, .ok update =>
      let number := s.calls
      let s := { s with calls := s.calls + 1 }
      if !update.changes existing then
        (s.saveStrict number (.fence id false) (s.revisionOf id) s.generation, none)
      else
        let s := s.recordMutation id
        ((s.modify object (update.apply now)).saveStrict number
          (.update id object existing (ownedProperties update now existing)) (s.revisionOf id)
          s.generation, none)

/-! ## After the publication -/

/-- A drain settles every barrier, each call goes on in a microtask of its own. -/
def drain (s : GoalStore) (fails : Bool) : GoalStore :=
  { s with waiting := [], jobs := s.jobs ++ s.waiting.map (.settle · fails) }

def settled (s : GoalStore) (waiting : Waiting) : GoalStore :=
  match waiting.call with
  | .archive id .. | .fence id true | .compensation id true =>
    { s with jobs := s.jobs ++ [.clear id waiting.number] }
  | _ => s

/-- The whole-record branch: the counter goes back when nothing else has moved it. -/
def rolledBack (s : GoalStore) (waiting : Waiting) (id : String) : GoalStore :=
  { s with
    generation :=
      if s.generation = waiting.mutationGeneration then s.generation - 1 else s.generation + 1
    goalMutationRevisions := s.goalMutationRevisions.set id (waiting.mutationRevision + 1) }

/-- `previous` goes back into the map, or the goal is deleted. -/
def putBack (s : GoalStore) (id : String) (previous : Option Nat) : GoalStore :=
  match previous with
  | some object => { s with goals := s.goals.set id object }
  | none => { s with goals := s.goals.erase id }

/-- A property that still holds what the call has applied is restored. -/
def OwnedProperty.undo (record : GoalRecord) (owned : OwnedProperty) : GoalRecord :=
  if record.fields.get? owned.key = owned.applied then
    record.restoreProperty owned.key owned.previous
  else record

/-- The field rollback of `archiveStrictOnce`. -/
def undoArchive (previous : GoalRecord) (revision : Int) (record : GoalRecord) : GoalRecord :=
  let record := if record.get "archived" = .bool true then
      record.restoreProperty "archived" (previous.fields.get? "archived") else record
  let record := if record.get "archivedAt" = .num revision then
      record.restoreProperty "archivedAt" (previous.fields.get? "archivedAt") else record
  if record.get "updatedAt" = .num revision then
    record.restoreProperty "updatedAt" (some (.num previous.updatedAt)) else record

/-- Nothing has changed the goal since the call: both the record revision and the object. -/
def Unchanged (s : GoalStore) (waiting : Waiting) (id : String) (object : Nat) : Prop :=
  s.goalMutationRevisions.get? id = some waiting.mutationRevision ∧ s.goals.get? id = some object

instance (s : GoalStore) (waiting : Waiting) (id : String) (object : Nat) :
    Decidable (s.Unchanged waiting id object) :=
  inferInstanceAs (Decidable (_ ∧ _))

/-- The field branch: what the goal holds now is changed, and published before the call
    rejects. -/
def compensate (s : GoalStore) (waiting : Waiting) (id : String) (isArchive : Bool)
    (undo : GoalRecord → GoalRecord) : GoalStore :=
  let s := match s.goals.get? id with
    | some current => (s.modify current undo).recordMutation id
    | none => s
  s.saveStrict waiting.number (.compensation id isArchive) waiting.mutationRevision
    waiting.mutationGeneration

/-- The `catch` of a strict call. -/
def rejected (s : GoalStore) (waiting : Waiting) : GoalStore :=
  match waiting.call with
  | .put id goal previous =>
    if s.Unchanged waiting id goal then (s.putBack id previous).rolledBack waiting id else s
  | .update id existing previous owned =>
    if s.Unchanged waiting id existing then
      (s.modify existing (·.restore previous)).rolledBack waiting id
    else s.compensate waiting id false fun record => owned.foldl OwnedProperty.undo record
  | .archive id existing previous revision =>
    if s.Unchanged waiting id existing then
      ((s.modify existing (·.restore previous)).rolledBack waiting id).settled waiting
    else s.compensate waiting id true (undoArchive previous revision)
  | .fence .. | .compensation .. => s.settled waiting

def clear (s : GoalStore) (id : String) (operation : Nat) : GoalStore :=
  if s.archiveStrictInFlight.get? id = some operation then
    { s with archiveStrictInFlight := s.archiveStrictInFlight.erase id }
  else s

def runJob (s : GoalStore) : GoalStore :=
  match s.jobs with
  | [] => s
  | job :: rest =>
    let s := { s with jobs := rest }
    match job with
    | .settle waiting true => s.rejected waiting
    | .settle waiting false => s.settled waiting
    | .clear id operation => s.clear id operation

inductive Event
  | put (object : Nat) (goal : GoalRecord)
  | putStrict (object : Nat) (goal : GoalRecord)
  | remove (id : String)
  | archive (id : String) (now : Int)
  | archiveStrict (id : String) (now : Int)
  | update (id : String) (updates : JsMap String GoalValue) (now : Int)
  | updateStrict (id : String) (updates : JsMap String GoalValue) (now : Int)
  | clearSchedulerRecovery (id : String) (now : Int)
  | bumpGeneration
  | drain (fails : Bool)
  | runJob
deriving DecidableEq

def step (s : GoalStore) : Event → GoalStore
  | .put object goal => s.put object goal
  | .putStrict object goal => s.putStrict object goal
  | .remove id => s.remove id
  | .archive id now => (s.archive id now).1
  | .archiveStrict id now => s.archiveStrict id now
  | .update id updates now => (s.update id updates now).1
  | .updateStrict id updates now => (s.updateStrict id updates now).1
  | .clearSchedulerRecovery id now => (s.clearSchedulerRecovery id now).1
  | .bumpGeneration => s.bumpGeneration
  | .drain fails => s.drain fails
  | .runJob => s.runJob

end GoalStore

end Bobbit.Server
