import Mathlib

/-!
# Plan-mutation store

Model of `src/server/agent/plan-mutation-store.ts` for the file of one goal. Each `put`,
`remove`, `decide` and each step of `pruneExpired` on the goal is queued behind the earlier
ones (`mutateGoal`); the head of the queue reads the file, possibly waits for the decision
callback, and rewrites the file. A `get` waits for what was queued before it and then reads
on its own (`readAfterWrites`).

The environment chooses when each step happens and whether it succeeds.
-/

namespace Bobbit.Server.PlanMutationStore

/-- A pending request; `payload` stands for the fields no operation looks at. -/
structure PendingMutation (ρ : Type) where
  goalId : String
  requestId : String
  expiresAt : Int
  payload : ρ
deriving DecidableEq

variable {ρ : Type}

/-- The goal's file: missing, not the text of an array (a write that was cut short), or the rows. -/
inductive File (ρ : Type)
  | absent
  | unreadable
  | rows (list : List (PendingMutation ρ))
deriving DecidableEq

/-- `readFile`: every failure is answered with the empty list. -/
def readFile (file : File ρ) (ok : Bool) : List (PendingMutation ρ) :=
  match ok, file with
  | true, .rows list => list
  | _, _ => []

/-- What a write that goes through leaves: `writeFile` unlinks the file of an empty list. -/
def written (list : List (PendingMutation ρ)) : File ρ :=
  if list.isEmpty then .absent else .rows list

/-! ## Operations -/

/-- The queued operations; `prune` is the step `pruneExpired` takes on this goal. -/
inductive Operation (ρ : Type)
  | put (m : PendingMutation ρ)
  | remove (requestId : String)
  | decide (requestId : String)
  | prune (now : Int)
deriving DecidableEq

/-- What an operation's promise resolves to; `rejected` is the decision callback's own error. -/
inductive Answer (ρ : Type)
  | stored
  | removed (found : Bool)
  | notFound
  | decided (pending : PendingMutation ρ)
  | rejected
  | pruned (count : Nat)
deriving DecidableEq

/-- What an operation does with the list it read: settle at once, rewrite the file, or ask the
    decision callback about `pending` and then rewrite the file. -/
inductive Plan (ρ : Type)
  | settle (answer : Answer ρ)
  | rewrite (list : List (PendingMutation ρ)) (answer : Answer ρ)
  | ask (pending : PendingMutation ρ) (list : List (PendingMutation ρ))
deriving DecidableEq

/-- The position of a request in the list (`findIndex`). -/
def position (list : List (PendingMutation ρ)) (requestId : String) : Option Nat :=
  list.findIdx? (fun m => m.requestId = requestId)

/-- The bodies of `put`, `remove`, `decide` and of the sweep's callback. -/
def planOf (op : Operation ρ) (list : List (PendingMutation ρ)) : Plan ρ :=
  match op with
  | .put m =>
    match position list m.requestId with
    | some i => .rewrite (list.set i m) .stored
    | none => .rewrite (list ++ [m]) .stored
  | .remove requestId =>
    match position list requestId with
    | none => .settle (.removed false)
    | some i => .rewrite (list.eraseIdx i) (.removed true)
  | .decide requestId =>
    match list.find? (fun m => m.requestId = requestId), position list requestId with
    | some pending, some i => .ask pending (list.eraseIdx i)
    | _, _ => .settle .notFound
  | .prune now =>
    let kept := list.filter (fun m => now < m.expiresAt)
    let removed := list.length - kept.length
    if 0 < removed then .rewrite kept (.pruned removed) else .settle (.pruned removed)

/-! ## The queue of one goal -/

/-- Where the head of the queue stands once it has read the file. -/
inductive Phase (ρ : Type)
  | deciding (pending : PendingMutation ρ) (list : List (PendingMutation ρ))
  | writing (list : List (PendingMutation ρ)) (answer : Answer ρ)
deriving DecidableEq

/-- What the environment did to an operation: whether its read worked, the callback resolved,
    the write went through, and whether a write that did not had already cut the file short. -/
structure Outcome where
  readOk : Bool
  resolved : Bool
  truncated : Bool
  landed : Bool
deriving DecidableEq

structure Settled (ρ : Type) where
  op : Operation ρ
  outcome : Outcome
  answer : Answer ρ
deriving DecidableEq

/-- A `get` that has returned: how many operations had been queued before it and how many had
    settled when it read, whether it read a whole file, and what it found. -/
structure Got (ρ : Type) where
  ahead : Nat
  seen : Nat
  whole : Bool
  requestId : String
  found : Option (PendingMutation ρ)
deriving DecidableEq

/-- The file of one goal and everything queued on it. The logs record what callers saw:
    `calls` in call order, the decision callbacks that were run and those that resolved, each
    with the number of its call, and the reads of `get`. -/
structure Goal (ρ : Type) where
  file : File ρ
  settled : List (Settled ρ)
  /-- the operation that has read the file, with what the environment did to it so far -/
  active : Option (Operation ρ × Outcome × Phase ρ)
  waiting : List (Operation ρ)
  gets : List (Nat × String)
  calls : List (Operation ρ)
  asked : List (Nat × String)
  resolved : List (Nat × String)
  got : List (Got ρ)
deriving DecidableEq

/-- A goal's file before anything is queued. -/
def start (file : File ρ) : Goal ρ := ⟨file, [], none, [], [], [], [], [], []⟩

/-- What can happen next. `truncate` is the moment a `writeFile` in progress has emptied the file;
    `write landed` ends the write, and one that did not land leaves the file as it is. -/
inductive Event (ρ : Type)
  | call (op : Operation ρ)
  | read (ok : Bool)
  | answer (resolves : Bool)
  | truncate
  | write (landed : Bool)
  | get (requestId : String)
  | getReads (i : Nat) (ok : Bool)
deriving DecidableEq

/-- A read that worked, nothing written yet. -/
def Outcome.reading (ok : Bool) : Outcome := ⟨ok, false, false, false⟩

/-- The operation at the head of the queue settles. -/
def Goal.settle (g : Goal ρ) (op : Operation ρ) (o : Outcome) (answer : Answer ρ) : Goal ρ :=
  { g with settled := g.settled ++ [⟨op, o, answer⟩], active := none }

/-- One step of the goal's queue, of a write, or of a `get`; an event that cannot happen in the
    state changes nothing. -/
def step (g : Goal ρ) : Event ρ → Goal ρ
  | .call op => { g with waiting := g.waiting ++ [op], calls := g.calls ++ [op] }
  | .read ok =>
    match g.active, g.waiting with
    | none, op :: rest =>
      let g' := { g with waiting := rest }
      match planOf op (readFile g.file ok) with
      | .settle answer => g'.settle op (.reading ok) answer
      | .rewrite list answer => { g' with active := some (op, .reading ok, .writing list answer) }
      | .ask pending list =>
        { g' with active := some (op, .reading ok, .deciding pending list)
                  asked := g.asked ++ [(g.settled.length, pending.requestId)] }
    | _, _ => g
  | .answer resolves =>
    match g.active with
    | some (op, o, .deciding pending list) =>
      if resolves then
        { g with active := some (op, { o with resolved := true }, .writing list (.decided pending))
                 resolved := g.resolved ++ [(g.settled.length, pending.requestId)] }
      else g.settle op o .rejected
    | _ => g
  | .truncate =>
    match g.active with
    | some (op, o, .writing list answer) =>
      -- an empty list unlinks the file, which cuts nothing short
      if list.isEmpty then g
      else { g with file := .unreadable
                    active := some (op, { o with truncated := true }, .writing list answer) }
    | _ => g
  | .write landed =>
    match g.active with
    | some (op, o, .writing list answer) =>
      let g' := g.settle op { o with landed } answer
      if landed then { g' with file := written list } else g'
    | _ => g
  | .get requestId => { g with gets := g.gets ++ [(g.calls.length, requestId)] }
  | .getReads i ok =>
    match g.gets[i]? with
    | some (ahead, requestId) =>
      if ahead ≤ g.settled.length then
        let truncated := match g.active with
          | some (_, o, _) => o.truncated
          | none => false
        { g with gets := g.gets.eraseIdx i
                 got := g.got ++ [⟨ahead, g.settled.length, ok && !truncated, requestId,
                   (readFile g.file ok).find? (fun m => m.requestId = requestId)⟩] }
      else g
    | none => g

/-! ## The operations as single steps -/

def rewritten (file : File ρ) (list : List (PendingMutation ρ)) (o : Outcome) : File ρ :=
  if o.landed then written list else if o.truncated then .unreadable else file

/-- An operation run on its own: what it answers and leaves in the file. -/
def atomically (file : File ρ) (op : Operation ρ) (o : Outcome) : Answer ρ × File ρ :=
  match planOf op (readFile file o.readOk) with
  | .settle answer => (answer, file)
  | .rewrite list answer => (answer, rewritten file list o)
  | .ask pending list =>
    if o.resolved then (.decided pending, rewritten file list o) else (.rejected, file)

/-- The operations run one after another. -/
def replay (file : File ρ) (settled : List (Settled ρ)) : File ρ :=
  settled.foldl (fun file s => (atomically file s.op s.outcome).2) file

/-- The answers are those of the operations run one after another. -/
def AnswersFrom : File ρ → List (Settled ρ) → Prop
  | _, [] => True
  | file, s :: rest =>
    s.answer = (atomically file s.op s.outcome).1 ∧
      AnswersFrom (atomically file s.op s.outcome).2 rest

end Bobbit.Server.PlanMutationStore
