import Bobbit.Lib.Json

/-!
# Prompt queue

Model of `PromptQueue` in `src/server/agent/prompt-queue.ts`. The array is the
visible order; each row with delivery metadata belongs to a lane, its target turn,
and carries a sequence in it. Ids that the queue makes up come from `randomUUID`,
and attachments are kept as texts.
-/

namespace Bobbit.Server

open Lib

/-- A field of a persisted record: it may be missing, or hold a value that is not of
    its type. -/
inductive Field (α : Type)
  | absent
  | invalid
  | valid (value : α)
deriving DecidableEq

namespace Field

variable {α : Type}

/-- The value of a field that is well typed. -/
def toOption : Field α → Option α
  | .valid value => some value
  | _ => none

def isPresent : Field α → Bool
  | .absent => false
  | _ => true

end Field

inductive DeliveryIntentKind
  | prompt | steer
deriving DecidableEq

inductive DeliveryTargetTurn
  | continuation | nextTurn
deriving DecidableEq

inductive DeliveryState
  | queued | dispatching | received | uncertain | failed | cancelled
deriving DecidableEq

/-- The authors are kinds of sources. -/
inductive PromptSource
  | user | autoNudge | taskNotification | verification | system | agent | childComplete | extension
deriving DecidableEq

inductive MessageAuthorKind
  | user | agent | system
deriving DecidableEq

def MessageAuthorKind.source : MessageAuthorKind → PromptSource
  | .user => .user
  | .agent => .agent
  | .system => .system

structure MessageAuthor where
  kind : MessageAuthorKind
  id : String
  label : String
deriving DecidableEq

inductive StreamingBehavior
  | steer | followUp
deriving DecidableEq

/-- What the queue copies without looking at it. -/
structure Payload where
  images : List (JsString × String)
  attachments : List JsString
  streamingBehavior : Option StreamingBehavior
  coldStart : Bool
  suppressTitleGen : Bool
  retryable : Option Bool
deriving DecidableEq

structure QueuedMessage where
  id : String
  text : JsString
  displayText : Option JsString
  isSteered : Bool
  createdAt : Nat
  kind : Option DeliveryIntentKind
  targetTurn : Option DeliveryTargetTurn
  sequence : Option Nat
  deliveryState : Option DeliveryState
  deliveryReason : Option JsString
  deliveryError : Option JsString
  source : Option PromptSource
  verifierOwned : Bool
  author : Option MessageAuthor
  goalDispatchGuardId : Option String
  payload : Payload
deriving DecidableEq

/-- A row as it is read back: a persisted record or a replayed admission frame. -/
structure RawMessage where
  id : Field String
  text : JsString
  displayText : Field JsString
  isSteered : Bool
  createdAt : Nat
  kind : Field DeliveryIntentKind
  targetTurn : Field DeliveryTargetTurn
  sequence : Field Nat
  deliveryState : Field DeliveryState
  deliveryReason : Field JsString
  deliveryError : Field JsString
  source : Field PromptSource
  verifierOwned : Bool
  author : Field MessageAuthor
  goalDispatchGuardId : Field String
  payload : Payload

structure PromptQueueEnqueueOptions where
  displayText : Option JsString
  isSteered : Option Bool
  source : Option PromptSource
  verifierOwned : Bool
  author : Field MessageAuthor
  goalDispatchGuardId : Option String
  intentId : Option String
  kind : Option DeliveryIntentKind
  targetTurn : Option DeliveryTargetTurn
  sequence : Field Nat
  deliveryState : Option DeliveryState
  deliveryReason : Option JsString
  deliveryError : Option JsString
  payload : Payload

structure PromptQueue where
  queue : List QueuedMessage
  nextSequence : DeliveryTargetTurn → Nat

/-- `Number.MAX_SAFE_INTEGER`. -/
def maxSafeInteger : Nat := 2 ^ 53 - 1

/-- `n + 1` as numbers compute it: above the safe integers it stays. -/
def numberSucc (n : Nat) : Nat := min (n + 1) (2 ^ 53)

def validSequence (sequence : Option Nat) : Option Nat := sequence.filter (· ≤ maxSafeInteger)

def validKey (value : Option String) : Option String := value.filter (· ≠ "")

def boundedDiagnostic (value : Option JsString) : Option JsString :=
  (value.filter (· ≠ [])).map (·.take 512)

def DeliveryIntentKind.lane : DeliveryIntentKind → DeliveryTargetTurn
  | .steer => .continuation
  | .prompt => .nextTurn

def kindOf (isSteered : Bool) : DeliveryIntentKind := if isSteered then .steer else .prompt

namespace QueuedMessage

def laneSequence (row : QueuedMessage) (lane : DeliveryTargetTurn) : Option Nat :=
  if row.targetTurn = some lane then validSequence row.sequence else none

end QueuedMessage

namespace PromptQueue

def allocateSequence (s : PromptQueue) (target : DeliveryTargetTurn) : Nat × PromptQueue :=
  (s.nextSequence target,
    { s with
      nextSequence := fun lane =>
        if lane = target then numberSucc (s.nextSequence target) else s.nextSequence lane })

def observeSequence (s : PromptQueue) (row : QueuedMessage) : PromptQueue :=
  { s with
    nextSequence := fun lane =>
      match row.laneSequence lane with
      | some sequence => max (s.nextSequence lane) (sequence + 1)
      | none => s.nextSequence lane }

/-- The sequence a row brings along, or else a new one. -/
def sequenceFor (s : PromptQueue) (target : DeliveryTargetTurn) (sequence : Field Nat) :
    Nat × PromptQueue :=
  match validSequence sequence.toOption with
  | some sequence => (sequence, s)
  | none => s.allocateSequence target

/-- Does a record carry delivery metadata, well typed or not? -/
def RawMessage.isReliable (message : RawMessage) : Bool :=
  message.kind.isPresent || message.targetTurn.isPresent || message.sequence.isPresent ||
    message.deliveryState.isPresent

/-- The part of a row that `normalizeQueuedMessage` reads without the delivery metadata. -/
def normalizeContent (message : RawMessage) (uuid : String) : QueuedMessage where
  id := (validKey message.id.toOption).getD uuid
  text := message.text
  displayText := message.displayText.toOption
  isSteered := message.isSteered
  createdAt := message.createdAt
  kind := none
  targetTurn := none
  sequence := none
  deliveryState := none
  deliveryReason := boundedDiagnostic message.deliveryReason.toOption
  deliveryError := boundedDiagnostic message.deliveryError.toOption
  source := message.source.toOption <|> message.author.toOption.map (·.kind.source)
  verifierOwned := message.verifierOwned
  author := message.author.toOption
  goalDispatchGuardId := validKey message.goalDispatchGuardId.toOption
  payload := message.payload

/-- `normalizeQueuedMessage`, with `allocateSequence` as its fallback. -/
def normalizeQueuedMessage (s : PromptQueue) (message : RawMessage) (uuid : String) :
    QueuedMessage × PromptQueue :=
  if RawMessage.isReliable message then
    let kind := message.kind.toOption.getD (kindOf message.isSteered)
    let targetTurn := message.targetTurn.toOption.getD kind.lane
    let (sequence, s) := s.sequenceFor targetTurn message.sequence
    ({ normalizeContent message uuid with
        kind := some kind
        targetTurn := some targetTurn
        sequence := some sequence
        deliveryState := some (message.deliveryState.toOption.getD .queued) }, s)
  else (normalizeContent message uuid, s)

/-- One turn of the loop of the constructor; `seen` are the ids so far. -/
def restore (s : PromptQueue) (message : RawMessage × String) : PromptQueue :=
  let (normalized, s) := s.normalizeQueuedMessage message.1 message.2
  if normalized.id ∈ s.queue.map (·.id) then s
  else
    let s := s.observeSequence normalized
    { s with queue := s.queue ++ [normalized] }

def empty : PromptQueue := ⟨[], fun _ => 1⟩

/-- The constructor; each record comes with the UUID it gets if its id is unusable. -/
def new (initial : List (RawMessage × String)) : PromptQueue := initial.foldl restore empty

/-- The options of a message that make it reliable. -/
def PromptQueueEnqueueOptions.isReliable (opts : PromptQueueEnqueueOptions) : Bool :=
  (validKey opts.intentId).isSome || opts.kind.isSome || opts.targetTurn.isSome ||
    opts.sequence.isPresent || opts.deliveryState.isSome

def createMessage (s : PromptQueue) (text : JsString) (opts : PromptQueueEnqueueOptions)
    (uuid : String) (now : Nat) : QueuedMessage × PromptQueue :=
  let isSteered := opts.isSteered.getD (opts.kind = some .steer)
  let content : QueuedMessage := {
    id := (validKey opts.intentId).getD uuid
    text := text
    displayText := opts.displayText
    isSteered := isSteered
    createdAt := now
    kind := none
    targetTurn := none
    sequence := none
    deliveryState := none
    deliveryReason := boundedDiagnostic opts.deliveryReason
    deliveryError := boundedDiagnostic opts.deliveryError
    source := opts.source
    verifierOwned := opts.verifierOwned
    author := opts.author.toOption
    goalDispatchGuardId := validKey opts.goalDispatchGuardId
    payload := opts.payload }
  if PromptQueueEnqueueOptions.isReliable opts then
    let kind := opts.kind.getD (kindOf isSteered)
    let targetTurn := opts.targetTurn.getD kind.lane
    let (sequence, s) := s.sequenceFor targetTurn opts.sequence
    let msg := { content with
      kind := some kind
      targetTurn := some targetTurn
      sequence := some sequence
      deliveryState := some (opts.deliveryState.getD .queued) }
    (msg, s.observeSequence msg)
  else (content, s.observeSequence content)

def reorder (s : PromptQueue) : PromptQueue :=
  { s with queue := s.queue.filter (·.isSteered) ++ s.queue.filter (! ·.isSteered) }

def find (s : PromptQueue) (id : String) : Option QueuedMessage := s.queue.find? (·.id = id)

def enqueue (s : PromptQueue) (text : JsString) (opts : PromptQueueEnqueueOptions) (uuid : String)
    (now : Nat) : PromptQueue :=
  let (msg, s) := s.createMessage text opts uuid now
  match s.find msg.id with
  | some _ => s
  | none =>
    let s := { s with queue := s.queue ++ [msg] }
    if msg.isSteered then s.reorder else s

/-- The row that a replayed occurrence is already queued as. -/
def findExisting (s : PromptQueue) (message : RawMessage) : Option QueuedMessage :=
  (validKey message.id.toOption).bind s.find

def enqueueExisting (s : PromptQueue) (message : RawMessage) (uuid : String) : PromptQueue :=
  match s.findExisting message with
  | some _ => s
  | none =>
    let (normalized, s) := s.normalizeQueuedMessage message uuid
    let s := s.observeSequence normalized
    { s with queue := s.queue ++ [normalized] }

def enqueueExistingAtFront (s : PromptQueue) (message : RawMessage) (uuid : String) : PromptQueue :=
  match s.findExisting message with
  | some _ => s
  | none =>
    let (normalized, s) := s.normalizeQueuedMessage message uuid
    let s := s.observeSequence normalized
    { s with queue := normalized :: s.queue }

def enqueueAtFront (s : PromptQueue) (text : JsString) (opts : PromptQueueEnqueueOptions)
    (uuid : String) (now : Nat) : PromptQueue :=
  let (msg, s) := s.createMessage text opts uuid now
  match s.find msg.id with
  | some _ => s
  | none => { s with queue := msg :: s.queue }.reorder

def restoreAtFront (s : PromptQueue) (message : RawMessage) (uuid : String) : PromptQueue :=
  (s.enqueueExistingAtFront message uuid).reorder

def replaceRow (id : String) (row : QueuedMessage) : List QueuedMessage → List QueuedMessage
  | [] => []
  | first :: rest => if first.id = id then row :: rest else first :: replaceRow id row rest

def steer (s : PromptQueue) (messageId : String) : PromptQueue :=
  match s.find messageId with
  | none => s
  | some msg =>
    if msg.isSteered then s
    else if msg.kind.isSome || msg.targetTurn.isSome || msg.sequence.isSome ||
        msg.deliveryState.isSome then
      let (sequence, s) := s.allocateSequence .continuation
      let steered := { msg with
        isSteered := true
        kind := some .steer
        targetTurn := some .continuation
        sequence := some sequence }
      { s with queue := replaceRow messageId steered s.queue }.reorder
    else { s with queue := replaceRow messageId { msg with isSteered := true } s.queue }.reorder

def remove (s : PromptQueue) (messageId : String) : PromptQueue :=
  { s with queue := s.queue.eraseP (·.id = messageId) }

def dequeue (s : PromptQueue) : PromptQueue := { s with queue := s.queue.tail }

/-- `sequence < selectedSequence`, where no sequence stands for infinity. -/
def sequenceLt : Option Nat → Option Nat → Bool
  | some sequence, some selected => sequence < selected
  | some _, none => true
  | none, _ => false

/-- The loop of `dequeueForTarget`. -/
def selectForTarget (target : DeliveryTargetTurn) :
    List QueuedMessage → Nat → Option (Nat × Option Nat) → Option (Nat × Option Nat)
  | [], _, selected => selected
  | row :: rest, index, selected =>
    if row.targetTurn ≠ some target then selectForTarget target rest (index + 1) selected
    else
      let sequence := validSequence row.sequence
      match selected with
      | none => selectForTarget target rest (index + 1) (some (index, sequence))
      | some (_, best) =>
        if sequenceLt sequence best then
          selectForTarget target rest (index + 1) (some (index, sequence))
        else selectForTarget target rest (index + 1) selected

/-- `dequeueForTarget`, with the row it returns. -/
def dequeueForTarget (s : PromptQueue) (target : DeliveryTargetTurn) :
    Option QueuedMessage × PromptQueue :=
  match selectForTarget target s.queue 0 none with
  | none => (none, s)
  | some (index, _) => (s.queue[index]?, { s with queue := s.queue.eraseIdx index })

/-- `dequeueAllSteered`, with the rows it returns. -/
def dequeueAllSteered (s : PromptQueue) : List QueuedMessage × PromptQueue :=
  (s.queue.takeWhile (·.isSteered), { s with queue := s.queue.dropWhile (·.isSteered) })

/-- Give the rows of a lane these sequences, in queue order. -/
def assignSlots (lane : DeliveryTargetTurn) : List QueuedMessage → List Nat → List QueuedMessage
  | [], _ => []
  | row :: rest, slots =>
    if (row.laneSequence lane).isSome then
      match slots with
      | slot :: slots => { row with sequence := some slot } :: assignSlots lane rest slots
      | [] => row :: assignSlots lane rest []
    else row :: assignSlots lane rest slots

/-- `resequenceReliableLanes`, for one lane. -/
def resequenceLane (lane : DeliveryTargetTurn) (queue : List QueuedMessage) : List QueuedMessage :=
  assignSlots lane queue ((queue.filterMap (·.laneSequence lane)).mergeSort (· ≤ ·))

def reorderByIds (s : PromptQueue) (messageIds : List String) (resequence : Bool) : PromptQueue :=
  let byId := fun id => s.queue.reverse.find? (·.id = id)
  let seen := messageIds.filter fun id => (byId id).isSome
  let reordered := messageIds.filterMap byId ++ s.queue.filter (·.id ∉ seen)
  { s with
    queue :=
      if resequence then resequenceLane .nextTurn (resequenceLane .continuation reordered)
      else reordered }

/-- May a continuation be moved to the next turn? -/
def isRetargetable (row : QueuedMessage) : Bool :=
  row.targetTurn = some .continuation &&
    (row.deliveryState = none || row.deliveryState = some .queued || row.deliveryState = some .failed)

def inNextTurn (row : QueuedMessage) : Bool := row.targetTurn = some .nextTurn && row.kind.isSome

/-- Allocate a next-turn sequence for each row. -/
def allocateRows (s : PromptQueue) : List QueuedMessage → List QueuedMessage × PromptQueue
  | [] => ([], s)
  | row :: rest =>
    let (sequence, s) := s.allocateSequence .nextTurn
    let (rows, s) := allocateRows s rest
    ({ row with sequence := some sequence } :: rows, s)

/-- Put rows into the places of the next-turn lane. -/
def fillNextTurn : List QueuedMessage → List QueuedMessage → List QueuedMessage
  | [], _ => []
  | row :: rest, rows =>
    if inNextTurn row then
      match rows with
      | next :: rows => next :: fillNextTurn rest rows
      | [] => row :: fillNextTurn rest []
    else row :: fillNextTurn rest rows

/-- `retargetContinuationToNextTurn`; each restored row comes with its UUID. -/
def retargetContinuationToNextTurn (s : PromptQueue) (reason : JsString)
    (restoredRows : List (RawMessage × String)) : PromptQueue :=
  let s := restoredRows.foldl (fun s message => s.enqueueExisting message.1 message.2) s
  if s.queue.all (! isRetargetable ·) then s
  else
    let queue := s.queue.map fun row =>
      if isRetargetable row then
        { row with targetTurn := some .nextTurn, deliveryReason := some reason }
      else row
    let laneRows := (queue.filter inNextTurn).mergeSort (·.createdAt ≤ ·.createdAt)
    let (rows, s) := s.allocateRows laneRows
    { s with queue := fillNextTurn queue rows }

/-- The rows that `retargetContinuationToNextTurn` returns. -/
def retargetedRows (s : PromptQueue) (reason : JsString)
    (restoredRows : List (RawMessage × String)) : List QueuedMessage :=
  let s := restoredRows.foldl (fun s message => s.enqueueExisting message.1 message.2) s
  let retargeted := s.queue.filter isRetargetable
  if retargeted.isEmpty then []
  else
    let queue := s.queue.map fun row =>
      if isRetargetable row then
        { row with targetTurn := some .nextTurn, deliveryReason := some reason }
      else row
    let laneRows := (queue.filter inNextTurn).mergeSort (·.createdAt ≤ ·.createdAt)
    (s.allocateRows laneRows).1.filter fun row => row.id ∈ retargeted.map (·.id)

inductive Event
  | enqueue (text : JsString) (opts : PromptQueueEnqueueOptions) (uuid : String) (now : Nat)
  | enqueueExisting (message : RawMessage) (uuid : String)
  | enqueueExistingAtFront (message : RawMessage) (uuid : String)
  | enqueueAtFront (text : JsString) (opts : PromptQueueEnqueueOptions) (uuid : String) (now : Nat)
  | restoreAtFront (message : RawMessage) (uuid : String)
  | steer (messageId : String)
  | remove (messageId : String)
  | dequeue
  | dequeueForTarget (target : DeliveryTargetTurn)
  | dequeueAllSteered
  | reorderByIds (messageIds : List String) (resequence : Bool)
  | retarget (reason : JsString) (restoredRows : List (RawMessage × String))

def step (s : PromptQueue) : Event → PromptQueue
  | .enqueue text opts uuid now => s.enqueue text opts uuid now
  | .enqueueExisting message uuid => s.enqueueExisting message uuid
  | .enqueueExistingAtFront message uuid => s.enqueueExistingAtFront message uuid
  | .enqueueAtFront text opts uuid now => s.enqueueAtFront text opts uuid now
  | .restoreAtFront message uuid => s.restoreAtFront message uuid
  | .steer messageId => s.steer messageId
  | .remove messageId => s.remove messageId
  | .dequeue => s.dequeue
  | .dequeueForTarget target => (s.dequeueForTarget target).2
  | .dequeueAllSteered => s.dequeueAllSteered.2
  | .reorderByIds messageIds resequence => s.reorderByIds messageIds resequence
  | .retarget reason restoredRows => s.retargetContinuationToNextTurn reason restoredRows

end PromptQueue

end Bobbit.Server
