import Bobbit.Lib.FreshName
import Bobbit.Server.AuthorProjection
import Bobbit.Server.InFlightSteers

/-!
# Splicing steers in flight into a snapshot

Model of `src/server/agent/splice-inflight-message.ts`: `spliceInFlightSteers` appends a synthetic
row for every steer of the ledger that the snapshot does not show yet. Rows are arbitrary
values with the properties that the code reads; numbers are rationals.
-/

namespace Bobbit.Server.SteerSplice

open Bobbit.Lib Bobbit.Shared.MessageAuthor
open AuthorSidecar (Platform PromptAuthorBinding Outcome promptAuthorBindingMatchesText)
open InFlightSteers (InFlightAttemptState legacyIntentId legacyAttemptId)

/-- What the splice reads of an `InFlightSteerRecord`. -/
structure InFlightSteerRecord where
  text : JsString
  promptId : JsString
  intentId : Option JsString
  attemptId : Option JsString
  state : Option InFlightAttemptState
  targetTurn : Option DeliveryTargetTurn
  sequence : Option Rat
  retryable : Option Bool
  author : Option Author
deriving DecidableEq

inductive PersistedInFlightSteer
  | legacy (text : JsString)
  | record (entry : InFlightSteerRecord)
deriving DecidableEq

/-- `LOCAL_USER_AUTHOR`. -/
def localUserAuthor : Author := ⟨.user, js "user:local", js "User"⟩

/-- The deterministic carrier of a legacy string at a position. -/
def legacyRecord (text : JsString) (i : Nat) : InFlightSteerRecord where
  text
  promptId := legacyIntentId (numberText i)
  intentId := some (legacyIntentId (numberText i))
  attemptId := some (legacyAttemptId (legacyIntentId (numberText i)))
  state := some .uncertain
  targetTurn := some .continuation
  sequence := some (i + 1)
  retryable := some false
  author := some localUserAuthor

/-- The record of an entry; an empty legacy string has none. -/
def recordOf (entry : PersistedInFlightSteer) (i : Nat) : Option InFlightSteerRecord :=
  match entry with
  | .legacy text => if text = [] then none else some (legacyRecord text i)
  | .record record => some record

/-- `record.intentId ?? record.promptId`. -/
def occurrenceId (record : InFlightSteerRecord) : JsString := record.intentId.getD record.promptId

/-- `inflight-steer:${…}`. -/
def syntheticId (occurrence : JsString) : JsString := js "inflight-steer:" ++ occurrence

def textField (message : Json Rat) (key : String) : Option JsString :=
  (message.get (js key)).bind Json.string?

/-! ## Evidence -/

/-- The row is a synthetic one, of this occurrence. -/
def syntheticEvidence (record : InFlightSteerRecord) (message : Json Rat) : Bool :=
  (match message.get (js "_inFlightSteer") with
    | some (.bool true) => true
    | _ => false) &&
  (textField message "deliveryIntentId" = some (occurrenceId record) ||
    (record.attemptId.any fun id => textField message "deliveryAttemptId" = some id) ||
    textField message "id" = some (syntheticId (occurrenceId record)))

variable {α : Type} (env : Platform α) (bindings : List (PromptAuthorBinding α))

/-- The binding of an entry: the first one of its attempt (else of its intent, else of its prompt)
    that Pi has echoed. -/
def steerBinding (record : InFlightSteerRecord) : Option (PromptAuthorBinding α) :=
  bindings.find? fun candidate =>
    (match record.attemptId, record.intentId with
      | some attemptId, _ => decide (candidate.attemptId = some attemptId)
      | none, some intentId => decide (candidate.intentId = some intentId)
      | none, none => decide (candidate.promptId = record.promptId)) &&
    decide (candidate.settlement.map (·.outcome) = some .echoed)

/-- `userMessageId`: the first id property that is a non-empty string. -/
def userMessageId (message : Json Rat) : Option JsString :=
  ["id", "entryId", "_entryId", "_bobbitEntryId"].findSome? fun key =>
    (textField message key).filter fun id => ! id.isEmpty

def epochMilliseconds (value : Option (Json Rat)) : Option Rat :=
  match value with
  | some (.num n) => some n
  | some (.str s) => if s.isEmpty then none else env.parseTime s
  | _ => none

/-- `ECHO_TIMESTAMP_TOLERANCE_MS`. -/
def echoTimestampToleranceMs : Rat := 2000

/-- `extractPromptModelText` of any value. -/
def rawModelText (message : Json Rat) : Option JsString :=
  match message with
  | .obj fields => AuthorProjection.extractPromptModelText fields
  | _ => none

/-- The row is a user's, with the text of the echo, and has the id that was settled or a time
    close to it. -/
def echoEvidence (binding : PromptAuthorBinding α) (message : Json Rat) : Bool :=
  let role := textField message "role"
  (role = some (js "user") || role = some (js "user-with-attachments")) &&
  ((rawModelText message).any fun text => promptAuthorBindingMatchesText env binding text) &&
  match binding.settlement with
  | none => false
  | some settlement =>
    (settlement.messageId.any fun id => ! id.isEmpty && userMessageId message = some id) ||
    match settlement.messageTimestamp with
    | none => false
    | some messageTimestamp =>
      match (epochMilliseconds env (message.get (js "timestamp"))).or
          (epochMilliseconds env (message.get (js "ts"))) with
      | some timestamp => |timestamp - messageTimestamp| ≤ echoTimestampToleranceMs
      | none => false

def hasStructuredSteerOccurrence (messages : List (Json Rat)) (record : InFlightSteerRecord) :
    Bool :=
  if messages.any (syntheticEvidence record) then true
  else
    match steerBinding bindings record with
    | none => false
    | some binding =>
      -- without a digest nothing is proven
      if binding.modelTextDigest.isNone then false else messages.any (echoEvidence env binding)

/-! ## The splice -/

def stateText : InFlightAttemptState → JsString
  | .dispatching => js "dispatching"
  | .received => js "received"
  | .uncertain => js "uncertain"

def targetTurnText : DeliveryTargetTurn → JsString
  | .continuation => js "continuation"
  | .nextTurn => js "next-turn"

def syntheticRow (record : InFlightSteerRecord) : Json Rat :=
  .obj ([
      (js "id", .str (syntheticId (occurrenceId record))),
      (js "role", .str (js "user")),
      (js "content", .arr [.obj [(js "type", .str (js "text")), (js "text", .str record.text)]])] ++
    Json.optionalField (js "author") ((record.author.filter isMessageAuthor).map Author.toJson) ++
    [(js "deliveryIntentId", .str (occurrenceId record))] ++
    Json.optionalField (js "deliveryAttemptId") (record.attemptId.map .str) ++
    [(js "deliveryState", .str (stateText (record.state.getD .uncertain)))] ++
    Json.optionalField (js "targetTurn") (record.targetTurn.map fun turn =>
      .str (targetTurnText turn)) ++
    Json.optionalField (js "sequence") (record.sequence.map .num) ++
    Json.optionalField (js "retryable") (record.retryable.map .bool) ++ [
      (js "kind", .str (js "steer")),
      (js "isSteered", .bool true),
      (js "_deliveryRecoveryProjection", .bool true),
      (js "_inFlightSteer", .bool true)])

/-- One turn of the loop: the row to add for the entry at a position. -/
def additionFor (messages : List (Json Rat)) (entry : PersistedInFlightSteer) (i : Nat) :
    Option (Json Rat) := do
  let record ← recordOf entry i
  -- an entry without a text has nothing to show
  if record.text = [] then none
  else if hasStructuredSteerOccurrence env bindings messages record then none
  else some (syntheticRow record)

def additions (messages : List (Json Rat)) (ledger : List PersistedInFlightSteer) :
    List (Json Rat) :=
  ledger.zipIdx.filterMap fun entry => additionFor env bindings messages entry.1 entry.2

def spliceInFlightSteers (messages : List (Json Rat))
    (ledger : Option (List PersistedInFlightSteer)) : List (Json Rat) :=
  match ledger with
  | none => messages
  | some ledger =>
    let added := additions env bindings messages ledger
    if added.isEmpty then messages else messages ++ added

end Bobbit.Server.SteerSplice
