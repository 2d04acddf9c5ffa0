import Bobbit.Lib.FreshName
import Bobbit.Server.PromptQueue

/-!
# The ledger of steers in flight

Model of the persisted ledger in `src/server/agent/session-store.ts`: the records of user intents
that were handed to Pi and are kept until they are settled (`InFlightSteerRecord`), and
`normalizePersistedInFlightSteers`, which rereads what any older version has persisted.

`π` is the type of the images and attachments, which are only copied.
-/

namespace Bobbit.Server.InFlightSteers

open Lib

variable {π : Type}

inductive InFlightAttemptState
  | dispatching | received | uncertain
deriving DecidableEq

/-- A record as `normalizePersistedInFlightSteers` makes it. -/
structure InFlightSteerRecord (π : Type) where
  text : JsString
  displayText : Option JsString
  promptId : JsString
  intentId : JsString
  attemptId : JsString
  dispatchEpoch : Nat
  state : InFlightAttemptState
  targetTurn : DeliveryTargetTurn
  sequence : Nat
  kind : DeliveryIntentKind
  createdAt : Nat
  retryable : Bool
  source : Option PromptSource
  author : Option MessageAuthor
  images : Option (List π)
  attachments : Option (List π)
  suppressTitleGen : Bool
  goalDispatchGuardId : Option JsString
deriving DecidableEq

/-- A persisted record: any of its fields may be missing or ill typed. Of the flag it only
matters whether it is true. -/
structure PersistedRecord (π : Type) where
  text : Field JsString
  displayText : Field JsString
  promptId : Field JsString
  intentId : Field JsString
  attemptId : Field JsString
  dispatchEpoch : Field Nat
  state : Field InFlightAttemptState
  targetTurn : Field DeliveryTargetTurn
  sequence : Field Nat
  kind : Field DeliveryIntentKind
  createdAt : Field Nat
  retryable : Field Bool
  source : Field PromptSource
  author : Field MessageAuthor
  images : Field (List π)
  attachments : Field (List π)
  suppressTitleGen : Bool
  goalDispatchGuardId : Field JsString
deriving DecidableEq

/-- `PersistedInFlightSteer`; what is no object is an object without a text. -/
inductive PersistedInFlightSteer (π : Type)
  | legacy (text : JsString)
  | record (entry : PersistedRecord π)
deriving DecidableEq

def validLedgerKey (value : Field JsString) : Option JsString := value.toOption.filter (· ≠ [])

/-- `validLedgerInteger`; a number that is no natural one is an ill-typed field. -/
def validLedgerInteger (value : Field Nat) : Option Nat :=
  value.toOption.filter (· ≤ maxSafeInteger)

/-- `LOCAL_USER_AUTHOR`. -/
def localUserAuthor : MessageAuthor := ⟨.user, "user:local", "User"⟩

/-- `legacy-inflight-steer:${…}`. -/
def legacyIntentId (key : JsString) : JsString := js "legacy-inflight-steer:" ++ key

/-- `attempt:legacy-inflight:${…}`. -/
def legacyAttemptId (intentId : JsString) : JsString := js "attempt:legacy-inflight:" ++ intentId

/-- `${baseIntentId}:${n}`, and the base id before the first try of a number. -/
def numberedIntentId (base : JsString) : Nat → JsString
  | 0 => base
  | n + 1 => base ++ js ":" ++ numberText (n + 1)

/-- The text that a persisted record is kept for. -/
def PersistedRecord.ledgerText (entry : PersistedRecord π) : Option JsString :=
  validLedgerKey entry.text

def PersistedRecord.ledgerPromptId (entry : PersistedRecord π) (index : Nat) : JsString :=
  (validLedgerKey entry.promptId).getD (legacyIntentId (numberText index))

/-- `completeModernAttempt`: the intent, attempt and epoch of a record that has all three. -/
def PersistedRecord.completeModernAttempt (entry : PersistedRecord π) :
    Option (JsString × JsString × Nat) :=
  match validLedgerKey entry.intentId, validLedgerKey entry.attemptId,
    validLedgerInteger entry.dispatchEpoch with
  | some intentId, some attemptId, some epoch => some (intentId, attemptId, epoch)
  | _, _, _ => none

/-- What a turn of the loop makes of a legacy string. -/
def normalizeLegacy (index : Nat) (activeIntentIds : List JsString) (text : JsString) :
    Option (InFlightSteerRecord π) :=
  let intentId := legacyIntentId (numberText index)
  if text = [] then none
  else if intentId ∈ activeIntentIds then none
  else some {
    text
    displayText := none
    promptId := intentId
    intentId
    attemptId := legacyAttemptId intentId
    dispatchEpoch := index
    state := .uncertain
    targetTurn := .continuation
    sequence := index + 1
    kind := .steer
    createdAt := index
    retryable := false
    source := some .user
    author := some localUserAuthor
    images := none
    attachments := none
    suppressTitleGen := false
    goalDispatchGuardId := none }

/-- The intent id of a record: its own, or a new one made of its prompt id. -/
def recordIntentId (index : Nat) (activeIntentIds : List JsString) (entry : PersistedRecord π) :
    JsString :=
  let baseIntentId := (validLedgerKey entry.intentId).getD
    (legacyIntentId (entry.ledgerPromptId index))
  firstFree (numberedIntentId baseIntentId) activeIntentIds

/-- What a turn of the loop makes of a record. -/
def normalizeRecord (index : Nat) (activeIntentIds : List JsString) (entry : PersistedRecord π) :
    Option (InFlightSteerRecord π) :=
  match entry.ledgerText with
  | none => none
  | some text =>
    if (validLedgerKey entry.intentId).any (· ∈ activeIntentIds) then none
    else
      let intentId := recordIntentId index activeIntentIds entry
      -- a tuple is taken over when the record goes by its own intent id
      let modernAttempt := entry.completeModernAttempt.filter (·.1 = intentId)
      let dispatchEpoch := match modernAttempt with
        | some (_, _, epoch) => epoch
        | none => (validLedgerInteger entry.dispatchEpoch).getD
            ((validLedgerInteger entry.createdAt).getD index)
      let author := entry.author.toOption
      some {
        text
        displayText := entry.displayText.toOption
        promptId := entry.ledgerPromptId index
        intentId
        attemptId := match modernAttempt with
          | some (_, attemptId, _) => attemptId
          | none => legacyAttemptId intentId
        dispatchEpoch
        state := if modernAttempt.isSome then entry.state.toOption.getD .uncertain else .uncertain
        targetTurn := entry.targetTurn.toOption.getD .continuation
        sequence := (validLedgerInteger entry.sequence).getD (index + 1)
        kind := entry.kind.toOption.getD .steer
        createdAt := (validLedgerInteger entry.createdAt).getD dispatchEpoch
        retryable := if modernAttempt.isSome then entry.retryable.toOption.getD false else false
        source := entry.source.toOption.or (author.map (·.kind.source))
        author
        images := entry.images.toOption
        attachments := entry.attachments.toOption
        suppressTitleGen := entry.suppressTitleGen
        goalDispatchGuardId := validLedgerKey entry.goalDispatchGuardId }

/-- One turn of the loop of `normalizePersistedInFlightSteers`: the record it pushes. -/
def normalizeEntry (index : Nat) (activeIntentIds : List JsString) :
    PersistedInFlightSteer π → Option (InFlightSteerRecord π)
  | .legacy text => normalizeLegacy index activeIntentIds text
  | .record entry => normalizeRecord index activeIntentIds entry

/-- The loop of `normalizePersistedInFlightSteers` from a position on; each record comes with the
position of the entry it was made of. -/
def normalizeFrom (index : Nat) (activeIntentIds : List JsString) :
    List (PersistedInFlightSteer π) → List (Nat × InFlightSteerRecord π)
  | [] => []
  | entry :: rest =>
    match normalizeEntry index activeIntentIds entry with
    | none => normalizeFrom (index + 1) activeIntentIds rest
    | some record =>
      (index, record) :: normalizeFrom (index + 1) (record.intentId :: activeIntentIds) rest

/-- `normalizePersistedInFlightSteers`; a list without records is no ledger. -/
def normalizePersistedInFlightSteers (entries : Option (List (PersistedInFlightSteer π))) :
    Option (List (InFlightSteerRecord π)) :=
  match entries with
  | none => none
  | some entries =>
    let records := (normalizeFrom 0 [] entries).map Prod.snd
    if records.isEmpty then none else some records

def InFlightSteerRecord.persisted (r : InFlightSteerRecord π) : PersistedInFlightSteer π :=
  .record {
    text := .valid r.text
    displayText := r.displayText.elim .absent .valid
    promptId := .valid r.promptId
    intentId := .valid r.intentId
    attemptId := .valid r.attemptId
    dispatchEpoch := .valid r.dispatchEpoch
    state := .valid r.state
    targetTurn := .valid r.targetTurn
    sequence := .valid r.sequence
    kind := .valid r.kind
    createdAt := .valid r.createdAt
    retryable := .valid r.retryable
    source := r.source.elim .absent .valid
    author := r.author.elim .absent .valid
    images := r.images.elim .absent .valid
    attachments := r.attachments.elim .absent .valid
    suppressTitleGen := r.suppressTitleGen
    goalDispatchGuardId := r.goalDispatchGuardId.elim .absent .valid }

end Bobbit.Server.InFlightSteers
