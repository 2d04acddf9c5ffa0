import Bobbit.Lib.Json
import Bobbit.Lib.JsMap
import Bobbit.Lib.Utf8

/-!
# Author sidecar

Model of `src/server/agent/author-sidecar.ts`: the lifecycle order of prompt-author bindings
and the fold of the ledger's records, and the correlator that assigns bindings to the rows of
a transcript: `mergeAuthorSidecarIntoMessages`.

A binding stands for an object, so bindings of a list are told apart by their position.
-/

namespace Bobbit.Server.AuthorSidecar

open Bobbit.Lib

/-- What the correlator takes from outside this file: the keyed digest, the model prefix of an
    author, and the time a non-empty string stands for. -/
structure Platform (α : Type) where
  digestPromptModelText : JsString → Option JsString
  modelPrefixForPromptAuthor : α → Option JsString
  isMessageAuthor : α → Bool
  authorBytes : α → Nat
  parseTime : JsString → Option Rat

inductive Outcome
  | echoed
  | cancelled
deriving DecidableEq

structure PromptAuthorSettlementRecord where
  promptId : JsString
  intentId : Option JsString
  attemptId : Option JsString
  settledAt : Rat
  outcome : Outcome
  messageId : Option JsString
  messageTimestamp : Option Rat
deriving DecidableEq

structure PromptAuthorDispatchRecord (α : Type) where
  promptId : JsString
  intentId : Option JsString
  attemptId : Option JsString
  dispatchEpoch : Option Rat
  dispatchedAt : Rat
  modelTextDigest : JsString
  source : JsString
  author : α
  modelPrefix : Option JsString

structure PromptAuthorDismissalTombstoneRecord (α : Type) where
  promptId : JsString
  intentId : JsString
  attemptId : JsString
  dispatchEpoch : Rat
  dispatchedAt : Rat
  settledAt : Rat
  modelTextDigest : JsString
  source : JsString
  author : α
  modelPrefix : Option JsString

inductive AuthorSidecarRecord (α : Type)
  | dispatch (record : PromptAuthorDispatchRecord α)
  | settlement (record : PromptAuthorSettlementRecord)
  | dismissal (record : PromptAuthorDismissalTombstoneRecord α)

/-- A folded binding; `lifecycleOrder` is the number of the record that changed it last. -/
structure PromptAuthorBinding (α : Type) where
  promptId : JsString
  intentId : Option JsString
  attemptId : Option JsString
  dispatchEpoch : Option Rat
  dispatchedAt : Rat
  modelText : Option JsString
  modelTextDigest : Option JsString
  source : JsString
  author : α
  modelPrefix : Option JsString
  settlement : Option PromptAuthorSettlementRecord
  lifecycleOrder : Option Nat
deriving DecidableEq

variable {α : Type}

/-! ## Validity -/

/-- `MAX_KEY_LENGTH`. -/
def maxKeyLength : Nat := 256

/-- `Number.MAX_SAFE_INTEGER`. -/
def maxSafeInteger : Rat := 9007199254740991

def validKey (value : JsString) : Bool :=
  ! (JsString.trim value).isEmpty && value.length ≤ maxKeyLength

def validTimestamp (value : Rat) : Bool := 0 ≤ value

def validOptionalKey (value : Option JsString) : Bool := value.all validKey

def validOptionalEpoch (value : Option Rat) : Bool :=
  value.all fun q => q.den = 1 && 0 ≤ q && q ≤ maxSafeInteger

/-- The six bits of a base64url digit. -/
def base64Value (c : UInt16) : Option Nat :=
  if 0x41 ≤ c && c ≤ 0x5A then some (c.toNat - 0x41)
  else if 0x61 ≤ c && c ≤ 0x7A then some (c.toNat - 0x61 + 26)
  else if 0x30 ≤ c && c ≤ 0x39 then some (c.toNat - 0x30 + 52)
  else if c = 0x2D then some 62
  else if c = 0x5F then some 63
  else none

def validDigest (value : Option JsString) : Bool :=
  value.any fun s => s.length = 43 && s.all fun c => (base64Value c).isSome

/-- The 32 bytes of a digest, as its digits without the two bits that the last one has too many;
    nothing for a text of another length. -/
def digestBytes (s : JsString) : Option (List Nat) :=
  if s.length = 43 then
    (s.mapM base64Value).map fun digits => digits.take 42 ++ (digits.drop 42).map (· / 4)
  else none

/-- `PROMPT_SOURCES`. -/
def promptSources : List JsString :=
  ["user", "auto-nudge", "task-notification", "verification", "system", "agent", "child-complete",
    "extension"].map js

def hasValidModelPrefix (env : Platform α) (author : α) (modelPrefix : Option JsString) : Bool :=
  modelPrefix.isNone || env.modelPrefixForPromptAuthor author == modelPrefix

def isDispatchRecord (env : Platform α) (record : PromptAuthorDispatchRecord α) : Bool :=
  validKey record.promptId && validOptionalKey record.intentId && validOptionalKey record.attemptId &&
    validOptionalEpoch record.dispatchEpoch && validTimestamp record.dispatchedAt &&
    validDigest (some record.modelTextDigest) && record.source ∈ promptSources &&
    env.isMessageAuthor record.author && hasValidModelPrefix env record.author record.modelPrefix

def isSettlementRecord (record : PromptAuthorSettlementRecord) : Bool :=
  validKey record.promptId && validOptionalKey record.intentId && validOptionalKey record.attemptId &&
    validTimestamp record.settledAt && validOptionalKey record.messageId &&
    record.messageTimestamp.all validTimestamp

def isDismissalTombstoneRecord (env : Platform α)
    (record : PromptAuthorDismissalTombstoneRecord α) : Bool :=
  validKey record.promptId && validKey record.intentId && validKey record.attemptId &&
    validOptionalEpoch (some record.dispatchEpoch) && validTimestamp record.dispatchedAt &&
    validTimestamp record.settledAt && validDigest (some record.modelTextDigest) &&
    record.source ∈ promptSources && env.isMessageAuthor record.author &&
    hasValidModelPrefix env record.author record.modelPrefix

def isPromptAuthorBinding (env : Platform α) (binding : PromptAuthorBinding α) : Bool :=
  validKey binding.promptId && validOptionalKey binding.intentId &&
    validOptionalKey binding.attemptId && validOptionalEpoch binding.dispatchEpoch &&
    validTimestamp binding.dispatchedAt && binding.source ∈ promptSources &&
    env.isMessageAuthor binding.author && hasValidModelPrefix env binding.author binding.modelPrefix &&
    (binding.modelText.isSome || validDigest binding.modelTextDigest)

/-! ## The lifecycle order -/

/-- The binding carries the identity of a modern attempt. -/
def isModern (binding : PromptAuthorBinding α) : Bool :=
  binding.intentId.isSome || binding.attemptId.isSome || binding.dispatchEpoch.isSome

def settledAt (binding : PromptAuthorBinding α) : Option Rat :=
  binding.settlement.map (·.settledAt)

/-- The append order, -1 without one. -/
def orderOf (binding : PromptAuthorBinding α) : Rat :=
  match binding.lifecycleOrder with
  | some n => n
  | none => -1

def comparePromptAuthorLifecycleEvidence (left right : PromptAuthorBinding α) : Rat :=
  let order := orderOf left - orderOf right
  if isModern left && isModern right then
    let epoch := left.dispatchEpoch.getD (-1) - right.dispatchEpoch.getD (-1)
    let lifecycle := (settledAt left).getD (left.dispatchEpoch.getD left.dispatchedAt) -
      (settledAt right).getD (right.dispatchEpoch.getD right.dispatchedAt)
    if epoch ≠ 0 then epoch else if lifecycle ≠ 0 then lifecycle else order
  else
    let dispatched := left.dispatchedAt - right.dispatchedAt
    let settled := (settledAt left).getD (-1) - (settledAt right).getD (-1)
    if dispatched ≠ 0 then dispatched else if settled ≠ 0 then settled else order

def selectLatestPromptAuthorBinding (bindings : List (PromptAuthorBinding α))
    (predicate : PromptAuthorBinding α → Bool) : Option (PromptAuthorBinding α) :=
  bindings.foldl (fun latest binding =>
    if ! predicate binding then latest
    else match latest with
      | none => some binding
      | some best =>
        if comparePromptAuthorLifecycleEvidence best binding ≤ 0 then some binding
        else some best) none

/-- `Array.prototype.sort` with a comparison; stable. -/
def sortBy (compare : PromptAuthorBinding α → PromptAuthorBinding α → Rat)
    (bindings : List (PromptAuthorBinding α)) : List (PromptAuthorBinding α) :=
  bindings.mergeSort fun left right => compare left right ≤ 0

/-! ## The ledger -/

/-- The bindings by attempt, or by prompt without one, and the latest key of each prompt. -/
structure Ledger (α : Type) where
  bindings : JsMap JsString (PromptAuthorBinding α)
  latestKeyByPromptId : JsMap JsString JsString

def attemptKey (attemptId : JsString) : JsString := js "attempt:" ++ attemptId

/-- The binding of a dispatch record. -/
def ofDispatch (record : PromptAuthorDispatchRecord α) (recordIndex : Nat) : PromptAuthorBinding α :=
  ⟨record.promptId, record.intentId, record.attemptId, record.dispatchEpoch, record.dispatchedAt,
    none, some record.modelTextDigest, record.source, record.author, record.modelPrefix, none,
    some recordIndex⟩

/-- The binding of a dismissal, cancelled from the start. -/
def ofDismissal (record : PromptAuthorDismissalTombstoneRecord α) (recordIndex : Nat) :
    PromptAuthorBinding α :=
  ⟨record.promptId, some record.intentId, some record.attemptId, some record.dispatchEpoch,
    record.dispatchedAt, none, some record.modelTextDigest, record.source, record.author,
    record.modelPrefix,
    some ⟨record.promptId, some record.intentId, some record.attemptId, record.settledAt, .cancelled,
      none, none⟩, some recordIndex⟩

/-- The loop body of `foldAuthorSidecarRecords`. -/
def foldRecord (env : Platform α) (ledger : Ledger α) (entry : AuthorSidecarRecord α × Nat) :
    Ledger α :=
  let (record, recordIndex) := entry
  match record with
  | .dispatch record =>
    if isDispatchRecord env record then
      let key := match record.attemptId with
        | some attemptId => attemptKey attemptId
        | none => js "prompt:" ++ record.promptId
      { bindings := JsMap.set ledger.bindings key (ofDispatch record recordIndex)
        latestKeyByPromptId := JsMap.set ledger.latestKeyByPromptId record.promptId key }
    else ledger
  | .dismissal record =>
    if isDismissalTombstoneRecord env record then
      let key := attemptKey record.attemptId
      { bindings := JsMap.set ledger.bindings key (ofDismissal record recordIndex)
        latestKeyByPromptId := JsMap.set ledger.latestKeyByPromptId record.promptId key }
    else ledger
  | .settlement record =>
    if isSettlementRecord record then
      let key := match record.attemptId with
        | some attemptId => some (attemptKey attemptId)
        | none => JsMap.get? ledger.latestKeyByPromptId record.promptId
      match key.bind fun key => (JsMap.get? ledger.bindings key).map (key, ·) with
      | none => ledger
      | some (key, binding) =>
        -- contradictory occurrence identity fails closed
        if record.intentId.isSome && binding.intentId.isSome &&
            record.intentId ≠ binding.intentId then ledger
        else { ledger with
          bindings := JsMap.set ledger.bindings key
            { binding with settlement := some record, lifecycleOrder := some recordIndex } }
    else ledger

/-- The bindings of a ledger before they are sorted. -/
def foldedBindings (env : Platform α) (records : List (AuthorSidecarRecord α)) :
    List (PromptAuthorBinding α) :=
  (records.zipIdx.foldl (foldRecord env) ⟨[], []⟩).bindings.map (·.2)

def foldAuthorSidecarRecords (env : Platform α) (records : List (AuthorSidecarRecord α)) :
    List (PromptAuthorBinding α) :=
  sortBy comparePromptAuthorLifecycleEvidence (foldedBindings env records)

/-! ## Transcript rows -/

/-- A content block: its text when it is a text block, and whether it is a tool result. -/
structure Block where
  text : Option JsString
  toolResult : Bool
deriving DecidableEq

inductive Content
  | text (s : JsString)
  | blocks (blocks : List Block)
  | other
deriving DecidableEq

/-- A `timestamp` or `ts` field. -/
inductive TimeValue
  | number (q : Rat)
  | text (s : JsString)
  | other
deriving DecidableEq

/-- What the correlators read of a transcript row; of the id fields only the strings. -/
structure Message where
  role : JsString
  content : Content
  id : Option JsString
  entryId : Option JsString
  privateEntryId : Option JsString
  bobbitEntryId : Option JsString
  timestamp : TimeValue
  ts : TimeValue
  inFlightSteer : Bool
  deliveryIntentId : Option JsString
  deliveryAttemptId : Option JsString
deriving DecidableEq

def extractPromptModelText (message : Message) : Option JsString :=
  match message.content with
  | .text s => some s
  | .blocks blocks =>
    let parts := blocks.filterMap (·.text)
    if parts.isEmpty then none else some parts.flatten
  | .other => none

/-- `messageId`: the first id field that is a non-empty string. -/
def messageId (message : Message) : Option JsString :=
  [message.id, message.entryId, message.privateEntryId, message.bobbitEntryId].findSome? fun id =>
    id.filter fun s => ! s.isEmpty

def epochMilliseconds (env : Platform α) : TimeValue → Option Rat
  | .number q => some q
  | .text s => if s.isEmpty then none else env.parseTime s
  | .other => none

def messageTimestamp (env : Platform α) (message : Message) : Option Rat :=
  (epochMilliseconds env message.timestamp).or (epochMilliseconds env message.ts)

/-- `isToolResultOnlyMessage` of a user row. -/
def isToolResultOnlyMessage (message : Message) : Bool :=
  match message.content with
  | .blocks blocks =>
    blocks.any (·.toolResult) &&
      blocks.all fun block => block.toolResult || block.text.any fun s => (JsString.trim s).isEmpty
  | _ => false

def eligiblePromptMessage (message : Message) : Bool :=
  (message.role == js "user" || message.role == js "user-with-attachments") &&
    ! isToolResultOnlyMessage message

def promptAuthorBindingMatchesText (env : Platform α) (binding : PromptAuthorBinding α)
    (modelText : JsString) : Bool :=
  if validDigest binding.modelTextDigest then
    match env.digestPromptModelText modelText with
    | some candidate =>
      ! candidate.isEmpty && binding.modelTextDigest.any fun digest =>
        digestBytes digest == digestBytes candidate
    | none => false
  else binding.modelText == some modelText

/-! ## Bindings that can be assigned -/

/-- A binding with its place among those that were not cancelled. -/
structure StreamBindingRef (α : Type) where
  binding : PromptAuthorBinding α
  order : Nat

def outcome (binding : PromptAuthorBinding α) : Option Outcome := binding.settlement.map (·.outcome)

/-- `settlement?.messageId`. -/
def settledMessageId (binding : PromptAuthorBinding α) : Option JsString :=
  binding.settlement.bind (·.messageId)

/-- `settlement?.messageTimestamp`. -/
def settledMessageTimestamp (binding : PromptAuthorBinding α) : Option Rat :=
  binding.settlement.bind (·.messageTimestamp)

/-- `settlement?.messageTimestamp ?? settlement?.settledAt`. -/
def settledTimestamp (binding : PromptAuthorBinding α) : Option Rat :=
  (settledMessageTimestamp binding).or (settledAt binding)

/-- `CORRELATION_TOLERANCE_MS`. -/
def correlationToleranceMs : Rat := 2000

/-- The settled time is within tolerance of a row's. -/
def withinTolerance (binding : PromptAuthorBinding α) (timestamp : Rat) : Bool :=
  (settledTimestamp binding).any fun settled => |timestamp - settled| ≤ correlationToleranceMs

def refsOf (bindings : List (PromptAuthorBinding α)) : List (StreamBindingRef α) :=
  bindings.zipIdx.map fun entry => ⟨entry.1, entry.2⟩

/-- The first reference that has not been consumed and passes. -/
def firstOpen (refs : List (StreamBindingRef α)) (consumed : List Nat)
    (passes : PromptAuthorBinding α → Bool) : Option (StreamBindingRef α) :=
  refs.find? fun ref => ref.order ∉ consumed && passes ref.binding

/-- The id that a synthetic in-flight row's own id encodes. -/
def encodedId (message : Message) : Option JsString :=
  (messageId message).bind fun id =>
    if (js "inflight-steer:").isPrefixOf id then some (id.drop 15) else none

/-! ## The whole array -/

/-- The rows with the references assigned to them so far. -/
abbrev Assigned := List (Message × Option Nat)

/-- One phase: each row in turn may be assigned an open reference. With `keeps` a row that has one
    is passed over. -/
def phase (keeps : Bool) (pick : Message → List Nat → Option Nat) :
    Assigned → List Nat → Assigned × List Nat
  | [], consumed => ([], consumed)
  | (row, assigned) :: rest, consumed =>
    match if keeps && assigned.isSome then none else pick row consumed with
    | some order =>
      let (rest', consumed') := phase keeps pick rest (consumed ++ [order])
      ((row, some order) :: rest', consumed')
    | none =>
      let (rest', consumed') := phase keeps pick rest consumed
      ((row, assigned) :: rest', consumed')

def directPromptBindings (env : Platform α) (entries : List (PromptAuthorBinding α)) :
    List (StreamBindingRef α) :=
  refsOf (sortBy (fun left right => left.dispatchedAt - right.dispatchedAt)
    (entries.filter fun entry =>
      isPromptAuthorBinding env entry && outcome entry ≠ some .cancelled))

/-- `echoedTranscriptBindings`. -/
def echoedOf (refs : List (StreamBindingRef α)) : List (StreamBindingRef α) :=
  refs.filter fun ref => outcome ref.binding = some .echoed

/-- A synthetic row names a binding by its attempt, its intent or its encoded id. -/
def names (message : Message) (binding : PromptAuthorBinding α) : Bool :=
  (message.deliveryAttemptId.any fun id => validKey id && binding.attemptId == some id) ||
    (message.deliveryIntentId.any fun id => validKey id && binding.intentId == some id) ||
    (encodedId message).any fun id => binding.promptId == id || binding.intentId == some id

/-- Phase 0: the binding of a synthetic in-flight row. -/
def pickSynthetic (refs : List (StreamBindingRef α)) (row : Message) (consumed : List Nat) :
    Option Nat :=
  if eligiblePromptMessage row && row.inFlightSteer then
    (firstOpen refs consumed (names row)).map (·.order)
  else none

/-- Phase 1: the exact settled message id. -/
def pickExact (refs : List (StreamBindingRef α)) (row : Message) (consumed : List Nat) :
    Option Nat :=
  if eligiblePromptMessage row then
    (messageId row).bind fun id =>
      (firstOpen (echoedOf refs) consumed fun binding => settledMessageId binding == some id).map
        (·.order)
  else none

/-- Phase 2: the text, and the settled time within tolerance. -/
def pickTimed (env : Platform α) (refs : List (StreamBindingRef α)) (row : Message)
    (consumed : List Nat) : Option Nat :=
  if eligiblePromptMessage row then
    match extractPromptModelText row, messageTimestamp env row with
    | some text, some timestamp =>
      (firstOpen (echoedOf refs) consumed fun binding =>
        promptAuthorBindingMatchesText env binding text && withinTolerance binding timestamp).map
        (·.order)
    | _, _ => none
  else none

/-- Phase 3: the text alone, first in first out. -/
def pickText (env : Platform α) (refs : List (StreamBindingRef α)) (row : Message)
    (consumed : List Nat) : Option Nat :=
  if eligiblePromptMessage row then
    (extractPromptModelText row).bind fun text =>
      (firstOpen (echoedOf refs) consumed fun binding =>
        promptAuthorBindingMatchesText env binding text).map (·.order)
  else none

/-- The assignments of `mergeAuthorSidecarIntoMessages`, by the places of the bindings. -/
def mergeAssignments (env : Platform α) (entries : List (PromptAuthorBinding α))
    (messages : List Message) : Assigned :=
  let refs := directPromptBindings env entries
  let (rows, consumed) := phase false (pickSynthetic refs) (messages.map fun m => (m, none)) []
  let (rows, consumed) := phase false (pickExact refs) rows consumed
  let (rows, consumed) := phase true (pickTimed env refs) rows consumed
  (phase true (pickText env refs) rows consumed).1

end Bobbit.Server.AuthorSidecar
