import Bobbit.App.MessageRow

/-!
# Message reducer

Model of `src/app/message-reducer.ts`: the pure reducer that keeps the transcript's rows and their
order. Each action has its own function under the name of its case.

The test for a context-overflow text and the text of a sequence number are parameters.
-/

namespace Bobbit.App.MessageReducer

open Bobbit.Lib

structure ReducerState where
  messages : List Row
  nextTick : Nat
  highestSeq : Rat

def initialState : ReducerState := ⟨[], 1, 0⟩

/-! ## Actions -/

/-- The parts of an agent frame that the reducer reads. -/
structure Frame where
  type : JsString
  message : Option Row

inductive Action
  | liveEvent (frame : Frame) (seq : Rat)
  | snapshot (messages : List Row)
  | optimisticPrompt (message : Row)
  | optimisticSteer (message : Row)
  | permissionNeeded (card : Row) (seq : Option Rat)
  | permissionResolved (messageId : JsString) (status error : Option JsString)
  | permissionStatus (messageId toolName : Option JsString) (status : JsString)
      (error : Option JsString) (actionable : Option Bool) (fromStatus : Option JsString)
  | permissionReconciled (current : Option Row) (reason : Option JsString)
  | blockedToolCallPlaceholder (message : Row) (seq : Option Rat)
  | compactionPlaceholder (message : Row)
  | suppressLatestContextOverflowError
  | compactionResult (message : Row) (toolResult : Option Row)
  | systemNotification (message : Row)
  | mutationPending (message : Row)
  | mutationUpdate (messageId : JsString) (patch : Row)
  | error (message : Row)
  | settleOptimistic
  | denyPermissionFilter (messageId : JsString)
  | replaceMessages (messages : List Row)
  | assistantStreamInvalidated (assistantStreamId : JsString)
  | reset

/-! ## Live events -/

/-- A frame that enters the transcript: a terminal one, or a correlated start of a user message. -/
def entersTranscript (frame : Frame) (message : Row) : Bool :=
  frame.type == js "message_end" ||
    (frame.type == js "message_start" && (deliveryIntentId message).isSome && isUserRow message)

def withSeqId (seqText : JsString) (incoming : Row) : Row :=
  if (nonEmptyId incoming).isSome then incoming
  else setField incoming "id" (.str (js "synth:seq:" ++ seqText))

/-- The blocked placeholders of these tool calls. -/
def isBlockedPlaceholder (ids : List JsString) (m : Row) : Bool :=
  isTrue (field m "_permissionBlocked") && ids.any fun id => containsToolCall m id

/-- Replace the blocked placeholders of an assistant's tool calls. -/
def unblock (messages : List Row) (incoming : Row) : List Row × Row :=
  if hasRole incoming "assistant" && ! (toolCallIds incoming).isEmpty then
    let kept := messages.filter fun m => ! isBlockedPlaceholder (toolCallIds incoming) m
    (kept, if kept.length ≠ messages.length then
      setField incoming "_permissionBlocked" (.bool true) else incoming)
  else (messages, incoming)

/-- Drop the rows of the incoming row's delivery intent. -/
def dropIntent (messages : List Row) (incoming : Row) : List Row :=
  match deliveryIntentId incoming with
  | some intentId => messages.filter fun m => deliveryIntentId m ≠ some intentId
  | none => messages

/-- Drop the row that the incoming row replaces by its id. -/
def dropId (messages : List Row) (incoming : Row) : List Row :=
  match nonEmptyId incoming with
  | some id => messages.eraseP fun m => idOf m == some id
  | none => messages

/-- An optimistic row with the text of an echo, as it is or expanded. -/
def isOptimisticText (text : JsString) (m : Row) : Bool :=
  hasOrigin m .optimistic && (idOf m).any (fun id => (js "optimistic_").isPrefixOf id) &&
    (extractText m == text || reconstructModelText m == text)

/-- A user row without id of an earlier snapshot that has the text of an echo. -/
def isSnapshotArtifact (text : JsString) (m : Row) : Bool :=
  hasOrigin m .server && orderOf m ≤ 0 && (nonEmptyId m).isNone && isUserRow m && isPlainTextRow m &&
    extractText m == text

/-- Drop the row that a user echo reconciles. -/
def reconcileEcho (messages : List Row) (incoming : Row) : List Row :=
  if ! isUserRow incoming then messages
  else
    let sameId (m : Row) : Bool :=
      hasOrigin m .optimistic && (idOf incoming).isSome && idOf m == idOf incoming
    if messages.any sameId then messages.eraseP sameId
    else if messages.any (isOptimisticText (extractText incoming)) then
      messages.eraseP (isOptimisticText (extractText incoming))
    else messages.eraseP (isSnapshotArtifact (extractText incoming))

/-- `case "live-event"`; `seqText` writes the sequence number. -/
def reduceLiveEvent (seqText : Rat → JsString) (s : ReducerState) (frame : Frame) (seq : Rat) :
    ReducerState :=
  let nextHighest := max s.highestSeq seq
  match frame.message with
  | none => { s with highestSeq := nextHighest }
  | some message =>
    if ! entersTranscript frame message then { s with highestSeq := nextHighest }
    else
      let enriched := withSeqId (seqText seq) (enrichUserMessage message)
      let (messages, incoming) := unblock s.messages enriched
      let messages := reconcileEcho (dropId (dropIntent messages incoming) incoming) incoming
      { messages := sortMessages (messages ++ [stamp incoming .server seq s.nextTick])
        nextTick := s.nextTick + 1
        highestSeq := nextHighest }

/-! ## Snapshots -/

section Snapshot

variable (isContextOverflowText : JsString → Bool)

/-- The error text of an assistant row that failed with a context overflow. -/
def overflowKey (m : Row) : Option JsString :=
  if hasRole m "assistant" && isText (field m "stopReason") "error" then
    (asString (field m "errorMessage")).filter fun s => ! s.isEmpty && isContextOverflowText s
  else none

/-- The row was suppressed by the recovery from an overflow. -/
def isSuppressed (m : Row) : Bool := isTrue (field m "_suppressedByOverflowRecovery")

/-- The marker of a suppressed row. -/
def suppress (m : Row) : Row := setField m "_suppressedByOverflowRecovery" (.bool true)

/-- Occurrences counted from the end, for each error text, and which of them are suppressed. -/
structure OrdinalScan where
  ordinals : JsMap JsString Nat
  suppressed : JsMap JsString (List Nat)

/-- The ordinals of the state's suppressed rows. -/
def scanSuppressed (messages : List Row) : OrdinalScan :=
  messages.reverse.foldl (fun scan m =>
    match overflowKey isContextOverflowText m with
    | none => scan
    | some key =>
      let ordinal := (JsMap.get? scan.ordinals key).getD 0
      { ordinals := JsMap.set scan.ordinals key (ordinal + 1)
        suppressed :=
          if isSuppressed m then
            JsMap.set scan.suppressed key
              ((JsMap.get? scan.suppressed key).getD [] ++ [ordinal])
          else scan.suppressed }) ⟨[], []⟩

/-- Mark the rows of a snapshot, from its end, whose ordinal is suppressed. -/
def markFrom (suppressed : JsMap JsString (List Nat)) (ordinals : JsMap JsString Nat) :
    List Row → List Row
  | [] => []
  | m :: rest =>
    match overflowKey isContextOverflowText m with
    | none => m :: markFrom suppressed ordinals rest
    | some key =>
      let ordinal := (JsMap.get? ordinals key).getD 0
      let marked :=
        if ((JsMap.get? suppressed key).getD []).contains ordinal then suppress m else m
      marked :: markFrom suppressed (JsMap.set ordinals key (ordinal + 1)) rest

/-- The snapshot's rows with the suppressions of the state. -/
def keepSuppressions (messages enriched : List Row) : List Row :=
  let suppressed := (scanSuppressed isContextOverflowText messages).suppressed
  if suppressed.isEmpty then enriched
  else (markFrom isContextOverflowText suppressed [] enriched.reverse).reverse

/-- The rows of a snapshot before they are stamped. -/
def effectiveRows (messages incoming : List Row) : List Row :=
  let enriched := keepSuppressions isContextOverflowText messages
    (deduplicateSnapshotUserDeliveryIntents (incoming.map enrichUserMessage))
  if messages.any fun m => hasOrigin m .synthetic && hasCompactionToolCall m then
    enriched.filter fun m => ! isLegacyTextCompaction m
  else enriched

end Snapshot

/-- A server row of a snapshot: at its own order if it has one, else at its place. -/
def stampSnapshotRow (tick : Nat) (entry : Row × Nat) : Row :=
  stamp entry.1 .server
    ((asNumber (field entry.1 "_order")).getD (snapshotOrderFloor + entry.2)) tick

/-- `stampedAll`. -/
def stampAll (tick : Nat) (rows : List Row) : List Row := rows.zipIdx.map (stampSnapshotRow tick)

def liveCompactionIds (messages : List Row) : List JsString :=
  (messages.filter isActiveCard).filterMap compactionSummaryId

def hasInProgressLiveCard (messages : List Row) : Bool :=
  messages.any fun m => isActiveCard m && (compactionSummaryId m).isNone

def establishedCompactionIds (messages : List Row) : List JsString :=
  (messages.filter fun m => ! isActiveCard m).filterMap compactionSummaryId

/-- The last sidecar card, by order, that is not established; with its place. -/
def bestCard (established : List JsString) (rows : List Row) : Option (Row × Nat) :=
  rows.zipIdx.foldl (fun best entry =>
    if isActiveId entry.1 then best
    else match compactionSummaryId entry.1 with
      | none => best
      | some cid =>
        if cid ∈ established then best
        else match best with
          | none => some entry
          | some b => if orderOf b.1 < orderOf entry.1 then some entry else some b) none

def isPairedResult (compactionIds : List JsString) (m : Row) : Bool :=
  hasRole m "toolResult" &&
    (toolCallIdOf m).any fun id => id ∈ compactionIds.map pairedToolCallId

/-- The orders that the live card inherits. -/
inductive Anchors
  | live (anchors : List (JsString × CompactionAnchor))
  | inProgress (cardOrder : Rat) (toolResultOrder : Option Rat)
  | none

/-- The rows of the snapshot that the live card does not stand for, and the orders it inherits. -/
def partitionCompaction (messages stampedAll : List Row) : List Row × Anchors :=
  let live := liveCompactionIds messages
  if ! live.isEmpty then
    (stampedAll.filter fun m =>
        ! ((compactionSummaryId m).any (· ∈ live)) && ! isPairedResult live m,
      .live (live.map fun cid => (cid, persistedCompactionAnchor stampedAll cid)))
  else if hasInProgressLiveCard messages then
    match bestCard (establishedCompactionIds messages) stampedAll with
    | none => (stampedAll, .none)
    | some (card, place) =>
      let paired := (compactionSummaryId card).toList
      ((stampedAll.zipIdx.filter fun entry =>
          entry.2 ≠ place && ! isPairedResult paired entry.1).map (·.1),
        .inProgress (orderOf card)
          (((stampedAll.filter (isPairedResult paired)).getLast?).map orderOf))
  else (stampedAll, .none)

/-- What the survivor pass asks of the snapshot's rows. -/
structure SnapshotIndex where
  serverIds : List JsString
  deliveryIntentIds : List JsString
  toolResultToolCallIds : List JsString
  assistantToolCallIds : List JsString
  hasCompactionMarker : Bool
  maxOrder : Option Rat

/-- The index of the snapshot's rows. -/
def indexOf (rows : List Row) : SnapshotIndex where
  serverIds := rows.filterMap nonEmptyId
  deliveryIntentIds := rows.filterMap deliveryIntentId
  toolResultToolCallIds := (rows.filter (hasRole · "toolResult")).filterMap fun m =>
    (toolCallIdOf m).filter fun s => ! s.isEmpty
  assistantToolCallIds := (rows.filter (hasRole · "assistant")).flatMap fun m =>
    (toolCallIds m).filter fun s => ! s.isEmpty
  hasCompactionMarker := rows.any isLegacyTextCompaction
  maxOrder := (rows.map orderOf).max?

/-- `serverPlainTextCounts`. -/
def plainTextCounts (rows : List Row) : JsMap JsString Nat :=
  (rows.filter isPlainTextRow).foldl (fun counts m =>
    JsMap.set counts (plainTextEquivKey m)
      ((JsMap.get? counts (plainTextEquivKey m)).getD 0 + 1)) []

/-- Spend the text budget on a plain row, if any is left. -/
def spendText (counts : JsMap JsString Nat) (m : Row) : Option (JsMap JsString Nat) :=
  if isPlainTextRow m then
    let remaining := (JsMap.get? counts (plainTextEquivKey m)).getD 0
    if 0 < remaining then some (JsMap.set counts (plainTextEquivKey m) (remaining - 1)) else none
  else none

/-- The snapshot represents a server row by its id or by a tool call. -/
def representedByIdentity (index : SnapshotIndex) (m : Row) : Bool :=
  (idOf m).any (· ∈ index.serverIds) ||
    if hasRole m "toolResult" then (toolCallIdOf m).any (· ∈ index.toolResultToolCallIds)
    else hasRole m "assistant" && (toolCallIds m).any (· ∈ index.assistantToolCallIds)

/-- The row's order is above every order of the snapshot. -/
def aboveSnapshot (index : SnapshotIndex) (m : Row) : Bool :=
  index.maxOrder.all fun q => q < orderOf m

/-- Whether a row of the state survives, and what is left of the text budget. -/
def survives (index : SnapshotIndex) (counts : JsMap JsString Nat) (m : Row) :
    Bool × JsMap JsString Nat :=
  if (deliveryIntentId m).any (· ∈ index.deliveryIntentIds) then (false, counts)
  else if hasOrigin m .server then
    if representedByIdentity index m then (false, counts)
    else match spendText counts m with
      | some counts => (false, counts)
      | none =>
        if 0 < orderOf m && aboveSnapshot index m then (true, counts)
        else if orderOf m ≤ 0 then (false, counts)
        else (true, counts)
  else if (idOf m).any (· ∈ index.serverIds) &&
      (hasOrigin m .optimistic || hasOrigin m .synthetic || hasOrigin m .permission) then
    (false, counts)
  else if hasOrigin m .optimistic then
    if isTrue (field m "_settled") then (true, counts)
    else match spendText counts m with
      | some counts => (false, counts)
      | none => (true, counts)
  else if hasOrigin m .synthetic then
    (! (index.hasCompactionMarker && isLegacyTextCompaction m && ! hasCompactionToolCall m &&
      ! isCompactionToolResult m), counts)
  else if hasOrigin m .permission then
    (! (index.maxOrder.any fun q => orderOf m < q), counts)
  else (true, counts)

def survivors (index : SnapshotIndex) (counts : JsMap JsString Nat) : List Row → List Row
  | [] => []
  | m :: rest =>
    let (kept, counts) := survives index counts m
    if kept then m :: survivors index counts rest else survivors index counts rest

/-- Move the live card and its paired result to their inherited orders. -/
def reanchor (cardOrder toolResultOrder : Rat) (m : Row) : Row :=
  if isActiveCard m then setField m "_order" (.num cardOrder)
  else if isActiveToolResult m then setField m "_order" (.num toolResultOrder)
  else m

/-- The orders that the live card of the merged rows inherits, if its card was persisted. -/
def inheritedAnchor (anchors : List (JsString × CompactionAnchor)) (merged : List Row) :
    Option (Rat × Option Rat) :=
  let liveCid := (merged.find? isActiveCard).bind compactionSummaryId
  let anchor := liveCid.bind fun cid => (anchors.find? fun entry => entry.1 = cid).map (·.2)
  anchor.bind fun anchor => anchor.cardOrder.map fun cardOrder => (cardOrder, anchor.toolResultOrder)

def applyAnchors (anchors : Anchors) (merged : List Row) : List Row :=
  match anchors with
  | .live anchors =>
    match inheritedAnchor anchors merged with
    | some (cardOrder, toolResultOrder) =>
      merged.map (reanchor cardOrder (toolResultOrder.getD (cardOrder + 1 / 1000)))
    | none => merged
  | .inProgress cardOrder toolResultOrder =>
    merged.map (reanchor cardOrder (toolResultOrder.getD (cardOrder + 1 / 1000)))
  | .none => merged

/-- The greatest positive order, from a lower bound. -/
def positiveMax (rows : List Row) (bound : Rat) : Rat :=
  rows.foldl (fun acc m => if 0 < orderOf m && acc < orderOf m then orderOf m else acc) bound

/-- `case "snapshot"`. -/
def reduceSnapshot (isContextOverflowText : JsString → Bool) (s : ReducerState)
    (incoming : List Row) : ReducerState :=
  let stampedAll := stampAll s.nextTick (effectiveRows isContextOverflowText s.messages incoming)
  let (snapshotRows, anchors) := partitionCompaction s.messages stampedAll
  let merged := applyAnchors anchors
    (snapshotRows ++ survivors (indexOf snapshotRows) (plainTextCounts snapshotRows) s.messages)
  { messages := sortMessages merged
    nextTick := s.nextTick + 1
    highestSeq := positiveMax merged s.highestSeq }

/-! ## The other actions -/

def append (s : ReducerState) (messages : List Row) (msg : Row) (origin : MessageOrigin)
    (order : Rat) : ReducerState :=
  { s with messages := sortMessages (messages ++ [stamp msg origin order s.nextTick])
           nextTick := s.nextTick + 1 }

/-- `case "replace-messages"`. -/
def reduceReplaceMessages (s : ReducerState) (incoming : List Row) : ReducerState :=
  let rows := stampAll s.nextTick (incoming.map enrichUserMessage)
  { messages := sortMessages rows
    nextTick := s.nextTick + 1
    highestSeq := positiveMax rows 0 }

/-- The permission card that a request repeats, by its id or by its sequence number. -/
def isRepeatedCard (card : Row) (seq : Option Rat) (m : Row) : Bool :=
  hasRole m "tool_permission_needed" &&
    ((truthy (field card "id") && strictEquals (field m "id") (field card "id")) ||
      (seq.any (fun seq => asNumber (field m "_order") == some seq) &&
        strictEquals (field m "toolName") (field card "toolName") &&
        strictEquals (field m "group") (field card "group")))

/-- A permission card that another request supersedes. -/
def supersede (card m : Row) : Row :=
  if ! hasRole m "tool_permission_needed" then m
  else if samePermissionRequest m card then m
  else if isActionablePermission m then settlePermission m (js "superseded") none
  else m

/-- The card of a permission request. -/
def activeCard (card : Row) : Row :=
  setField
    (setField card "status" ((orElse (field card "status") (some (.str (js "active")))).getD .null))
    "actionable" ((orElse (field card "actionable") (some (.bool true))).getD .null)

/-- `{ ...updated, key: m.key }`. -/
def keepField (m updated : Row) (key : String) : Row :=
  match field m key with
  | some v => setField updated key v
  | none => JsMap.erase updated (js key)

/-- A card with the fields of a repeated request, at its old place in the order. -/
def refreshCard (card m : Row) : Row :=
  let updated := keepField m (keepField m (keepField m (spread m card) "_order") "_origin")
    "_insertionTick"
  if (field card "error").isNone then JsMap.erase updated (js "error") else updated

/-- `case "permission-needed"`. -/
def reducePermissionNeeded (s : ReducerState) (card : Row) (seq : Option Rat) : ReducerState :=
  let existing := s.messages.findIdx? (isRepeatedCard card seq)
  let messages := s.messages.zipIdx.map fun entry =>
    if existing = some entry.2 then refreshCard (activeCard card) entry.1
    else supersede card entry.1
  { messages := sortMessages
      (if existing.isSome then messages
        else messages ++
          [stamp (activeCard card) .permission (seq.getD (s.highestSeq + 1 / 4)) s.nextTick])
    nextTick := s.nextTick + 1
    highestSeq := match seq with
      | some seq => max s.highestSeq seq
      | none => s.highestSeq }

/-- The row that a status update is for. -/
def isStatusTarget (messageId toolName : Option JsString) (fromStatus : Option JsString) (m : Row) :
    Bool :=
  let given (id : Option JsString) : Bool := id.any fun s => ! s.isEmpty
  let idMatches := given messageId && idOf m == messageId
  let toolMatches := ! given messageId && given toolName &&
    asString (field m "toolName") == toolName && isActionablePermission m
  let fallbackActiveMatch := ! given messageId && ! given toolName && isActionablePermission m
  hasRole m "tool_permission_needed" && (idMatches || toolMatches || fallbackActiveMatch) &&
    ! (given fromStatus && asString (field m "status") ≠ fromStatus)

def updateStatus (status : JsString) (error : Option JsString) (actionable : Option Bool) (m : Row) :
    Row :=
  let updated := setField (setField m "status" (.str status)) "actionable"
    (.bool (actionable.getD (status ∈ activePermissionStatuses)))
  if error.any fun e => ! e.isEmpty then withError updated error
  else JsMap.erase updated (js "error")

/-- A card after the server's current request is known. -/
def reconcilePermission (current : Option Row) (status : JsString) (m : Row) : Row :=
  if ! hasRole m "tool_permission_needed" || ! isActionablePermission m then m
  else if current.any (samePermissionRequest m) then m
  else settlePermission m status none

/-- `case "blocked-tool-call-placeholder"`. -/
def reduceBlockedToolCallPlaceholder (s : ReducerState) (message : Row) (seq : Option Rat) :
    ReducerState :=
  match toolCallIds message with
  | [] => s
  | first :: others =>
    if s.messages.any fun m => (first :: others).any fun id => containsToolCall m id then s
    else
      let id := if truthy (field message "id") then (field message "id").getD .null
        else .str (js "blocked_tool_" ++ first)
      let order := match seq with
        | some seq => seq - 1 / 1000
        | none => s.highestSeq + 1 / 5
      append s s.messages
        (setField (setField message "id" id) "_permissionBlocked" (.bool true)) .server order

def lastAssistant (messages : List Row) : Option Nat :=
  (messages.zipIdx.filter fun entry => hasRole entry.1 "assistant").getLast?.map (·.2)

/-- `case "suppress-latest-context-overflow-error"`. -/
def reduceSuppress (isContextOverflowText : JsString → Bool) (s : ReducerState) : ReducerState :=
  match lastAssistant s.messages with
  | none => s
  | some i => { s with messages := s.messages.modify i fun m =>
      if (overflowKey isContextOverflowText m).isSome && ! isSuppressed m then suppress m else m }

/-- The legacy placeholder, the live card, or a row paired with the live card. -/
def isLiveCompactionRow (m : Row) : Bool :=
  idOf m == some (js "compacting_placeholder") || isActiveId m ||
    toolCallIdOf m == some (pairedToolCallId compactionActiveId)

/-- A persisted card of a compaction, or its paired result. -/
def isCompactionRowOf (compactionId : JsString) (m : Row) : Bool :=
  compactionSummaryId m == some compactionId ||
    (hasRole m "toolResult" && toolCallIdOf m == some (pairedToolCallId compactionId))

/-- `case "compaction-placeholder"`. -/
def reduceCompactionPlaceholder (s : ReducerState) (message : Row) : ReducerState :=
  append s (s.messages.filter fun m => ! isLiveCompactionRow m) message .synthetic
    (s.highestSeq + 1 / 2)

/-- `case "compaction-result"`. -/
def reduceCompactionResult (s : ReducerState) (message : Row) (toolResult : Option Row) :
    ReducerState :=
  let resultCompactionId := compactionSummaryId message
  let anchor := match resultCompactionId with
    | some id => persistedCompactionAnchor s.messages id
    | none => ⟨none, none⟩
  let order := ((anchor.cardOrder).or ((s.messages.find? isActiveCard).map orderOf)).getD
    (s.highestSeq + 1 / 2)
  let toolResultOrder :=
    ((anchor.toolResultOrder).or ((s.messages.find? isActiveToolResult).map orderOf)).getD
      (order + 1 / 1000)
  let kept := s.messages.filter fun m =>
    ! isLiveCompactionRow m && ! resultCompactionId.any fun id => isCompactionRowOf id m
  { s with
    messages := sortMessages (kept ++ [stamp message .synthetic order s.nextTick] ++
      (toolResult.map fun m => stamp m .synthetic toolResultOrder (s.nextTick + 1)).toList)
    nextTick := s.nextTick + (if toolResult.isSome then 2 else 1) }

/-- `case "mutation-pending"`. -/
def reduceMutationPending (s : ReducerState) (message : Row) : ReducerState :=
  if truthy (field message "requestId") && s.messages.any fun m =>
      hasRole m "mutation-pending" && strictEquals (field m "requestId") (field message "requestId")
  then s
  else append s s.messages message .synthetic (s.highestSeq + 1 / 2)

/-- An optimistic row that no echo reconciled. -/
def isPendingOptimistic (m : Row) : Bool := hasOrigin m .optimistic && optimisticOrderBase < orderOf m

/-- `case "settle-optimistic"`. -/
def reduceSettleOptimistic (s : ReducerState) : ReducerState :=
  if s.messages.any isPendingOptimistic then
    { s with messages := sortMessages (s.messages.map fun m =>
        if isPendingOptimistic m then
          setField (setField m "_order" (.num (s.highestSeq + settleEpsilon))) "_settled" (.bool true)
        else m) }
  else s

/-- `reduce`. The parameters test a text for a context overflow and write a sequence number. -/
def reduce (isContextOverflowText : JsString → Bool) (seqText : Rat → JsString) (s : ReducerState) :
    Action → ReducerState
  | .reset => initialState
  | .assistantStreamInvalidated assistantStreamId =>
    { s with messages := s.messages.filter fun m =>
        asString (field m "assistantStreamId") ≠ some assistantStreamId }
  | .liveEvent frame seq => reduceLiveEvent seqText s frame seq
  | .snapshot messages => reduceSnapshot isContextOverflowText s messages
  | .replaceMessages messages => reduceReplaceMessages s messages
  | .optimisticPrompt message =>
    append s s.messages message .optimistic (optimisticOrderBase + s.nextTick)
  | .optimisticSteer message =>
    append s s.messages message .optimistic (optimisticOrderBase + s.nextTick)
  | .permissionNeeded card seq => reducePermissionNeeded s card seq
  | .permissionResolved messageId status error =>
    { s with messages := s.messages.map fun m =>
        if idOf m = some messageId then settlePermission m (status.getD (js "granted")) error
        else m }
  | .denyPermissionFilter messageId =>
    { s with messages := s.messages.map fun m =>
        if idOf m = some messageId then settlePermission m (js "denied") none else m }
  | .permissionStatus messageId toolName status error actionable fromStatus =>
    { s with messages := s.messages.map fun m =>
        if isStatusTarget messageId toolName fromStatus m then updateStatus status error actionable m
        else m }
  | .permissionReconciled current reason =>
    { s with messages := s.messages.map fun m =>
        reconcilePermission current (reason.getD (js "expired")) m }
  | .blockedToolCallPlaceholder message seq => reduceBlockedToolCallPlaceholder s message seq
  | .suppressLatestContextOverflowError => reduceSuppress isContextOverflowText s
  | .compactionPlaceholder message => reduceCompactionPlaceholder s message
  | .compactionResult message toolResult => reduceCompactionResult s message toolResult
  | .systemNotification message => append s s.messages message .synthetic (s.highestSeq + 1 / 2)
  | .mutationPending message => reduceMutationPending s message
  | .mutationUpdate messageId patch =>
    { s with messages := s.messages.map fun m =>
        if idOf m = some messageId then spread m patch else m }
  | .error message => append s s.messages message .synthetic (s.highestSeq + 1 / 2)
  | .settleOptimistic => reduceSettleOptimistic s

end Bobbit.App.MessageReducer
