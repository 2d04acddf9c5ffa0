import Bobbit.Lib.Json
import Bobbit.Lib.JsMap

/-!
# Message rows

The rows of `src/app/message-reducer.ts` and what its helpers read of them. A row is a JavaScript
object, so it may have any fields and a patch may set any of them; numbers are rationals, and two
objects are different ones.
-/

namespace Bobbit.App.MessageReducer

open Bobbit.Lib

abbrev Value := Json Rat

abbrev Row := JsMap JsString Value

/-! ## Objects -/

/-- `m.key`; `none` is `undefined`. -/
def field (m : Row) (key : String) : Option Value := JsMap.get? m (js key)

/-- `{ ...m, key: value }`. -/
def setField (m : Row) (key : String) (value : Value) : Row := JsMap.set m (js key) value

/-- `{ ...m, ...patch }`. -/
def spread (m patch : Row) : Row := patch.foldr (fun entry row => JsMap.set row entry.1 entry.2) m

/-- `value?.key` of a nested value. -/
def property (value : Value) (key : String) : Option Value :=
  match value with
  | .obj fields => JsMap.get? fields (js key)
  | _ => none

/-- The string that a value is, if it is one. -/
def asString : Option Value → Option JsString
  | some (.str s) => some s
  | _ => none

/-- The number that a value is, if it is one. -/
def asNumber : Option Value → Option Rat
  | some (.num q) => some q
  | _ => none

/-- `value === "text"`. -/
def isText (value : Option Value) (text : String) : Bool := asString value == some (js text)

/-- `value === true`. -/
def isTrue : Option Value → Bool
  | some (.bool true) => true
  | _ => false

/-- `value === false`. -/
def isFalse : Option Value → Bool
  | some (.bool false) => true
  | _ => false

def truthy : Option Value → Bool
  | none => false
  | some .null => false
  | some (.bool b) => b
  | some (.num q) => q ≠ 0
  | some (.str s) => ! s.isEmpty
  | some (.arr _) => true
  | some (.obj _) => true

/-- `value ?? fallback`. -/
def orElse (value fallback : Option Value) : Option Value :=
  match value with
  | none => fallback
  | some .null => fallback
  | some v => some v

/-- `left === right`; two objects are different ones. -/
def strictEquals : Option Value → Option Value → Bool
  | none, none => true
  | some .null, some .null => true
  | some (.bool a), some (.bool b) => a == b
  | some (.num a), some (.num b) => a == b
  | some (.str a), some (.str b) => a == b
  | _, _ => false

/-- The blocks of a row whose content is an array. -/
def blocks (m : Row) : Option (List Value) :=
  match field m "content" with
  | some (.arr items) => some items
  | _ => none

/-- The row's id, if it is a string. -/
def idOf (m : Row) : Option JsString := asString (field m "id")

/-- The row's id, if it is a non-empty string. -/
def nonEmptyId (m : Row) : Option JsString := (idOf m).filter fun s => ! s.isEmpty

def hasRole (m : Row) (role : String) : Bool := isText (field m "role") role

/-- `role === "user" || role === "user-with-attachments"`. -/
def isUserRow (m : Row) : Bool := hasRole m "user" || hasRole m "user-with-attachments"

/-! ## Reducer metadata -/

inductive MessageOrigin
  | server
  | optimistic
  | synthetic
  | permission
deriving DecidableEq

def MessageOrigin.text : MessageOrigin → String
  | .server => "server"
  | .optimistic => "optimistic"
  | .synthetic => "synthetic"
  | .permission => "permission"

/-- `m._order`, a number on every row that was stamped. -/
def orderOf (m : Row) : Rat := (asNumber (field m "_order")).getD 0

/-- `m._insertionTick`. -/
def tickOf (m : Row) : Rat := (asNumber (field m "_insertionTick")).getD 0

/-- `m._origin === origin`. -/
def hasOrigin (m : Row) (origin : MessageOrigin) : Bool := isText (field m "_origin") origin.text

def stamp (msg : Row) (origin : MessageOrigin) (order : Rat) (tick : Nat) : Row :=
  setField (setField (setField msg "_order" (.num order)) "_origin" (.str (js origin.text)))
    "_insertionTick" (.num tick)

/-- The comparison of `sortMessages`. -/
def compareRows (a b : Row) : Rat :=
  if orderOf a ≠ orderOf b then orderOf a - orderOf b else tickOf a - tickOf b

def sortMessages (msgs : List Row) : List Row := msgs.mergeSort fun a b => compareRows a b ≤ 0

/-- `SNAPSHOT_ORDER_FLOOR`. -/
def snapshotOrderFloor : Rat := -1000000000

/-- `OPTIMISTIC_ORDER_BASE`. -/
def optimisticOrderBase : Rat := 9007199254740991 - 1000000000

/-- `SETTLE_EPSILON`. -/
def settleEpsilon : Rat := 1 / 2

/-! ## Delivery intents -/

/-- `DELIVERY_INTENT_ID_MAX_LENGTH`. -/
def deliveryIntentIdMaxLength : Nat := 256

def deliveryIntentId (m : Row) : Option JsString :=
  (asString (orElse (field m "deliveryIntentId") (field m "intentId"))).filter fun id =>
    ! id.isEmpty && id.length ≤ deliveryIntentIdMaxLength

/-- The loop of `deduplicateSnapshotUserDeliveryIntents`, with the intents seen so far. -/
def deduplicateFrom (seen : List JsString) : List Row → List Row
  | [] => []
  | m :: rest =>
    if ! isUserRow m then m :: deduplicateFrom seen rest
    else match deliveryIntentId m with
      | none => m :: deduplicateFrom seen rest
      | some intentId =>
        if intentId ∈ seen then deduplicateFrom seen rest
        else m :: deduplicateFrom (intentId :: seen) rest

def deduplicateSnapshotUserDeliveryIntents (messages : List Row) : List Row :=
  deduplicateFrom [] messages

/-! ## Texts -/

def extractText (m : Row) : JsString :=
  match field m "content" with
  | some (.str s) => s
  | some (.arr items) =>
    JsString.unlines ((items.filter fun c => isText (property c "type") "text").map fun c =>
      (asString (property c "text")).getD [])
  | _ => []

/-- Whitespace runs as one space, before the ends are trimmed. -/
def collapseSpaces (inRun : Bool) : JsString → JsString
  | [] => []
  | c :: rest =>
    if JsString.isTrimmed c then
      if inRun then collapseSpaces true rest else 0x20 :: collapseSpaces true rest
    else c :: collapseSpaces false rest

def normaliseText (s : JsString) : JsString := JsString.trim (collapseSpaces false s)

def plainTextEquivKey (m : Row) : JsString :=
  let role := (asString (field m "role")).getD (js "undefined")
  let t := normaliseText (extractText m)
  if t.isEmpty then
    role ++ js "|EMPTY|" ++ (asString (orElse (field m "stopReason") none)).getD []
  else role ++ js "|" ++ t

structure SkillExpansion where
  start : Option Rat
  stop : Option Rat
  expanded : JsString

/-- `Array.isArray(e?.range) && e.range.length === 2`. -/
def skillExpansion (e : Value) : Option SkillExpansion :=
  match property e "range" with
  | some (.arr [start, stop]) =>
    some ⟨asNumber (some start), asNumber (some stop), (asString (property e "expanded")).getD []⟩
  | _ => none

/-- One splice of `reconstructModelText`. -/
def spliceExpansion (out : JsString) (e : SkillExpansion) : JsString :=
  match e.start, e.stop with
  | some start, some stop =>
    if 0 ≤ start && stop ≤ out.length && start ≤ stop then
      out.take ⌊start⌋.toNat ++ e.expanded ++ out.drop ⌊stop⌋.toNat
    else out
  | _, _ => out

/-- The expansions from right to left; one without a number ties with every other. -/
def laterExpansion (a b : SkillExpansion) : Bool :=
  match a.start, b.start with
  | some a, some b => b - a ≤ 0
  | _, _ => true

def reconstructModelText (m : Row) : JsString :=
  match field m "skillExpansions" with
  | some (.arr exps) =>
    ((exps.filterMap skillExpansion).mergeSort laterExpansion).foldl spliceExpansion (extractText m)
  | _ => extractText m

def isPlainTextRow (m : Row) : Bool :=
  ! hasRole m "toolResult" &&
    match blocks m with
    | some items => items.all fun c => ! isText (property c "type") "toolCall"
    | none => true

/-! ## Tool calls -/

def isToolCall (c : Value) (toolCallId : JsString) : Bool :=
  isText (property c "type") "toolCall" && asString (property c "id") == some toolCallId

def containsToolCall (m : Row) (toolCallId : JsString) : Bool :=
  hasRole m "assistant" && (blocks m).any fun items => items.any fun c => isToolCall c toolCallId

def toolCallIds (m : Row) : List JsString :=
  ((blocks m).getD []).filterMap fun c =>
    if isText (property c "type") "toolCall" then asString (property c "id") else none

/-- `m.toolCallId`, if it is a string. -/
def toolCallIdOf (m : Row) : Option JsString := asString (field m "toolCallId")

/-! ## Compaction cards -/

/-- `COMPACTION_TOOL_NAME`. -/
def compactionToolName : String := "__compaction_summary"

/-- `COMPACTION_ACTIVE_ID`. -/
def compactionActiveId : JsString := js "compact_active"

/-- The tool call id of a compaction's paired result. -/
def pairedToolCallId (compactionId : JsString) : JsString := js "compaction-summary:" ++ compactionId

/-- `c?.type === "toolCall" && c?.name === COMPACTION_TOOL_NAME`. -/
def isCompactionCall (c : Value) : Bool :=
  isText (property c "type") "toolCall" && isText (property c "name") compactionToolName

def hasCompactionToolCall (m : Row) : Bool :=
  hasRole m "assistant" && (blocks m).any fun items => items.any isCompactionCall

def isCompactionToolResult (m : Row) : Bool :=
  hasRole m "toolResult" && isText (field m "toolName") compactionToolName

/-- `compactionSummaryId`: the id that the first compaction call carries. -/
def compactionSummaryId (m : Row) : Option JsString :=
  if hasRole m "assistant" then
    (((blocks m).getD []).find? isCompactionCall).bind fun c =>
      (asString ((property c "arguments").bind fun args => property args "compactionId")).filter
        fun s => ! s.isEmpty
  else none

def isLegacyTextCompaction (m : Row) : Bool :=
  hasRole m "assistant" && (js "Context compacted").isPrefixOf (extractText m)

/-- `m.id === COMPACTION_ACTIVE_ID`. -/
def isActiveId (m : Row) : Bool := idOf m == some compactionActiveId

def isActiveCard (m : Row) : Bool := hasOrigin m .synthetic && isActiveId m

def isActiveToolResult (m : Row) : Bool :=
  hasRole m "toolResult" && toolCallIdOf m == some (pairedToolCallId compactionActiveId)

/-- The orders of a persisted card and of its paired result. -/
structure CompactionAnchor where
  cardOrder : Option Rat
  toolResultOrder : Option Rat

def persistedCompactionAnchor (messages : List Row) (compactionId : JsString) : CompactionAnchor :=
  messages.foldl (fun anchor m =>
    if ! isActiveId m && compactionSummaryId m == some compactionId then
      { anchor with cardOrder := some (orderOf m) }
    else if hasRole m "toolResult" && toolCallIdOf m == some (pairedToolCallId compactionId) then
      { anchor with toolResultOrder := some (orderOf m) }
    else anchor) ⟨none, none⟩

/-! ## Attachments -/

/-- `value.length` of a string or an array. -/
def lengthOf : Option Value → Nat
  | some (.str s) => s.length
  | some (.arr items) => items.length
  | _ => 0

/-- A JavaScript object from its fields. -/
def object (fields : List (String × Value)) : Value := .obj (fields.map fun f => (js f.1, f.2))

def imageAttachment (entry : Value × Nat) : Value :=
  let (img, i) := entry
  let data := (property img "data").getD .null
  let mimeType :=
    if truthy (property img "mimeType") then (property img "mimeType").getD .null
    else if truthy (property img "media_type") then (property img "media_type").getD .null
    else .str (js "image/png")
  object [("id", .str (js ("restored_" ++ toString i))), ("type", .str (js "image")),
    ("fileName", .str (js ("image-" ++ toString (i + 1) ++ ".png"))), ("mimeType", mimeType),
    ("size", .num (lengthOf (property img "data"))), ("content", data), ("preview", data)]

def enrichUserMessage (msg : Row) : Row :=
  if ! hasRole msg "user" then msg
  else match blocks msg with
    | none => msg
    | some items =>
      let imageChunks := items.filter fun c =>
        isText (property c "type") "image" && truthy (property c "data")
      if imageChunks.isEmpty then msg
      else setField (setField msg "role" (.str (js "user-with-attachments"))) "attachments"
        (.arr (imageChunks.zipIdx.map imageAttachment))

/-! ## Permission cards -/

/-- `ACTIVE_PERMISSION_STATUSES`. -/
def activePermissionStatuses : List JsString := [js "active", js "granting"]

def permissionStatus (m : Row) : JsString := (asString (field m "status")).getD (js "active")

def isActionablePermission (m : Row) : Bool :=
  hasRole m "tool_permission_needed" && ! isFalse (field m "actionable") &&
    permissionStatus m ∈ activePermissionStatuses

/-- `...(error ? { error } : {})`. -/
def withError (m : Row) (error : Option JsString) : Row :=
  match error with
  | some e => if e.isEmpty then m else setField m "error" (.str e)
  | none => m

def settlePermission (m : Row) (status : JsString) (error : Option JsString) : Row :=
  withError (setField (setField m "status" (.str status)) "actionable" (.bool false)) error

def samePermissionRequest (m request : Row) : Bool :=
  let sameTool := (asString (field request "toolName")).isSome &&
    strictEquals (field m "toolName") (field request "toolName")
  let sameGroup :=
    if (asString (field request "group")).isSome then
      strictEquals (field m "group") (field request "group")
    else true
  (match nonEmptyId request with
    | some id => idOf m == some id
    | none => false) || (sameTool && sameGroup)

end Bobbit.App.MessageReducer
