import Bobbit.Lib.JsMap
import Bobbit.Lib.JsonRecord

/-!
# Compaction sidecar

Model of the compaction cards in `src/server/agent/compaction-sidecar.ts`. Pi does not replay the
end of a compaction, so the cards are kept in a sidecar and spliced into every message list
(`mergeCompactionSidecarIntoMessages`).

Reading dates, writing their numbers and rounding a percentage belong to JavaScript
(`SidecarEnv`). So does the order that `Array.prototype.sort` gives a list when an end time is no
date: the comparator is then `NaN`, and the order is up to the implementation (`EndTimeSort`).
-/

namespace Bobbit.Server.CompactionSidecar

open Lib JsString

variable {ν : Type}

inductive CompactionTrigger
  | manual | auto | overflow
deriving DecidableEq

/-- `isPiTranscriptEntryId`, of a string. -/
def isPiTranscriptEntryId (value : JsString) : Bool :=
  value ≠ [] && value.length ≤ 256 && value == value.trim

/-- `CompactionSidecarEntry`; the reader of the sidecar takes no ill-formed transcript id over. -/
structure CompactionSidecarEntry (ν : Type) where
  id : JsString
  trigger : CompactionTrigger
  tokensBefore : Option ν
  tokensAfter : Option ν
  durationMs : ν
  startedAt : JsString
  endedAt : JsString
  success : Bool
  error : Option JsString
  firstKeptEntryId : Option JsString
  transcriptCompactionEntryId : Option { id : JsString // isPiTranscriptEntryId id = true }

/-- What JavaScript makes of dates and of a quotient. -/
structure SidecarEnv (ν : Type) where
  /-- `new Date(text).getTime()`; `none` is `NaN` -/
  getTime : JsString → Option Int
  /-- the number of a time value -/
  timeNumber : Option Int → ν
  /-- the percentage of the tokens that a compaction has saved, rounded to one place -/
  reductionPct : ν → ν → Json ν

/-- `sort((a, b) => new Date(a.endedAt).getTime() - new Date(b.endedAt).getTime())`: some order of
the list, by end time when all end times are dates. -/
structure EndTimeSort (env : SidecarEnv ν) where
  sort : List (CompactionSidecarEntry ν) → List (CompactionSidecarEntry ν)
  perm : ∀ entries, (sort entries).Perm entries
  sorted : ∀ entries, (∀ e ∈ entries, (env.getTime e.endedAt).isSome) →
    (sort entries).Pairwise fun a b =>
      ∀ s ∈ env.getTime a.endedAt, ∀ t ∈ env.getTime b.endedAt, s ≤ t

def CompactionTrigger.name : CompactionTrigger → JsString
  | .manual => js "manual"
  | .auto => js "auto"
  | .overflow => js "overflow"

/-! ## Cards -/

/-- `__compaction_summary`. -/
def summaryToolName : JsString := js "__compaction_summary"

/-- `compaction-summary:${id}`. -/
def summaryToolCallId (id : JsString) : JsString := js "compaction-summary:" ++ id

/-- A number, or `null`. -/
def orNull (value : Option ν) : Json ν := value.elim .null .num

def cardPayload [JsNumber ν] (env : SidecarEnv ν) (entry : CompactionSidecarEntry ν) : Json ν :=
  .obj ([(js "schemaVersion", .num (JsNumber.read (js "1"))),
      (js "trigger", .str entry.trigger.name),
      (js "state", .str (if entry.success then js "complete" else js "error")),
      (js "success", .bool entry.success), (js "timestamp", .str entry.endedAt),
      (js "startedAt", .str entry.startedAt), (js "durationMs", .num entry.durationMs),
      (js "tokensBefore", orNull entry.tokensBefore), (js "tokensAfter", orNull entry.tokensAfter),
      (js "reductionPct",
        match entry.tokensBefore, entry.tokensAfter with
        | some before, some after => env.reductionPct before after
        | _, _ => .null)] ++
    Json.optionalField (js "error") (if entry.success then none else entry.error.map .str) ++
    [(js "compactionId", .str entry.id)])

/-- `syntheticCompactionRowsFromSidecar`: the card and its tool result. -/
def syntheticCompactionRowsFromSidecar [JsNumber ν] (env : SidecarEnv ν)
    (entry : CompactionSidecarEntry ν) : List (Json ν) :=
  let payload := cardPayload env entry
  let toolCallId := summaryToolCallId entry.id
  let timestamp : Json ν := .num (env.timeNumber (env.getTime entry.endedAt))
  let failure := match entry.error with
    | some (c :: cs) => c :: cs
    | _ => js "compaction failed"
  [.obj [(js "id", .str entry.id), (js "role", .str (js "assistant")), (js "timestamp", timestamp),
      (js "content", .arr [.obj [(js "type", .str (js "toolCall")), (js "id", .str toolCallId),
        (js "name", .str summaryToolName), (js "arguments", payload)]])],
    .obj [(js "role", .str (js "toolResult")), (js "toolCallId", .str toolCallId),
      (js "toolName", .str summaryToolName), (js "isError", .bool (! entry.success)),
      (js "content", .arr [.obj [(js "type", .str (js "text")),
        (js "text", .str (if entry.success then js "ok" else failure))]]),
      (js "details", payload), (js "timestamp", timestamp)]]

/-! ## Merging -/

/-- The id of a tool call that shows a compaction. -/
def summaryCallId (block : Json ν) : Option JsString :=
  if (block.get (js "type")).bind Json.string? = some (js "toolCall") ∧
      (block.get (js "name")).bind Json.string? = some summaryToolName then
    (block.get (js "id")).bind Json.string?
  else none

/-- The ids of the compaction cards in one message. -/
def summaryCallIds (message : Json ν) : List JsString :=
  if (message.get (js "role")).bind Json.string? = some (js "assistant") then
    (((message.get (js "content")).bind Json.array?).getD []).filterMap summaryCallId
  else []

def messageId (message : Json ν) : Option JsString := (message.get (js "id")).bind Json.string?

/-- `dedup`: the last entry of each id, in the order of the first ones. -/
def dedupEntries (entries : List (CompactionSidecarEntry ν)) : List (CompactionSidecarEntry ν) :=
  (entries.foldl (fun dedup e => JsMap.set dedup e.id e) []).map (·.2)

/-- `hasLiveActive`: the card of the compaction in flight is among the messages. -/
def hasLiveActive (messages : List (Json ν)) : Bool :=
  summaryToolCallId (js "compact_active") ∈ messages.flatMap summaryCallIds

/-- A card is there already: under its tool call id, or as a row of its id. -/
def isPresent (messages : List (Json ν)) (id : JsString) : Bool :=
  summaryToolCallId id ∈ messages.flatMap summaryCallIds || id ∈ messages.filterMap messageId

/-- The entries whose cards the loop of `mergeCompactionSidecarIntoMessages` adds. -/
def missingEntries (messages : List (Json ν)) (sorted : List (CompactionSidecarEntry ν)) :
    List (CompactionSidecarEntry ν) :=
  (sorted.zipIdx.filter fun entry =>
    ! isPresent messages entry.1.id &&
      ! (hasLiveActive messages && entry.2 == sorted.length - 1)).map (·.1)

/-- `mergeCompactionSidecarIntoMessages`, with the entries that the sidecar of the session holds. -/
def mergeCompactionSidecarIntoMessages [JsNumber ν] {env : SidecarEnv ν}
    (endTimes : EndTimeSort env) (sidecar : List (CompactionSidecarEntry ν)) (messages : List (Json ν))
    (excludedIds : List JsString) : List (Json ν) :=
  let entries := sidecar.filter (·.id ∉ excludedIds)
  if entries.isEmpty then messages
  else
    let sorted := endTimes.sort (dedupEntries entries)
    let splice := (missingEntries messages sorted).flatMap
      (syntheticCompactionRowsFromSidecar env)
    if splice.isEmpty then messages else splice ++ messages

end Bobbit.Server.CompactionSidecar
