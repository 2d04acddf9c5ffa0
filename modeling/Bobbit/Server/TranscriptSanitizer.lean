import Bobbit.Server.TranscriptTree

/-!
# Transcript sanitizer

Model of the pure part of `src/server/agent/transcript-sanitizer.ts`: removing
the orphaned tool results of the active branch, and giving blank user messages a
text.
-/

namespace Bobbit.Server

open Lib Lib.JsString Lib.Json

variable {ν : Type}

/-- `ATTACHMENT_ONLY_TEXT`. -/
def attachmentOnlyText : JsString := js "Attachments:"

def blockText : Json ν → Option JsString
  | .obj fields =>
    if fieldIs fields "type" "text" then
      match getField fields (js "text") with
      | some (.str s) => some s
      | _ => none
    else none
  | _ => none

def effectiveText : Option (Json ν) → JsString
  | some (.str s) => s
  | some (.arr blocks) => (blocks.filterMap blockText).flatten
  | _ => []

/-- Does an object have this `type`? -/
def blockIs (type : String) : Json ν → Bool
  | .obj fields => fieldIs fields "type" type
  | _ => false

def hasToolResultBlock : Option (Json ν) → Bool
  | some (.arr blocks) => blocks.any fun b => blockIs "tool_result" b || blockIs "toolResult" b
  | _ => false

/-- A text block with the synthetic text. -/
def attachmentBlock : Json ν :=
  .obj [(js "type", .str (js "text")), (js "text", .str attachmentOnlyText)]

/-- Give the first text block the synthetic text; `none` when there is no text block. -/
def rewriteFirstText : List (Json ν) → Option (List (Json ν))
  | [] => none
  | .obj fields :: rest =>
    if fieldIs fields "type" "text" then
      some (.obj (setField fields (js "text") (.str attachmentOnlyText)) :: rest)
    else (rewriteFirstText rest).map (.obj fields :: ·)
  | block :: rest => (rewriteFirstText rest).map (block :: ·)

def rewriteBlankUserContent : Option (Json ν) → Json ν
  | some (.str _) => .str attachmentOnlyText
  | some (.arr blocks) =>
    match rewriteFirstText blocks with
    | some next => .arr next
    | none => .arr (attachmentBlock :: blocks)
  | _ => .arr [attachmentBlock]

structure SanitizeResult where
  content : JsString
  changed : Bool
  rewritten : Nat
deriving DecidableEq

/-- A record of the projected context. `retainedTailIndex` is its place in the
    `retainedTail` of the compaction on its line, when it stands there. -/
structure ProjectedTranscriptRecord (ν : Type) where
  lineIndex : Nat
  retainedTailIndex : Option Nat
  entry : JsonObject ν

def ParsedTranscriptLine.projected (r : ParsedTranscriptLine ν) : ProjectedTranscriptRecord ν :=
  ⟨r.lineIndex, none, r.entry⟩

def splitAtLastCompaction : List (ParsedTranscriptLine ν) →
    Option (List (ParsedTranscriptLine ν) × ParsedTranscriptLine ν × List (ParsedTranscriptLine ν))
  | [] => none
  | r :: rest =>
    match splitAtLastCompaction rest with
    | some (before, compaction, after) => some (r :: before, compaction, after)
    | none => if fieldIs r.entry "type" "compaction" then some ([], r, rest) else none

/-- The records that a compaction keeps from before it. -/
def keptTail (before : List (ParsedTranscriptLine ν)) (compaction : ParsedTranscriptLine ν) :
    List (ProjectedTranscriptRecord ν) :=
  match getField compaction.entry (js "retainedTail") with
  | some (.arr messages) => messages.mapIdx fun i message =>
      ⟨compaction.lineIndex, some i, [(js "type", .str (js "message")), (js "message", message)]⟩
  | _ =>
    match getField compaction.entry (js "firstKeptEntryId") with
    | some (.str firstKeptId) =>
      if firstKeptId = [] then []
      else (before.dropWhile (·.id ≠ some firstKeptId)).map (·.projected)
    | _ => []

def projectedContextBranch (branch : List (ParsedTranscriptLine ν)) :
    List (ProjectedTranscriptRecord ν) :=
  match splitAtLastCompaction branch with
  | none => branch.map (·.projected)
  | some (before, compaction, after) => keptTail before compaction ++ after.map (·.projected)

def toolUseIdKeys : List String := ["toolCallId", "toolUseId", "tool_use_id", "tool_call_id", "id"]

def persistedToolUseId (value : Json ν) : Option JsString :=
  toolUseIdKeys.findSome? fun key =>
    match get value (js key) with
    | some (.str id) => if id.trim = [] then none else some id
    | _ => none

def isMessageLevelToolResultRole (message : Json ν) : Bool :=
  match get message (js "role") with
  | some (.str role) => role ∈ [js "toolResult", js "tool_result", js "tool"]
  | _ => false

/-- `assistantToolCallIds`, as a list. -/
def assistantToolCallIds : Option (Json ν) → List JsString
  | some (.arr blocks) => blocks.filterMap fun block =>
      if blockIs "toolCall" block || blockIs "tool_use" block then persistedToolUseId block else none
  | _ => []

/-- JavaScript truthiness; `none` is `undefined`. -/
def truthy [JsNumber ν] : Option (Json ν) → Bool
  | none => false
  | some .null => false
  | some (.bool b) => b
  | some (.num n) => JsNumber.truthy n
  | some (.str s) => ! s.isEmpty
  | some _ => true

/-- What an entry of the projected context is to the tool results after it. -/
inductive EntryRole
  /-- metadata: results may go on across it -/
  | transparent
  /-- the end of a result run -/
  | boundary
  /-- an assistant message that calls these tools -/
  | assistant (toolCallIds : List JsString)
  /-- a tool result -/
  | toolResult (toolCallId : Option JsString)
deriving DecidableEq

def messageRole (message : Json ν) : EntryRole :=
  match get message (js "role") with
  | some (.str role) =>
    if role = js "assistant" then .assistant (assistantToolCallIds (get message (js "content")))
    else if isMessageLevelToolResultRole message then .toolResult (persistedToolUseId message)
    else .boundary
  | _ => .boundary

def entryRole [JsNumber ν] (entry : JsonObject ν) : EntryRole :=
  let other : EntryRole :=
    if fieldIs entry "type" "custom_message" ||
        (fieldIs entry "type" "branch_summary" && truthy (getField entry (js "summary"))) then
      .boundary
    else .transparent
  if fieldIs entry "type" "message" then
    match getField entry (js "message") with
    | some (.obj fields) => messageRole (.obj fields)
    | some (.arr items) => messageRole (.arr items)
    | _ => other
  else other

/-- The orphaned results, with the calls of the current run that have no result yet. -/
def orphansFrom [JsNumber ν] (pendingToolCallIds : Option (List JsString)) :
    List (ProjectedTranscriptRecord ν) → List (ProjectedTranscriptRecord ν)
  | [] => []
  | record :: rest =>
    match entryRole record.entry with
    | .transparent => orphansFrom pendingToolCallIds rest
    | .boundary => orphansFrom none rest
    | .assistant ids => orphansFrom (some ids) rest
    | .toolResult none => record :: orphansFrom pendingToolCallIds rest
    | .toolResult (some id) =>
      match pendingToolCallIds with
      | some pending =>
        if id ∈ pending then orphansFrom (some (pending.filter (· ≠ id))) rest
        else record :: orphansFrom (some pending) rest
      | none => record :: orphansFrom none rest

/-- `OrphanToolResultLocations`. The indexes in a retained tail come with the
    line of their compaction. -/
structure OrphanToolResultLocations where
  lineIndexes : List Nat
  retainedTailIndexes : List (Nat × Nat)

def orphanToolResultLocations [JsNumber ν] (branch : List (ParsedTranscriptLine ν)) :
    OrphanToolResultLocations :=
  let orphans := orphansFrom none (projectedContextBranch branch)
  { lineIndexes := (orphans.filter (·.retainedTailIndex.isNone)).map (·.lineIndex)
    retainedTailIndexes := orphans.filterMap fun r => r.retainedTailIndex.map fun i => (r.lineIndex, i) }

def removedParentsOf (branch : List (ParsedTranscriptLine ν)) (removedLineIndexes : List Nat) :
    JsMap JsString (Option JsString) :=
  branch.foldl (fun removedParents r =>
    match r.id with
    | some id => if r.lineIndex ∈ removedLineIndexes then removedParents.set id r.parentId
      else removedParents
    | none => removedParents) []

/-- Follow removed records to the nearest retained ancestor. -/
def skipRemoved (removedParents : JsMap JsString (Option JsString)) :
    Nat → List JsString → Option JsString → Option JsString
  | 0, _, id => id
  | _ + 1, _, none => none
  | fuel + 1, visited, some id =>
    match removedParents.get? id with
    | none => some id
    | some parentId =>
      if id ∈ visited then some id else skipRemoved removedParents fuel (id :: visited) parentId

/-- `skipRemoved` with the fuel that its visited set bounds. -/
def retainedAncestor (removedParents : JsMap JsString (Option JsString)) (id : Option JsString) :
    Option JsString :=
  skipRemoved removedParents (removedParents.length + 1) [] id

def idOrNull : Option JsString → Json ν
  | some id => .str id
  | none => .null

/-- Remove the items at some indexes. -/
def dropIndexes (items : List (Json ν)) (indexes : List Nat) : List (Json ν) :=
  (items.zipIdx.filter (·.2 ∉ indexes)).map (·.1)

/-- Take the orphans out of the retained tail of a compaction. -/
def repairRetainedTail (locations : OrphanToolResultLocations) (lineIndex : Nat)
    (entry : JsonObject ν) : Option (JsonObject ν) :=
  let indexes := (locations.retainedTailIndexes.filter (·.1 = lineIndex)).map (·.2)
  match getField entry (js "retainedTail") with
  | some (.arr items) =>
    if indexes = [] then none
    else some (setField entry (js "retainedTail") (.arr (dropIndexes items indexes)))
  | _ => none

/-- Link a record to its nearest retained ancestor. -/
def repairParent (removedParents : JsMap JsString (Option JsString)) (parentId : Option JsString)
    (entry : JsonObject ν) : Option (JsonObject ν) :=
  let retained := retainedAncestor removedParents parentId
  if retained = parentId then none
  else some (setField entry (js "parentId") (idOrNull retained))

/-- Point a leaf control at the nearest retained ancestor of its target. -/
def repairTarget (removedParents : JsMap JsString (Option JsString)) (entry : JsonObject ν) :
    Option (JsonObject ν) :=
  if fieldIs entry "type" "leaf" then
    match getField entry (js "targetId") with
    | some (.str targetId) =>
      let retained := retainedAncestor removedParents (some targetId)
      if retained = some targetId then none
      else some (setField entry (js "targetId") (idOrNull retained))
    | _ => none
  else none

/-- The repaired entry of a surviving record; `none` when nothing changes. -/
def repairRecord (locations : OrphanToolResultLocations)
    (removedParents : JsMap JsString (Option JsString)) (r : ParsedTranscriptLine ν) :
    Option (JsonObject ν) :=
  let tail := repairRetainedTail locations r.lineIndex r.entry
  let entry := tail.getD r.entry
  let parent := repairParent removedParents r.parentId entry
  let entry := parent.getD entry
  let target := repairTarget removedParents entry
  if tail.isSome || parent.isSome || target.isSome then some (target.getD entry) else none

/-- The text of line `i` after the repair. -/
def repairLine [JsNumber ν] (parsed : ParsedTranscript ν) (locations : OrphanToolResultLocations)
    (removedParents : JsMap JsString (Option JsString)) (line : JsString) (i : Nat) : JsString :=
  match (parsed.records.find? (·.lineIndex = i)).bind (repairRecord locations removedParents) with
  | none => line
  | some entry =>
    stringify (.obj entry) ++ if line.getLast? = some carriageReturn then [carriageReturn] else []

def repairOrphanToolResults (ν : Type) [JsNumber ν] (content : JsString) : SanitizeResult :=
  if content = [] then ⟨content, false, 0⟩
  else
    let parsed : ParsedTranscript ν := parseTranscript content
    let activeBranch := activeTranscriptBranch parsed
    let locations := orphanToolResultLocations activeBranch
    if locations.lineIndexes = [] ∧ locations.retainedTailIndexes = [] then ⟨content, false, 0⟩
    else
      let removedParents := removedParentsOf activeBranch locations.lineIndexes
      let kept := content.lines.zipIdx.filter (·.2 ∉ locations.lineIndexes)
      let repaired := kept.map fun (line, i) => repairLine parsed locations removedParents line i
      ⟨unlines repaired, true, locations.lineIndexes.length + locations.retainedTailIndexes.length⟩

/-- One line of `transformTranscriptJsonl`; `none` when it stays as it is. -/
def transformLine [JsNumber ν] (mutateEntry : Json ν → Option (Json ν)) (line : JsString) :
    Option JsString :=
  let trimmed := line.trim
  if trimmed = [] then none
  else ((parse trimmed).bind mutateEntry).map stringify

def transformTranscriptJsonl [JsNumber ν] (content : JsString)
    (mutateEntry : Json ν → Option (Json ν)) : SanitizeResult :=
  if content = [] then ⟨content, false, 0⟩
  else
    let lines := content.lines
    let rewritten := lines.countP fun line => (transformLine mutateEntry line).isSome
    if rewritten = 0 then ⟨content, false, 0⟩
    else ⟨unlines (lines.map fun line => (transformLine mutateEntry line).getD line), true, rewritten⟩

/-- The mutation of `sanitizeTranscriptContent`: a blank user message gets a text. -/
def mutateBlankUser : Json ν → Option (Json ν)
  | .obj entry =>
    if fieldIs entry "type" "message" then
      match getField entry (js "message") with
      | some (.obj message) =>
        let content := getField message (js "content")
        if ! fieldIs message "role" "user" then none
        else if hasToolResultBlock content then none
        else if (effectiveText content).trim ≠ [] then none
        else
          let message := setField message (js "content") (rewriteBlankUserContent content)
          some (.obj (setField entry (js "message") (.obj message)))
      | _ => none
    else none
  | _ => none

def sanitizeTranscriptContent (ν : Type) [JsNumber ν] (content : JsString) : SanitizeResult :=
  let orphanRepair := repairOrphanToolResults ν content
  let blankRepair := transformTranscriptJsonl orphanRepair.content (mutateBlankUser (ν := ν))
  { content := blankRepair.content
    changed := orphanRepair.changed || blankRepair.changed
    rewritten := orphanRepair.rewritten + blankRepair.rewritten }

end Bobbit.Server
