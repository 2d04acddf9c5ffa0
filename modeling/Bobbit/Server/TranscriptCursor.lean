import Bobbit.Server.AuthorProjection
import Bobbit.Server.CompactionCheckpoint

/-!
# Transcript cursors of visible prompts

Model of `correlateTranscriptPromptEntryIds` in `src/server/agent/visible-message-snapshot.ts`: the
rows that Pi shows have no ids, and the prompts among them are given the ids of the transcript
entries they come from, by their order in Pi's active context.
-/

namespace Bobbit.Server.TranscriptCursor

open Bobbit.Lib Bobbit.Shared.MessageAuthor
open CompactionSidecar (piTranscriptEntryId)

variable {ν : Type}

/-- `TranscriptCursorSnapshot`: three values that have not been looked at. -/
structure TranscriptCursorSnapshot (ν : Type) where
  forkMessages : Option (Json ν)
  entries : Option (Json ν)
  leafId : Option (Json ν)

structure CursorEntry (ν : Type) where
  id : JsString
  parentId : Option JsString
  type : JsString
  message : Option (Json ν)
  firstKeptEntryId : Option JsString

def messageObject : Option (Json ν) → Option (Json ν)
  | some (.obj fields) => some (.obj fields)
  | _ => none

/-- `extractPromptModelText` of any value. -/
def promptModelText (message : Json ν) : Option JsString :=
  match message with
  | .obj fields => AuthorProjection.extractPromptModelText fields
  | _ => none

/-- What the loop over `snapshot.entries` asks of one value. -/
def readCursorEntry (value : Json ν) : Option (CursorEntry ν) :=
  match piTranscriptEntryId (value.get (js "id")), (value.get (js "type")).bind Json.string? with
  | some id, some type =>
    let entry (parentId : Option JsString) : CursorEntry ν := {
      id, parentId, type
      message := messageObject (value.get (js "message"))
      firstKeptEntryId := (value.get (js "firstKeptEntryId")).bind Json.string? }
    match value.get (js "parentId") with
    | some .null => some (entry none)
    | parentId => (piTranscriptEntryId parentId).map fun parentId => entry (some parentId)
  | _, _ => none

/-- `byId`; a value that is no entry, or an id that comes again, spoils the snapshot. -/
def indexEntries (byId : JsMap JsString (CursorEntry ν)) :
    List (Json ν) → Option (JsMap JsString (CursorEntry ν))
  | [] => some byId
  | value :: rest =>
    match readCursorEntry value with
    | none => none
    | some entry =>
      if (JsMap.get? byId entry.id).isSome then none
      else indexEntries (JsMap.set byId entry.id entry) rest

/-- The walk from the leaf to the root, reversed. It meets an id once, so the size of the map
    bounds it. -/
def branchTo (byId : JsMap JsString (CursorEntry ν)) (leafId : JsString) :
    Option (List (CursorEntry ν)) :=
  (ParentWalk.chain (fun id => (JsMap.get? byId id).map (·.parentId)) (byId.length + 1) []
    (some leafId)).map fun ids => (ids.filterMap (JsMap.get? byId)).reverse

/-- The entry is a prompt: a message with an accountable author. -/
def isPrompt (entry : CursorEntry ν) : Bool :=
  entry.type = js "message" && entry.message.any isAccountablePromptMessage

/-- `forkTextById`: every fork message must name a prompt and repeat its text. -/
def indexForkTexts (byId : JsMap JsString (CursorEntry ν)) (forkTextById : JsMap JsString JsString) :
    List (Json ν) → Option (JsMap JsString JsString)
  | [] => some forkTextById
  | value :: rest =>
    match piTranscriptEntryId (value.get (js "entryId")), (value.get (js "text")).bind Json.string? with
    | some entryId, some text =>
      if (JsMap.get? forkTextById entryId).isSome then none
      else
        match JsMap.get? byId entryId with
        | none => none
        | some entry =>
          if ! isPrompt entry then none
          else if entry.message.bind promptModelText ≠ some text then none
          else indexForkTexts byId (JsMap.set forkTextById entryId text) rest
    | _, _ => none

/-- `parseCursorEntries`: the active branch, and the texts of its prompts. -/
def parseCursorEntries (snapshot : TranscriptCursorSnapshot ν) :
    Option (List (CursorEntry ν) × JsMap JsString JsString) :=
  match snapshot.entries.bind Json.array?, snapshot.forkMessages.bind Json.array? with
  | some entries, some forkMessages =>
    match indexEntries [] entries with
    | none => none
    | some byId =>
      match snapshot.leafId, byId with
      -- an empty session
      | some .null, [] => some ([], [])
      | leafId, byId =>
        match piTranscriptEntryId leafId with
        | none => none
        | some leafId =>
          if (JsMap.get? byId leafId).isNone then none
          else
            match branchTo byId leafId with
            | none => none
            | some branch => (indexForkTexts byId [] forkMessages).map fun texts => (branch, texts)
  | _, _ => none

/-! ## The context -/

def latestCompactionIndex (branch : List (CursorEntry ν)) : Option Nat :=
  (branch.zipIdx.filter fun entry => entry.1.type = js "compaction").getLast?.map (·.2)

/-- The loop over what stands before the compaction: what it keeps, from its first kept entry on. -/
def retainedBefore (firstKeptEntryId : Option JsString) (retaining : Bool) :
    List (CursorEntry ν) → List (CursorEntry ν)
  | [] => []
  | entry :: rest =>
    let retaining := retaining || some entry.id = firstKeptEntryId
    if retaining then entry :: retainedBefore firstKeptEntryId retaining rest
    else retainedBefore firstKeptEntryId retaining rest

def contextEntries (branch : List (CursorEntry ν)) : List (CursorEntry ν) :=
  match latestCompactionIndex branch with
  | none => branch
  | some index =>
    match branch[index]? with
    | none => branch
    | some compaction =>
      compaction :: retainedBefore compaction.firstKeptEntryId false (branch.take index) ++
        branch.drop (index + 1)

/-! ## Correlation -/

def visibleUserIndexes (messages : List (Json ν)) : List Nat :=
  (messages.zipIdx.filter fun message => isAccountablePromptMessage message.1).map (·.2)

/-- The last loop: the `index`-th expected entry belongs to the `index`-th prompt, and all texts must
    agree. -/
def assignEntryIds (messages : List (Json ν)) (forkTextById : JsMap JsString JsString) :
    List (CursorEntry ν × Nat) → List (Option JsString) → Option (List (Option JsString))
  | [], entryIds => some entryIds
  | (expectedEntry, messageIndex) :: rest, entryIds =>
    match messages[messageIndex]?.bind promptModelText, JsMap.get? forkTextById expectedEntry.id with
    | some visibleText, some authoritativeText =>
      if visibleText ≠ authoritativeText then none
      else
        assignEntryIds messages forkTextById rest
          (entryIds.set messageIndex (some expectedEntry.id))
    | _, _ => none

def correlateTranscriptPromptEntryIds (messages : List (Json ν))
    (snapshot : TranscriptCursorSnapshot ν) (allowUnpersistedTail : Bool) :
    Option (List (Option JsString)) :=
  match parseCursorEntries snapshot with
  | none => none
  | some (branch, forkTextById) =>
    let expected := (contextEntries branch).filter isPrompt
    let visible := visibleUserIndexes messages
    if visible.length < expected.length then none
    else if 0 < visible.length - expected.length ∧ ! allowUnpersistedTail then none
    else
      assignEntryIds messages forkTextById (expected.zip visible)
        (List.replicate messages.length none)

end Bobbit.Server.TranscriptCursor
