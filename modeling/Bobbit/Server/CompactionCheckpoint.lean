import Bobbit.Lib.ParentWalk
import Bobbit.Server.CompactionSidecar

/-!
# Compaction checkpoints

Model of the transcript side of `src/server/agent/compaction-sidecar.ts`. After a compaction the
card is tied to the transcript entry that the compaction has added
(`resolveCompactionTranscriptEntryId`), and a copy of a cut transcript takes over only the cards
whose entry and boundary both survive (`copyCompactionSidecarForTranscript`).
-/

namespace Bobbit.Server.CompactionSidecar

open Lib

variable {ν : Type}

/-! ## The tree of a transcript -/

/-- `TranscriptEntriesSnapshot`: two values that have not been looked at. -/
structure TranscriptEntriesSnapshot (ν : Type) where
  entries : Option (Json ν)
  leafId : Option (Json ν)

/-- `TranscriptTreeEntry`: an object with a valid id and parent id. -/
structure TranscriptTreeEntry (ν : Type) where
  id : JsString
  parentId : Option JsString
  fields : List (JsString × Json ν)

structure CompactionIdentityExpectation (ν : Type) where
  summary : JsString
  firstKeptEntryId : JsString
  tokensBefore : ν

/-- `isPiTranscriptEntryId`, of any value. -/
def piTranscriptEntryId (value : Option (Json ν)) : Option JsString :=
  (value.bind Json.string?).filter isPiTranscriptEntryId

/-- What `validatedTranscriptTree` asks of one value of the list. -/
def readTreeEntry : Json ν → Option (TranscriptTreeEntry ν)
  | .obj fields =>
    match piTranscriptEntryId (Json.getField fields (js "id")) with
    | none => none
    | some id =>
      match Json.getField fields (js "parentId") with
      | some .null => some ⟨id, none, fields⟩
      | parentId => (piTranscriptEntryId parentId).map fun parentId => ⟨id, some parentId, fields⟩
  | _ => none

/-- `byId`: the entries by their ids; a value that is no entry, or an id that comes again, is no
tree. -/
def indexTree (byId : JsMap JsString (TranscriptTreeEntry ν)) :
    List (Json ν) → Option (JsMap JsString (TranscriptTreeEntry ν))
  | [] => some byId
  | value :: rest =>
    match readTreeEntry value with
    | none => none
    | some entry =>
      if (byId.get? entry.id).isSome then none
      else indexTree (JsMap.set byId entry.id entry) rest

/-- `cursor = cursor.parentId === null ? undefined : byId.get(cursor.parentId)`, by ids. -/
def parentOf (byId : JsMap JsString (TranscriptTreeEntry ν)) (id : JsString) : Option JsString :=
  ((byId.get? id).bind (·.parentId)).filter fun parentId => (byId.get? parentId).isSome

/-- The loop over `byId.values()`: every parent is known, and no walk up meets itself. The walks
meet an id once, so the size of the map bounds them. -/
def isForest (byId : JsMap JsString (TranscriptTreeEntry ν)) : Bool :=
  (byId.map (·.2)).all (fun entry =>
    entry.parentId.all fun parentId => (byId.get? parentId).isSome) &&
  (ParentWalk.resolveAll (parentOf byId) (byId.length + 1) [] byId.keys).isSome

/-- The branch that ends in a leaf, from its root on. -/
def branchTo (byId : JsMap JsString (TranscriptTreeEntry ν)) (leafId : JsString) :
    Option (List (TranscriptTreeEntry ν)) :=
  (ParentWalk.chain (fun id => (byId.get? id).map (·.parentId)) (byId.length + 1) []
    (some leafId)).map fun ids => (ids.filterMap byId.get?).reverse

/-- `validatedTranscriptTree`: the active branch and all ids. -/
def validatedTranscriptTree (snapshot : TranscriptEntriesSnapshot ν) :
    Option (List (TranscriptTreeEntry ν) × List JsString) :=
  match (snapshot.entries.bind Json.array?).bind (indexTree []) with
  | none => none
  | some byId =>
    if ! isForest byId then none
    else
      match snapshot.leafId, byId with
      | some .null, [] => some ([], [])
      | leafId, byId =>
        match piTranscriptEntryId leafId with
        | none => none
        | some leafId =>
          if (byId.get? leafId).isNone then none
          else (branchTo byId leafId).map fun branch => (branch, byId.keys)

/-! ## Resolving -/

/-- An entry of the transcript is the compaction that is expected. -/
def isExpected [DecidableEq ν] (expected : CompactionIdentityExpectation ν)
    (entry : TranscriptTreeEntry ν) : Bool :=
  (Json.getField entry.fields (js "type")).bind Json.string? = some (js "compaction") &&
    (Json.getField entry.fields (js "summary")).bind Json.string? = some expected.summary &&
    (Json.getField entry.fields (js "firstKeptEntryId")).bind Json.string? =
      some expected.firstKeptEntryId &&
    (Json.getField entry.fields (js "tokensBefore")).bind Json.number? = some expected.tokensBefore

def resolveCompactionTranscriptEntryId [DecidableEq ν]
    (baseline post : TranscriptEntriesSnapshot ν) (expected : CompactionIdentityExpectation ν) :
    Option JsString :=
  match validatedTranscriptTree baseline, validatedTranscriptTree post with
  | some (beforeBranch, beforeIds), some (afterBranch, afterIds) =>
    if beforeIds.any (· ∉ afterIds) then none
    else if beforeBranch.getLast?.any fun leaf => leaf.id ∉ afterBranch.map (·.id) then none
    else
      match afterBranch.filter fun entry =>
        entry.id ∉ beforeIds && isExpected expected entry with
      | [entry] => some entry.id
      | _ => none
  | _, _ => none

/-! ## Copying -/

/-- A record of the cut transcript that is a compaction with an id and a boundary that are both
retained. -/
def retainedCompaction (retainedEntryIds : List JsString) (entry : Json ν) :
    Option (JsString × JsString) :=
  if (entry.get (js "type")).bind Json.string? = some (js "compaction") then
    match (entry.get (js "id")).bind Json.string?,
      (entry.get (js "firstKeptEntryId")).bind Json.string? with
    | some compactionId, some firstKeptEntryId =>
      if compactionId = [] ∨ compactionId ∉ retainedEntryIds ∨ firstKeptEntryId = [] ∨
          firstKeptEntryId ∉ retainedEntryIds then none
      else some (compactionId, firstKeptEntryId)
    | _, _ => none
  else none

/-- One turn of the loop over the retained compactions: an id that comes again is taken out, and
does not come back. -/
def addBoundary (state : JsMap JsString JsString × List JsString)
    (compaction : JsString × JsString) : JsMap JsString JsString × List JsString :=
  if (state.1.get? compaction.1).isSome then
    (state.1.erase compaction.1, compaction.1 :: state.2)
  else if compaction.1 ∈ state.2 then state
  else (JsMap.set state.1 compaction.1 compaction.2, state.2)

/-- `retainedBoundariesById`. -/
def retainedBoundaries (retainedCompactions : List (Json ν)) (retainedEntryIds : List JsString) :
    JsMap JsString JsString :=
  ((retainedCompactions.filterMap (retainedCompaction retainedEntryIds)).foldl addBoundary
    ([], [])).1

/-- One turn of the loop over the sidecar. -/
def addCandidate (retainedBoundariesById : JsMap JsString JsString)
    (retainedEntryIds : List JsString)
    (candidatesById : JsMap JsString (List (CompactionSidecarEntry ν)))
    (entry : CompactionSidecarEntry ν) : JsMap JsString (List (CompactionSidecarEntry ν)) :=
  match entry.transcriptCompactionEntryId with
  | none => candidatesById
  | some transcriptId =>
    match retainedBoundariesById.get? transcriptId.1 with
    | none => candidatesById
    | some expectedBoundary =>
      if transcriptId.1 ∈ retainedEntryIds ∧ entry.firstKeptEntryId = some expectedBoundary ∧
          expectedBoundary ∈ retainedEntryIds then
        JsMap.set candidatesById transcriptId.1
          ((candidatesById.get? transcriptId.1).getD [] ++ [entry])
      else candidatesById

/-- The cards that `copyCompactionSidecarForTranscript` writes. -/
def copyCompactionSidecarForTranscript (sidecar : List (CompactionSidecarEntry ν))
    (retainedCompactions : List (Json ν)) (retainedEntryIds : List JsString) :
    List (CompactionSidecarEntry ν) :=
  let retainedBoundariesById := retainedBoundaries retainedCompactions retainedEntryIds
  let candidatesById := sidecar.foldl
    (addCandidate retainedBoundariesById retainedEntryIds) []
  retainedBoundariesById.keys.filterMap fun id =>
    match candidatesById.get? id with
    | some [entry] => some entry
    | _ => none

end Bobbit.Server.CompactionSidecar
