import Bobbit.Lib.Json
import Bobbit.Lib.JsMap

/-!
# Transcript trees

Model of `src/server/agent/transcript-tree.ts`: parsing a JSONL transcript into
records, the structural anomalies of its tree, and the selection of the active
branch.
-/

namespace Bobbit.Server

open Lib Lib.JsString Lib.Json

abbrev JsonObject (ν : Type) := List (JsString × Json ν)

structure ParsedTranscriptLine (ν : Type) where
  lineIndex : Nat
  raw : JsString
  entry : JsonObject ν
  id : Option JsString
  parentId : Option JsString

inductive TranscriptTreeAnomaly
  | malformedJson (lineIndex : Nat) (raw : JsString) (terminated : Bool)
  | nonObjectJson (lineIndex : Nat) (raw : JsString) (terminated : Bool)
  | duplicateId (lineIndex : Nat) (id : JsString) (firstLineIndex : Nat)
  | invalidEntryId (lineIndex : Nat)
  | invalidParentId (lineIndex : Nat) (id : JsString)
  | missingParent (lineIndex : Nat) (id parentId : JsString)
  | parentAfterChild (lineIndex : Nat) (id parentId : JsString) (parentLineIndex : Nat)
  | cycle (lineIndex : Nat) (id : JsString)
  | invalidLeafTarget (lineIndex : Nat) (id : JsString)
  | missingLeafTarget (lineIndex : Nat) (id targetId : JsString)
  | leafTargetAfterControl (lineIndex : Nat) (id targetId : JsString) (targetLineIndex : Nat)

structure ParsedTranscript (ν : Type) where
  records : List (ParsedTranscriptLine ν)
  headers : List (ParsedTranscriptLine ν)
  byId : JsMap JsString (ParsedTranscriptLine ν)
  activeBranch : List (ParsedTranscriptLine ν)
  anomalies : List TranscriptTreeAnomaly

variable {ν : Type}

def nonEmptyString : Option (Json ν) → Option JsString
  | some (.str s) => if s = [] then none else some s
  | _ => none

/-- `entry.key === "literal"`. -/
def fieldIs (entry : JsonObject ν) (key literal : String) : Bool :=
  match getField entry (js key) with
  | some (.str s) => s == js literal
  | _ => false

def requiresTreeId (entry : JsonObject ν) : Bool :=
  ! fieldIs entry "type" "session" &&
    ((getField entry (js "parentId")).isSome || fieldIs entry "type" "message" ||
      fieldIs entry "type" "compaction" || fieldIs entry "type" "branch_summary" ||
      fieldIs entry "type" "custom_message" || fieldIs entry "type" "leaf")

structure RawTranscriptLine where
  lineIndex : Nat
  raw : JsString
  terminated : Bool

/-- The lines from index `i` on: all but the last are terminated, and an empty
    last line is none. -/
def numberLines (i : Nat) : List JsString → List RawTranscriptLine
  | [] => []
  | [last] => if last = [] then [] else [⟨i, last, false⟩]
  | line :: rest => ⟨i, line ++ [lineFeed], true⟩ :: numberLines (i + 1) rest

def rawTranscriptLines (content : JsString) : List RawTranscriptLine :=
  numberLines 0 content.lines

/-- What one line is: blank, an anomaly, or a record. -/
def readLine [JsNumber ν] (line : RawTranscriptLine) :
    Except TranscriptTreeAnomaly (Option (ParsedTranscriptLine ν)) :=
  let trimmed := line.raw.trim
  if trimmed = [] then .ok none
  else match parse trimmed with
    | none => .error (.malformedJson line.lineIndex line.raw line.terminated)
    | some (.obj entry) =>
      .ok (some ⟨line.lineIndex, line.raw, entry, nonEmptyString (getField entry (js "id")),
        nonEmptyString (getField entry (js "parentId"))⟩)
    | some _ => .error (.nonObjectJson line.lineIndex line.raw line.terminated)

def lineRecord [JsNumber ν] (line : RawTranscriptLine) : Option (ParsedTranscriptLine ν) :=
  (readLine line).toOption.join

namespace ParsedTranscriptLine

def isSession (r : ParsedTranscriptLine ν) : Bool := fieldIs r.entry "type" "session"

def isLeaf (r : ParsedTranscriptLine ν) : Bool := fieldIs r.entry "type" "leaf"

/-- A record with an id that is not a session header. -/
def inTree (r : ParsedTranscriptLine ν) : Bool := r.id.isSome && ! r.isSession

end ParsedTranscriptLine

/-- The map of the records by id: the last record with an id is the one kept. -/
def indexById (records : List (ParsedTranscriptLine ν)) : JsMap JsString (ParsedTranscriptLine ν) :=
  records.foldl (fun byId r =>
    match r.id with
    | some id => if r.isSession then byId else byId.set id r
    | none => byId) []

/-- The id that a record designates as the active leaf when it is the last one. -/
def designated (r : ParsedTranscriptLine ν) : Option JsString :=
  if r.isLeaf then nonEmptyString (getField r.entry (js "targetId")) else r.id

/-- The active leaf: what the last record of the tree designates. -/
def activeLeafId (records : List (ParsedTranscriptLine ν)) : Option JsString :=
  records.foldl (fun leafId r => if r.inTree then designated r else leafId) none

/-- The records from `current` up to its root. -/
def collectBranch (byId : JsMap JsString (ParsedTranscriptLine ν)) :
    Nat → List JsString → Option (ParsedTranscriptLine ν) → List (ParsedTranscriptLine ν)
  | 0, _, _ => []
  | _ + 1, _, none => []
  | fuel + 1, visited, some current =>
    match current.id with
    | none => []
    | some id =>
      if id ∈ visited then []
      else current :: collectBranch byId fuel (id :: visited) (current.parentId.bind byId.get?)

/-- `selectActiveBranch`. The walk visits an id once, so the size of the map
    bounds it. -/
def selectActiveBranch (records : List (ParsedTranscriptLine ν))
    (byId : JsMap JsString (ParsedTranscriptLine ν)) : List (ParsedTranscriptLine ν) :=
  match activeLeafId records with
  | none => []
  | some leafId => (collectBranch byId (byId.length + 1) [] (byId.get? leafId)).reverse

/-! ## Anomalies -/

/-- The anomalies of a record's own id and parent id. -/
def recordAnomalies (r : ParsedTranscriptLine ν) (id : JsString) : List TranscriptTreeAnomaly :=
  (if requiresTreeId r.entry && (id.trim != id || id.length > 256) then
    [.invalidEntryId r.lineIndex] else []) ++
  (if requiresTreeId r.entry &&
      match getField r.entry (js "parentId") with
      | none => true
      | some .null => false
      | some _ => r.parentId.isNone then
    [.invalidParentId r.lineIndex id] else [])

/-- The anomalies that the first pass over the lines finds. `firstById` holds the
    line of the first record with each id. -/
def lineAnomalies [JsNumber ν] (firstById : JsMap JsString Nat) :
    List RawTranscriptLine → List TranscriptTreeAnomaly
  | [] => []
  | line :: rest =>
    match (readLine line : Except _ (Option (ParsedTranscriptLine ν))) with
    | .error anomaly => anomaly :: lineAnomalies firstById rest
    | .ok none => lineAnomalies firstById rest
    | .ok (some r) =>
      if r.isSession then lineAnomalies firstById rest
      else match r.id with
        | none =>
          (if requiresTreeId r.entry then [.invalidEntryId r.lineIndex] else []) ++
            lineAnomalies firstById rest
        | some id =>
          recordAnomalies r id ++
            match firstById.get? id with
            | some first => .duplicateId r.lineIndex id first :: lineAnomalies firstById rest
            | none => lineAnomalies (firstById.set id r.lineIndex) rest

/-- The anomalies of the link from a record to its parent. -/
def parentAnomalies (byId : JsMap JsString (ParsedTranscriptLine ν)) (r : ParsedTranscriptLine ν) :
    List TranscriptTreeAnomaly :=
  match r.id, r.parentId with
  | some id, some parentId =>
    if r.isSession then []
    else match byId.get? parentId with
      | none => [.missingParent r.lineIndex id parentId]
      | some parent =>
        if parent.lineIndex ≥ r.lineIndex then
          [.parentAfterChild r.lineIndex id parentId parent.lineIndex]
        else []
  | _, _ => []

/-- The anomalies of the control record that selects the leaf. -/
def leafAnomalies (records : List (ParsedTranscriptLine ν))
    (byId : JsMap JsString (ParsedTranscriptLine ν)) : List TranscriptTreeAnomaly :=
  match (records.filter (·.inTree)).getLast? with
  | none => []
  | some r =>
    match r.id with
    | none => []
    | some id =>
      if ! r.isLeaf then []
      else match getField r.entry (js "targetId") with
        | some .null => []
        | target =>
          match nonEmptyString target with
          | none => [.invalidLeafTarget r.lineIndex id]
          | some targetId =>
            match byId.get? targetId with
            | none => [.missingLeafTarget r.lineIndex id targetId]
            | some targetRecord =>
              if targetRecord.lineIndex ≥ r.lineIndex then
                [.leafTargetAfterControl r.lineIndex id targetId targetRecord.lineIndex]
              else []

/-- Follow parent links up to a completed id, a root or an id of the path itself:
    the path, and where the cycle begins. -/
def walkPath (byId : JsMap JsString (ParsedTranscriptLine ν)) (complete : List JsString) :
    Nat → List JsString → Option (ParsedTranscriptLine ν) → List JsString × Option Nat
  | 0, pathIds, _ => (pathIds, none)
  | _ + 1, pathIds, none => (pathIds, none)
  | fuel + 1, pathIds, some current =>
    match current.id with
    | none => (pathIds, none)
    | some id =>
      if id ∈ complete then (pathIds, none)
      else if id ∈ pathIds then (pathIds, some (pathIds.idxOf id))
      else walkPath byId complete fuel (pathIds ++ [id]) (current.parentId.bind byId.get?)

/-- `detectCycles` over the remaining start records. -/
def detectCyclesFrom (byId : JsMap JsString (ParsedTranscriptLine ν)) (complete reported : List JsString) :
    List (ParsedTranscriptLine ν) → List TranscriptTreeAnomaly
  | [] => []
  | start :: rest =>
    if start.id.all (· ∈ complete) then detectCyclesFrom byId complete reported rest
    else
      let (pathIds, cycleAt) := walkPath byId complete (byId.length + 1) [] (some start)
      let cycleIds := match cycleAt with
        | some i => (pathIds.drop i).filter (· ∉ reported)
        | none => []
      cycleIds.filterMap (fun id => (byId.get? id).map fun r => .cycle r.lineIndex id) ++
        detectCyclesFrom byId (complete ++ pathIds) (reported ++ cycleIds) rest

def detectCycles (byId : JsMap JsString (ParsedTranscriptLine ν)) : List TranscriptTreeAnomaly :=
  detectCyclesFrom byId [] [] (byId.map (·.2))

def parseTranscript [JsNumber ν] (content : JsString) : ParsedTranscript ν :=
  let lines := rawTranscriptLines content
  let records := lines.filterMap lineRecord
  let byId := indexById records
  { records := records
    headers := records.filter (·.isSession)
    byId := byId
    activeBranch := selectActiveBranch records byId
    anomalies := lineAnomalies (ν := ν) [] lines ++ records.flatMap (parentAnomalies byId) ++
      leafAnomalies records byId ++ detectCycles byId }

def activeTranscriptBranch (parsed : ParsedTranscript ν) : List (ParsedTranscriptLine ν) :=
  parsed.activeBranch

end Bobbit.Server
