import Bobbit.Lib.JsonRoundTrip
import Bobbit.Server.TranscriptSanitizer

/-!
# What the sanitizer does to the records

The sanitizer works on text: it parses the lines, rewrites some, drops others and
joins them again. This module says what the records of its output are in terms
of the records of its input, up to their line numbers and texts (`forget`).

Key results:

- `records_repair`: the records after `repairOrphanToolResults` are the surviving
  records, relinked.
- `records_blank`: `transformTranscriptJsonl` gives blank user messages a text,
  record by record.
- `selectActiveBranch_map`: the active branch only depends on ids, links, types
  and leaf targets.
-/

namespace Bobbit.Server

open Lib Lib.JsString Lib.Json

variable {ν : Type}

/-! ## Maps of records -/

/-- The record with an entry on line `i`, without its text. -/
def recordAt (i : Nat) (entry : JsonObject ν) : ParsedTranscriptLine ν :=
  ⟨i, [], entry, nonEmptyString (getField entry (js "id")),
    nonEmptyString (getField entry (js "parentId"))⟩

/-- A record without its place and its text. -/
def forget (r : ParsedTranscriptLine ν) : ParsedTranscriptLine ν :=
  { r with lineIndex := 0, raw := [] }

def strip (r : ParsedTranscriptLine ν) : ParsedTranscriptLine ν := { r with raw := [] }

/-- A map of records that keeps what branch selection reads. -/
def SameNode (g : ParsedTranscriptLine ν → ParsedTranscriptLine ν) : Prop :=
  ∀ r, (g r).id = r.id ∧ (g r).parentId = r.parentId ∧ (g r).isSession = r.isSession ∧
    designated (g r) = designated r

theorem forget_sameNode : SameNode (forget : ParsedTranscriptLine ν → _) := fun _ =>
  ⟨rfl, rfl, rfl, rfl⟩

section Map

variable {g : ParsedTranscriptLine ν → ParsedTranscriptLine ν}

/-- One step of `indexById`. -/
def indexRecord (byId : JsMap JsString (ParsedTranscriptLine ν)) (r : ParsedTranscriptLine ν) :
    JsMap JsString (ParsedTranscriptLine ν) :=
  match r.id with
  | some id => if r.isSession then byId else JsMap.set byId id r
  | none => byId

theorem indexById_eq (records : List (ParsedTranscriptLine ν)) :
    indexById records = records.foldl indexRecord [] := rfl

theorem indexRecord_map (hg : SameNode g) (byId : JsMap JsString (ParsedTranscriptLine ν))
    (r : ParsedTranscriptLine ν) :
    indexRecord (JsMap.mapValues g byId) (g r) = JsMap.mapValues g (indexRecord byId r) := by
  obtain ⟨hid, -, hsession, -⟩ := hg r
  simp only [indexRecord, hid, hsession]
  cases r.id with
  | none => rfl
  | some id =>
    dsimp only
    split
    · rfl
    · exact JsMap.set_mapValues g byId id r

theorem indexById_map (hg : SameNode g) (records : List (ParsedTranscriptLine ν)) :
    indexById (records.map g) = JsMap.mapValues g (indexById records) := by
  have hfold : ∀ byId : JsMap JsString (ParsedTranscriptLine ν),
      (records.map g).foldl indexRecord (JsMap.mapValues g byId) =
        JsMap.mapValues g (records.foldl indexRecord byId) := by
    induction records with
    | nil => exact fun _ => rfl
    | cons r records ih =>
      intro byId
      rw [List.map_cons, List.foldl_cons, List.foldl_cons, indexRecord_map hg]
      exact ih _
  exact hfold []

theorem activeLeafId_map (hg : SameNode g) (records : List (ParsedTranscriptLine ν)) :
    activeLeafId (records.map g) = activeLeafId records := by
  have hstep : ∀ leafId r, (if (g r).inTree then designated (g r) else leafId) =
      if r.inTree then designated r else leafId := by
    intro leafId r
    obtain ⟨hid, -, hsession, hdesignated⟩ := hg r
    have htree : (g r).inTree = r.inTree := by
      simp only [ParsedTranscriptLine.inTree, hid, hsession]
    rw [htree, hdesignated]
  simp only [activeLeafId, List.foldl_map, hstep]

theorem collectBranch_map (hg : SameNode g) (byId : JsMap JsString (ParsedTranscriptLine ν))
    (fuel : Nat) (visited : List JsString) (current : Option (ParsedTranscriptLine ν)) :
    collectBranch (JsMap.mapValues g byId) fuel visited (current.map g) =
      (collectBranch byId fuel visited current).map g := by
  induction fuel generalizing visited current with
  | zero => rfl
  | succ fuel ih =>
    cases current with
    | none => rfl
    | some current =>
      obtain ⟨hid, hparent, -, -⟩ := hg current
      simp only [collectBranch, Option.map_some, hid]
      cases current.id with
      | none => rfl
      | some id =>
        dsimp only
        split
        · rfl
        · rw [List.map_cons, ← ih, hparent]
          congr 2
          cases current.parentId with
          | none => rfl
          | some parentId => exact JsMap.get?_mapValues g byId parentId

/-- Branch selection commutes with maps that keep the nodes. -/
theorem selectActiveBranch_map (hg : SameNode g) (records : List (ParsedTranscriptLine ν)) :
    selectActiveBranch (records.map g) (indexById (records.map g)) =
      (selectActiveBranch records (indexById records)).map g := by
  simp only [selectActiveBranch, activeLeafId_map hg, indexById_map hg, JsMap.length_mapValues]
  cases activeLeafId records with
  | none => rfl
  | some leafId =>
    dsimp only
    rw [JsMap.get?_mapValues, collectBranch_map hg, List.map_reverse]

end Map

theorem removedParentsOf_nil (branch : List (ParsedTranscriptLine ν)) :
    removedParentsOf branch [] = [] := by
  unfold removedParentsOf
  induction branch with
  | nil => rfl
  | cons r rest ih =>
    rw [List.foldl_cons]
    cases r.id <;> simpa using ih

theorem repairRecord_eq_none {locations : OrphanToolResultLocations}
    (h : locations.retainedTailIndexes = []) (r : ParsedTranscriptLine ν) :
    repairRecord locations [] r = none := by
  have hancestor : ∀ id, retainedAncestor [] id = id := by
    intro id
    cases id <;> rfl
  have htail : repairRetainedTail locations r.lineIndex r.entry = none := by
    simp only [repairRetainedTail, h]
    split <;> rfl
  have htarget : repairTarget [] r.entry = none := by
    simp only [repairTarget, hancestor]
    split
    · split <;> simp
    · rfl
  simp [repairRecord, htail, repairParent, hancestor, htarget]

/-! ## Reading the lines -/

section Lines

variable [JsNumber ν]

def lineEntry (line : JsString) : Option (JsonObject ν) :=
  if line.trim = [] then none
  else match parse line.trim with
    | some (.obj entry) => some entry
    | _ => none

theorem lineRecord_strip (line : RawTranscriptLine) :
    (lineRecord line : Option (ParsedTranscriptLine ν)).map strip =
      (lineEntry line.raw).map (recordAt line.lineIndex) := by
  simp only [lineRecord, readLine, lineEntry]
  split
  · rfl
  · split <;> simp_all [Except.toOption, strip, recordAt]

theorem lineEntry_append_space (line : JsString) {c : UInt16} (hc : isTrimmed c = true) :
    (lineEntry (line ++ [c]) : Option (JsonObject ν)) = lineEntry line := by
  simp only [lineEntry, trim_append_space line hc]

@[simp] theorem lineEntry_nil : (lineEntry [] : Option (JsonObject ν)) = none := rfl

def recordsIn (numbered : List (JsString × Nat)) : List (ParsedTranscriptLine ν) :=
  numbered.filterMap fun p => (lineEntry p.1).map (recordAt p.2)

theorem recordsIn_cons (line : JsString) (i : Nat) (rest : List (JsString × Nat)) :
    (recordsIn ((line, i) :: rest) : List (ParsedTranscriptLine ν)) =
      ((lineEntry line).map (recordAt i)).toList ++ recordsIn rest := by
  simp only [recordsIn, List.filterMap_cons]
  cases (lineEntry line : Option (JsonObject ν)) <;> rfl

theorem filterMap_lineRecord_cons (raw : RawTranscriptLine) (rest : List RawTranscriptLine) :
    (((raw :: rest).filterMap lineRecord).map strip : List (ParsedTranscriptLine ν)) =
      ((lineEntry raw.raw).map (recordAt raw.lineIndex)).toList ++
        (rest.filterMap lineRecord).map strip := by
  rw [← lineRecord_strip, List.filterMap_cons]
  cases (lineRecord raw : Option (ParsedTranscriptLine ν)) <;> rfl

theorem numberLines_records (i : Nat) (lines : List JsString) :
    ((numberLines i lines).filterMap lineRecord).map (strip (ν := ν)) =
      recordsIn (lines.zipIdx i) := by
  induction lines generalizing i with
  | nil => rfl
  | cons line rest ih =>
    rw [List.zipIdx_cons, recordsIn_cons]
    cases rest with
    | nil =>
      simp only [numberLines]
      split
      · rename_i hnil
        rw [hnil, lineEntry_nil]
        rfl
      · exact filterMap_lineRecord_cons _ []
    | cons next rest =>
      have hcons : numberLines i (line :: next :: rest) =
          ⟨i, line ++ [lineFeed], true⟩ :: numberLines (i + 1) (next :: rest) := by
        simp [numberLines]
      rw [hcons, filterMap_lineRecord_cons, ih, lineEntry_append_space line (by decide)]

variable (content : JsString)

theorem records_strip :
    (parseTranscript content).records.map (strip (ν := ν)) = recordsIn content.lines.zipIdx :=
  numberLines_records 0 content.lines

/-- The records of lines without their numbers. -/
def nodesIn (lines : List JsString) : List (ParsedTranscriptLine ν) :=
  lines.filterMap fun line => (lineEntry line).map (recordAt 0)

theorem recordsIn_forget (numbered : List (JsString × Nat)) :
    (recordsIn numbered).map (forget (ν := ν)) = nodesIn (numbered.map (·.1)) := by
  simp only [recordsIn, nodesIn, List.map_filterMap, List.filterMap_map, Function.comp_def,
    Option.map_map]
  rfl

theorem records_forget :
    (parseTranscript content).records.map (forget (ν := ν)) = nodesIn content.lines := by
  have h : (forget : ParsedTranscriptLine ν → _) = forget ∘ strip := rfl
  rw [h, ← List.map_map, records_strip, recordsIn_forget, List.zipIdx_map_fst]

/-- The active branch of a text, read off the nodes of its lines. -/
theorem activeBranch_forget : (parseTranscript content).activeBranch.map (forget (ν := ν)) =
      selectActiveBranch (nodesIn content.lines) (indexById (nodesIn content.lines)) := by
  rw [← records_forget, selectActiveBranch_map forget_sameNode]
  rfl

variable {line : JsString}

theorem recordsIn_find? {lines : List JsString} {k : Nat} {i : Nat}
    (h : (line, i) ∈ lines.zipIdx k) :
    (recordsIn (lines.zipIdx k)).find? (·.lineIndex = i) =
      (lineEntry line : Option (JsonObject ν)).map (recordAt i) := by
  have hfrom : ∀ (ls : List JsString) (k : Nat), i < k →
      (recordsIn (ls.zipIdx k) : List (ParsedTranscriptLine ν)).find? (·.lineIndex = i) = none := by
    intro ls k hik
    simp only [List.find?_eq_none, recordsIn, List.mem_filterMap, Option.map_eq_some_iff,
      decide_eq_true_eq]
    rintro r ⟨p, hp, e, -, rfl⟩
    have := (List.mem_zipIdx hp).1
    simp only [recordAt]
    omega
  induction lines generalizing k with
  | nil => simp at h
  | cons l ls ih =>
    rw [List.zipIdx_cons, recordsIn_cons, List.find?_append]
    rw [List.zipIdx_cons, List.mem_cons] at h
    rcases h with h | h
    · obtain ⟨rfl, rfl⟩ := Prod.mk.inj h
      rw [hfrom ls _ (by omega)]
      cases (lineEntry line : Option (JsonObject ν)) with
      | none => rfl
      | some e => simp [recordAt]
    · have hk := (List.mem_zipIdx h).1
      rw [ih h]
      cases (lineEntry l : Option (JsonObject ν)) with
      | none => rfl
      | some e => simp [recordAt, show ¬ k = i by omega]

theorem records_find? {content : JsString} {i : Nat} (h : (line, i) ∈ content.lines.zipIdx) :
    ((parseTranscript content).records.find? (·.lineIndex = i)).map (strip (ν := ν)) =
      (lineEntry line).map (recordAt i) := by
  rw [← recordsIn_find? h, ← records_strip, List.find?_map]
  rfl

/-! ## Written lines -/

/-- An entry as it reads back after it was written. -/
def rereadEntry (entry : JsonObject ν) : JsonObject ν := ofMembers (rereadFields entry)

theorem trim_stringify (entry : JsonObject ν) :
    (stringify (.obj entry)).trim = stringify (.obj entry) := by
  obtain ⟨s, hs⟩ := stringify_obj_braces entry
  rw [hs, trim_eq_self (by decide) (by decide)]

theorem lineEntry_stringify (entry : JsonObject ν) :
    lineEntry (stringify (.obj entry)) = some (rereadEntry entry) := by
  have hne : stringify (.obj entry) ≠ [] := by
    obtain ⟨s, hs⟩ := stringify_obj_braces entry
    simp [hs]
  simp only [lineEntry, trim_stringify, if_neg hne, parse_stringify, reread, rereadEntry]

theorem lineFeed_not_mem_stringify (value : Json ν) : lineFeed ∉ stringify value := fun h =>
  absurd (stringify_printable value _ h) (by decide)

/-- The records of joined lines are those of the lines. -/
theorem nodesIn_lines_unlines {ls : List JsString} (h : ∀ l ∈ ls, lineFeed ∉ l) :
    (nodesIn (unlines ls).lines : List (ParsedTranscriptLine ν)) = nodesIn ls := by
  cases ls with
  | nil => rfl
  | cons l ls => rw [lines_unlines (by simp) h]

/-! ## The repair -/

namespace ParsedTranscript

variable (parsed : ParsedTranscript ν)

/-- The orphaned results of the active branch. -/
def orphans : OrphanToolResultLocations := orphanToolResultLocations parsed.activeBranch

def removedParents : JsMap JsString (Option JsString) :=
  removedParentsOf parsed.activeBranch parsed.orphans.lineIndexes

def survives (r : ParsedTranscriptLine ν) : Bool := r.lineIndex ∉ parsed.orphans.lineIndexes

/-- The entry of a surviving record after the repair. -/
def relinkedEntry (r : ParsedTranscriptLine ν) : JsonObject ν :=
  match repairRecord parsed.orphans parsed.removedParents r with
  | none => r.entry
  | some entry => rereadEntry entry

/-- A surviving record after the repair. -/
def relink (r : ParsedTranscriptLine ν) : ParsedTranscriptLine ν :=
  recordAt r.lineIndex (parsed.relinkedEntry r)

def relinked : List (ParsedTranscriptLine ν) := (parsed.records.filter parsed.survives).map parsed.relink

end ParsedTranscript

theorem lineEntry_repairLine {content : JsString} {i : Nat} (h : (line, i) ∈ content.lines.zipIdx) :
    let parsed : ParsedTranscript ν := parseTranscript content
    lineEntry (repairLine parsed parsed.orphans parsed.removedParents line i) =
      (lineEntry line).map fun entry => parsed.relinkedEntry (recordAt i entry) := by
  intro parsed
  have hfind := records_find? (ν := ν) h
  have hrepair : ∀ r : ParsedTranscriptLine ν, repairRecord parsed.orphans parsed.removedParents (strip r) =
    repairRecord parsed.orphans parsed.removedParents r := fun _ => rfl
  simp only [repairLine]
  cases hr : parsed.records.find? (·.lineIndex = i) with
  | none =>
    rw [hr] at hfind
    simp only [Option.bind_none]
    cases hline : (lineEntry line : Option (JsonObject ν)) with
    | none => rfl
    | some e => simp [hline] at hfind
  | some r =>
    rw [hr] at hfind
    obtain ⟨e, he, hre⟩ := Option.map_eq_some_iff.mp hfind.symm
    simp only [Option.bind_some, he, Option.map_some, ParsedTranscript.relinkedEntry, hre, hrepair]
    cases repairRecord parsed.orphans parsed.removedParents r with
    | none => exact he.trans (congrArg some (congrArg (·.entry) hre))
    | some entry =>
      dsimp only
      split
      · rw [lineEntry_append_space _ (by decide), lineEntry_stringify]
      · rw [List.append_nil, lineEntry_stringify]

theorem lineFeed_not_mem_repairLine (parsed : ParsedTranscript ν)
    (locations : OrphanToolResultLocations) (removedParents : JsMap JsString (Option JsString))
    (h : lineFeed ∉ line) (i : Nat) :
    lineFeed ∉ repairLine parsed locations removedParents line i := by
  simp only [repairLine]
  split
  · exact h
  · rw [List.mem_append, not_or]
    refine ⟨lineFeed_not_mem_stringify _, ?_⟩
    split <;> decide

theorem recordsIn_filter (parsed : ParsedTranscript ν) (numbered : List (JsString × Nat)) :
    (recordsIn numbered).filter parsed.survives =
      recordsIn (numbered.filter (·.2 ∉ parsed.orphans.lineIndexes)) := by
  induction numbered with
  | nil => rfl
  | cons p rest ih =>
    obtain ⟨line, i⟩ := p
    rw [recordsIn_cons, List.filter_append, ih, List.filter_cons]
    by_cases hi : i ∈ parsed.orphans.lineIndexes
    · rw [if_neg (by simpa using hi)]
      cases (lineEntry line : Option (JsonObject ν)) with
      | none => rfl
      | some e => simp [ParsedTranscript.survives, recordAt, hi]
    · rw [if_pos (by simpa using hi), recordsIn_cons]
      cases (lineEntry line : Option (JsonObject ν)) with
      | none => rfl
      | some e => simp [ParsedTranscript.survives, recordAt, hi]

theorem relinked_forget (content : JsString) :
    let parsed : ParsedTranscript ν := parseTranscript content
    parsed.relinked.map forget =
      (content.lines.zipIdx.filter (·.2 ∉ parsed.orphans.lineIndexes)).filterMap fun p =>
        (lineEntry p.1).map fun entry => recordAt 0 (parsed.relinkedEntry (recordAt p.2 entry)) := by
  intro parsed
  have hstrip : parsed.relinked =
      ((parsed.records.map strip).filter parsed.survives).map parsed.relink := by
    simp only [ParsedTranscript.relinked, List.filter_map, List.map_map]
    rfl
  rw [hstrip, records_strip, recordsIn_filter, recordsIn]
  simp only [List.map_filterMap, Option.map_map]
  rfl

theorem orphans_eq_nil {parsed : ParsedTranscript ν} (hlines : parsed.orphans.lineIndexes = [])
    (htail : parsed.orphans.retainedTailIndexes = []) (r : ParsedTranscriptLine ν) :
    parsed.relinkedEntry r = r.entry := by
  simp only [ParsedTranscript.relinkedEntry, ParsedTranscript.removedParents, hlines,
    removedParentsOf_nil, repairRecord_eq_none htail]

/-- The records after the repair are the surviving records, relinked. -/
theorem records_repair : nodesIn (repairOrphanToolResults ν content).content.lines =
      ((parseTranscript content).relinked.map forget : List (ParsedTranscriptLine ν)) := by
  rw [relinked_forget content]
  unfold repairOrphanToolResults
  split
  · rename_i hnil
    subst hnil
    rfl
  · dsimp only
    split
    · rename_i h
      have hlines : (parseTranscript content : ParsedTranscript ν).orphans.lineIndexes = [] := h.1
      simp only [hlines, orphans_eq_nil hlines h.2, List.not_mem_nil, not_false_eq_true,
        decide_true, List.filter_true]
      conv_lhs => rw [nodesIn, ← List.zipIdx_map_fst 0 content.lines, List.filterMap_map]
      rfl
    · rw [nodesIn_lines_unlines, nodesIn, List.filterMap_map]
      · refine List.filterMap_congr fun p hp => ?_
        have hmem : (p.1, p.2) ∈ content.lines.zipIdx := List.mem_of_mem_filter hp
        have hentry := lineEntry_repairLine (ν := ν) hmem
        exact (congrArg (Option.map (recordAt 0)) hentry).trans (Option.map_map ..)
      · intro l hl
        obtain ⟨p, hp, rfl⟩ := List.mem_map.mp hl
        have hmem := List.mem_map_of_mem (f := Prod.fst) (List.mem_of_mem_filter hp)
        rw [List.zipIdx_map_fst] at hmem
        exact lineFeed_not_mem_repairLine _ _ _ (lineFeed_not_mem_lines content _ hmem) _

end Lines

end Bobbit.Server
