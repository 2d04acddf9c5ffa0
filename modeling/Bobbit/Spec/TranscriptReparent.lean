import Bobbit.Spec.TranscriptBranch

/-!
# Parents in a sanitized transcript

Sanitizing any transcript keeps its other lines in order, and links every record that stays
to its nearest ancestor that stays. A chain of removed records may run out of the transcript,
at a parent that is missing; then that parent is missing still.

## Key results
- `retainedAncestor_of_nearest`: what the repair finds above removed records.
- `dangling_relinked`, `cycle_relinked`: no new missing parents, no new cycles.
- `sanitized_reparents`: what becomes of each line.
- `tail_trimmed`: a line that is neither removed nor linked anew, and changes.
-/

namespace Bobbit.Server

open Lib Lib.JsString Lib.Json Relation

variable {ν : Type}

/-! ## The nearest ancestor that stays -/

/-- Where a parent link leads past the removed records. A link to no record is kept. -/
inductive NearestSurviving [JsNumber ν] (parsed : ParsedTranscript ν) :
    Option JsString → Option JsString → Prop
  | root : NearestSurviving parsed none none
  | missing {id : JsString} (hget : JsMap.get? (indexById parsed.records) id = none) :
      NearestSurviving parsed (some id) (some id)
  | surviving {id : JsString} {r : ParsedTranscriptLine ν}
      (hget : JsMap.get? (indexById parsed.records) id = some r)
      (hs : parsed.survives r = true) : NearestSurviving parsed (some id) (some id)
  | removed {id : JsString} {r : ParsedTranscriptLine ν} {q : Option JsString}
      (hget : JsMap.get? (indexById parsed.records) id = some r)
      (hs : parsed.survives r = false) (rest : NearestSurviving parsed r.parentId q) :
      NearestSurviving parsed (some id) q

/-- A link to an id that no record of the tree has. -/
def DanglingParent (records : List (ParsedTranscriptLine ν)) (id : JsString) : Prop :=
  (∃ r ∈ records, r.parentId = some id) ∧ JsMap.get? (indexById records) id = none

/-- The link from an id to the parent of its record. -/
def ParentLink (records : List (ParsedTranscriptLine ν)) (a b : JsString) : Prop :=
  ∃ r, JsMap.get? (indexById records) a = some r ∧ r.parentId = some b

section Tree

variable [JsNumber ν] {parsed : ParsedTranscript ν}

variable {link : Option JsString}

theorem ReadTranscript.retainedAncestor_of_nearest (h : ReadTranscript parsed)
    {q : Option JsString} (hnearest : NearestSurviving parsed link q) :
    retainedAncestor parsed.removedParents link = q := by
  obtain ⟨chain, hchain⟩ : ∃ chain,
      SkipChain.Leads (JsMap.get? parsed.removedParents) link chain q := by
    induction hnearest with
    | root => exact ⟨[], .none⟩
    | missing hget => exact ⟨[], .stay (by rw [h.removedParents_eq, hget, Option.bind_none])⟩
    | surviving hget hs =>
      exact ⟨[], .stay (by rw [h.removedParents_eq, hget, Option.bind_some, if_pos hs])⟩
    | removed hget hs _ ih =>
      obtain ⟨chain, hchain⟩ := ih
      refine ⟨_ :: chain, .skip ?_ hchain⟩
      rw [h.removedParents_eq, hget, Option.bind_some, if_neg (Bool.eq_false_iff.mp hs)]
  exact retainedAncestor_of_leads hchain

/-- A link ends at a record that stays, or dangled before. -/
theorem NearestSurviving.cases_some {id : JsString} (h : NearestSurviving parsed link (some id)) :
    (∃ r, JsMap.get? (indexById parsed.records) id = some r ∧ parsed.survives r = true) ∨
      JsMap.get? (indexById parsed.records) id = none ∧
        (link = some id ∨ ∃ r ∈ parsed.records, r.parentId = some id) := by
  generalize hq : some id = q at h
  induction h with
  | root => cases hq
  | missing hget =>
    cases hq
    exact .inr ⟨hget, .inl rfl⟩
  | surviving hget hs =>
    cases hq
    exact .inl ⟨_, hget, hs⟩
  | @removed _ r _ hget _ _ ih =>
    subst hq
    refine (ih rfl).imp_right fun ⟨hnone, hlink⟩ => ⟨hnone, .inr ?_⟩
    rcases hlink with hlink | hlink
    · exact ⟨r, (get?_indexById hget).1, hlink⟩
    · exact hlink

theorem NearestSurviving.linked {b : JsString}
    (h : NearestSurviving parsed link (some b)) {a : JsString} {r : ParsedTranscriptLine ν}
    (hget : JsMap.get? (indexById parsed.records) a = some r) (hlink : r.parentId = link) :
    TransGen (ParentLink parsed.records) a b := by
  generalize hq : some b = q at h
  induction h generalizing a r with
  | root => cases hq
  | missing =>
    cases hq
    exact .single ⟨r, hget, hlink⟩
  | surviving =>
    cases hq
    exact .single ⟨r, hget, hlink⟩
  | removed hget' _ _ ih => exact (TransGen.single ⟨r, hget, hlink⟩).trans (ih hget' rfl hq)

/-- Every chain of removed records above a record that stays comes to an end. -/
def ChainsEnd (parsed : ParsedTranscript ν) : Prop :=
  ∀ r ∈ parsed.records, parsed.survives r = true → ∃ q, NearestSurviving parsed r.parentId q

theorem ReadTranscript.nearest_of_relink (h : ReadTranscript parsed) (hends : ChainsEnd parsed)
    {r : ParsedTranscriptLine ν} (hr : r ∈ parsed.records) (hs : parsed.survives r = true)
    {id : JsString} (hparent : (parsed.relink r).parentId = some id) :
    NearestSurviving parsed r.parentId (some id) := by
  obtain ⟨q, hq⟩ := hends r hr hs
  rw [h.relink_parentId hr, h.retainedAncestor_of_nearest hq] at hparent
  rwa [← hparent]

theorem dangling_relinked (h : ReadTranscript parsed) (hends : ChainsEnd parsed) {id : JsString}
    (hdangling : DanglingParent parsed.relinked id) : DanglingParent parsed.records id := by
  obtain ⟨⟨r', hr', hparent⟩, hnone⟩ := hdangling
  obtain ⟨r, hr, rfl⟩ := List.mem_map.mp hr'
  obtain ⟨hmem, hs⟩ := List.mem_filter.mp hr
  rcases (h.nearest_of_relink hends hmem hs hparent).cases_some with
    ⟨q, hq, hsq⟩ | ⟨hget, hlink⟩
  · rw [h.get?_relinked hq hsq] at hnone
    cases hnone
  · refine ⟨?_, hget⟩
    rcases hlink with hlink | hlink
    · exact ⟨r, hmem, hlink⟩
    · exact hlink

/-- A link of a relinked record that is itself linked from goes up from a record that stays. -/
theorem link_relinked (h : ReadTranscript parsed) (hends : ChainsEnd parsed) {a b : JsString}
    (hlink : ParentLink parsed.relinked a b) :
    ((∃ r, JsMap.get? (indexById parsed.records) a = some r ∧ parsed.survives r = true) →
      TransGen (ParentLink parsed.records) a b) ∧
    ∀ c, ParentLink parsed.relinked b c →
      ∃ r, JsMap.get? (indexById parsed.records) b = some r ∧ parsed.survives r = true := by
  obtain ⟨r', hget', hparent⟩ := hlink
  constructor
  · rintro ⟨r, hget, hs⟩
    obtain rfl := Option.some.inj (hget'.symm.trans (h.get?_relinked hget hs))
    exact (h.nearest_of_relink hends (get?_indexById hget).1 hs hparent).linked hget rfl
  · rintro c ⟨r'', hget'', -⟩
    obtain ⟨r, hr, rfl⟩ := List.mem_map.mp (get?_indexById hget').1
    obtain ⟨hmem, hs⟩ := List.mem_filter.mp hr
    rcases (h.nearest_of_relink hends hmem hs hparent).cases_some with hstays | ⟨hnone, -⟩
    · exact hstays
    · rw [h.get?_relinked_none hnone] at hget''
      cases hget''

theorem cycle_relinked (h : ReadTranscript parsed) (hends : ChainsEnd parsed) {a : JsString}
    (hcycle : TransGen (ParentLink parsed.relinked) a a) : TransGen (ParentLink parsed.records) a a := by
  -- an id on a cycle is linked from, so its record in the index stays
  have hstays : ∃ r, JsMap.get? (indexById parsed.records) a = some r ∧
      parsed.survives r = true := by
    obtain ⟨b, hab, -⟩ := TransGen.head'_iff.mp hcycle
    obtain ⟨c, -, hca⟩ := TransGen.tail'_iff.mp hcycle
    exact (link_relinked h hends hca).2 b hab
  have hup (b : JsString) (hab : TransGen (ParentLink parsed.relinked) a b) :
      TransGen (ParentLink parsed.records) a b ∧ ∀ c, ParentLink parsed.relinked b c →
        ∃ r, JsMap.get? (indexById parsed.records) b = some r ∧ parsed.survives r = true := by
    induction hab with
    | single hlink =>
      obtain ⟨hstep, htarget⟩ := link_relinked h hends hlink
      exact ⟨hstep hstays, htarget⟩
    | tail _ hlink ih =>
      obtain ⟨hstep, htarget⟩ := link_relinked h hends hlink
      exact ⟨ih.1.trans (hstep (ih.2 _ hlink)), htarget⟩
  exact (hup a hcycle).1

end Tree

/-! ## Maps of records -/

theorem dangling_map {g : ParsedTranscriptLine ν → ParsedTranscriptLine ν} (hg : SameNode g)
    (records : List (ParsedTranscriptLine ν)) (id : JsString) :
    DanglingParent (records.map g) id ↔ DanglingParent records id := by
  have hparent (r : ParsedTranscriptLine ν) : (g r).parentId = r.parentId := (hg r).2.1
  simp only [DanglingParent, indexById_map hg, JsMap.get?_mapValues, Option.map_eq_none_iff,
    List.mem_map, exists_exists_and_eq_and, hparent]

theorem link_map {g : ParsedTranscriptLine ν → ParsedTranscriptLine ν} (hg : SameNode g)
    (records : List (ParsedTranscriptLine ν)) (a b : JsString) :
    ParentLink (records.map g) a b ↔ ParentLink records a b := by
  simp only [ParentLink, indexById_map hg, JsMap.get?_mapValues, Option.map_eq_some_iff]
  constructor
  · rintro ⟨-, ⟨r, hget, rfl⟩, hparent⟩
    exact ⟨r, hget, (hg r).2.1 ▸ hparent⟩
  · rintro ⟨r, hget, hparent⟩
    exact ⟨g r, ⟨r, hget, rfl⟩, (hg r).2.1.trans hparent⟩

/-! ## Lines -/

section Lines

variable [JsNumber ν]

/-- The lines that stay, with their numbers. -/
def keptLines (ν : Type) [JsNumber ν] (content : JsString) : List (JsString × Nat) :=
  content.lines.zipIdx.filter
    (·.2 ∉ (parseTranscript content : ParsedTranscript ν).orphans.lineIndexes)

def sanitizedLine (ν : Type) [JsNumber ν] (content : JsString) (p : JsString × Nat) : JsString :=
  let parsed : ParsedTranscript ν := parseTranscript content
  blankLine ν (repairLine parsed parsed.orphans parsed.removedParents p.1 p.2)

theorem repairLine_eq_self {parsed : ParsedTranscript ν} (hlines : parsed.orphans.lineIndexes = [])
    (htail : parsed.orphans.retainedTailIndexes = []) (line : JsString) (i : Nat) :
    repairLine parsed parsed.orphans parsed.removedParents line i = line := by
  simp only [repairLine, ParsedTranscript.removedParents, hlines, removedParentsOf_nil]
  cases parsed.records.find? (·.lineIndex = i) with
  | none => rfl
  | some r => rw [Option.bind_some, repairRecord_eq_none htail]

theorem content_repair (content : JsString) :
    (repairOrphanToolResults ν content).content =
      unlines ((keptLines ν content).map fun p =>
        let parsed : ParsedTranscript ν := parseTranscript content
        repairLine parsed parsed.orphans parsed.removedParents p.1 p.2) := by
  have hself (hlines : (parseTranscript content : ParsedTranscript ν).orphans.lineIndexes = [])
      (htail : (parseTranscript content : ParsedTranscript ν).orphans.retainedTailIndexes = []) :
      content = unlines ((keptLines ν content).map fun p =>
        let parsed : ParsedTranscript ν := parseTranscript content
        repairLine parsed parsed.orphans parsed.removedParents p.1 p.2) := by
    dsimp only
    simp only [repairLine_eq_self hlines htail, keptLines, hlines, List.not_mem_nil,
      not_false_eq_true, decide_true, List.filter_true]
    rw [List.zipIdx_map_fst, unlines_lines]
  unfold repairOrphanToolResults
  split
  · rename_i hnil
    subst hnil
    exact hself rfl rfl
  · dsimp only
    split
    · rename_i horphans
      exact hself horphans.1 horphans.2
    · rfl

/-- The text after both repairs: the lines that stay, in order. -/
theorem content_sanitize (content : JsString) :
    (sanitizeTranscriptContent ν content).content =
      unlines ((keptLines ν content).map (sanitizedLine ν content)) := by
  have hlines := lines_blank (ν := ν) (repairOrphanToolResults ν content).content
  have hsanitize : (sanitizeTranscriptContent ν content).content =
      unlines ((repairOrphanToolResults ν content).content.lines.map (blankLine ν)) := by
    rw [← hlines, unlines_lines]
    rfl
  rw [hsanitize, content_repair]
  cases hkept : keptLines ν content with
  | nil => rfl
  | cons p rest =>
    rw [lines_unlines (by simp) fun l hl => ?_, List.map_map]
    · rfl
    · obtain ⟨p, hp, rfl⟩ := List.mem_map.mp hl
      rw [← hkept] at hp
      have hmem := List.mem_map_of_mem (f := Prod.fst) (List.mem_of_mem_filter hp)
      rw [List.zipIdx_map_fst] at hmem
      exact lineFeed_not_mem_repairLine _ _ _ (lineFeed_not_mem_lines content _ hmem) _

/-- What becomes of a record that stays. -/
structure RecordAfter (parsed : ParsedTranscript ν) (r r' : ParsedTranscriptLine ν) : Prop where
  id : r'.id = r.id
  parent : ∀ q, NearestSurviving parsed r.parentId q → r'.parentId = q
  target : r.isLeaf = true → ∀ q,
    NearestSurviving parsed (nonEmptyString (getField r.entry (js "targetId"))) q →
      nonEmptyString (getField r'.entry (js "targetId")) = q

/-- What becomes of a line that stays. A record keeps its text unless its parent changes, or
    its target as a leaf, or it loses results of its retained tail, or it is a blank message. -/
structure LineAfter (parsed : ParsedTranscript ν) (line : JsString) (i : Nat) (line' : JsString) :
    Prop where
  other : (lineEntry line : Option (JsonObject ν)) = none → line' = line
  record : ∀ entry : JsonObject ν, lineEntry line = some entry →
    ∃ entry' : JsonObject ν, lineEntry line' = some entry' ∧
      RecordAfter parsed (recordAt i entry) (recordAt i entry') ∧
      ((recordAt i entry').parentId = (recordAt i entry).parentId →
        ((recordAt i entry).isLeaf = true → nonEmptyString (getField entry' (js "targetId")) =
          nonEmptyString (getField entry (js "targetId"))) →
        (∀ k, (i, k) ∉ parsed.orphans.retainedTailIndexes) →
        mutateBlankUser (.obj entry) = none → line' = line)

/-- A line that holds no blank message is not filled in. -/
theorem blankLine_eq_self {line : JsString}
    (h : ∀ entry : JsonObject ν, lineEntry line = some entry → mutateBlankUser (.obj entry) = none) :
    blankLine ν line = line := by
  cases htransform : transformLine (mutateBlankUser (ν := ν)) line with
  | none => rw [blankLine, htransform, Option.getD_none]
  | some out =>
    obtain ⟨entry, mutated, hentry, hmutated, -⟩ := transformLine_cases htransform
    rw [h entry hentry] at hmutated
    cases hmutated

/-- A record that the first repair has nothing to do for. -/
theorem repairRecord_none (parsed : ParsedTranscript ν) {r : ParsedTranscriptLine ν}
    (htail : ∀ k, (r.lineIndex, k) ∉ parsed.orphans.retainedTailIndexes)
    (hparent : retainedAncestor parsed.removedParents r.parentId = r.parentId)
    (htarget : r.isLeaf = true → ∀ targetId,
      getField r.entry (js "targetId") = some (.str targetId) →
        retainedAncestor parsed.removedParents (some targetId) = some targetId) :
    repairRecord parsed.orphans parsed.removedParents r = none := by
  have hindexes :
      (parsed.orphans.retainedTailIndexes.filter (·.1 = r.lineIndex)).map (·.2) = [] := by
    rw [List.map_eq_nil_iff, List.filter_eq_nil_iff]
    rintro ⟨line, k⟩ hmem heq
    obtain rfl : line = r.lineIndex := of_decide_eq_true heq
    exact htail k hmem
  have hnotail : repairRetainedTail parsed.orphans r.lineIndex r.entry = none := by
    simp only [repairRetainedTail, hindexes, if_true]
    split <;> rfl
  have hnoparent : repairParent parsed.removedParents r.parentId r.entry = none := by
    rw [repairParent, hparent]
    exact if_pos rfl
  have hnotarget : repairTarget parsed.removedParents r.entry = none := by
    simp only [repairTarget]
    split
    · rename_i hleaf
      split
      · rename_i targetId hget
        rw [if_pos (htarget hleaf targetId hget)]
      · rfl
    · rfl
  simp only [repairRecord, hnotail, Option.getD_none, hnoparent, hnotarget, Option.isSome_none,
    Bool.or_false, Bool.false_eq_true, if_false]

theorem lineAfter_sanitized {content : JsString} {p : JsString × Nat}
    (hp : p ∈ content.lines.zipIdx) :
    LineAfter (parseTranscript content : ParsedTranscript ν) p.1 p.2
      (sanitizedLine ν content p) := by
  obtain ⟨line, i⟩ := p
  have hread := readTranscript_parse (ν := ν) content
  have hafter : lineEntry (sanitizedLine ν content (line, i)) =
      (lineEntry line).map fun entry => blankEntry
        ((parseTranscript content : ParsedTranscript ν).relinkedEntry (recordAt i entry)) := by
    rw [sanitizedLine, lineEntry_blankLine, lineEntry_repairLine hp, Option.map_map]
    rfl
  have hfind := records_find? (ν := ν) hp
  constructor
  · intro hnone
    rw [hnone, Option.map_none, Option.map_eq_none_iff] at hfind
    have hrepair : repairLine (parseTranscript content : ParsedTranscript ν)
        (parseTranscript content : ParsedTranscript ν).orphans
        (parseTranscript content : ParsedTranscript ν).removedParents line i = line := by
      rw [repairLine, hfind]
      rfl
    rw [sanitizedLine, hrepair]
    exact blankLine_eq_self fun entry hentry => by cases hnone.symm.trans hentry
  · intro entry hentry
    rw [hentry, Option.map_some] at hafter hfind
    obtain ⟨r, hr, hstrip⟩ := Option.map_eq_some_iff.mp hfind
    have hmem := List.mem_of_find?_eq_some hr
    have hparent := hread.relink_parentId hmem
    have hid := hread.relink_id hmem
    have htarget := fun hleaf => hread.relink_targetId (r := r) hleaf
    generalize hparsed : (parseTranscript content : ParsedTranscript ν) = parsed at *
    have hsame : parsed.relinkedEntry (recordAt i entry) = parsed.relinkedEntry r := by
      rw [← hstrip]
      rfl
    rw [hsame] at hafter
    have hentryOf : r.entry = entry := congrArg (·.entry) hstrip
    have hidOf : r.id = (recordAt i entry).id := congrArg (·.id) hstrip
    have hparentOf : r.parentId = (recordAt i entry).parentId := congrArg (·.parentId) hstrip
    have hlineOf : r.lineIndex = i := congrArg (·.lineIndex) hstrip
    rw [hparentOf] at hparent
    rw [hidOf] at hid
    rw [ParsedTranscriptLine.isLeaf, hentryOf] at htarget
    -- the fields that the blank repair leaves alone
    have hfield {key : String} (hkey : js key ≠ js "message") :
        nonEmptyString (getField (blankEntry (parsed.relinkedEntry r)) (js key)) =
          nonEmptyString (getField (parsed.relinkedEntry r) (js key)) :=
      nonEmptyString_blankEntry _ hkey
    refine ⟨_, hafter, ⟨(hfield (by decide)).trans hid, fun q hq => ?_, fun hleaf q hq => ?_⟩, ?_⟩
    · rw [← hread.retainedAncestor_of_nearest hq, ← hparent]
      exact hfield (by decide)
    · rw [← hread.retainedAncestor_of_nearest hq]
      exact (hfield (by decide)).trans (htarget hleaf)
    · intro hsameParent hsameTarget hnotail hnotblank
      have hrepair : repairLine parsed parsed.orphans parsed.removedParents line i = line := by
        rw [repairLine, hr, Option.bind_some, repairRecord_none parsed (hlineOf ▸ hnotail)]
        · rw [hparentOf, ← hparent, ← hsameParent]
          exact (hfield (by decide)).symm
        · intro hleaf targetId hget
          rw [ParsedTranscriptLine.isLeaf, hentryOf] at hleaf
          rw [hentryOf] at hget
          have hlink := (hfield (by decide)).symm.trans (hsameTarget hleaf)
          rw [htarget hleaf, hget, nonEmptyString] at hlink
          split at hlink
          · rename_i hnil
            rw [hnil]
            exact hread.retainedAncestor_nil
          · exact hlink
      rw [sanitizedLine, hparsed]
      dsimp only
      rw [hrepair]
      exact blankLine_eq_self fun entry' hentry' => by
        rw [← Option.some.inj (hentry.symm.trans hentry')]
        exact hnotblank

/-- **Reparenting.** Sanitizing keeps the lines that are not removed in order, each with the
    fate of its record, and makes no link dangle and closes no cycle, unless removed records
    form one. -/
theorem sanitized_reparents (content : JsString) :
    let parsed : ParsedTranscript ν := parseTranscript content
    let sanitized := (sanitizeTranscriptContent ν content).content
    let after : ParsedTranscript ν := parseTranscript sanitized
    (∃ after : JsString × Nat → JsString,
      sanitized = unlines ((keptLines ν content).map after) ∧
        ∀ p ∈ keptLines ν content, LineAfter parsed p.1 p.2 (after p)) ∧
    (ChainsEnd parsed →
      (∀ id, DanglingParent after.records id → DanglingParent parsed.records id) ∧
        ∀ id, TransGen (ParentLink after.records) id id → TransGen (ParentLink parsed.records) id id) := by
  intro parsed sanitized after
  refine ⟨⟨sanitizedLine ν content, content_sanitize content,
    fun p hp => lineAfter_sanitized (List.mem_of_mem_filter hp)⟩, fun hends => ?_⟩
  have hread : ReadTranscript parsed := readTranscript_parse content
  have hrecords : after.records.map forget = (parsed.relinked.map forget).map blankRecord := by
    rw [records_forget, ← records_repair, ← records_blank]
    rfl
  constructor
  · intro id hdangling
    refine dangling_relinked hread hends ?_
    rwa [← dangling_map forget_sameNode, ← dangling_map blankRecord_sameNode, ← hrecords,
      dangling_map forget_sameNode]
  · intro id hcycle
    refine cycle_relinked hread hends (TransGen.mono (fun a b hlink => ?_) id id hcycle)
    rwa [← link_map forget_sameNode, ← link_map blankRecord_sameNode, ← hrecords,
      link_map forget_sameNode]

end Lines

/-! ## Lines that change otherwise -/

/-- A compaction whose retained tail is a result that no call asked for. -/
def tailCompaction : JsString :=
  stringify (.obj [(js "type", .str (js "compaction")), (js "id", .str (js "a")),
    (js "parentId", (.null : Json JsString)),
    (js "retainedTail", .arr [.obj [(js "role", .str (js "toolResult"))]])])

/-- A result below a parent that is missing, and a message below it. -/
def resultBelowMissing : JsString :=
  unlines [messageLine (js "b") (some (js "gone")) "toolResult",
    messageLine (js "c") (js "b") "assistant"]

/-- The line of the compaction changes, though it is not removed, has no parent before or after,
    is no leaf and no message; and the message is linked to the missing parent. -/
theorem tail_trimmed :
    ((parseTranscript tailCompaction : ParsedTranscript JsString).orphans.lineIndexes = [] ∧
      (parseTranscript tailCompaction : ParsedTranscript JsString).records.map
        (fun r => (r.parentId, r.isLeaf, fieldIs r.entry "type" "message")) =
          [(none, false, false)] ∧
      (parseTranscript (sanitizeTranscriptContent JsString tailCompaction).content :
        ParsedTranscript JsString).records.map (·.parentId) = [none] ∧
      (sanitizeTranscriptContent JsString tailCompaction).content ≠ tailCompaction) ∧
    (parseTranscript (sanitizeTranscriptContent JsString resultBelowMissing).content :
      ParsedTranscript JsString).records.map (fun r => (r.id, r.parentId)) =
        [(some (js "c"), some (js "gone"))] := by
  decide +kernel

end Bobbit.Server
