import Bobbit.Lib.SkipChain
import Bobbit.Spec.TranscriptIdempotent
import Bobbit.Spec.TranscriptTreeSound

/-!
# The active branch of a sanitized transcript

Removing records and relinking their children filters the walks of a sound tree.
What is left is the choice of the leaf: the branch is kept exactly when the
surviving records select the nearest surviving ancestor of the leaf.

Key results:

- `SoundTranscript.chain_relinked`: relinking filters a walk.
- `activeBranch_preserved_iff`
- `removed_leaf_moves_branch`: a transcript whose branch is not kept.
-/

namespace Bobbit.Server

open Lib Lib.JsString Lib.Json

variable {ν : Type}

/-! ## The removed records -/

section Removed

theorem removedParentsOf_concat (branch : List (ParsedTranscriptLine ν))
    (r : ParsedTranscriptLine ν) (removed : List Nat) (id : JsString) :
    JsMap.get? (removedParentsOf (branch ++ [r]) removed) id =
      if r.id = some id ∧ r.lineIndex ∈ removed then some r.parentId
      else JsMap.get? (removedParentsOf branch removed) id := by
  rw [removedParentsOf, List.foldl_concat, ← removedParentsOf]
  split
  · rename_i id' hid
    by_cases hr : r.lineIndex ∈ removed
    · rw [if_pos hr, JsMap.get?_set]
      by_cases h : id = id'
      · simp [hid, hr, h]
      · simp [hid, h, Ne.symm h]
    · simp [hr]
  · rename_i hid
    simp [hid]

theorem get?_removedParentsOf {branch : List (ParsedTranscriptLine ν)} {removed : List Nat}
    {id : JsString} {parentId : Option JsString}
    (h : JsMap.get? (removedParentsOf branch removed) id = some parentId) :
    ∃ r ∈ branch, r.id = some id ∧ r.lineIndex ∈ removed ∧ r.parentId = parentId := by
  induction branch using List.reverseRecOn with
  | nil => simp [removedParentsOf] at h
  | append_singleton branch r ih =>
    rw [removedParentsOf_concat] at h
    split at h
    · rename_i hr
      exact ⟨r, by simp, hr.1, hr.2, Option.some.inj h⟩
    · obtain ⟨r', hr', hrest⟩ := ih h
      exact ⟨r', by simp [hr'], hrest⟩

theorem get?_removedParentsOf_isSome {branch : List (ParsedTranscriptLine ν)} {removed : List Nat}
    {r : ParsedTranscriptLine ν} {id : JsString} (hr : r ∈ branch) (hid : r.id = some id)
    (hremoved : r.lineIndex ∈ removed) :
    (JsMap.get? (removedParentsOf branch removed) id).isSome = true := by
  induction branch using List.reverseRecOn with
  | nil => simp at hr
  | append_singleton branch last ih =>
    rw [removedParentsOf_concat]
    split
    · rfl
    · rename_i hlast
      rw [List.mem_append, List.mem_singleton] at hr
      rcases hr with hr | rfl
      · exact ih hr
      · exact absurd ⟨hid, hremoved⟩ hlast

variable [JsNumber ν]

theorem mem_of_mem_orphansFrom {records : List (ProjectedTranscriptRecord ν)}
    {pending : Option (List JsString)} {r : ProjectedTranscriptRecord ν}
    (h : r ∈ orphansFrom pending records) : r ∈ records := by
  induction records generalizing pending with
  | nil => simp [orphansFrom] at h
  | cons first rest ih =>
    rw [List.mem_cons]
    have hcons : ∀ pending, r ∈ first :: orphansFrom pending rest → r = first ∨ r ∈ rest :=
      fun pending h => (List.mem_cons.mp h).imp_right ih
    simp only [orphansFrom] at h
    split at h
    · exact .inr (ih h)
    · exact .inr (ih h)
    · exact .inr (ih h)
    · exact hcons _ h
    · split at h
      · split at h
        · exact .inr (ih h)
        · exact hcons _ h
      · exact hcons _ h

omit [JsNumber ν] in
theorem splitAtLastCompaction_eq {branch before after : List (ParsedTranscriptLine ν)}
    {compaction : ParsedTranscriptLine ν}
    (h : splitAtLastCompaction branch = some (before, compaction, after)) :
    branch = before ++ compaction :: after := by
  induction branch generalizing before with
  | nil => simp [splitAtLastCompaction] at h
  | cons r rest ih =>
    rw [splitAtLastCompaction] at h
    split at h
    · rename_i hrest
      obtain ⟨rfl, rfl, rfl⟩ : _ ∧ _ ∧ _ := by simpa using h
      rw [ih hrest, List.cons_append]
    · split at h
      · obtain ⟨rfl, rfl, rfl⟩ : _ ∧ _ ∧ _ := by simpa using h
        rfl
      · cases h

omit [JsNumber ν] in
/-- The projected records outside of a retained tail are records of the branch. -/
theorem mem_of_mem_projectedContextBranch {branch : List (ParsedTranscriptLine ν)}
    {p : ProjectedTranscriptRecord ν} (h : p ∈ projectedContextBranch branch)
    (hline : p.retainedTailIndex = none) : ∃ r ∈ branch, r.lineIndex = p.lineIndex := by
  have hmap : ∀ records : List (ParsedTranscriptLine ν), p ∈ records.map (·.projected) →
      ∃ r ∈ records, r.lineIndex = p.lineIndex := by
    intro records hp
    obtain ⟨r, hr, rfl⟩ := List.mem_map.mp hp
    exact ⟨r, hr, rfl⟩
  rw [projectedContextBranch] at h
  split at h
  · exact hmap branch h
  · rename_i before compaction after hsplit
    rw [splitAtLastCompaction_eq hsplit]
    rcases List.mem_append.mp h with h | h
    · rw [keptTail] at h
      split at h
      · obtain ⟨i, hi, rfl⟩ := List.mem_mapIdx.mp h
        cases hline
      · split at h
        · split at h
          · simp at h
          · obtain ⟨r, hr, hrp⟩ := hmap _ h
            exact ⟨r, List.mem_append_left _ ((List.dropWhile_sublist _).mem hr), hrp⟩
        · simp at h
    · obtain ⟨r, hr, hrp⟩ := hmap after h
      exact ⟨r, by simp [hr], hrp⟩

theorem mem_of_mem_lineIndexes {branch : List (ParsedTranscriptLine ν)} {i : Nat}
    (h : i ∈ (orphanToolResultLocations branch).lineIndexes) : ∃ r ∈ branch, r.lineIndex = i := by
  obtain ⟨p, hp, rfl⟩ := List.mem_map.mp h
  obtain ⟨hmem, hline⟩ := List.mem_filter.mp hp
  exact mem_of_mem_projectedContextBranch (mem_of_mem_orphansFrom hmem)
    (Option.isNone_iff_eq_none.mp hline)

end Removed

theorem mem_collectBranch {byId : JsMap JsString (ParsedTranscriptLine ν)} {fuel : Nat}
    {visited : List JsString} {id : JsString} {r : ParsedTranscriptLine ν}
    (h : r ∈ collectBranch byId fuel visited (JsMap.get? byId id)) :
    ∃ id, JsMap.get? byId id = some r := by
  induction fuel generalizing visited id with
  | zero => cases h
  | succ fuel ih =>
    cases hget : JsMap.get? byId id with
    | none =>
      rw [hget] at h
      cases h
    | some current =>
      rw [hget, collectBranch] at h
      split at h
      · cases h
      · split at h
        · cases h
        · rcases List.mem_cons.mp h with rfl | h
          · exact ⟨id, hget⟩
          · cases hparent : current.parentId with
            | none =>
              rw [hparent, Option.bind_none] at h
              cases fuel <;> cases h
            | some parentId =>
              rw [hparent, Option.bind_some] at h
              exact ih h

/-! ## Relinking -/

section Relink

/-- What parsing a transcript without anomalies gives. -/
structure SoundTranscript (parsed : ParsedTranscript ν) : Prop where
  tree : SoundTree parsed.records
  lines : parsed.records.Pairwise (·.lineIndex < ·.lineIndex)
  fields : ∀ r ∈ parsed.records, r.id = nonEmptyString (getField r.entry (js "id")) ∧
    r.parentId = nonEmptyString (getField r.entry (js "parentId"))
  branch : parsed.activeBranch = selectActiveBranch parsed.records (indexById parsed.records)

/-- What parsing any transcript gives. -/
structure ReadTranscript (parsed : ParsedTranscript ν) : Prop where
  lines : parsed.records.Pairwise (·.lineIndex < ·.lineIndex)
  fields : ∀ r ∈ parsed.records, r.id = nonEmptyString (getField r.entry (js "id")) ∧
    r.parentId = nonEmptyString (getField r.entry (js "parentId"))
  branch : parsed.activeBranch = selectActiveBranch parsed.records (indexById parsed.records)

variable [JsNumber ν]

theorem readTranscript_parse (content : JsString) :
    ReadTranscript (parseTranscript content : ParsedTranscript ν) where
  lines := records_pairwise content
  fields := by
    intro r hr
    have hstrip : strip r ∈ recordsIn content.lines.zipIdx := by
      rw [← records_strip]
      exact List.mem_map_of_mem hr
    obtain ⟨p, -, hp⟩ := List.mem_filterMap.mp hstrip
    obtain ⟨entry, -, hentry⟩ := Option.map_eq_some_iff.mp hp
    have hr : r.entry = entry := congrArg (·.entry) hentry.symm
    rw [hr]
    exact ⟨congrArg (·.id) hentry.symm, congrArg (·.parentId) hentry.symm⟩
  branch := rfl

theorem soundTranscript_of_anomalies {content : JsString}
    (h : (parseTranscript content : ParsedTranscript ν).anomalies = []) :
    SoundTranscript (parseTranscript content : ParsedTranscript ν) where
  tree := soundTree_of_anomalies h
  lines := (readTranscript_parse content).lines
  fields := (readTranscript_parse content).fields
  branch := rfl

variable {parsed : ParsedTranscript ν}

omit [JsNumber ν] in
theorem SoundTranscript.read (h : SoundTranscript parsed) : ReadTranscript parsed :=
  ⟨h.lines, h.fields, h.branch⟩

omit [JsNumber ν] in
theorem nonEmptyString_ne_nil (value : Option (Json ν)) : nonEmptyString value ≠ some [] := by
  cases value with
  | none => simp [nonEmptyString]
  | some value =>
    cases value with
    | str s =>
      simp only [nonEmptyString]
      split
      · simp
      · simpa using ‹_›
    | _ => simp [nonEmptyString]

omit [JsNumber ν] in
theorem nonEmptyString_idOrNull {id : Option JsString} (h : id ≠ some []) :
    nonEmptyString (some (idOrNull id : Json ν)) = id := by
  cases id with
  | none => rfl
  | some s =>
    have hs : s ≠ [] := fun hnil => h (congrArg some hnil)
    simp [idOrNull, nonEmptyString, hs]

theorem skipRemoved_eq_skip (removedParents : JsMap JsString (Option JsString)) (fuel : Nat)
    (visited : List JsString) (id : Option JsString) :
    skipRemoved removedParents fuel visited id =
      SkipChain.skip (JsMap.get? removedParents) fuel visited id := by
  induction fuel generalizing visited id with
  | zero => rfl
  | succ fuel ih =>
    cases id with
    | none => rfl
    | some id =>
      rw [skipRemoved, SkipChain.skip]
      cases JsMap.get? removedParents id with
      | none => rfl
      | some parentId =>
        dsimp only
        by_cases hvisited : id ∈ visited
        · rw [if_pos hvisited, if_pos hvisited]
        · rw [if_neg hvisited, if_neg hvisited, ih]

theorem retainedAncestor_of_leads {removedParents : JsMap JsString (Option JsString)}
    {id q : Option JsString} {chain : List JsString}
    (h : SkipChain.Leads (JsMap.get? removedParents) id chain q) :
    retainedAncestor removedParents id = q := by
  rw [retainedAncestor, skipRemoved_eq_skip, ← List.length_map (·.1)]
  refine SkipChain.skip_eq h fun id hsome => ?_
  obtain ⟨parentId, hparent⟩ := Option.isSome_iff_exists.mp hsome
  exact List.mem_map.mpr ⟨(id, parentId), JsMap.mem_of_get? hparent, rfl⟩

namespace ReadTranscript

omit [JsNumber ν] in
theorem line_unique (h : ReadTranscript parsed) {r r' : ParsedTranscriptLine ν}
    (hr : r ∈ parsed.records) (hr' : r' ∈ parsed.records) (hline : r.lineIndex = r'.lineIndex) :
    r = r' := by
  have hnodup : (parsed.records.map (·.lineIndex)).Nodup :=
    List.pairwise_map.mpr (h.lines.imp fun hlt => Nat.ne_of_lt hlt)
  exact List.inj_on_of_nodup_map hnodup hr hr' hline

omit [JsNumber ν] in
theorem get?_of_mem_branch (h : ReadTranscript parsed) {r : ParsedTranscriptLine ν}
    (hr : r ∈ parsed.activeBranch) :
    ∃ id, JsMap.get? (indexById parsed.records) id = some r := by
  rw [h.branch, selectActiveBranch] at hr
  split at hr
  · cases hr
  · exact mem_collectBranch (List.mem_reverse.mp hr)

omit [JsNumber ν] in
theorem mem_branch (h : ReadTranscript parsed) {r : ParsedTranscriptLine ν}
    (hr : r ∈ parsed.activeBranch) : r ∈ parsed.records ∧ r.inTree = true := by
  obtain ⟨id, hid⟩ := h.get?_of_mem_branch hr
  exact ⟨(get?_indexById hid).1, (get?_indexById hid).2.1⟩

/-- The removed parents: an entry for each removed record of the index. -/
theorem removedParents_eq (h : ReadTranscript parsed) (id : JsString) :
    JsMap.get? parsed.removedParents id =
      (JsMap.get? (indexById parsed.records) id).bind fun r =>
        if parsed.survives r then none else some r.parentId := by
  have hentry {r : ParsedTranscriptLine ν} (hr : r ∈ parsed.activeBranch) (hid : r.id = some id) :
      JsMap.get? (indexById parsed.records) id = some r := by
    obtain ⟨id', hid'⟩ := h.get?_of_mem_branch hr
    rwa [Option.some.inj (hid.symm.trans (get?_indexById hid').2.2)]
  cases hget : JsMap.get? parsed.removedParents id with
  | some parentId =>
    obtain ⟨r, hr, hid, hremoved, rfl⟩ := get?_removedParentsOf hget
    rw [hentry hr hid, Option.bind_some,
      if_neg (by simpa [ParsedTranscript.survives] using hremoved)]
  | none =>
    cases hindex : JsMap.get? (indexById parsed.records) id with
    | none => rfl
    | some r =>
      obtain ⟨hr, htree, hid⟩ := get?_indexById hindex
      rw [Option.bind_some, if_pos]
      simp only [ParsedTranscript.survives, decide_eq_true_eq]
      intro hremoved
      obtain ⟨r', hr', hline⟩ := mem_of_mem_lineIndexes hremoved
      obtain rfl := h.line_unique (h.mem_branch hr').1 hr hline
      have hsome := get?_removedParentsOf_isSome hr' hid hremoved
      rw [ParsedTranscript.removedParents] at hget
      simp [hget] at hsome

theorem retainedAncestor_ne_nil (h : ReadTranscript parsed) {id : Option JsString}
    (hid : id ≠ some []) : retainedAncestor parsed.removedParents id ≠ some [] := by
  rw [retainedAncestor, skipRemoved_eq_skip]
  refine SkipChain.skip_induction (P := (· ≠ some [])) (fun a b hab => ?_) _ [] hid
  obtain ⟨r, hr, -, -, rfl⟩ := get?_removedParentsOf hab
  rw [(h.fields r (h.mem_branch hr).1).2]
  exact nonEmptyString_ne_nil _

theorem retainedAncestor_nil (h : ReadTranscript parsed) :
    retainedAncestor parsed.removedParents (some []) = some [] := by
  have hnone : JsMap.get? (indexById parsed.records) [] = none := by
    cases hget : JsMap.get? (indexById parsed.records) [] with
    | none => rfl
    | some r =>
      obtain ⟨hr, -, hid⟩ := get?_indexById hget
      exact absurd ((h.fields r hr).1.symm.trans hid) (nonEmptyString_ne_nil _)
  refine retainedAncestor_of_leads (.stay ?_)
  rw [h.removedParents_eq, hnone, Option.bind_none]

end ReadTranscript

namespace SoundTranscript

/-- The removed parents: an entry for each removed record. -/
theorem removedParents_get? (h : SoundTranscript parsed) {r : ParsedTranscriptLine ν}
    {id : JsString} (hr : r ∈ parsed.records) (htree : r.inTree = true) (hid : r.id = some id) :
    JsMap.get? parsed.removedParents id = if parsed.survives r then none else some r.parentId := by
  rw [h.read.removedParents_eq, h.tree.get?.mpr ⟨hr, htree, hid⟩, Option.bind_some]

theorem removedParents_get?_none (h : SoundTranscript parsed) {id : JsString}
    (hid : JsMap.get? (indexById parsed.records) id = none) :
    JsMap.get? parsed.removedParents id = none := by
  rw [h.read.removedParents_eq, hid, Option.bind_none]

/-- The nearest surviving id of a walk from an id. -/
def nearest (parsed : ParsedTranscript ν) (id : Option JsString)
    (l : List (ParsedTranscriptLine ν)) : Option JsString :=
  if l = [] then id else (l.find? parsed.survives).bind (·.id)

/-- From a removed record the search goes on at its parent. -/
theorem nearest_cons_removed (h : SoundTranscript parsed) {x : ParsedTranscriptLine ν}
    {l : List (ParsedTranscriptLine ν)} (hx : x ∈ parsed.records) (htree : x.inTree = true)
    (hrest : Walk parsed.records (x.parentId.bind (JsMap.get? (indexById parsed.records))) l)
    (hs : ¬ parsed.survives x = true) (id : Option JsString) :
    nearest parsed id (x :: l) = nearest parsed x.parentId l := by
  simp only [nearest, List.find?_cons, hs, reduceCtorEq, if_false]
  split
  · rename_i hnil
    subst hnil
    cases hp : x.parentId with
    | none => rfl
    | some p =>
      obtain ⟨q, hq, -⟩ := h.tree.parent x hx htree p hp
      have := hrest.chain.nil
      simp [hp, hq] at this
  · rfl

/-- Skipping the removed records ends at the nearest surviving one. -/
theorem retainedAncestor_eq (h : SoundTranscript parsed) {id : Option JsString}
    {l : List (ParsedTranscriptLine ν)}
    (hl : Walk parsed.records (id.bind (JsMap.get? (indexById parsed.records))) l) :
    retainedAncestor parsed.removedParents id = nearest parsed id l := by
  obtain ⟨chain, hchain⟩ : ∃ chain,
      SkipChain.Leads (JsMap.get? parsed.removedParents) id chain (nearest parsed id l) := by
    induction l generalizing id with
    | nil =>
      have hnone := hl.chain.nil
      cases id with
      | none => exact ⟨[], .none⟩
      | some z => exact ⟨[], .stay (h.removedParents_get?_none hnone)⟩
    | cons x l ih =>
      obtain ⟨hstart, hrest⟩ := hl.cons
      obtain ⟨z, rfl, hget⟩ := Option.bind_eq_some_iff.mp hstart
      obtain ⟨hx, htree, hid⟩ := get?_indexById hget
      have hremoved := h.removedParents_get? hx htree hid
      by_cases hs : parsed.survives x = true
      · rw [if_pos hs] at hremoved
        rw [nearest, if_neg (List.cons_ne_nil _ _), List.find?_cons_of_pos hs, Option.bind_some,
          hid]
        exact ⟨[], .stay hremoved⟩
      · rw [if_neg hs] at hremoved
        obtain ⟨chain, hchain⟩ := ih hrest
        rw [h.nearest_cons_removed hx htree hrest hs]
        exact ⟨z :: chain, .skip hremoved hchain⟩
  exact retainedAncestor_of_leads hchain

/-- A surviving record is its own nearest surviving ancestor. -/
theorem retainedAncestor_self (h : SoundTranscript parsed) {r : ParsedTranscriptLine ν}
    (hr : r ∈ parsed.records) (htree : r.inTree = true) (hs : parsed.survives r = true) :
    retainedAncestor parsed.removedParents r.id = r.id := by
  obtain ⟨id, hid⟩ := Option.isSome_iff_exists.mp ((inTree_iff r).mp htree).1
  rw [hid]
  refine retainedAncestor_of_leads (.stay ?_)
  rw [h.removedParents_get? hr htree hid, if_pos hs]

end SoundTranscript

/-! ## The fields of a relinked record -/

/-- The entry that the repair makes of a surviving record, changed or not. -/
def repairedEntry (parsed : ParsedTranscript ν) (r : ParsedTranscriptLine ν) : JsonObject ν :=
  let entry := (repairRetainedTail parsed.orphans r.lineIndex r.entry).getD r.entry
  let entry := (repairParent parsed.removedParents r.parentId entry).getD entry
  (repairTarget parsed.removedParents entry).getD entry

theorem relinkedEntry_cases (parsed : ParsedTranscript ν) (r : ParsedTranscriptLine ν) :
    parsed.relinkedEntry r = repairedEntry parsed r ∨
      parsed.relinkedEntry r = rereadEntry (repairedEntry parsed r) := by
  simp only [ParsedTranscript.relinkedEntry, repairRecord, repairedEntry]
  cases repairRetainedTail parsed.orphans r.lineIndex r.entry with
  | some tail => simp
  | none =>
    simp only [Option.getD_none, Option.isSome_none, Bool.false_or]
    cases repairParent parsed.removedParents r.parentId r.entry with
    | some parent => simp
    | none =>
      simp only [Option.getD_none, Option.isSome_none, Bool.false_or]
      cases repairTarget parsed.removedParents r.entry with
      | some target => simp
      | none => simp

theorem nonEmptyString_relinkedEntry (parsed : ParsedTranscript ν) (r : ParsedTranscriptLine ν)
    (key : JsString) : nonEmptyString (getField (parsed.relinkedEntry r) key) =
      nonEmptyString (getField (repairedEntry parsed r) key) := by
  rcases relinkedEntry_cases parsed r with h | h
  · rw [h]
  · rw [h, rereadEntry, getField_reread, nonEmptyString_reread]

omit [JsNumber ν] in
theorem getField_repairRetainedTail (locations : OrphanToolResultLocations) (i : Nat)
    (entry : JsonObject ν) {key : JsString} (hkey : key ≠ js "retainedTail") :
    getField ((repairRetainedTail locations i entry).getD entry) key = getField entry key := by
  simp only [repairRetainedTail]
  split
  · split
    · rfl
    · rw [Option.getD_some, getField_setField, if_neg hkey]
  · rfl

omit [JsNumber ν] in
theorem getField_repairParent (removedParents : JsMap JsString (Option JsString))
    (parentId : Option JsString) (entry : JsonObject ν) {key : JsString}
    (hkey : key ≠ js "parentId") :
    getField ((repairParent removedParents parentId entry).getD entry) key = getField entry key := by
  simp only [repairParent]
  split
  · rfl
  · rw [Option.getD_some, getField_setField, if_neg hkey]

omit [JsNumber ν] in
theorem getField_repairTarget (removedParents : JsMap JsString (Option JsString))
    (entry : JsonObject ν) {key : JsString} (hkey : key ≠ js "targetId") :
    getField ((repairTarget removedParents entry).getD entry) key = getField entry key := by
  simp only [repairTarget]
  split
  · split
    · split
      · rfl
      · rw [Option.getD_some, getField_setField, if_neg hkey]
    · rfl
  · rfl

theorem getField_repairedEntry (parsed : ParsedTranscript ν) (r : ParsedTranscriptLine ν)
    {key : JsString} (htail : key ≠ js "retainedTail") (hparent : key ≠ js "parentId")
    (htarget : key ≠ js "targetId") :
    getField (repairedEntry parsed r) key = getField r.entry key := by
  simp only [repairedEntry]
  rw [getField_repairTarget _ _ htarget, getField_repairParent _ _ _ hparent,
    getField_repairRetainedTail _ _ _ htail]

theorem fieldIs_relinkedEntry (parsed : ParsedTranscript ν) (r : ParsedTranscriptLine ν)
    (literal : String) :
    fieldIs (parsed.relinkedEntry r) "type" literal = fieldIs r.entry "type" literal := by
  have h : fieldIs (parsed.relinkedEntry r) "type" literal =
      fieldIs (repairedEntry parsed r) "type" literal := by
    rcases relinkedEntry_cases parsed r with h | h
    · rw [h]
    · rw [h, fieldIs_rereadEntry]
  rw [h, fieldIs, fieldIs, getField_repairedEntry _ _ (by decide) (by decide) (by decide)]

namespace ReadTranscript

theorem relink_id (h : ReadTranscript parsed) {r : ParsedTranscriptLine ν}
    (hr : r ∈ parsed.records) : (parsed.relink r).id = r.id := by
  have hid : (parsed.relink r).id = nonEmptyString (getField (parsed.relinkedEntry r) (js "id")) :=
    rfl
  rw [hid, nonEmptyString_relinkedEntry,
    getField_repairedEntry _ _ (by decide) (by decide) (by decide), (h.fields r hr).1]

theorem relink_isSession (r : ParsedTranscriptLine ν) :
    (parsed.relink r).isSession = r.isSession :=
  fieldIs_relinkedEntry parsed r _

theorem relink_inTree (h : ReadTranscript parsed) {r : ParsedTranscriptLine ν}
    (hr : r ∈ parsed.records) : (parsed.relink r).inTree = r.inTree := by
  rw [ParsedTranscriptLine.inTree, ParsedTranscriptLine.inTree, h.relink_id hr, relink_isSession]

/-- A relinked record has its nearest surviving ancestor as its parent. -/
theorem relink_parentId (h : ReadTranscript parsed) {r : ParsedTranscriptLine ν}
    (hr : r ∈ parsed.records) :
    (parsed.relink r).parentId = retainedAncestor parsed.removedParents r.parentId := by
  have hparent : (parsed.relink r).parentId =
      nonEmptyString (getField (parsed.relinkedEntry r) (js "parentId")) := rfl
  have hfield := (h.fields r hr).2
  have hne : r.parentId ≠ some [] := hfield ▸ nonEmptyString_ne_nil _
  rw [hparent, nonEmptyString_relinkedEntry]
  simp only [repairedEntry]
  rw [getField_repairTarget _ _ (by decide), repairParent]
  split
  · rename_i hretained
    rw [Option.getD_none, getField_repairRetainedTail _ _ _ (by decide), ← hfield, hretained]
  · rw [Option.getD_some, getField_setField, if_pos rfl,
      nonEmptyString_idOrNull (h.retainedAncestor_ne_nil hne)]

/-- A relinked leaf control points at the nearest surviving ancestor of its target. -/
theorem relink_targetId (h : ReadTranscript parsed) {r : ParsedTranscriptLine ν}
    (hleaf : r.isLeaf = true) :
    nonEmptyString (getField (parsed.relinkedEntry r) (js "targetId")) =
      retainedAncestor parsed.removedParents
        (nonEmptyString (getField r.entry (js "targetId"))) := by
  rw [nonEmptyString_relinkedEntry]
  simp only [repairedEntry]
  have hkeep : ∀ key, key ≠ js "retainedTail" → key ≠ js "parentId" →
      getField ((repairParent parsed.removedParents r.parentId
        ((repairRetainedTail parsed.orphans r.lineIndex r.entry).getD r.entry)).getD
          ((repairRetainedTail parsed.orphans r.lineIndex r.entry).getD r.entry)) key =
        getField r.entry key := by
    intro key htail hparent
    rw [getField_repairParent _ _ _ hparent, getField_repairRetainedTail _ _ _ htail]
  generalize (repairParent parsed.removedParents r.parentId
    ((repairRetainedTail parsed.orphans r.lineIndex r.entry).getD r.entry)).getD
      ((repairRetainedTail parsed.orphans r.lineIndex r.entry).getD r.entry) = entry at hkeep ⊢
  have hleaf : fieldIs entry "type" "leaf" = true := by
    rw [fieldIs, hkeep _ (by decide) (by decide)]
    exact hleaf
  rw [← hkeep (js "targetId") (by decide) (by decide), repairTarget, if_pos hleaf]
  split
  · rename_i targetId htarget
    rw [htarget]
    dsimp only
    split
    · rename_i hretained
      rw [Option.getD_none, htarget, nonEmptyString]
      split
      · rfl
      · exact hretained.symm
    · rename_i hretained
      have hne : targetId ≠ [] := fun hnil => hretained (hnil ▸ h.retainedAncestor_nil)
      rw [Option.getD_some, getField_setField, if_pos rfl,
        nonEmptyString_idOrNull (h.retainedAncestor_ne_nil (by simpa using hne)), nonEmptyString,
        if_neg hne]
  · rename_i hother
    have hnone : nonEmptyString (getField entry (js "targetId")) = none := by
      cases htarget : getField entry (js "targetId") with
      | none => rfl
      | some value =>
        cases value with
        | str s => exact absurd htarget (hother s)
        | _ => rfl
    rw [Option.getD_none, hnone]
    rfl

end ReadTranscript

namespace SoundTranscript

theorem relink_designated (h : SoundTranscript parsed) {r : ParsedTranscriptLine ν}
    (hr : r ∈ parsed.records) (htree : r.inTree = true) (hs : parsed.survives r = true) :
    designated (parsed.relink r) = retainedAncestor parsed.removedParents (designated r) := by
  have htype : (parsed.relink r).isLeaf = r.isLeaf := fieldIs_relinkedEntry parsed r _
  rw [designated, designated, htype]
  split
  · rename_i hleaf
    exact h.read.relink_targetId hleaf
  · rw [h.read.relink_id hr, h.retainedAncestor_self hr htree hs]

/-! ## The relinked tree -/

/-- The surviving records, before they are relinked. -/
def survivors (parsed : ParsedTranscript ν) : List (ParsedTranscriptLine ν) :=
  parsed.records.filter parsed.survives

theorem mem_survivors {r : ParsedTranscriptLine ν} :
    r ∈ survivors parsed ↔ r ∈ parsed.records ∧ parsed.survives r = true := by
  simp [survivors]

end SoundTranscript

omit [JsNumber ν] in
/-- What the index says of a record that stays is still said of it when others go. -/
theorem get?_indexById_filter {records : List (ParsedTranscriptLine ν)}
    {stays : ParsedTranscriptLine ν → Bool} {g : ParsedTranscriptLine ν → ParsedTranscriptLine ν}
    (hg : ∀ r ∈ records, (g r).id = r.id ∧ (g r).inTree = r.inTree) {id : JsString}
    {r : ParsedTranscriptLine ν} (hget : JsMap.get? (indexById records) id = some r)
    (hr : stays r = true) :
    JsMap.get? (indexById ((records.filter stays).map g)) id = some (g r) := by
  induction records using List.reverseRecOn with
  | nil => cases hget
  | append_singleton records last ih =>
    have hg' := fun r hr => hg r (List.mem_append_left _ hr)
    obtain ⟨hid, htree⟩ := hg last (List.mem_append_right _ List.mem_cons_self)
    rw [indexById_concat, get?_indexRecord] at hget
    rw [List.filter_append, List.map_append]
    split at hget
    · rename_i hlast
      obtain rfl := Option.some.inj hget
      rw [List.filter_cons_of_pos hr, List.filter_nil, List.map_singleton, indexById_concat,
        get?_indexRecord, htree, hid, if_pos hlast]
    · rename_i hlast
      by_cases hstays : stays last = true
      · rw [List.filter_cons_of_pos hstays, List.filter_nil, List.map_singleton, indexById_concat,
          get?_indexRecord, htree, hid, if_neg hlast]
        exact ih hg' hget
      · rw [List.filter_cons_of_neg hstays, List.filter_nil, List.map_nil, List.append_nil]
        exact ih hg' hget

namespace ReadTranscript

theorem get?_relinked (h : ReadTranscript parsed) {r : ParsedTranscriptLine ν} {id : JsString}
    (hget : JsMap.get? (indexById parsed.records) id = some r) (hs : parsed.survives r = true) :
    JsMap.get? (indexById parsed.relinked) id = some (parsed.relink r) :=
  get?_indexById_filter (fun _ hr => ⟨h.relink_id hr, h.relink_inTree hr⟩) hget hs

/-- Only surviving records of the tree are in the index of the relinked records. -/
theorem get?_relinked_none (h : ReadTranscript parsed) {id : JsString}
    (hid : JsMap.get? (indexById parsed.records) id = none) :
    JsMap.get? (indexById parsed.relinked) id = none := by
  cases hget : JsMap.get? (indexById parsed.relinked) id with
  | none => rfl
  | some q =>
    obtain ⟨hqmem, hqtree, hqid⟩ := get?_indexById hget
    obtain ⟨r, hr, rfl⟩ := List.mem_map.mp hqmem
    have hrmem := (List.mem_filter.mp hr).1
    rw [h.relink_inTree hrmem] at hqtree
    rw [h.relink_id hrmem] at hqid
    have := get?_indexById_isSome hrmem hqtree hqid
    simp [hid] at this

end ReadTranscript

namespace SoundTranscript

/-- The relinked active leaf is the nearest surviving ancestor of the one that the
    surviving records designate. -/
theorem activeLeafId_relinked (h : SoundTranscript parsed) :
    activeLeafId parsed.relinked =
      retainedAncestor parsed.removedParents (activeLeafId (survivors parsed)) := by
  have hfold : ∀ (records : List (ParsedTranscriptLine ν)) (leafId leafId' : Option JsString),
      (∀ r ∈ records, r ∈ parsed.records ∧ parsed.survives r = true) →
      leafId' = retainedAncestor parsed.removedParents leafId →
      (records.map parsed.relink).foldl
          (fun leafId r => if r.inTree then designated r else leafId) leafId' =
        retainedAncestor parsed.removedParents
          (records.foldl (fun leafId r => if r.inTree then designated r else leafId) leafId) := by
    intro records
    induction records with
    | nil => exact fun _ _ _ h => h
    | cons r rest ih =>
      intro leafId leafId' hmem hleaf
      rw [List.forall_mem_cons] at hmem
      rw [List.map_cons, List.foldl_cons, List.foldl_cons]
      refine ih _ _ hmem.2 ?_
      rw [h.read.relink_inTree hmem.1.1]
      split
      · rename_i htree
        exact h.relink_designated hmem.1.1 htree hmem.1.2
      · exact hleaf
  exact hfold _ none none (fun r hr => mem_survivors.mp hr) rfl

theorem chain_relinked (h : SoundTranscript parsed) {id : Option JsString}
    {l : List (ParsedTranscriptLine ν)}
    (hl : Walk parsed.records (id.bind (JsMap.get? (indexById parsed.records))) l) :
    Chain (indexById parsed.relinked)
      ((retainedAncestor parsed.removedParents id).bind (JsMap.get? (indexById parsed.relinked)))
      ((l.filter parsed.survives).map parsed.relink) := by
  rw [h.retainedAncestor_eq hl]
  induction l generalizing id with
  | nil =>
    have hnone := hl.chain.nil
    cases id with
    | none => exact .root
    | some z =>
      rw [nearest, if_pos rfl, Option.bind_some, h.read.get?_relinked_none hnone]
      exact .root
  | cons x l ih =>
    obtain ⟨hstart, hrest⟩ := hl.cons
    obtain ⟨z, rfl, hget⟩ := Option.bind_eq_some_iff.mp hstart
    obtain ⟨hx, htree, hid⟩ := get?_indexById hget
    have hchain := ih hrest
    rw [← h.retainedAncestor_eq hrest, ← h.read.relink_parentId hx] at hchain
    by_cases hs : parsed.survives x = true
    · rw [List.filter_cons_of_pos hs, List.map_cons, nearest, if_neg (by simp),
        List.find?_cons_of_pos hs, Option.bind_some, hid, Option.bind_some,
        h.read.get?_relinked (h.tree.get?.mpr ⟨hx, htree, hid⟩) hs]
      exact .step hchain
    · rw [List.filter_cons_of_neg hs, h.nearest_cons_removed hx htree hrest hs,
        ← h.retainedAncestor_eq hrest, ← h.read.relink_parentId hx]
      exact hchain

/-! ## The branch -/

/-- The surviving id of the tree that some records designate as the active leaf. -/
def leafAfter (parsed : ParsedTranscript ν) (records : List (ParsedTranscriptLine ν)) :
    Option JsString :=
  (retainedAncestor parsed.removedParents (activeLeafId records)).filter fun id =>
    (JsMap.get? (indexById parsed.records) id).isSome

/-- The surviving records select the nearest surviving ancestor of the active leaf. -/
def KeepsLeaf (parsed : ParsedTranscript ν) : Prop :=
  leafAfter parsed (survivors parsed) = leafAfter parsed parsed.records

theorem leafAfter_eq (h : SoundTranscript parsed) {records l : List (ParsedTranscriptLine ν)}
    (hl : Walk parsed.records
      ((activeLeafId records).bind (JsMap.get? (indexById parsed.records))) l) :
    leafAfter parsed records = (l.filter parsed.survives).head?.bind (·.id) := by
  rw [leafAfter, h.retainedAncestor_eq hl, nearest, List.head?_filter]
  cases l with
  | nil =>
    have hnone := hl.chain.nil
    cases hleaf : activeLeafId records with
    | none => rfl
    | some leafId =>
      rw [hleaf, Option.bind_some] at hnone
      simp [hnone]
  | cons first rest =>
    rw [if_neg (by simp)]
    cases hfind : (first :: rest).find? parsed.survives with
    | none => rfl
    | some r =>
      obtain ⟨hmem, htree⟩ := hl.mem r (List.mem_of_find?_eq_some hfind)
      obtain ⟨id, hid⟩ := Option.isSome_iff_exists.mp ((inTree_iff r).mp htree).1
      simp [hid, h.tree.get?.mpr ⟨hmem, htree, hid⟩]

theorem relink_ids (h : SoundTranscript parsed) {l : List (ParsedTranscriptLine ν)}
    (hl : ∀ r ∈ l, r ∈ parsed.records ∧ r.inTree = true) :
    ((l.filter parsed.survives).map parsed.relink).map (·.id) =
      (l.filter parsed.survives).map (·.id) := by
  rw [List.map_map]
  exact List.map_congr_left fun r hr => h.read.relink_id (hl r (List.mem_filter.mp hr).1).1

theorem survivingBranch_eq (h : SoundTranscript parsed) {l : List (ParsedTranscriptLine ν)}
    (hl : Walk parsed.records
      ((activeLeafId (survivors parsed)).bind (JsMap.get? (indexById parsed.records))) l) :
    parsed.survivingBranch = ((l.filter parsed.survives).map parsed.relink).reverse := by
  refine selectActiveBranch_eq ?_ (fun q hq => ?_) ?_
  · rw [h.activeLeafId_relinked]
    exact h.chain_relinked hl
  · obtain ⟨r, hr, rfl⟩ := List.mem_map.mp hq
    obtain ⟨hrl, hs⟩ := List.mem_filter.mp hr
    obtain ⟨hmem, htree⟩ := hl.mem r hrl
    obtain ⟨id, hid⟩ := Option.isSome_iff_exists.mp ((inTree_iff r).mp htree).1
    exact ⟨id, (h.read.relink_id hmem).trans hid,
      h.read.get?_relinked (h.tree.get?.mpr ⟨hmem, htree, hid⟩) hs⟩
  · rw [h.relink_ids hl.mem]
    exact hl.nodup.sublist (List.filter_sublist.map _)

/-- The relinked records select the filtered branch exactly when the leaf is kept. -/
theorem survivingBranch_iff (h : SoundTranscript parsed) :
    (parsed.survivingBranch.map (·.id) =
        (parsed.activeBranch.filter parsed.survives).map (·.id) ↔ KeepsLeaf parsed) ∧
      (KeepsLeaf parsed → parsed.survivingBranch =
        (parsed.activeBranch.filter parsed.survives).map parsed.relink) := by
  obtain ⟨l, hl⟩ := h.tree.exists_walk (activeLeafId parsed.records)
  obtain ⟨l', hl'⟩ := h.tree.exists_walk (activeLeafId (survivors parsed))
  have hbranch : parsed.activeBranch = l.reverse :=
    h.branch.trans (h.tree.selectActiveBranch_eq hl)
  have hstart : ∀ id : Option JsString, id.bind (JsMap.get? (indexById parsed.relinked)) =
      (id.filter fun id => (JsMap.get? (indexById parsed.records) id).isSome).bind
        (JsMap.get? (indexById parsed.relinked)) := by
    intro id
    cases id with
    | none => rfl
    | some id =>
      cases hget : JsMap.get? (indexById parsed.records) id with
      | none =>
        rw [Option.filter_some_neg (by simp [hget]), Option.bind_some,
          h.read.get?_relinked_none hget]
        rfl
      | some r => rw [Option.filter_some_pos (by simp [hget])]
  have hkeeps : KeepsLeaf parsed → (l'.filter parsed.survives).map parsed.relink =
      (l.filter parsed.survives).map parsed.relink := by
    intro hkeeps
    have hchain := h.chain_relinked hl
    have hchain' := h.chain_relinked hl'
    rw [hstart] at hchain hchain'
    rw [KeepsLeaf, leafAfter, leafAfter] at hkeeps
    rw [hkeeps] at hchain'
    exact hchain'.unique hchain
  rw [h.survivingBranch_eq hl', hbranch, List.filter_reverse, List.map_reverse, List.map_reverse,
    List.map_reverse, List.reverse_inj, List.reverse_inj, h.relink_ids hl'.mem]
  refine ⟨⟨fun hids => ?_, fun hkeep => ?_⟩, hkeeps⟩
  · rw [KeepsLeaf, h.leafAfter_eq hl, h.leafAfter_eq hl']
    have hhead := congrArg (fun ids => ids.head?.bind id) hids
    rw [List.head?_map, List.head?_map, Option.bind_map, Option.bind_map] at hhead
    exact hhead
  · rw [← h.relink_ids hl'.mem, ← h.relink_ids hl.mem, hkeeps hkeep]

end SoundTranscript

/-! ## The sanitized text -/

/-- In a transcript without anomalies, sanitizing keeps the active branch, orphaned
    results aside, exactly when the surviving records select the nearest surviving
    ancestor of the active leaf; the records kept are then the relinked ones with
    their blank user messages filled in. -/
theorem activeBranch_preserved_iff {content : JsString}
    (h : (parseTranscript content : ParsedTranscript ν).anomalies = []) :
    let parsed : ParsedTranscript ν := parseTranscript content
    let after : ParsedTranscript ν :=
      parseTranscript (sanitizeTranscriptContent ν content).content
    (after.activeBranch.map (·.id) = (parsed.activeBranch.filter parsed.survives).map (·.id) ↔
        SoundTranscript.KeepsLeaf parsed) ∧
      (SoundTranscript.KeepsLeaf parsed → after.activeBranch.map (·.entry) =
        (parsed.activeBranch.filter parsed.survives).map fun r =>
          blankEntry (parsed.relinkedEntry r)) := by
  intro parsed after
  obtain ⟨hiff, hkeeps⟩ := (soundTranscript_of_anomalies h).survivingBranch_iff
  have hafter : after.activeBranch.map forget =
      (parsed.survivingBranch.map forget).map blankRecord := activeBranch_sanitize content
  have hids : after.activeBranch.map (·.id) = parsed.survivingBranch.map (·.id) := by
    have hmap := congrArg (List.map (·.id)) hafter
    rw [List.map_map, List.map_map, List.map_map] at hmap
    exact hmap
  have hentries : after.activeBranch.map (·.entry) =
      parsed.survivingBranch.map fun r => blankEntry r.entry := by
    have hmap := congrArg (List.map (·.entry)) hafter
    rw [List.map_map, List.map_map, List.map_map] at hmap
    exact hmap
  refine ⟨hids ▸ hiff, fun hkeep => ?_⟩
  rw [hentries, hkeeps hkeep, List.map_map]
  rfl

end Relink

/-! ## A branch that is not kept -/

/-- The leaf is the orphan: `a` is the only record left. -/
theorem activeBranch_preserved_single :
    let content := unlines [messageLine (js "a") none "assistant",
      messageLine (js "b") (js "a") "toolResult"]
    let parsed : ParsedTranscript JsString := parseTranscript content
    let after : ParsedTranscript JsString :=
      parseTranscript (sanitizeTranscriptContent JsString content).content
    after.activeBranch.map (·.id) = (parsed.activeBranch.filter parsed.survives).map (·.id) :=
  (activeBranch_preserved_iff (List.isEmpty_iff.mp (by decide +kernel))).1.mpr
    (show SoundTranscript.leafAfter _ _ = SoundTranscript.leafAfter _ _ by decide +kernel)

/-- Two branches from one message; the last one ends in an orphaned result. -/
def orphanOnSecondBranch : JsString :=
  unlines [messageLine (js "a") none "assistant", messageLine (js "b") (js "a") "assistant",
    messageLine (js "c") (js "a") "toolResult"]

/-- The orphan `c` designated the leaf of the branch `a`, `c`. Without it the
    branch is `a`, `b`. -/
theorem removed_leaf_moves_branch :
    let parsed : ParsedTranscript JsString := parseTranscript orphanOnSecondBranch
    let after : ParsedTranscript JsString :=
      parseTranscript (sanitizeTranscriptContent JsString orphanOnSecondBranch).content
    parsed.anomalies = [] ∧
      (parsed.activeBranch.filter parsed.survives).map (·.id) = [some (js "a")] ∧
      after.activeBranch.map (·.id) = [some (js "a"), some (js "b")] :=
  ⟨List.isEmpty_iff.mp (by decide +kernel), by decide +kernel, by decide +kernel⟩

end Bobbit.Server
