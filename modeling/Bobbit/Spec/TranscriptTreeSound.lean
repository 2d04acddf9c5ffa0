import Mathlib
import Bobbit.Spec.TranscriptText

/-!
# Sound transcript trees

In a transcript without anomalies ids are unique and parents stand before their
children, so the walk from a leaf to its root follows the parent links and
nothing else.

Key results:

- `soundTree_of_anomalies`, `records_pairwise`
- `SoundTree.selectActiveBranch_eq`: the active branch is the walk from the leaf.
-/

namespace Bobbit.Server

open Lib Lib.JsString Lib.Json

variable {ν : Type}

/-! ## The index by id -/

theorem inTree_iff (r : ParsedTranscriptLine ν) :
    r.inTree = true ↔ r.id.isSome = true ∧ r.isSession = false := by
  simp [ParsedTranscriptLine.inTree]

theorem indexById_concat (records : List (ParsedTranscriptLine ν)) (r : ParsedTranscriptLine ν) :
    indexById (records ++ [r]) = indexRecord (indexById records) r := by
  rw [indexById_eq, List.foldl_concat, ← indexById_eq]

theorem get?_indexRecord (byId : JsMap JsString (ParsedTranscriptLine ν))
    (r : ParsedTranscriptLine ν) (id : JsString) :
    JsMap.get? (indexRecord byId r) id =
      if r.inTree = true ∧ r.id = some id then some r else JsMap.get? byId id := by
  simp only [indexRecord]
  split
  · rename_i id' hid
    by_cases hs : r.isSession = true
    · simp [inTree_iff, hs]
    · have htree : r.inTree = true := by simp [inTree_iff, hid, hs]
      rw [if_neg hs, JsMap.get?_set]
      by_cases h : id = id'
      · simp [htree, hid, h]
      · simp [hid, h, Ne.symm h]
  · rename_i hid
    simp [inTree_iff, hid]

variable {r : ParsedTranscriptLine ν} {records : List (ParsedTranscriptLine ν)}

theorem get?_indexById {id : JsString} (h : JsMap.get? (indexById records) id = some r) :
    r ∈ records ∧ r.inTree = true ∧ r.id = some id := by
  induction records using List.reverseRecOn with
  | nil => simp [indexById] at h
  | append_singleton records last ih =>
    rw [indexById_concat, get?_indexRecord] at h
    split at h
    · rename_i hlast
      obtain rfl := Option.some.inj h
      exact ⟨by simp, hlast⟩
    · obtain ⟨hmem, hr⟩ := ih h
      exact ⟨by simp [hmem], hr⟩

theorem get?_indexById_isSome {id : JsString} (hr : r ∈ records) (htree : r.inTree = true)
    (hid : r.id = some id) : (JsMap.get? (indexById records) id).isSome = true := by
  induction records using List.reverseRecOn with
  | nil => simp at hr
  | append_singleton records last ih =>
    rw [indexById_concat, get?_indexRecord]
    split
    · rfl
    · rename_i hlast
      rw [List.mem_append, List.mem_singleton] at hr
      rcases hr with hr | rfl
      · exact ih hr
      · exact absurd ⟨htree, hid⟩ hlast

/-! ## Sound trees -/

/-- A tree with unique ids in which parents exist and stand before their children. -/
structure SoundTree (records : List (ParsedTranscriptLine ν)) : Prop where
  unique : ∀ r ∈ records, ∀ r' ∈ records, r.inTree = true → r'.inTree = true → r.id = r'.id →
    r = r'
  parent : ∀ r ∈ records, r.inTree = true → ∀ parentId, r.parentId = some parentId →
    ∃ q, JsMap.get? (indexById records) parentId = some q ∧ q.lineIndex < r.lineIndex

theorem SoundTree.get? (h : SoundTree records) {id : JsString} :
    JsMap.get? (indexById records) id = some r ↔
      r ∈ records ∧ r.inTree = true ∧ r.id = some id := by
  refine ⟨get?_indexById, fun ⟨hr, htree, hid⟩ => ?_⟩
  obtain ⟨q, hq⟩ := Option.isSome_iff_exists.mp (get?_indexById_isSome hr htree hid)
  obtain ⟨hqmem, hqtree, hqid⟩ := get?_indexById hq
  rw [hq, h.unique q hqmem r hr hqtree htree (hqid.trans hid.symm)]

section Anomalies

variable [JsNumber ν]

/-- Without duplicate ids in the lines, the ids of the tree are distinct and new. -/
theorem lineAnomalies_unique {firstById : JsMap JsString Nat} {lines : List RawTranscriptLine}
    (h : lineAnomalies (ν := ν) firstById lines = []) :
    let tree := (lines.filterMap (lineRecord (ν := ν))).filter (·.inTree)
    tree.Pairwise (fun r r' => r.id ≠ r'.id) ∧
      ∀ r ∈ tree, ∀ id, r.id = some id → JsMap.get? firstById id = none := by
  induction lines generalizing firstById with
  | nil => simp
  | cons line rest ih =>
    have hskip : (lineRecord line : Option (ParsedTranscriptLine ν)) = none ∨
        (∃ r, (lineRecord line : Option (ParsedTranscriptLine ν)) = some r ∧ r.inTree = false) →
        lineAnomalies (ν := ν) firstById rest = [] →
        (let tree := ((line :: rest).filterMap (lineRecord (ν := ν))).filter (·.inTree)
        tree.Pairwise (fun r r' => r.id ≠ r'.id) ∧
          ∀ r ∈ tree, ∀ id, r.id = some id → JsMap.get? firstById id = none) := by
      intro hline hrest
      rcases hline with hline | ⟨r, hline, htree⟩
      · simpa only [List.filterMap_cons, hline] using ih hrest
      · simpa only [List.filterMap_cons, hline, List.filter_cons, htree, Bool.false_eq_true,
          if_false] using ih hrest
    rw [lineAnomalies] at h
    split at h
    · cases h
    · rename_i hread
      exact hskip (.inl (by rw [lineRecord, hread]; rfl)) h
    · rename_i r hread
      have hline : (lineRecord line : Option (ParsedTranscriptLine ν)) = some r := by
        rw [lineRecord, hread]
        rfl
      split at h
      · rename_i hs
        exact hskip (.inr ⟨r, hline, by simp [ParsedTranscriptLine.inTree, hs]⟩) h
      · rename_i hs
        split at h
        · rename_i hid
          exact hskip (.inr ⟨r, hline, by simp [ParsedTranscriptLine.inTree, hid]⟩)
            (List.append_eq_nil_iff.mp h).2
        · rename_i id hid
          have hrest := (List.append_eq_nil_iff.mp h).2
          split at hrest
          · cases hrest
          · rename_i hnew
            have htree : r.inTree = true := by simp [inTree_iff, hid, hs]
            obtain ⟨hpairwise, hfresh⟩ := ih hrest
            simp only [List.filterMap_cons, hline, List.filter_cons, htree, if_true,
              List.pairwise_cons, List.forall_mem_cons]
            refine ⟨⟨fun r' hr' heq => ?_, hpairwise⟩, ?_, fun r' hr' id' hid' => ?_⟩
            · have := hfresh r' hr' id (heq.symm.trans hid)
              simp [JsMap.get?_set] at this
            · intro id' hid'
              rw [Option.some.inj (hid'.symm.trans hid)]
              exact hnew
            · have := hfresh r' hr' id' hid'
              rw [JsMap.get?_set] at this
              split at this
              · cases this
              · exact this

theorem soundTree_of_anomalies {content : JsString}
    (h : (parseTranscript content : ParsedTranscript ν).anomalies = []) :
    SoundTree (parseTranscript content : ParsedTranscript ν).records := by
  simp only [parseTranscript, List.append_eq_nil_iff, List.flatMap_eq_nil_iff] at h
  obtain ⟨⟨⟨hlines, hparents⟩, -⟩, -⟩ := h
  constructor
  · intro r hr r' hr' htree htree' hid
    have hnodup := List.pairwise_map.mpr (lineAnomalies_unique hlines).1
    exact List.inj_on_of_nodup_map hnodup (List.mem_filter.mpr ⟨hr, htree⟩)
      (List.mem_filter.mpr ⟨hr', htree'⟩) hid
  · intro r hr htree parentId hparent
    obtain ⟨hsome, hsession⟩ := (inTree_iff r).mp htree
    obtain ⟨id, hid⟩ := Option.isSome_iff_exists.mp hsome
    have hlink := hparents r hr
    simp only [parentAnomalies, hid, hparent, hsession, Bool.false_eq_true, if_false] at hlink
    split at hlink
    · cases hlink
    · rename_i q hq
      split at hlink
      · cases hlink
      · rename_i hlt
        exact ⟨q, hq, by omega⟩

theorem records_pairwise (content : JsString) :
    (parseTranscript content : ParsedTranscript ν).records.Pairwise
      (·.lineIndex < ·.lineIndex) := by
  have hin : ∀ (lines : List JsString) (k : Nat),
      (recordsIn (lines.zipIdx k) : List (ParsedTranscriptLine ν)).Pairwise
        (·.lineIndex < ·.lineIndex) := by
    intro lines k
    rw [recordsIn, List.pairwise_filterMap]
    refine List.pairwise_iff_getElem.mpr fun i j hi hj hij r hr r' hr' => ?_
    simp only [List.getElem_zipIdx, Option.map_eq_some_iff] at hr hr'
    obtain ⟨-, -, rfl⟩ := hr
    obtain ⟨-, -, rfl⟩ := hr'
    simp only [recordAt]
    omega
  have h := hin content.lines 0
  rw [← records_strip, List.pairwise_map] at h
  exact h

end Anomalies

/-! ## Walks to the root -/

/-- The records from one up to its root. -/
inductive Chain (byId : JsMap JsString (ParsedTranscriptLine ν)) :
    Option (ParsedTranscriptLine ν) → List (ParsedTranscriptLine ν) → Prop
  | root : Chain byId none []
  | step {r : ParsedTranscriptLine ν} {l : List (ParsedTranscriptLine ν)}
      (h : Chain byId (r.parentId.bind (JsMap.get? byId)) l) : Chain byId (some r) (r :: l)

variable {byId : JsMap JsString (ParsedTranscriptLine ν)}
variable {current : Option (ParsedTranscriptLine ν)} {l : List (ParsedTranscriptLine ν)}

theorem Chain.unique {l' : List (ParsedTranscriptLine ν)}
    (h : Chain byId current l) (h' : Chain byId current l') : l = l' := by
  induction h generalizing l' with
  | root => cases h'; rfl
  | step _ ih =>
    cases h' with
    | step h' => rw [ih h']

/-- The walk of `collectBranch` follows the chain when no id comes twice. -/
theorem collectBranch_eq
 (h : Chain byId current l) {fuel : Nat} {visited : List JsString} (hfuel : l.length ≤ fuel)
    (hid : ∀ r ∈ l, r.id.isSome = true) (hnodup : (l.map (·.id)).Nodup)
    (hvisited : ∀ r ∈ l, ∀ id ∈ visited, r.id ≠ some id) :
    collectBranch byId fuel visited current = l := by
  induction h generalizing fuel visited with
  | root => cases fuel <;> rfl
  | @step r l _ ih =>
    cases fuel with
    | zero => simp at hfuel
    | succ fuel =>
      rw [List.forall_mem_cons] at hid hvisited
      rw [List.map_cons, List.nodup_cons] at hnodup
      obtain ⟨id, hr⟩ := Option.isSome_iff_exists.mp hid.1
      have hnew : id ∉ visited := fun hmem => hvisited.1 id hmem hr
      simp only [collectBranch, hr, if_neg hnew]
      rw [ih (by simpa using hfuel) hid.2 hnodup.2]
      intro r' hr' id' hid'
      rw [List.mem_cons] at hid'
      rcases hid' with rfl | hid'
      · intro heq
        exact hnodup.1 (List.mem_map.mpr ⟨r', hr', heq.trans hr.symm⟩)
      · exact hvisited.2 r' hr' id' hid'

theorem selectActiveBranch_eq (h : Chain (indexById records)
      ((activeLeafId records).bind (JsMap.get? (indexById records))) l)
    (hkey : ∀ r ∈ l, ∃ id, r.id = some id ∧ JsMap.get? (indexById records) id = some r)
    (hnodup : (l.map (·.id)).Nodup) :
    selectActiveBranch records (indexById records) = l.reverse := by
  have hlength : l.length ≤ (indexById records).length := by
    have hsub : l.map (·.id) ⊆ (indexById records).map (fun entry => some entry.1) := by
      intro id hid
      obtain ⟨r, hr, rfl⟩ := List.mem_map.mp hid
      obtain ⟨key, hrid, hget⟩ := hkey r hr
      exact List.mem_map.mpr ⟨(key, r), JsMap.mem_of_get? hget, hrid.symm⟩
    simpa using (hnodup.subperm hsub).length_le
  rw [selectActiveBranch]
  cases hleaf : activeLeafId records with
  | none =>
    rw [hleaf] at h
    cases h
    rfl
  | some leafId =>
    rw [hleaf, Option.bind_some] at h
    dsimp only
    rw [collectBranch_eq h (by omega) (fun r hr => ?_) hnodup (by simp)]
    obtain ⟨id, hid, -⟩ := hkey r hr
    simp [hid]

structure Walk (records : List (ParsedTranscriptLine ν)) (current : Option (ParsedTranscriptLine ν))
    (l : List (ParsedTranscriptLine ν)) : Prop where
  chain : Chain (indexById records) current l
  mem : ∀ r ∈ l, r ∈ records ∧ r.inTree = true
  nodup : (l.map (·.id)).Nodup

theorem Chain.nil (h : Chain byId current []) : current = none := by
  cases h
  rfl

theorem Walk.cons (h : Walk records current (r :: l)) :
    current = some r ∧ Walk records (r.parentId.bind (JsMap.get? (indexById records))) l := by
  obtain ⟨hchain, hmem, hnodup⟩ := h
  cases hchain with
  | step hchain =>
    exact ⟨rfl, hchain, (List.forall_mem_cons.mp hmem).2, (List.nodup_cons.mp hnodup).2⟩

/-- In a sound tree every walk ends: the parent stands before the child. -/
theorem SoundTree.exists_walk (h : SoundTree records)
    (id : Option JsString) : ∃ l, Walk records (id.bind (JsMap.get? (indexById records))) l := by
  have hchain : ∀ (n : Nat) (current : Option (ParsedTranscriptLine ν)),
      (∀ r, current = some r → r ∈ records ∧ r.inTree = true ∧ r.lineIndex < n) →
      ∃ l, Chain (indexById records) current l ∧
        (∀ r ∈ l, r ∈ records ∧ r.inTree = true ∧ r.lineIndex < n) ∧
        l.Pairwise fun r r' => r'.lineIndex < r.lineIndex := by
    intro n
    induction n using Nat.strongRecOn with
    | ind n ih =>
      intro current hcurrent
      cases current with
      | none => exact ⟨[], .root, by simp, .nil⟩
      | some r =>
        obtain ⟨hr, htree, hlt⟩ := hcurrent r rfl
        obtain ⟨l, hl, hmem, hpairwise⟩ := ih r.lineIndex hlt
          (r.parentId.bind (JsMap.get? (indexById records))) (by
            intro q hq
            obtain ⟨parentId, hparent, hget⟩ := Option.bind_eq_some_iff.mp hq
            obtain ⟨q', hq', hbefore⟩ := h.parent r hr htree parentId hparent
            obtain rfl := Option.some.inj (hget.symm.trans hq')
            exact ⟨(get?_indexById hget).1, (get?_indexById hget).2.1, hbefore⟩)
        refine ⟨r :: l, .step hl, ?_, List.pairwise_cons.mpr ⟨fun r' hr' => (hmem r' hr').2.2, hpairwise⟩⟩
        rw [List.forall_mem_cons]
        exact ⟨⟨hr, htree, hlt⟩, fun r' hr' =>
          ⟨(hmem r' hr').1, (hmem r' hr').2.1, Nat.lt_trans (hmem r' hr').2.2 hlt⟩⟩
  have hstart : ∀ r, id.bind (JsMap.get? (indexById records)) = some r →
      r ∈ records ∧ r.inTree = true := by
    intro r hr
    obtain ⟨id, -, hget⟩ := Option.bind_eq_some_iff.mp hr
    exact ⟨(get?_indexById hget).1, (get?_indexById hget).2.1⟩
  obtain ⟨l, hl, hmem, hpairwise⟩ := hchain
    (((id.bind (JsMap.get? (indexById records))).map (·.lineIndex + 1)).getD 0) _
    (fun r hr => ⟨(hstart r hr).1, (hstart r hr).2, by simp [hr]⟩)
  refine ⟨l, hl, fun r hr => ⟨(hmem r hr).1, (hmem r hr).2.1⟩, List.pairwise_map.mpr ?_⟩
  refine hpairwise.imp_of_mem fun {r r'} hr hr' hlt hid => ?_
  have := h.unique r (hmem r hr).1 r' (hmem r' hr').1 (hmem r hr).2.1 (hmem r' hr').2.1 hid
  rw [this] at hlt
  omega

/-- The active branch of a sound tree is the walk from its leaf. -/
theorem SoundTree.selectActiveBranch_eq (h : SoundTree records)
    (hl : Walk records ((activeLeafId records).bind (JsMap.get? (indexById records))) l) :
    selectActiveBranch records (indexById records) = l.reverse := by
  refine Server.selectActiveBranch_eq hl.chain (fun r hr => ?_) hl.nodup
  obtain ⟨hmem, htree⟩ := hl.mem r hr
  obtain ⟨id, hid⟩ := Option.isSome_iff_exists.mp ((inTree_iff r).mp htree).1
  exact ⟨id, hid, h.get?.mpr ⟨hmem, htree, hid⟩⟩

end Bobbit.Server
