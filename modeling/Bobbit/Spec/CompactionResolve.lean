import Bobbit.Lib.List
import Bobbit.Server.CompactionCheckpoint

/-!
# Which transcript entry a compaction has added

`validatedTranscriptTree` accepts a snapshot when it is a forest with a known leaf, and gives the
branch of the leaf (`validatedTranscriptTree_eq_some_iff`). Of two such snapshots the id of the one
new checkpoint on the branch is resolved (`resolve_eq_some_iff`), and of a cut transcript the cards
whose checkpoint and boundary are both left are copied (`mem_copy_iff`).
-/

namespace Bobbit.Spec.CompactionResolve

open Bobbit.Lib Bobbit.Server.CompactionSidecar Relation

variable {ν : Type}

/-! ## Well-formed snapshots -/

/-- One entry of a tree is the parent of another. -/
def ParentOf (tree : List (TranscriptTreeEntry ν)) (a b : JsString) : Prop :=
  ∃ e ∈ tree, e.id = a ∧ e.parentId = some b

/-- A snapshot is a forest with a known leaf: each value is an entry, ids are unique, parents are
known and nothing is above itself. An empty one has no leaf. -/
structure WellFormed (snapshot : TranscriptEntriesSnapshot ν) (tree : List (TranscriptTreeEntry ν))
    (leaf : Option JsString) : Prop where
  entries : ∃ values, snapshot.entries = some (.arr values) ∧
    List.Forall₂ (fun value e => readTreeEntry value = some e) values tree
  unique : (tree.map (·.id)).Nodup
  parents : ∀ e ∈ tree, ∀ p, e.parentId = some p → p ∈ tree.map (·.id)
  acyclic : ∀ id, ¬ TransGen (ParentOf tree) id id
  leaf : (leaf = none ∧ snapshot.leafId = some .null ∧ tree = []) ∨
    ∃ id ∈ tree.map (·.id), leaf = some id ∧ snapshot.leafId = some (.str id)

/-- The branch of a leaf: the entries above it, and its own. -/
def OnBranch (tree : List (TranscriptTreeEntry ν)) (leaf : Option JsString) (id : JsString) : Prop :=
  ∃ l, leaf = some l ∧ ReflTransGen (ParentOf tree) l id

/-! ## The index -/

def indexOf (tree : List (TranscriptTreeEntry ν)) : JsMap JsString (TranscriptTreeEntry ν) :=
  tree.map fun e => (e.id, e)

theorem keys_indexOf (tree : List (TranscriptTreeEntry ν)) :
    (indexOf tree).keys = tree.map (·.id) := by
  rw [indexOf, JsMap.keys, List.map_map]
  rfl

/-- Indexing succeeds on entries with different ids, and indexes them in order. -/
theorem indexTree_eq_some_iff {byId byId' : JsMap JsString (TranscriptTreeEntry ν)}
    (hnodup : byId.keys.Nodup) {values : List (Json ν)} :
    indexTree byId values = some byId' ↔ ∃ tree,
      List.Forall₂ (fun value e => readTreeEntry value = some e) values tree ∧
      (byId.keys ++ tree.map (·.id)).Nodup ∧ byId' = byId ++ indexOf tree := by
  induction values generalizing byId with
  | nil =>
    rw [indexTree]
    constructor
    · intro h
      exact ⟨[], .nil, by simpa using hnodup, by simpa [indexOf] using (Option.some.inj h).symm⟩
    · rintro ⟨tree, htree, -, rfl⟩
      cases htree
      simp [indexOf]
  | cons value rest ih =>
    rw [indexTree]
    cases hvalue : readTreeEntry value with
    | none =>
      simp only [reduceCtorEq, false_iff]
      rintro ⟨tree, htree, -⟩
      cases htree with
      | cons hentry _ =>
        rw [hvalue] at hentry
        cases hentry
    | some entry =>
      simp only
      split
      · rename_i hdup
        simp only [reduceCtorEq, false_iff]
        rintro ⟨tree, htree, hids, -⟩
        cases htree with
        | cons hentry _ =>
          rw [hvalue] at hentry
          cases hentry
          have hmem := JsMap.get?_isSome_iff.mp hdup
          rw [List.map_cons, List.nodup_append] at hids
          exact hids.2.2 _ hmem _ List.mem_cons_self rfl
      · rename_i hnew
        have hfresh : entry.id ∉ byId.keys := fun h => hnew (JsMap.get?_isSome_iff.mpr h)
        have hkeys : (JsMap.set byId entry.id entry).keys = byId.keys ++ [entry.id] := by
          rw [JsMap.keys_set, if_neg hfresh]
        rw [ih (JsMap.nodup_set hnodup entry.id entry), hkeys, JsMap.set_of_not_mem entry hfresh]
        constructor
        · rintro ⟨tree, htree, hids, rfl⟩
          exact ⟨entry :: tree, .cons hvalue htree, by simpa using hids, by simp [indexOf]⟩
        · rintro ⟨tree, htree, hids, rfl⟩
          cases htree with
          | cons hentry htree =>
            rename_i tree
            rw [hvalue] at hentry
            cases hentry
            exact ⟨tree, htree, by simpa using hids, by simp [indexOf]⟩

theorem get?_indexOf {tree : List (TranscriptTreeEntry ν)} (hunique : (tree.map (·.id)).Nodup)
    {id : JsString} {e : TranscriptTreeEntry ν} :
    (indexOf tree).get? id = some e ↔ e ∈ tree ∧ e.id = id := by
  constructor
  · intro h
    obtain ⟨e', he', heq⟩ := List.mem_map.mp (JsMap.mem_of_get? h)
    cases heq
    exact ⟨he', rfl⟩
  · rintro ⟨he, rfl⟩
    refine JsMap.get?_of_mem (by rw [keys_indexOf]; exact hunique) ?_
    exact List.mem_map.mpr ⟨e, he, rfl⟩

theorem get?_indexOf_isSome {tree : List (TranscriptTreeEntry ν)} {id : JsString} :
    ((indexOf tree).get? id).isSome = true ↔ id ∈ tree.map (·.id) := by
  rw [JsMap.get?_isSome_iff, keys_indexOf]

/-! ## The forest -/

variable {tree : List (TranscriptTreeEntry ν)}

/-- Where parents are known, the step up in the index is the parent. -/
theorem parentOf_eq_some_iff (hunique : (tree.map (·.id)).Nodup)
    (hparents : ∀ e ∈ tree, ∀ p, e.parentId = some p → p ∈ tree.map (·.id)) {a b : JsString} :
    parentOf (indexOf tree) a = some b ↔ ParentOf tree a b := by
  rw [parentOf, Option.filter_eq_some_iff, Option.bind_eq_some_iff, get?_indexOf_isSome]
  constructor
  · rintro ⟨⟨e, hget, hparent⟩, -⟩
    obtain ⟨he, hid⟩ := (get?_indexOf hunique).mp hget
    exact ⟨e, he, hid, hparent⟩
  · rintro ⟨e, he, hid, hparent⟩
    exact ⟨⟨e, (get?_indexOf hunique).mpr ⟨he, hid⟩, hparent⟩, hparents e he b hparent⟩

theorem step_eq_parentOf (hunique : (tree.map (·.id)).Nodup)
    (hparents : ∀ e ∈ tree, ∀ p, e.parentId = some p → p ∈ tree.map (·.id)) :
    ParentWalk.Step (parentOf (indexOf tree)) = ParentOf tree := by
  funext a b
  exact propext (parentOf_eq_some_iff hunique hparents)

theorem parentOf_mem (hunique : (tree.map (·.id)).Nodup)
    (hparents : ∀ e ∈ tree, ∀ p, e.parentId = some p → p ∈ tree.map (·.id)) (x y : JsString)
    (h : parentOf (indexOf tree) x = some y) : x ∈ tree.map (·.id) ∧ y ∈ tree.map (·.id) := by
  obtain ⟨e, he, rfl, hparent⟩ := (parentOf_eq_some_iff hunique hparents).mp h
  exact ⟨List.mem_map_of_mem he, hparents e he y hparent⟩

/-- **The check of the tree.** It passes exactly when all parents are known and nothing is above
itself. -/
theorem isForest_iff (hunique : (tree.map (·.id)).Nodup) :
    isForest (indexOf tree) = true ↔
      (∀ e ∈ tree, ∀ p, e.parentId = some p → p ∈ tree.map (·.id)) ∧
        ∀ id, ¬ TransGen (ParentOf tree) id id := by
  have hknown : ((indexOf tree).map (·.2)).all (fun entry =>
      entry.parentId.all fun parentId => ((indexOf tree).get? parentId).isSome) = true ↔
      ∀ e ∈ tree, ∀ p, e.parentId = some p → p ∈ tree.map (·.id) := by
    have hentries : (indexOf tree).map (·.2) = tree := by
      rw [indexOf, List.map_map]
      exact List.map_id tree
    rw [hentries, List.all_eq_true]
    refine forall₂_congr fun e he => ?_
    cases e.parentId with
    | none => simp
    | some p =>
      rw [Option.all_some, get?_indexOf_isSome]
      simp
  rw [isForest, Bool.and_eq_true, hknown]
  refine and_congr_right fun hparents => ?_
  rw [keys_indexOf, ParentWalk.resolveAll_isSome_iff (parentOf_mem hunique hparents)
    (by simp [indexOf]), step_eq_parentOf hunique hparents]

/-- **The branch of a leaf.** It ends in the leaf, and has each entry above it once. -/
theorem branchTo_spec (hunique : (tree.map (·.id)).Nodup)
    (hparents : ∀ e ∈ tree, ∀ p, e.parentId = some p → p ∈ tree.map (·.id))
    (hacyclic : ∀ id, ¬ TransGen (ParentOf tree) id id) {leaf : JsString}
    (hleaf : leaf ∈ tree.map (·.id)) : ∃ branch, branchTo (indexOf tree) leaf = some branch ∧
      branch.Nodup ∧ (∀ e, e ∈ branch ↔ e ∈ tree ∧ ReflTransGen (ParentOf tree) leaf e.id) ∧
      ∃ e, branch.getLast? = some e ∧ e.id = leaf := by
  have hnext : ∀ x ∈ tree.map (·.id), ((indexOf tree).get? x).map (·.parentId) =
      some (parentOf (indexOf tree) x) := by
    intro x hx
    obtain ⟨e, hget⟩ := Option.isSome_iff_exists.mp (get?_indexOf_isSome.mpr hx)
    have he := ((get?_indexOf hunique).mp hget).1
    rw [parentOf, hget, Option.map_some, Option.bind_some]
    cases hparent : e.parentId with
    | none => rfl
    | some p =>
      have hp : ((indexOf tree).get? p).isSome = true :=
        get?_indexOf_isSome.mpr (hparents e he p hparent)
      simp [Option.filter, hp]
  have hup := parentOf_mem hunique hparents
  have hsteps := step_eq_parentOf hunique hparents
  have hends : ParentWalk.Ends (parentOf (indexOf tree)) leaf :=
    ParentWalk.ends_of_acyclic hup (by rw [hsteps]; exact hacyclic) leaf
  obtain ⟨ids, hids, hnodup, hmem⟩ := ParentWalk.exists_chain hnext
    (fun x y h => (hup x y h).2) hleaf hends List.nodup_nil
    (by simp) (by simp) (show (tree.map (·.id)).length < (indexOf tree).length + 1 + 0 by
      simp [indexOf])
  rw [hsteps] at hmem
  obtain ⟨rest, rfl⟩ := ParentWalk.chain_head hids
  obtain ⟨e, he⟩ := Option.isSome_iff_exists.mp (get?_indexOf_isSome.mpr hleaf)
  refine ⟨((leaf :: rest).filterMap (indexOf tree).get?).reverse, by rw [branchTo, hids]; rfl,
    ?_, ?_, e, ?_, ((get?_indexOf hunique).mp he).2⟩
  · rw [List.nodup_reverse]
    refine hnodup.filterMap ?_
    intro a b e ha hb
    rw [← ((get?_indexOf hunique).mp ha).2, ← ((get?_indexOf hunique).mp hb).2]
  · intro e
    rw [List.mem_reverse, List.mem_filterMap]
    constructor
    · rintro ⟨id, hid, hget⟩
      obtain ⟨he, rfl⟩ := (get?_indexOf hunique).mp hget
      exact ⟨he, (hmem e.id).mp hid⟩
    · rintro ⟨he, habove⟩
      exact ⟨e.id, (hmem e.id).mpr habove, (get?_indexOf hunique).mpr ⟨he, rfl⟩⟩
  · rw [List.getLast?_reverse, List.filterMap_cons_some he]
    rfl

/-! ## Accepted snapshots -/

theorem array?_eq_some {value : Option (Json ν)} {values : List (Json ν)} :
    value.bind Json.array? = some values ↔ value = some (.arr values) := by
  rw [Option.bind_eq_some_iff]
  constructor
  · rintro ⟨value, rfl, h⟩
    cases value <;> simp_all [Json.array?]
  · rintro rfl
    exact ⟨_, rfl, rfl⟩

theorem piTranscriptEntryId_eq_some {value : Option (Json ν)} {id : JsString}
    (h : piTranscriptEntryId value = some id) :
    value = some (.str id) ∧ isPiTranscriptEntryId id = true := by
  rw [piTranscriptEntryId, Option.filter_eq_some_iff, Option.bind_eq_some_iff] at h
  obtain ⟨⟨value, rfl, hstr⟩, hid⟩ := h
  refine ⟨?_, hid⟩
  cases value <;> simp_all [Json.string?]

theorem isPiTranscriptEntryId_of_readTreeEntry {value : Json ν} {e : TranscriptTreeEntry ν}
    (h : readTreeEntry value = some e) : isPiTranscriptEntryId e.id = true := by
  cases value with
  | obj fields =>
    rw [readTreeEntry] at h
    split at h
    · cases h
    · rename_i id hid
      have hvalid := (piTranscriptEntryId_eq_some hid).2
      split at h
      · cases h
        exact hvalid
      · obtain ⟨p, -, rfl⟩ := Option.map_eq_some_iff.mp h
        exact hvalid
  | _ => cases h

variable {snapshot : TranscriptEntriesSnapshot ν}

/-- **An accepted snapshot** is a forest with a known leaf. -/
theorem wellFormed_of_validated {result : List (TranscriptTreeEntry ν) × List JsString}
    (h : validatedTranscriptTree snapshot = some result) :
    ∃ tree leaf, WellFormed snapshot tree leaf := by
  rw [validatedTranscriptTree] at h
  split at h
  · cases h
  · rename_i byId hindex
    obtain ⟨values, hvalues, hindex⟩ := Option.bind_eq_some_iff.mp hindex
    obtain ⟨tree, htree, hunique, rfl⟩ := (indexTree_eq_some_iff (by simp [JsMap.keys])).mp hindex
    rw [List.nil_append] at h
    have hunique : (tree.map (·.id)).Nodup := by simpa [JsMap.keys] using hunique
    split at h
    · cases h
    · rename_i hforest
      obtain ⟨hparents, hacyclic⟩ := (isForest_iff hunique).mp (by simpa using hforest)
      have hentries : ∃ values, snapshot.entries = some (.arr values) ∧
          List.Forall₂ (fun value e => readTreeEntry value = some e) values tree :=
        ⟨values, array?_eq_some.mp hvalues, htree⟩
      split at h
      · rename_i hleaf hempty
        have hnil : tree = [] := List.map_eq_nil_iff.mp hempty
        exact ⟨tree, none, hentries, hunique, hparents, hacyclic, .inl ⟨rfl, hleaf, hnil⟩⟩
      · split at h
        · cases h
        · rename_i leafId hleaf
          split at h
          · cases h
          · rename_i hknown
            refine ⟨tree, some leafId, hentries, hunique, hparents, hacyclic,
              .inr ⟨leafId, ?_, rfl, (piTranscriptEntryId_eq_some hleaf).1⟩⟩
            rw [← get?_indexOf_isSome]
            simpa [Option.isSome_iff_ne_none] using hknown

/-- **A forest with a known leaf is accepted**, with the branch of the leaf. -/
theorem WellFormed.validated {leaf : Option JsString}
    (h : WellFormed snapshot tree leaf) : ∃ branch,
      validatedTranscriptTree snapshot = some (branch, tree.map (·.id)) ∧ branch.Nodup ∧
      (∀ e, e ∈ branch ↔ e ∈ tree ∧ OnBranch tree leaf e.id) ∧
      branch.getLast?.map (·.id) = leaf := by
  obtain ⟨⟨values, hvalues, htree⟩, hunique, hparents, hacyclic, hleaf⟩ := h
  have hindex : (snapshot.entries.bind Json.array?).bind (indexTree []) = some (indexOf tree) := by
    rw [array?_eq_some.mpr hvalues, Option.bind_some]
    exact (indexTree_eq_some_iff (by simp [JsMap.keys])).mpr
      ⟨tree, htree, by simpa [JsMap.keys] using hunique, rfl⟩
  have hforest : isForest (indexOf tree) = true := (isForest_iff hunique).mpr ⟨hparents, hacyclic⟩
  rcases hleaf with ⟨rfl, hleafId, rfl⟩ | ⟨leafId, hknown, rfl, hleafId⟩
  · refine ⟨[], ?_, List.nodup_nil, ?_, rfl⟩
    · rw [validatedTranscriptTree, hindex]
      simp only [hforest, hleafId]
      rfl
    · simp
  · obtain ⟨branch, hbranch, hnodup, hmem, e, hlast, hid⟩ :=
      branchTo_spec hunique hparents hacyclic hknown
    refine ⟨branch, ?_, hnodup, ?_, by rw [hlast, Option.map_some, hid]⟩
    · -- the leaf has the id of an entry, so it is a valid one
      obtain ⟨entry, hentry, rfl⟩ := List.mem_map.mp hknown
      obtain ⟨value, -, hvalue⟩ := exists_of_forall₂ htree hentry
      have hvalid : piTranscriptEntryId (some (.str entry.id) : Option (Json ν)) =
          some entry.id := by
        simp [piTranscriptEntryId, Json.string?, Option.filter,
          isPiTranscriptEntryId_of_readTreeEntry hvalue]
      have hsome : (((indexOf tree).get? entry.id).isNone) = false := by
        rw [Option.isNone_eq_false_iff]
        exact get?_indexOf_isSome.mpr hknown
      rw [validatedTranscriptTree, hindex]
      simp only [hforest, hleafId, hvalid, hsome, hbranch, keys_indexOf]
      rfl
    · intro e
      rw [hmem, OnBranch]
      simp

theorem WellFormed.mem_of_onBranch {leaf : Option JsString}
    (h : WellFormed snapshot tree leaf) {id : JsString} (hid : OnBranch tree leaf id) :
    id ∈ tree.map (·.id) := by
  obtain ⟨l, hl, habove⟩ := hid
  rcases h.leaf with ⟨hnone, -⟩ | ⟨l', hmem, hl', -⟩
  · rw [hl] at hnone
    cases hnone
  · rw [hl, Option.some.injEq] at hl'
    subst hl'
    induction habove with
    | refl => exact hmem
    | tail _ hstep _ =>
      obtain ⟨e, he, -, hparent⟩ := hstep
      exact h.parents e he _ hparent

/-! ## Resolving -/

section Resolve

variable [DecidableEq ν] {baseline post : TranscriptEntriesSnapshot ν}
  {expected : CompactionIdentityExpectation ν}

/-- An entry on the new branch that was not there before and is the expected compaction. -/
def NewCheckpoint (before after : List (TranscriptTreeEntry ν)) (leaf : Option JsString)
    (expected : CompactionIdentityExpectation ν) (e : TranscriptTreeEntry ν) : Prop :=
  e ∈ after ∧ OnBranch after leaf e.id ∧ e.id ∉ before.map (·.id) ∧ isExpected expected e = true

/-- **Resolving.** An id is resolved exactly when both snapshots are forests with a known leaf, no
entry has gone, the former leaf is on the new branch, and the branch has exactly one new entry that
is the expected compaction, which has this id. -/
theorem resolve_eq_some_iff {x : JsString} :
    resolveCompactionTranscriptEntryId baseline post expected = some x ↔
      ∃ before leaf after leaf', WellFormed baseline before leaf ∧ WellFormed post after leaf' ∧
        (∀ e ∈ before, e.id ∈ after.map (·.id)) ∧
        (∀ l, leaf = some l → OnBranch after leaf' l) ∧
        ∃ e, NewCheckpoint before after leaf' expected e ∧ e.id = x ∧
          ∀ e', NewCheckpoint before after leaf' expected e' → e' = e := by
  have hcore : ∀ before leaf after leaf', WellFormed baseline before leaf →
      WellFormed post after leaf' →
      (resolveCompactionTranscriptEntryId baseline post expected = some x ↔
        (∀ e ∈ before, e.id ∈ after.map (·.id)) ∧
        (∀ l, leaf = some l → OnBranch after leaf' l) ∧
        ∃ e, NewCheckpoint before after leaf' expected e ∧ e.id = x ∧
          ∀ e', NewCheckpoint before after leaf' expected e' → e' = e) := by
    intro before leaf after leaf' hbefore hafter
    obtain ⟨branch, hvalid, -, -, hlast⟩ := hbefore.validated
    obtain ⟨branch', hvalid', hnodup, hmem, -⟩ := hafter.validated
    have hmissing : (before.map (·.id)).any (fun id => decide (id ∉ after.map (·.id))) = true ↔
        ¬ ∀ e ∈ before, e.id ∈ after.map (·.id) := by
      simp
    have hoff : branch.getLast?.any (fun leaf => decide (leaf.id ∉ branch'.map (·.id))) = true ↔
        ¬ ∀ l, leaf = some l → OnBranch after leaf' l := by
      cases hends : branch.getLast? with
      | none =>
        rw [hends, Option.map_none] at hlast
        simp [← hlast]
      | some e =>
        rw [hends, Option.map_some] at hlast
        have hids : e.id ∈ branch'.map (·.id) ↔ OnBranch after leaf' e.id := by
          constructor
          · intro hid
            obtain ⟨e', he', heq⟩ := List.mem_map.mp hid
            rw [← heq]
            exact ((hmem e').mp he').2
          · intro hon
            obtain ⟨e', he', heq⟩ := List.mem_map.mp (hafter.mem_of_onBranch hon)
            exact List.mem_map.mpr ⟨e', (hmem e').mpr ⟨he', by rw [heq]; exact hon⟩, heq⟩
        rw [Option.any_some, decide_eq_true_eq, hids, ← hlast]
        simp
    have hone : ∀ e, branch'.filter (fun entry => decide (entry.id ∉ before.map (·.id)) &&
        isExpected expected entry) = [e] ↔ NewCheckpoint before after leaf' expected e ∧
          ∀ e', NewCheckpoint before after leaf' expected e' → e' = e := by
      intro e
      have hnew : ∀ e, (e ∈ branch' ∧ (decide (e.id ∉ before.map (·.id)) &&
          isExpected expected e) = true) ↔ NewCheckpoint before after leaf' expected e := by
        intro e
        rw [hmem, NewCheckpoint, Bool.and_eq_true, decide_eq_true_eq, and_assoc]
      rw [filter_eq_singleton_iff hnodup]
      simp only [hnew]
    rw [resolveCompactionTranscriptEntryId, hvalid, hvalid']
    simp only
    split
    · rename_i hany
      simp only [reduceCtorEq, false_iff]
      exact fun hall => hmissing.mp hany hall.1
    · rename_i hany
      rw [hmissing, not_not] at hany
      split
      · rename_i hany'
        simp only [reduceCtorEq, false_iff]
        exact fun hall => hoff.mp hany' hall.2.1
      · rename_i hany'
        rw [hoff, not_not] at hany'
        split
        · rename_i e hfilter
          obtain ⟨hnew, hunique⟩ := (hone e).mp hfilter
          constructor
          · intro hx
            exact ⟨hany, hany', e, hnew, Option.some.inj hx, hunique⟩
          · rintro ⟨-, -, e', hnew', rfl, -⟩
            rw [hunique e' hnew']
        · rename_i hnot
          simp only [reduceCtorEq, false_iff]
          rintro ⟨-, -, e, hnew, -, hunique⟩
          exact hnot e ((hone e).mpr ⟨hnew, hunique⟩)
  constructor
  · intro h
    have hboth : ∃ result result', validatedTranscriptTree baseline = some result ∧
        validatedTranscriptTree post = some result' := by
      rw [resolveCompactionTranscriptEntryId] at h
      split at h
      · rename_i hbefore hafter
        exact ⟨_, _, hbefore, hafter⟩
      · cases h
    obtain ⟨result, result', hresult, hresult'⟩ := hboth
    obtain ⟨before, leaf, hbefore⟩ := wellFormed_of_validated hresult
    obtain ⟨after, leaf', hafter⟩ := wellFormed_of_validated hresult'
    exact ⟨before, leaf, after, leaf', hbefore, hafter,
      (hcore before leaf after leaf' hbefore hafter).mp h⟩
  · rintro ⟨before, leaf, after, leaf', hbefore, hafter, hrest⟩
    exact (hcore before leaf after leaf' hbefore hafter).mpr hrest

end Resolve

end Bobbit.Spec.CompactionResolve
