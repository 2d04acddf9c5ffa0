import Bobbit.Lib.List
import Bobbit.Server.TranscriptCursor

/-!
# Which transcript entry a visible prompt comes from

The visible list has no ids, so prompts are matched by their order in the active context: the
branch from the leaf to the root, cut by its latest compaction. A match is all or nothing, and each
matched prompt has the text of its entry.

## Key results

- `parseCursorEntries_branch`: the active branch, and that the walk to the root ends.
- `contextEntries_eq`: what a compaction keeps.
- `correlate_aligned`: what an answer says, for any list and any snapshot.
- `placeAll_render`: the answer for a list that renders the context.
- `correlateTranscriptPromptEntryIds_exact`: ids go to the renderings of their entries, and to
  no prompt that is not in the transcript yet.
-/

namespace Bobbit.Spec.TranscriptCursor

open Bobbit.Lib Bobbit.Shared.MessageAuthor Bobbit.Server Bobbit.Server.TranscriptCursor

variable {ν : Type}

/-! ## The active branch -/

/-- Every entry of the map stands under its own id. -/
def KeyedById (byId : JsMap JsString (CursorEntry ν)) : Prop :=
  ∀ id entry, JsMap.get? byId id = some entry → entry.id = id

variable {byId : JsMap JsString (CursorEntry ν)}

theorem keyedById_indexEntries {result : JsMap JsString (CursorEntry ν)}
    {entries : List (Json ν)} (h : indexEntries byId entries = some result)
    (hkeyed : KeyedById byId) : KeyedById result := by
  induction entries generalizing byId with
  | nil =>
    obtain rfl := Option.some.inj h
    exact hkeyed
  | cons value rest ih =>
    rw [indexEntries] at h
    split at h
    · cases h
    · rename_i entry hentry
      split at h
      · cases h
      · refine ih h ?_
        intro id found hfound
        rw [JsMap.get?_set] at hfound
        split at hfound
        · rename_i hid
          rw [← Option.some.inj hfound, hid]
        · exact hkeyed id found hfound

/-- The branch of a leaf: a path of entries from a root to the leaf, none of them twice. -/
structure IsBranch (leafId : JsString) (branch : List (CursorEntry ν)) : Prop where
  nodup : (branch.map (·.id)).Nodup
  linked : branch.IsChain fun parent child => child.parentId = some parent.id
  root : ∀ entry ∈ branch.head?, entry.parentId = none
  leaf : branch.getLast?.map (·.id) = some leafId

theorem map_id_filterMap (hkeyed : KeyedById byId)
    {ids : List JsString} (h : ∀ id ∈ ids, (JsMap.get? byId id).isSome = true) :
    (ids.filterMap (JsMap.get? byId)).map (·.id) = ids := by
  induction ids with
  | nil => rfl
  | cons id rest ih =>
    obtain ⟨entry, hentry⟩ := Option.isSome_iff_exists.mp (h id List.mem_cons_self)
    rw [List.filterMap_cons_some hentry, List.map_cons, hkeyed id entry hentry,
      ih fun other hother => h other (List.mem_cons_of_mem id hother)]

variable {branch : List (CursorEntry ν)}

theorem isBranch_branchTo (hkeyed : KeyedById byId)
    {leafId : JsString} (h : branchTo byId leafId = some branch) : IsBranch leafId branch := by
  obtain ⟨ids, hids, rfl⟩ := Option.map_eq_some_iff.mp h
  obtain ⟨hnodup, -, hknown, hhead, hlinks, hlast⟩ := ParentWalk.chain_links hids
  -- every id of the walk was looked up
  have hall : ∀ id ∈ ids, (JsMap.get? byId id).isSome = true := by
    intro id hid
    have hnext := hknown id hid
    rwa [Option.isSome_map] at hnext
  have hmap := map_id_filterMap hkeyed hall
  have hget : ∀ entry ∈ ids.filterMap (JsMap.get? byId),
      JsMap.get? byId entry.id = some entry := by
    intro entry hentry
    obtain ⟨id, -, hfound⟩ := List.mem_filterMap.mp hentry
    rw [hkeyed id entry hfound, hfound]
  rw [← hmap] at hnodup hhead hlinks hlast
  refine ⟨?_, ?_, ?_, ?_⟩
  · rw [List.map_reverse]
    exact List.nodup_reverse.mpr hnodup
  · rw [List.isChain_reverse]
    refine ((List.isChain_map _).mp hlinks).imp_of_mem_imp ?_
    intro child parent hchild _ hlink
    rw [hget child hchild] at hlink
    exact Option.some.inj hlink
  · intro entry hentry
    rw [List.head?_reverse] at hentry
    have hroot := hlast entry.id (by rw [List.getLast?_map, hentry]; rfl)
    rw [hget entry (List.mem_of_getLast? hentry)] at hroot
    exact Option.some.inj hroot
  · rw [List.getLast?_reverse, ← List.head?_map]
    exact hhead

variable {forkTextById : JsMap JsString JsString}

/-- A snapshot that is read has the branch of its leaf, or nothing at all. -/
theorem parseCursorEntries_branch {snapshot : TranscriptCursorSnapshot ν}
 (h : parseCursorEntries snapshot = some (branch, forkTextById)) :
    branch = [] ∨ ∃ leafId, IsBranch leafId branch := by
  rw [parseCursorEntries] at h
  split at h
  · split at h
    · cases h
    · rename_i byId hbyId
      have hkeyed : KeyedById byId := keyedById_indexEntries hbyId (fun _ _ hnone => by cases hnone)
      split at h
      · exact .inl (Prod.mk.inj (Option.some.inj h)).1.symm
      · split at h
        · cases h
        · rename_i leafId _
          split at h
          · cases h
          · split at h
            · cases h
            · rename_i found hfound
              obtain ⟨texts, -, hpair⟩ := Option.map_eq_some_iff.mp h
              obtain ⟨rfl, rfl⟩ := Prod.mk.inj hpair
              exact .inr ⟨leafId, isBranch_branchTo hkeyed hfound⟩
  · cases h

/-! ## The context -/

/-- What is retained is the part from the first kept entry on. -/
theorem retainedBefore_eq (firstKeptEntryId : Option JsString) (entries : List (CursorEntry ν)) :
    retainedBefore firstKeptEntryId false entries =
      entries.dropWhile fun entry => some entry.id ≠ firstKeptEntryId := by
  have htrue : ∀ entries : List (CursorEntry ν),
      retainedBefore firstKeptEntryId true entries = entries := by
    intro entries
    induction entries with
    | nil => rfl
    | cons entry rest ih =>
      rw [retainedBefore]
      simp only [Bool.true_or, if_true]
      rw [ih]
  induction entries with
  | nil => rfl
  | cons entry rest ih =>
    rw [retainedBefore, List.dropWhile_cons]
    by_cases hkept : some entry.id = firstKeptEntryId
    · simp [hkept, htrue]
    · simp [hkept, ih]

/-- The latest compaction is the last entry that is one. -/
theorem latestCompactionIndex_cases (branch : List (CursorEntry ν)) :
    (latestCompactionIndex branch = none ∧ ∀ entry ∈ branch, entry.type ≠ js "compaction") ∨
      ∃ before compaction after, branch = before ++ compaction :: after ∧
        compaction.type = js "compaction" ∧ (∀ entry ∈ after, entry.type ≠ js "compaction") ∧
        latestCompactionIndex branch = some before.length := by
  induction branch using List.reverseRecOn with
  | nil => exact .inl ⟨rfl, by simp⟩
  | append_singleton branch entry ih =>
    by_cases hentry : entry.type = js "compaction"
    · refine .inr ⟨branch, entry, [], rfl, hentry, by simp, ?_⟩
      simp [latestCompactionIndex, List.zipIdx_append, hentry]
    · -- an entry at the end that is no compaction changes nothing
      have hsame : latestCompactionIndex (branch ++ [entry]) = latestCompactionIndex branch := by
        simp [latestCompactionIndex, List.zipIdx_append, hentry]
      rw [hsame]
      cases ih with
      | inl hnone =>
        refine .inl ⟨hnone.1, ?_⟩
        intro other hother
        cases List.mem_append.mp hother with
        | inl hold => exact hnone.2 other hold
        | inr hnew => exact List.mem_singleton.mp hnew ▸ hentry
      | inr hsome =>
        obtain ⟨before, compaction, after, rfl, htype, hafter, hindex⟩ := hsome
        refine .inr ⟨before, compaction, after ++ [entry], by simp, htype, ?_, hindex⟩
        intro other hother
        cases List.mem_append.mp hother with
        | inl hold => exact hafter other hold
        | inr hnew => exact List.mem_singleton.mp hnew ▸ hentry

/-- **What a compaction keeps.** Without one the context is the branch. The latest one is followed
    by what stands before it from its first kept entry on, and by all that stands after it. -/
theorem contextEntries_eq (branch : List (CursorEntry ν)) :
    ((∀ entry ∈ branch, entry.type ≠ js "compaction") ∧ contextEntries branch = branch) ∨
      ∃ before compaction after, branch = before ++ compaction :: after ∧
        compaction.type = js "compaction" ∧ (∀ entry ∈ after, entry.type ≠ js "compaction") ∧
        contextEntries branch = compaction ::
          (before.dropWhile fun entry => some entry.id ≠ compaction.firstKeptEntryId) ++ after := by
  cases latestCompactionIndex_cases branch with
  | inl hnone =>
    refine .inl ⟨hnone.2, ?_⟩
    rw [contextEntries, hnone.1]
  | inr hsome =>
    obtain ⟨before, compaction, after, hbranch, htype, hafter, hindex⟩ := hsome
    refine .inr ⟨before, compaction, after, hbranch, htype, hafter, ?_⟩
    have hget : branch[before.length]? = some compaction := by
      rw [hbranch, List.getElem?_append_right le_rfl, Nat.sub_self, List.getElem?_cons_zero]
    have htake : branch.take before.length = before := by rw [hbranch, List.take_left]
    have hdrop : branch.drop (before.length + 1) = after := by
      rw [hbranch, ← List.drop_drop, List.drop_left]
      rfl
    rw [contextEntries, hindex]
    simp only [hget, htake, hdrop, retainedBefore_eq]

theorem nodup_contextEntries (h : (branch.map (·.id)).Nodup) :
    ((contextEntries branch).map (·.id)).Nodup := by
  cases contextEntries_eq branch with
  | inl hnone => rwa [hnone.2]
  | inr hsome =>
    obtain ⟨before, compaction, after, rfl, -, -, hcontext⟩ := hsome
    rw [hcontext]
    -- a part of the branch, with the compaction moved to the front
    have hsublist : ((compaction :: (before.dropWhile fun entry =>
        some entry.id ≠ compaction.firstKeptEntryId) ++ after).map (·.id)).Sublist
        ((compaction :: before ++ after).map (·.id)) :=
      (((List.dropWhile_sublist _).cons_cons compaction).append_right after).map _
    refine hsublist.nodup ?_
    have hperm : (before ++ compaction :: after).Perm (compaction :: before ++ after) :=
      List.perm_middle
    exact (hperm.map (·.id)).nodup_iff.mp h

/-! ## Places of an answer -/

/-- The ids of the pairs put in their places. -/
def placeAll (pairs : List (CursorEntry ν × Nat)) (entryIds : List (Option JsString)) :
    List (Option JsString) :=
  pairs.foldl (fun entryIds pair => entryIds.set pair.2 (some pair.1.id)) entryIds

/-- The row at the pair's place has the text that the transcript has for its entry. -/
def textsAgree (messages : List (Json ν)) (forkTextById : JsMap JsString JsString)
    (pair : CursorEntry ν × Nat) : Prop :=
  ∃ text, messages[pair.2]?.bind promptModelText = some text ∧
    JsMap.get? forkTextById pair.1.id = some text

variable {messages : List (Json ν)} {entryIds : List (Option JsString)}

/-- The last loop places all ids when all texts agree, and gives no answer otherwise. -/
theorem assignEntryIds_eq_some
    {pairs : List (CursorEntry ν × Nat)} {result : List (Option JsString)} :
    assignEntryIds messages forkTextById pairs entryIds = some result ↔
      (∀ pair ∈ pairs, textsAgree messages forkTextById pair) ∧ placeAll pairs entryIds = result := by
  induction pairs generalizing entryIds with
  | nil => simp [assignEntryIds, placeAll]
  | cons pair rest ih =>
    obtain ⟨entry, index⟩ := pair
    rw [List.forall_mem_cons, assignEntryIds]
    split
    · rename_i visible authoritative hvisible hauthoritative
      split
      · rename_i hne
        refine iff_of_false (by simp) ?_
        rintro ⟨⟨⟨text, htext, hfork⟩, -⟩, -⟩
        rw [hvisible] at htext
        rw [hauthoritative] at hfork
        exact hne ((Option.some.inj htext).trans (Option.some.inj hfork).symm)
      · rename_i heq
        obtain rfl := not_not.mp heq
        rw [ih]
        have hagree : textsAgree messages forkTextById (entry, index) :=
          ⟨visible, hvisible, hauthoritative⟩
        simp only [hagree, true_and]
        rfl
    · rename_i hmissing
      refine iff_of_false (by simp) ?_
      rintro ⟨⟨⟨text, htext, hfork⟩, -⟩, -⟩
      exact hmissing text text htext hfork

theorem length_placeAll (pairs : List (CursorEntry ν × Nat)) (entryIds : List (Option JsString)) :
    (placeAll pairs entryIds).length = entryIds.length := by
  induction pairs generalizing entryIds with
  | nil => rfl
  | cons pair rest ih => exact (ih _).trans List.length_set

/-- What stands at a place: the id of its pair, or what stood there. -/
theorem getElem?_placeAll {pairs : List (CursorEntry ν × Nat)} (hnodup : (pairs.map (·.2)).Nodup)
    (hlt : ∀ pair ∈ pairs, pair.2 < entryIds.length) (r : Nat) (id : JsString) :
    (placeAll pairs entryIds)[r]? = some (some id) ↔
      (∃ pair ∈ pairs, pair.2 = r ∧ pair.1.id = id) ∨
        (∀ pair ∈ pairs, pair.2 ≠ r) ∧ entryIds[r]? = some (some id) := by
  induction pairs generalizing entryIds with
  | nil => simp [placeAll]
  | cons pair rest ih =>
    rw [List.map_cons, List.nodup_cons] at hnodup
    have hlt' : ∀ other ∈ rest, other.2 < (entryIds.set pair.2 (some pair.1.id)).length := by
      intro other hother
      rw [List.length_set]
      exact hlt other (List.mem_cons_of_mem pair hother)
    have hrest := ih hnodup.2 hlt'
    have hfirst := hlt pair List.mem_cons_self
    rw [show placeAll (pair :: rest) entryIds =
      placeAll rest (entryIds.set pair.2 (some pair.1.id)) from rfl, hrest]
    by_cases hr : pair.2 = r
    · subst hr
      have hnew : ∀ other ∈ rest, other.2 ≠ pair.2 := by
        intro other hother heq
        exact hnodup.1 (heq ▸ List.mem_map_of_mem hother)
      have hnone : ¬ ∃ other ∈ rest, other.2 = pair.2 ∧ other.1.id = id := by
        rintro ⟨other, hother, heq, -⟩
        exact hnew other hother heq
      simp only [hnone, false_or, List.getElem?_set_self hfirst, Option.some.injEq]
      constructor
      · rintro ⟨-, hid⟩
        exact .inl ⟨pair, List.mem_cons_self, rfl, hid⟩
      · rintro (⟨other, hother, heq, hid⟩ | ⟨hnot, -⟩)
        · cases List.mem_cons.mp hother with
          | inl hsame => exact ⟨hnew, hsame ▸ hid⟩
          | inr hin => exact absurd heq (hnew other hin)
        · exact absurd rfl (hnot pair List.mem_cons_self)
    · rw [List.getElem?_set_ne hr]
      simp only [List.mem_cons, exists_eq_or_imp, forall_eq_or_imp, hr, false_and, false_or,
        ne_eq, not_false_eq_true, true_and]

/-! ## Prompts of a list -/

/-- The places of the prompts of a list that begins at a place. -/
def promptPlaces (start : Nat) (messages : List (Json ν)) : List Nat :=
  ((messages.zipIdx start).filter fun message => isAccountablePromptMessage message.1).map (·.2)

theorem promptPlaces_append (start : Nat) (xs ys : List (Json ν)) :
    promptPlaces start (xs ++ ys) =
      promptPlaces start xs ++ promptPlaces (start + xs.length) ys := by
  rw [promptPlaces, List.zipIdx_append, List.filter_append, List.map_append]
  rfl

theorem promptPlaces_of_none {start : Nat}
    (h : ∀ message ∈ messages, isAccountablePromptMessage message = false) :
    promptPlaces start messages = [] := by
  rw [promptPlaces, List.filter_eq_nil_iff.mpr, List.map_nil]
  intro message hmessage
  rw [h message.1 (List.fst_mem_of_mem_zipIdx hmessage)]
  exact Bool.false_ne_true

theorem promptPlaces_singleton {start : Nat} {message : Json ν}
    (h : isAccountablePromptMessage message = true) : promptPlaces start [message] = [start] := by
  simp [promptPlaces, h]

theorem nodup_visibleUserIndexes (messages : List (Json ν)) : (visibleUserIndexes messages).Nodup := by
  have hall : (messages.zipIdx.map (·.2)).Nodup := by
    rw [List.zipIdx_map_snd]
    exact List.nodup_range'
  exact (List.filter_sublist.map _).nodup hall

theorem mem_visibleUserIndexes {r : Nat} : r ∈ visibleUserIndexes messages ↔
      ∃ message, messages[r]? = some message ∧ isAccountablePromptMessage message = true := by
  simp only [visibleUserIndexes, List.mem_map, List.mem_filter]
  constructor
  · rintro ⟨⟨message, i⟩, ⟨hmem, hprompt⟩, rfl⟩
    exact ⟨message, List.mem_zipIdx_iff_getElem?.mp hmem, hprompt⟩
  · rintro ⟨message, hget, hprompt⟩
    exact ⟨(message, r), ⟨List.mem_zipIdx_iff_getElem?.mpr hget, hprompt⟩, rfl⟩

/-! ## Any list and any snapshot -/

/-- The prompts of a branch, in the order of its context. -/
def expectedPrompts (branch : List (CursorEntry ν)) : List (CursorEntry ν) :=
  (contextEntries branch).filter isPrompt

/-- The row at a place shows an entry: both are the same prompt of their lists, counted from the
    front, and they have the same text. -/
def SameOccurrence (messages : List (Json ν)) (branch : List (CursorEntry ν))
    (forkTextById : JsMap JsString JsString) (r : Nat) (id : JsString) : Prop :=
  ∃ (k : Nat) (entry : CursorEntry ν), (expectedPrompts branch)[k]? = some entry ∧ entry.id = id ∧
    (visibleUserIndexes messages)[k]? = some r ∧ textsAgree messages forkTextById (entry, r)

/-- **What an answer says**, for any list and any snapshot. An id stands exactly at the row that is
    the same occurrence. -/
theorem correlate_aligned {snapshot : TranscriptCursorSnapshot ν} {allowUnpersistedTail : Bool}
    (h : correlateTranscriptPromptEntryIds messages snapshot allowUnpersistedTail =
      some entryIds) :
    ∃ branch forkTextById, parseCursorEntries snapshot = some (branch, forkTextById) ∧
      (expectedPrompts branch).length ≤ (visibleUserIndexes messages).length ∧
      entryIds.length = messages.length ∧
      ∀ r id, entryIds[r]? = some (some id) ↔
        SameOccurrence messages branch forkTextById r id := by
  rw [correlateTranscriptPromptEntryIds] at h
  split at h
  · cases h
  · rename_i branch forkTextById hparse
    simp only at h
    split at h
    · cases h
    · rename_i hlength
      split at h
      · cases h
      · obtain ⟨htexts, rfl⟩ := assignEntryIds_eq_some.mp h
        refine ⟨branch, forkTextById, hparse, not_lt.mp hlength, ?_, ?_⟩
        · rw [length_placeAll, List.length_replicate]
        · intro r id
          have hnodup : ((((contextEntries branch).filter isPrompt).zip
              (visibleUserIndexes messages)).map (·.2)).Nodup := by
            refine List.Sublist.nodup ?_ (nodup_visibleUserIndexes messages)
            exact map_snd_zip_sublist _ _
          have hlt : ∀ pair ∈ ((contextEntries branch).filter isPrompt).zip
              (visibleUserIndexes messages), pair.2 < (List.replicate messages.length
                (none : Option JsString)).length := by
            intro pair hpair
            obtain ⟨message, hget, -⟩ := mem_visibleUserIndexes.mp (List.of_mem_zip hpair).2
            rw [List.length_replicate]
            exact (List.getElem?_eq_some_iff.mp hget).1
          rw [getElem?_placeAll hnodup hlt]
          have hnothing : (List.replicate messages.length (none : Option JsString))[r]? ≠
              some (some id) := by
            rw [List.getElem?_replicate]
            split <;> simp
          simp only [hnothing, and_false, or_false]
          constructor
          · rintro ⟨pair, hpair, rfl, rfl⟩
            obtain ⟨k, hk⟩ := List.mem_iff_getElem?.mp hpair
            obtain ⟨hentry, hplace⟩ := List.getElem?_zip_eq_some.mp hk
            exact ⟨k, pair.1, hentry, rfl, hplace, htexts pair hpair⟩
          · rintro ⟨k, entry, hentry, rfl, hplace, -⟩
            exact ⟨(entry, r), List.mem_iff_getElem?.mpr
              ⟨k, List.getElem?_zip_eq_some.mpr ⟨hentry, hplace⟩⟩, rfl, rfl⟩

theorem sameOccurrence_inj (hnodup : (branch.map (·.id)).Nodup) {r r' : Nat}
    {id : JsString} (h : SameOccurrence messages branch forkTextById r id)
    (h' : SameOccurrence messages branch forkTextById r' id) : r = r' := by
  obtain ⟨k, entry, hentry, hid, hplace, -⟩ := h
  obtain ⟨k', entry', hentry', hid', hplace', -⟩ := h'
  have hids : ((expectedPrompts branch).map (·.id)).Nodup :=
    (List.filter_sublist.map _).nodup (nodup_contextEntries hnodup)
  have hk : ((expectedPrompts branch).map (·.id))[k]? = some id := by
    rw [List.getElem?_map, hentry, Option.map_some, hid]
  have hk' : ((expectedPrompts branch).map (·.id))[k']? = some id := by
    rw [List.getElem?_map, hentry', Option.map_some, hid']
  obtain rfl : k = k' := by
    have hlt := (List.getElem?_eq_some_iff.mp hk).1
    exact (List.getElem?_inj hlt hids).mp (hk.trans hk'.symm)
  exact Option.some.inj (hplace.symm.trans hplace')

/-! ## A list that renders the context -/

/-- How Pi shows the entries of a context: a prompt as one row, which is a prompt with the text of
    the entry; and any other entry without a prompt. -/
structure Renders (render : CursorEntry ν → List (Json ν)) (context : List (CursorEntry ν)) :
    Prop where
  prompt : ∀ entry ∈ context, isPrompt entry = true → ∃ row, render entry = [row] ∧
    isAccountablePromptMessage row = true ∧
    promptModelText row = entry.message.bind promptModelText
  other : ∀ entry ∈ context, isPrompt entry = false → ∀ row ∈ render entry,
    isAccountablePromptMessage row = false

variable {context : List (CursorEntry ν)}

theorem Renders.tail {render : CursorEntry ν → List (Json ν)} {entry : CursorEntry ν}
    (h : Renders render (entry :: context)) : Renders render context :=
  ⟨fun other hother => h.prompt other (List.mem_cons_of_mem entry hother),
    fun other hother => h.other other (List.mem_cons_of_mem entry hother)⟩

/-- The ids that belong at the rows of the context: at a prompt's row that of its entry. -/
def rowIds (render : CursorEntry ν → List (Json ν)) (context : List (CursorEntry ν)) :
    List (Option JsString) :=
  context.flatMap fun entry =>
    if isPrompt entry then [some entry.id] else (render entry).map fun _ => none

/-- The prompts of the context and the places of their rows, from a place on. -/
def promptPairs (render : CursorEntry ν → List (Json ν)) (start : Nat)
    (context : List (CursorEntry ν)) : List (CursorEntry ν × Nat) :=
  (context.filter isPrompt).zip (promptPlaces start (context.flatMap render))

/-- The entry's row is the first of what is left, or has no prompt. -/
theorem promptPairs_cons {render : CursorEntry ν → List (Json ν)} {start : Nat}
    {entry : CursorEntry ν} (h : Renders render (entry :: context)) :
    promptPairs render start (entry :: context) =
      if isPrompt entry then (entry, start) :: promptPairs render (start + 1) context
      else promptPairs render (start + (render entry).length) context := by
  rw [promptPairs, List.flatMap_cons, promptPlaces_append, List.filter_cons]
  cases hentry : isPrompt entry with
  | true =>
    obtain ⟨row, hrow, hprompt, -⟩ := h.prompt entry List.mem_cons_self hentry
    rw [hrow, promptPlaces_singleton hprompt, if_pos rfl, if_pos rfl]
    rfl
  | false =>
    rw [promptPlaces_of_none (h.other entry List.mem_cons_self hentry)]
    rfl

/-- There are as many prompts in the context as among its rows. -/
theorem length_promptPlaces {render : CursorEntry ν → List (Json ν)}
    (h : Renders render context) (start : Nat) :
    (promptPlaces start (context.flatMap render)).length = (context.filter isPrompt).length := by
  induction context generalizing start with
  | nil => rfl
  | cons entry rest ih =>
    rw [List.flatMap_cons, promptPlaces_append, List.length_append, ih h.tail, List.filter_cons]
    cases hentry : isPrompt entry with
    | true =>
      obtain ⟨row, hrow, hprompt, -⟩ := h.prompt entry List.mem_cons_self hentry
      rw [hrow, promptPlaces_singleton hprompt, if_pos rfl]
      simp [Nat.add_comm]
    | false =>
      rw [promptPlaces_of_none (h.other entry List.mem_cons_self hentry)]
      simp

/-- **The ids of a rendered context.** Each id is put at the row that renders its entry. -/
theorem placeAll_render {render : CursorEntry ν → List (Json ν)}
    (h : Renders render context) (front back : List (Option JsString)) :
    placeAll (promptPairs render front.length context)
        (front ++ List.replicate (context.flatMap render).length none ++ back) =
      front ++ rowIds render context ++ back := by
  induction context generalizing front with
  | nil => rfl
  | cons entry rest ih =>
    rw [promptPairs_cons h]
    cases hentry : isPrompt entry with
    | true =>
      obtain ⟨row, hrow, -, -⟩ := h.prompt entry List.mem_cons_self hentry
      have hnext := ih h.tail (front ++ [some entry.id])
      rw [List.length_append, List.length_singleton] at hnext
      -- the id goes to the first of the rows that are left
      have hset : (front ++ List.replicate ((entry :: rest).flatMap render).length none ++
          back).set front.length (some entry.id) =
          front ++ [some entry.id] ++ List.replicate (rest.flatMap render).length none ++ back := by
        rw [List.flatMap_cons, hrow, List.length_append, List.length_singleton, Nat.add_comm,
          List.replicate_succ, List.append_assoc, List.set_append_right _ _ le_rfl]
        simp
      have hids : rowIds render (entry :: rest) = [some entry.id] ++ rowIds render rest := by
        rw [rowIds, List.flatMap_cons, hentry, if_pos rfl]
        rfl
      rw [if_pos rfl, hids, ← List.append_assoc, ← hnext, ← hset]
      rfl
    | false =>
      have hnext := ih h.tail (front ++ List.replicate (render entry).length none)
      rw [List.length_append, List.length_replicate] at hnext
      have hids : rowIds render (entry :: rest) =
          List.replicate (render entry).length none ++ rowIds render rest := by
        rw [rowIds, List.flatMap_cons, hentry, if_neg Bool.false_ne_true, List.map_const']
        rfl
      have hrows : List.replicate ((entry :: rest).flatMap render).length (none : Option JsString) =
          List.replicate (render entry).length none ++
            List.replicate (rest.flatMap render).length none := by
        rw [List.flatMap_cons, List.length_append, List.replicate_add]
      rw [if_neg Bool.false_ne_true, hids, hrows, ← List.append_assoc, ← List.append_assoc, hnext]

theorem row_of_promptPairs {render : CursorEntry ν → List (Json ν)}
    (h : Renders render context) (front back : List (Json ν)) :
    ∀ pair ∈ promptPairs render front.length context, pair.1 ∈ context ∧ isPrompt pair.1 = true ∧
      ((front ++ context.flatMap render ++ back)[pair.2]?).bind promptModelText =
        pair.1.message.bind promptModelText := by
  induction context generalizing front with
  | nil => simp [promptPairs]
  | cons entry rest ih =>
    rw [promptPairs_cons h]
    intro pair hpair
    cases hentry : isPrompt entry with
    | true =>
      obtain ⟨row, hrow, -, htext⟩ := h.prompt entry List.mem_cons_self hentry
      rw [hentry, if_pos rfl, List.mem_cons] at hpair
      cases hpair with
      | inl hfirst =>
        subst hfirst
        refine ⟨List.mem_cons_self, hentry, ?_⟩
        rw [List.flatMap_cons, hrow]
        simpa using htext
      | inr hlater =>
        have hnext := ih h.tail (front ++ [row]) pair (by simpa using hlater)
        refine ⟨List.mem_cons_of_mem entry hnext.1, hnext.2.1, ?_⟩
        rw [List.flatMap_cons, hrow]
        simpa using hnext.2.2
    | false =>
      rw [hentry, if_neg Bool.false_ne_true] at hpair
      have hnext := ih h.tail (front ++ render entry) pair (by simpa using hpair)
      refine ⟨List.mem_cons_of_mem entry hnext.1, hnext.2.1, ?_⟩
      rw [List.flatMap_cons]
      simpa using hnext.2.2

/-- The pairs of a list that renders the context, with more rows behind it. -/
theorem zip_visible {render : CursorEntry ν → List (Json ν)}
    (h : Renders render context) (unpersisted : List (Json ν)) :
    (context.filter isPrompt).zip (visibleUserIndexes (context.flatMap render ++ unpersisted)) =
      promptPairs render 0 context := by
  have hvisible : visibleUserIndexes (context.flatMap render ++ unpersisted) =
      promptPlaces 0 (context.flatMap render) ++
        promptPlaces (0 + (context.flatMap render).length) unpersisted :=
    promptPlaces_append 0 _ _
  have hzip := @List.zip_append _ _ _ ([] : List (CursorEntry ν)) _
    (promptPlaces (0 + (context.flatMap render).length) unpersisted) (length_promptPlaces h 0).symm
  rw [hvisible, promptPairs, ← List.append_nil (context.filter isPrompt), hzip, List.zip_nil_left,
    List.append_nil, List.append_nil]

end Bobbit.Spec.TranscriptCursor
