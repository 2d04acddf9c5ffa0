import Bobbit.Server.OrchestrationCore

/-!
# Which owner has which child

What each operation of the core does to the question whether an owner has a child in the index.

## Key results

- `has_addHandle`, `has_forgetChild`, `has_forgetOwner` — the operations on the index.
- `has_rebuildIndex` — an index rebuilt from rows has the trusted ones.
- `requireOwnChild_ok` — a check that passes found the child in the index.
- `dismiss_cases`, `finishDismiss_cases` — the ways through a dismissal.
-/

namespace Bobbit.Server.Orchestration

open Lib

namespace ChildIndex

/-- The owner has the child in the index. -/
def Has (index : ChildIndex) (ownerId childId : String) : Prop :=
  ∃ h ∈ index.list ownerId, h.sessionId = childId

variable {index : ChildIndex} {ownerId childId : String}

theorem findChild_isSome : (index.findChild ownerId childId).isSome ↔ index.Has ownerId childId := by
  unfold findChild Has
  rw [List.find?_isSome]
  simp only [decide_eq_true_eq]

theorem findChild_eq_none : index.findChild ownerId childId = none ↔ ¬ index.Has ownerId childId := by
  rw [← findChild_isSome, Option.not_isSome_iff_eq_none]

theorem has_of_findChild {handle : ChildHandle} (h : index.findChild ownerId childId = some handle) :
    index.Has ownerId childId := by
  rw [← findChild_isSome, h]
  rfl

@[simp] theorem has_empty : ¬ empty.Has ownerId childId := by
  rintro ⟨h, hmem, -⟩
  cases hmem

/-! ## Adding a handle -/

theorem list_addHandle (index : ChildIndex) (handle : ChildHandle) (ownerId : String) :
    (index.addHandle handle).list ownerId =
      if ownerId = handle.ownerSessionId then putHandle (index.list ownerId) handle
      else index.list ownerId := by
  rw [list, addHandle, JsMap.get?_set]
  split
  · rename_i h
    rw [h, Option.getD_some]
  · rfl

theorem exists_mem_putHandle {list : List ChildHandle} {handle : ChildHandle} {childId : String} :
    (∃ h ∈ putHandle list handle, h.sessionId = childId) ↔
      handle.sessionId = childId ∨ ∃ h ∈ list, h.sessionId = childId := by
  -- the list of the sessions is what matters
  have hmap : ∀ l : List ChildHandle,
      (∃ h ∈ l, h.sessionId = childId) ↔ childId ∈ l.map ChildHandle.sessionId := by
    intro l
    rw [List.mem_map]
  rw [hmap, hmap]
  unfold putHandle
  split
  · rw [List.map_append, List.mem_append, List.map_singleton, List.mem_singleton, or_comm,
      eq_comm (a := childId)]
  · rename_i i hi
    obtain ⟨hlt, hsame, -⟩ := List.findIdx?_eq_some_iff_getElem.mp hi
    have hlt' : i < (list.map ChildHandle.sessionId).length := by simpa using hlt
    have hsession : (list.map ChildHandle.sessionId)[i] = handle.sessionId := by simpa using hsame
    rw [List.map_set, ← hsession, List.set_getElem_self]
    constructor
    · exact .inr
    · rintro (heq | hmem)
      · rw [← heq]
        exact List.getElem_mem _
      · exact hmem

theorem has_addHandle {handle : ChildHandle} :
    (index.addHandle handle).Has ownerId childId ↔
      handle.ownerSessionId = ownerId ∧ handle.sessionId = childId ∨ index.Has ownerId childId := by
  unfold Has
  rw [list_addHandle]
  split
  · rename_i h
    rw [exists_mem_putHandle]
    simp only [h, true_and]
  · rename_i h
    simp only [eq_comm (a := handle.ownerSessionId), h, false_and, false_or]

/-! ## Forgetting -/

theorem get?_filterMap_forgetEntry {entries : JsMap String (List ChildHandle)}
    (hnodup : (JsMap.keys entries).Nodup) (sessionId ownerId : String) :
    (JsMap.get? (entries.filterMap (forgetEntry sessionId)) ownerId).getD [] =
      ((JsMap.get? entries ownerId).getD []).filter (·.sessionId ≠ sessionId) := by
  induction entries with
  | nil => rfl
  | cons entry rest ih =>
    obtain ⟨hnew, hrest⟩ := List.nodup_cons.mp hnodup
    have htail := ih hrest
    rw [JsMap.get?_cons]
    by_cases howner : entry.1 = ownerId
    · rw [if_pos howner, Option.getD_some]
      -- no later entry is this owner's
      have hnone : JsMap.get? rest ownerId = none := by
        rw [Option.eq_none_iff_forall_ne_some]
        intro l hl
        rw [← howner] at hl
        exact hnew (JsMap.mem_keys_of_get? hl)
      rw [hnone, Option.getD_none, List.filter_nil] at htail
      rw [List.filterMap_cons]
      unfold forgetEntry at htail ⊢
      dsimp only
      split
      · rename_i hgone
        split at hgone
        · rename_i hempty
          rw [htail, hempty.2]
        · cases hgone
      · rename_i kept hkept
        split at hkept
        · cases hkept
        · rw [Option.some.injEq] at hkept
          subst hkept
          rw [JsMap.get?_cons, if_pos howner, Option.getD_some]
    · rw [if_neg howner, ← htail, List.filterMap_cons]
      unfold forgetEntry
      dsimp only
      split
      · rfl
      · rename_i kept hkept
        split at hkept
        · cases hkept
        · rw [Option.some.injEq] at hkept
          subst hkept
          rw [JsMap.get?_cons, if_neg howner]

theorem list_forgetChild (index : ChildIndex) (sessionId ownerId : String) :
    (index.forgetChild sessionId).list ownerId =
      (index.list ownerId).filter (·.sessionId ≠ sessionId) :=
  get?_filterMap_forgetEntry index.nodup sessionId ownerId

theorem has_forgetChild {sessionId : String} :
    (index.forgetChild sessionId).Has ownerId childId ↔
      childId ≠ sessionId ∧ index.Has ownerId childId := by
  unfold Has
  rw [list_forgetChild]
  constructor
  · rintro ⟨h, hmem, rfl⟩
    obtain ⟨hmem, hne⟩ := List.mem_filter.mp hmem
    exact ⟨by simpa using hne, h, hmem, rfl⟩
  · rintro ⟨hne, h, hmem, rfl⟩
    exact ⟨h, List.mem_filter.mpr ⟨hmem, by simpa using hne⟩, rfl⟩

theorem list_forgetChild_of_not_has {sessionId : String} (h : ¬ index.Has ownerId sessionId) :
    (index.forgetChild sessionId).list ownerId = index.list ownerId := by
  rw [list_forgetChild, List.filter_eq_self]
  intro handle hmem
  have hne : handle.sessionId ≠ sessionId := fun heq => h ⟨handle, hmem, heq⟩
  simpa using hne

theorem has_forgetOwner {removed : String} :
    (index.forgetOwner removed).Has ownerId childId ↔
      ownerId ≠ removed ∧ index.Has ownerId childId := by
  unfold Has list forgetOwner
  dsimp only
  rw [JsMap.get?_erase]
  by_cases h : ownerId = removed <;> simp [h, eq_comm]

end ChildIndex

open ChildIndex

/-! ## Rebuilding -/

theorem has_foldl_addHandle (handles : List ChildHandle) (index : ChildIndex)
    (ownerId childId : String) :
    (handles.foldl addHandle index).Has ownerId childId ↔
      (∃ h ∈ handles, h.ownerSessionId = ownerId ∧ h.sessionId = childId) ∨
        index.Has ownerId childId := by
  induction handles generalizing index with
  | nil => simp
  | cons handle rest ih =>
    rw [List.foldl_cons, ih, has_addHandle, List.exists_mem_cons_iff]
    rw [or_left_comm, or_assoc]

/-- The row makes its session a child of an owner. -/
def Restores (ps : PersistedSessionLike) (ownerId : String) : Prop :=
  ∃ restored, trustedRestorableChild ps = some restored ∧ restored.ownerSessionId = ownerId

theorem has_rebuildIndex {rows : List PersistedSessionLike} {now : Nat} {ownerId childId : String} :
    (rebuildIndexFromPersisted rows now).Has ownerId childId ↔
      ∃ ps ∈ rows, ps.id = childId ∧ Restores ps ownerId := by
  unfold rebuildIndexFromPersisted
  rw [has_foldl_addHandle]
  simp only [has_empty, or_false, List.mem_filterMap, restoredHandle, Option.map_eq_some_iff]
  constructor
  · rintro ⟨h, ⟨ps, hps, restored, htrusted, rfl⟩, howner, hid⟩
    exact ⟨ps, hps, hid, restored, htrusted, howner⟩
  · rintro ⟨ps, hps, hid, restored, htrusted, howner⟩
    exact ⟨_, ⟨ps, hps, restored, htrusted, rfl⟩, howner, hid⟩

/-! ## Checks -/

theorem requireOwnChild_ok {core : OrchestrationCore} {ownerId childId : String}
    {handle : ChildHandle} (h : requireOwnChild core ownerId childId = .ok handle) :
    core.index.Has ownerId childId := by
  unfold requireOwnChild at h
  split at h
  · rename_i found hfind
    exact has_of_findChild hfind
  · cases h

theorem requireOwnChild_error {core : OrchestrationCore} {ownerId childId : String}
    (h : ¬ core.index.Has ownerId childId) :
    requireOwnChild core ownerId childId =
      .error ⟨notOwnedMessage ownerId childId, "NOT_OWN_CHILD"⟩ := by
  unfold requireOwnChild
  rw [findChild_eq_none.mpr h]

/-! ## Dismissals -/

/-- The owner has the child in the index, or a record says that it is the owner's. -/
def Owns (core : OrchestrationCore) (view : OrchestrationSessionView) (ownerId childId : String) :
    Prop := core.index.Has ownerId childId ∨ ownedByRecord core view ownerId childId = true

/-- The first part of a dismissal refuses, drops a child that is not live, or goes on to end a child
    that the owner has in the index. -/
theorem dismiss_cases (core : OrchestrationCore) (view : OrchestrationSessionView)
    (ownerId childId : String) :
    (∃ result, result.ok = false ∧ dismiss core view ownerId childId = (core, .inl result)) ∨
      (isCurrentlyLive view childId = false ∧ Owns core view ownerId childId ∧
        ∃ pending : PendingDismiss, pending.ownerId = ownerId ∧ pending.childId = childId ∧
          dismiss core view ownerId childId =
            (dropChild core pending, .inl (alreadyDismissed childId))) ∨
      (core.index.Has ownerId childId ∧
        ∃ pending : PendingDismiss, pending.ownerId = ownerId ∧ pending.childId = childId ∧
          dismiss core view ownerId childId = (core, .inr pending)) := by
  have hhas : (core.index.findChild ownerId childId).isNone = true ↔
      ¬ core.index.Has ownerId childId := by
    rw [Option.isNone_iff_eq_none, findChild_eq_none]
  unfold dismiss
  dsimp only
  split
  · exact .inl ⟨_, rfl, rfl⟩
  · rename_i hforeign
    split
    · left
      split
      · exact ⟨_, rfl, rfl⟩
      · exact ⟨_, rfl, rfl⟩
    · rename_i hstranger
      rw [hhas] at hforeign hstranger
      split
      · rename_i hlive
        refine .inr (.inl ⟨hlive, ?_, _, rfl, rfl, rfl⟩)
        by_cases h : core.index.Has ownerId childId
        · exact .inl h
        · exact .inr (by simpa [h] using hstranger)
      · rename_i hlive
        rw [Bool.not_eq_false] at hlive
        exact .inr (.inr ⟨by simpa [hlive] using hforeign, _, rfl, rfl, rfl⟩)

/-- The second part drops the child, or fails and leaves the core alone. -/
theorem finishDismiss_cases (core : OrchestrationCore) (pending : PendingDismiss)
    (outcome : TerminateOutcome) :
    (∃ message, outcome = .failed message ∧ (finishDismiss core pending outcome).1 = core ∧
        (finishDismiss core pending outcome).2.ok = false) ∨
      ((∀ message, outcome ≠ .failed message) ∧
        (finishDismiss core pending outcome).1 = dropChild core pending ∧
        (finishDismiss core pending outcome).2.sessionId = pending.childId) := by
  cases outcome with
  | ended => exact .inr ⟨nofun, rfl, rfl⟩
  | absent => exact .inr ⟨nofun, rfl, rfl⟩
  | failed message => exact .inl ⟨message, rfl, rfl, rfl⟩

/-! ## Rows -/

theorem mem_archiveRow {rows : List PersistedSessionLike} {id : String} {ps : PersistedSessionLike}
    (h : ps ∈ archiveRow rows id) :
    ps ∈ rows ∧ ps.id ≠ id ∨ ∃ r ∈ rows, r.id = id ∧ ps = { r with archived := true } := by
  obtain ⟨r, hr, rfl⟩ := List.mem_map.mp h
  by_cases hid : r.id = id
  · rw [if_pos hid]
    exact .inr ⟨r, hr, hid, rfl⟩
  · rw [if_neg hid]
    exact .inl ⟨hr, hid⟩

theorem trustedRestorableChild_archived {ps : PersistedSessionLike} (h : ps.archived = true) :
    trustedRestorableChild ps = none := by
  rw [trustedRestorableChild, if_pos h]

end Bobbit.Server.Orchestration
