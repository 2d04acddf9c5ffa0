import Bobbit.Lib.Run
import Bobbit.Server.PromptQueue
import Mathlib

/-!
# The rows of the prompt queue

Every operation is described by what it does to the ids: an admission inserts one id,
a removal takes one out, the others permute. The exception is `reorderByIds` with an
id listed twice, which puts that row into the queue twice.

Key results:
- `rows_kept_iff`: the ids stay distinct, and change as the operations say, in
  exactly the runs in which no reorder lists a queued id twice
- `reorder_duplicates_row`: a reorder that does
-/

namespace Bobbit.Server

open Lib

namespace PromptQueue

/-- The ids in the queue, in its order. -/
def ids (s : PromptQueue) : List String := s.queue.map (·.id)

def createdId (opts : PromptQueueEnqueueOptions) (uuid : String) : String :=
  (validKey opts.intentId).getD uuid

def restoredId (message : RawMessage) (uuid : String) : String :=
  (validKey message.id.toOption).getD uuid

/-- A row without its sequence, which a reorder may reassign. -/
def unsequenced (row : QueuedMessage) : QueuedMessage := { row with sequence := none }

def RowsChange (s : PromptQueue) (event : Event) : Prop :=
  let ids' := (step s event).ids
  match event with
  | .enqueue _ opts uuid _ | .enqueueAtFront _ opts uuid _ =>
    ids'.Perm (s.ids.insert (createdId opts uuid))
  | .enqueueExisting message uuid | .enqueueExistingAtFront message uuid
  | .restoreAtFront message uuid => ids'.Perm (s.ids.insert (restoredId message uuid))
  | .steer _ => ids'.Perm s.ids
  | .remove messageId => ids' = s.ids.erase messageId
  | .dequeue => ids' = s.ids.tail
  | .dequeueForTarget target =>
    match (s.dequeueForTarget target).1 with
    | none => ids' = s.ids
    | some row => s.ids.Perm (row.id :: ids')
  | .dequeueAllSteered => s.ids = s.dequeueAllSteered.1.map (·.id) ++ ids'
  | .reorderByIds _ _ =>
    ((step s event).queue.map unsequenced).Perm (s.queue.map unsequenced)
  | .retarget _ restoredRows =>
    ids'.Perm (restoredRows.foldl (fun ids row => ids.insert (restoredId row.1 row.2)) s.ids)

def admitRow (s : PromptQueue) (row : RawMessage × String) : PromptQueue :=
  s.enqueueExisting row.1 row.2

/-- The UUIDs that an operation makes up are new. -/
def FreshUuids (s : PromptQueue) : Event → Prop
  | .enqueueExisting _ uuid | .enqueueExistingAtFront _ uuid | .restoreAtFront _ uuid =>
    uuid ∉ s.ids
  | .retarget _ restoredRows => Along admitRow (fun s row => row.2 ∉ s.ids) s restoredRows
  | _ => True

/-- A reorder lists each queued id at most once. -/
def NoRepeats (s : PromptQueue) : Event → Prop
  | .reorderByIds messageIds _ => (messageIds.filter (· ∈ s.ids)).Nodup
  | _ => True

/-! ## The building blocks -/

variable (s : PromptQueue)

theorem reorder_queue_perm : s.reorder.queue.Perm s.queue := by
  simpa only [reorder] using List.filter_append_perm (·.isSteered) s.queue

theorem reorder_ids_perm : s.reorder.ids.Perm s.ids :=
  s.reorder_queue_perm.map _

@[simp] theorem allocateSequence_queue (target : DeliveryTargetTurn) :
    (s.allocateSequence target).2.queue = s.queue := rfl

@[simp] theorem observeSequence_queue (row : QueuedMessage) :
    (s.observeSequence row).queue = s.queue := rfl

@[simp] theorem sequenceFor_queue (target : DeliveryTargetTurn)
    (sequence : Field Nat) : (s.sequenceFor target sequence).2.queue = s.queue := by
  unfold sequenceFor
  split <;> rfl

@[simp] theorem createMessage_queue (text : JsString)
    (opts : PromptQueueEnqueueOptions) (uuid : String) (now : Nat) :
    (s.createMessage text opts uuid now).2.queue = s.queue := by
  unfold createMessage
  dsimp only
  split <;> simp

@[simp] theorem createMessage_id (text : JsString)
    (opts : PromptQueueEnqueueOptions) (uuid : String) (now : Nat) :
    (s.createMessage text opts uuid now).1.id = createdId opts uuid := by
  unfold createMessage
  dsimp only
  split <;> rfl

@[simp] theorem normalizeQueuedMessage_queue (message : RawMessage)
    (uuid : String) : (s.normalizeQueuedMessage message uuid).2.queue = s.queue := by
  unfold normalizeQueuedMessage
  split <;> simp

@[simp] theorem normalizeQueuedMessage_id (message : RawMessage)
    (uuid : String) : (s.normalizeQueuedMessage message uuid).1.id = restoredId message uuid := by
  unfold normalizeQueuedMessage
  split <;> rfl

/-- A row is found exactly when its id is in the queue. -/
theorem find_eq_none_iff (id : String) : s.find id = none ↔ id ∉ s.ids := by
  simp [find, ids]

variable {row : QueuedMessage}

theorem find_eq_some {s : PromptQueue} {id : String}
    (h : s.find id = some row) : row ∈ s.queue ∧ row.id = id :=
  ⟨List.mem_of_find?_eq_some h, by simpa using List.find?_some h⟩

theorem mem_ids_of_find {s : PromptQueue} {id : String}
    (h : s.find id = some row) : id ∈ s.ids := by
  by_contra hid
  rw [(s.find_eq_none_iff id).mpr hid] at h
  cases h

theorem map_id_replaceRow {id : String} (hrow : row.id = id)
    (queue : List QueuedMessage) : (replaceRow id row queue).map (·.id) = queue.map (·.id) := by
  induction queue with
  | nil => rfl
  | cons first rest ih =>
    simp only [replaceRow]
    split
    · rename_i hfirst
      simp [hrow, hfirst]
    · simp [ih]

/-! ## Admissions -/

/-- A queue that gets a row with a new id, and one that has the id already. -/
theorem insert_of_mem {s : PromptQueue} {id : String} (h : id ∈ s.ids) :
    s.ids.Perm (s.ids.insert id) := by rw [List.insert_of_mem h]

/-- A message that is only created is not in the queue yet. -/
theorem find_createMessage (text : JsString) (opts : PromptQueueEnqueueOptions)
    (uuid : String) (now : Nat) (id : String) :
    (s.createMessage text opts uuid now).2.find id = s.find id := by
  simp [find]

theorem ids_enqueue (text : JsString) (opts : PromptQueueEnqueueOptions)
    (uuid : String) (now : Nat) :
    (s.enqueue text opts uuid now).ids.Perm (s.ids.insert (createdId opts uuid)) := by
  unfold enqueue
  dsimp only
  rw [find_createMessage, createMessage_id]
  split
  · rename_i hfind
    simp only [ids, createMessage_queue]
    exact insert_of_mem (mem_ids_of_find hfind)
  · rename_i hfind
    have hnew := (s.find_eq_none_iff _).mp hfind
    have happend : (s.ids ++ [createdId opts uuid]).Perm (s.ids.insert (createdId opts uuid)) := by
      rw [List.insert_of_not_mem hnew]
      exact List.perm_append_singleton _ _
    split
    · refine (reorder_ids_perm _).trans ?_
      simpa [ids] using happend
    · simpa [ids] using happend

theorem ids_enqueueAtFront (text : JsString) (opts : PromptQueueEnqueueOptions)
    (uuid : String) (now : Nat) :
    (s.enqueueAtFront text opts uuid now).ids.Perm (s.ids.insert (createdId opts uuid)) := by
  unfold enqueueAtFront
  dsimp only
  rw [find_createMessage, createMessage_id]
  split
  · rename_i hfind
    simp only [ids, createMessage_queue]
    exact insert_of_mem (mem_ids_of_find hfind)
  · rename_i hfind
    refine (reorder_ids_perm _).trans ?_
    rw [List.insert_of_not_mem ((s.find_eq_none_iff _).mp hfind)]
    simp [ids]

variable {uuid : String}

/-- A replayed row is admitted unless its id is queued. -/
theorem findExisting_eq_none {s : PromptQueue} (message : RawMessage) (hfresh : uuid ∉ s.ids) :
    s.findExisting message = none ↔ restoredId message uuid ∉ s.ids := by
  unfold findExisting restoredId
  cases validKey message.id.toOption with
  | none => simpa using hfresh
  | some id => exact s.find_eq_none_iff id

theorem mem_ids_of_findExisting {s : PromptQueue} {message : RawMessage}
    (hfresh : uuid ∉ s.ids) (hfind : s.findExisting message = some row) :
    restoredId message uuid ∈ s.ids := by
  by_contra hid
  rw [(findExisting_eq_none message hfresh).mpr hid] at hfind
  cases hfind

theorem ids_enqueueExisting {s : PromptQueue} {message : RawMessage} (hfresh : uuid ∉ s.ids) :
    (s.enqueueExisting message uuid).ids.Perm (s.ids.insert (restoredId message uuid)) := by
  unfold enqueueExisting
  cases hfind : s.findExisting message with
  | some row =>
    exact insert_of_mem (mem_ids_of_findExisting hfresh hfind)
  | none =>
    rw [List.insert_of_not_mem ((findExisting_eq_none message hfresh).mp hfind)]
    simp [ids]

theorem ids_enqueueExistingAtFront {s : PromptQueue} {message : RawMessage}
    (hfresh : uuid ∉ s.ids) :
    (s.enqueueExistingAtFront message uuid).ids.Perm
      (s.ids.insert (restoredId message uuid)) := by
  unfold enqueueExistingAtFront
  cases hfind : s.findExisting message with
  | some row =>
    exact insert_of_mem (mem_ids_of_findExisting hfresh hfind)
  | none =>
    rw [List.insert_of_not_mem ((findExisting_eq_none message hfresh).mp hfind)]
    simp [ids]

/-! ## Steering and retargeting -/

theorem ids_steer (messageId : String) : (s.steer messageId).ids.Perm s.ids := by
  unfold steer
  split
  · exact List.Perm.refl _
  · rename_i msg hfind
    have hid := (find_eq_some hfind).2
    split
    · exact List.Perm.refl _
    · split
      · refine (reorder_ids_perm _).trans ?_
        simp only [ids]
        rw [map_id_replaceRow (by exact hid)]
      · refine (reorder_ids_perm _).trans ?_
        simp only [ids]
        rw [map_id_replaceRow (by exact hid)]

theorem allocateRows_spec (rows : List QueuedMessage) : (s.allocateRows rows).2.queue = s.queue ∧
      (s.allocateRows rows).1.map unsequenced = rows.map unsequenced := by
  induction rows generalizing s with
  | nil => exact ⟨rfl, rfl⟩
  | cons row rest ih =>
    obtain ⟨hqueue, hrows⟩ := ih (s.allocateSequence .nextTurn).2
    exact ⟨hqueue, congrArg (unsequenced row :: ·) hrows⟩

/-- The rows put into the lane replace those that were there. -/
theorem fillNextTurn_perm : ∀ (queue rows : List QueuedMessage),
    rows.length = (queue.filter inNextTurn).length →
      (fillNextTurn queue rows).Perm (rows ++ queue.filter (! inNextTurn ·)) := by
  intro queue
  induction queue with
  | nil =>
    intro rows hlen
    simp_all [fillNextTurn]
  | cons row rest ih =>
    intro rows hlen
    by_cases hin : inNextTurn row = true
    · cases rows with
      | nil => simp [hin] at hlen
      | cons next rows =>
        simp only [hin, List.filter_cons_of_pos, List.length_cons, Nat.add_right_cancel_iff] at hlen
        simpa [fillNextTurn, hin] using (ih rows hlen).cons next
    · rw [List.filter_cons_of_neg hin] at hlen
      simpa [fillNextTurn, hin] using ((ih rows hlen).cons row).trans List.perm_middle.symm

theorem ids_eq_map_unsequenced (queue : List QueuedMessage) :
    queue.map (·.id) = (queue.map unsequenced).map (·.id) := by
  rw [List.map_map]
  rfl

theorem ids_retarget_rows (queue : List QueuedMessage) (hids : queue.map (·.id) = s.ids) :
    ((fillNextTurn queue (s.allocateRows
      ((queue.filter inNextTurn).mergeSort (·.createdAt ≤ ·.createdAt))).1).map (·.id)).Perm
        s.ids := by
  obtain ⟨-, hrows⟩ :=
    s.allocateRows_spec ((queue.filter inNextTurn).mergeSort (·.createdAt ≤ ·.createdAt))
  have hlen := congrArg List.length hrows
  simp only [List.length_map, List.length_mergeSort] at hlen
  refine ((fillNextTurn_perm queue _ hlen).map _).trans ?_
  rw [List.map_append, ids_eq_map_unsequenced, hrows, ← ids_eq_map_unsequenced, ← hids,
    ← List.map_append]
  exact (((List.mergeSort_perm _ _).append_right _).trans
    (List.filter_append_perm inNextTurn queue)).map _

theorem ids_foldl_enqueueExisting {s : PromptQueue} {restoredRows : List (RawMessage × String)}
    (hfresh : Along admitRow (fun s row => row.2 ∉ s.ids) s restoredRows) :
    (run admitRow s restoredRows).ids.Perm
      (restoredRows.foldl (fun ids row => ids.insert (restoredId row.1 row.2)) s.ids) := by
  induction restoredRows generalizing s with
  | nil => exact List.Perm.refl _
  | cons row rest ih =>
    have hfold : ∀ {xs ys : List String}, xs.Perm ys →
        (rest.foldl (fun ids row => ids.insert (restoredId row.1 row.2)) xs).Perm
          (rest.foldl (fun ids row => ids.insert (restoredId row.1 row.2)) ys) := by
      clear ih hfresh
      induction rest with
      | nil => exact id
      | cons next rest ih => exact fun h => ih (h.insert _)
    exact (ih hfresh.2).trans (hfold (ids_enqueueExisting hfresh.1))

theorem ids_retarget {s : PromptQueue} {reason : JsString}
    {restoredRows : List (RawMessage × String)}
    (hfresh : Along admitRow (fun s row => row.2 ∉ s.ids) s restoredRows) :
    (s.retargetContinuationToNextTurn reason restoredRows).ids.Perm
      (restoredRows.foldl (fun ids row => ids.insert (restoredId row.1 row.2)) s.ids) := by
  refine List.Perm.trans ?_ (ids_foldl_enqueueExisting hfresh)
  unfold retargetContinuationToNextTurn
  dsimp only
  split
  · exact List.Perm.refl _
  · refine ids_retarget_rows _ _ ?_
    simp only [ids, List.map_map]
    refine List.map_congr_left fun row _ => ?_
    simp only [Function.comp_apply]
    split <;> rfl

/-! ## Removals -/

theorem ids_remove (messageId : String) : (s.remove messageId).ids = s.ids.erase messageId := by
  simp only [remove, ids]
  induction s.queue with
  | nil => rfl
  | cons row rest ih =>
    by_cases hrow : row.id = messageId
    · simp [hrow]
    · simp [hrow, ih]

/-- What the loop over the queue has selected for a lane: a row of the lane that no
    other has a smaller sequence than, if there is one. -/
def Selected (target : DeliveryTargetTurn) (queue : List QueuedMessage) :
    Option (Nat × Option Nat) → Prop
  | none => ∀ row ∈ queue, row.targetTurn ≠ some target
  | some (index, best) => ∃ row, queue[index]? = some row ∧ row.targetTurn = some target ∧
      validSequence row.sequence = best ∧
        ∀ other ∈ queue, other.targetTurn = some target →
          sequenceLt (validSequence other.sequence) best = false

theorem sequenceLt_irrefl (sequence : Option Nat) : sequenceLt sequence sequence = false := by
  cases sequence <;> simp [sequenceLt]

theorem sequenceLt_trans {a b c : Option Nat} (hab : sequenceLt a b = true)
    (hcb : sequenceLt c b = false) : sequenceLt c a = false := by
  cases a <;> cases b <;> cases c <;> simp_all [sequenceLt]
  omega

variable {queue : List QueuedMessage} {target : DeliveryTargetTurn}

/-- A row that is of the lane and has no smaller sequence leaves the selection. -/
theorem Selected.keep {selected : Option (Nat × Option Nat)} (h : Selected target queue selected)
    (hrow : row.targetTurn = some target → ∃ index best, selected = some (index, best) ∧
      sequenceLt (validSequence row.sequence) best = false) :
    Selected target (queue ++ [row]) selected := by
  cases selected with
  | none =>
    intro other hother
    rcases List.mem_append.mp hother with hother | hother
    · exact h other hother
    · rw [List.mem_singleton.mp hother]
      intro htarget
      obtain ⟨index, best, heq, -⟩ := hrow htarget
      cases heq
  | some pair =>
    obtain ⟨first, hget, hlane, hbest, hleast⟩ := h
    refine ⟨first, ?_, hlane, hbest, fun other hother htarget => ?_⟩
    · obtain ⟨hlt, -⟩ := List.getElem?_eq_some_iff.mp hget
      rw [List.getElem?_append_left hlt, hget]
    · rcases List.mem_append.mp hother with hother | hother
      · exact hleast other hother htarget
      · rw [List.mem_singleton.mp hother] at htarget ⊢
        obtain ⟨index, best, heq, hlt⟩ := hrow htarget
        cases heq
        exact hlt

/-- A row of the lane with a smaller sequence than every other becomes the selection. -/
theorem Selected.replace (hrow : row.targetTurn = some target)
    (hleast : ∀ other ∈ queue, other.targetTurn = some target →
      sequenceLt (validSequence other.sequence) (validSequence row.sequence) = false) :
    Selected target (queue ++ [row]) (some (queue.length, validSequence row.sequence)) := by
  refine ⟨row, by simp, hrow, rfl, fun other hother htarget => ?_⟩
  rcases List.mem_append.mp hother with hother | hother
  · exact hleast other hother htarget
  · rw [List.mem_singleton.mp hother]
    exact sequenceLt_irrefl _

theorem selectForTarget_spec (rest : List QueuedMessage) {selected : Option (Nat × Option Nat)}
    (h : Selected target queue selected) :
    Selected target (queue ++ rest) (selectForTarget target rest queue.length selected) := by
  induction rest generalizing queue selected with
  | nil => simpa [selectForTarget] using h
  | cons row rest ih =>
    have hlen : queue.length + 1 = (queue ++ [row]).length := by simp
    have happend : queue ++ row :: rest = queue ++ [row] ++ rest := by simp
    rw [happend]
    simp only [selectForTarget, hlen]
    split
    · rename_i hrow
      exact ih (h.keep fun htarget => absurd htarget hrow)
    · rename_i hrow
      rw [not_not] at hrow
      cases selected with
      | none => exact ih (.replace hrow fun other hother htarget => absurd htarget (h other hother))
      | some pair =>
        obtain ⟨first, hget, hlane, hbest, hleast⟩ := h
        simp only
        split
        · rename_i hlt
          exact ih (.replace hrow fun other hother htarget =>
            sequenceLt_trans hlt (hleast other hother htarget))
        · rename_i hlt
          exact ih (Selected.keep ⟨first, hget, hlane, hbest, hleast⟩
            fun _ => ⟨pair.1, pair.2, rfl, by simpa using hlt⟩)

/-- `dequeueForTarget` takes a row of the lane with the least sequence, if the lane has
    a row at all. -/
theorem dequeueForTarget_spec (target : DeliveryTargetTurn) :
    match (s.dequeueForTarget target).1 with
    | none => (∀ row ∈ s.queue, row.targetTurn ≠ some target) ∧
        (s.dequeueForTarget target).2 = s
    | some row => s.queue.Perm (row :: (s.dequeueForTarget target).2.queue) ∧
        row.targetTurn = some target ∧
          ∀ other ∈ s.queue, other.targetTurn = some target →
            sequenceLt (validSequence other.sequence) (validSequence row.sequence) = false := by
  have hspec : Selected target s.queue (selectForTarget target s.queue 0 none) :=
    selectForTarget_spec s.queue (show Selected target [] none by simp [Selected])
  unfold dequeueForTarget
  cases hselect : selectForTarget target s.queue 0 none with
  | none =>
    rw [hselect] at hspec
    exact ⟨hspec, rfl⟩
  | some pair =>
    rw [hselect] at hspec
    obtain ⟨row, hget, hlane, hbest, hleast⟩ := hspec
    obtain ⟨hlt, hrow⟩ := List.getElem?_eq_some_iff.mp hget
    simp only [hget]
    refine ⟨?_, hlane, ?_⟩
    · rw [← hrow]
      exact (List.getElem_cons_eraseIdx_perm hlt).symm
    · rw [hbest]
      exact hleast

theorem ids_dequeueForTarget (target : DeliveryTargetTurn) :
    match (s.dequeueForTarget target).1 with
    | none => (s.dequeueForTarget target).2.ids = s.ids
    | some row => s.ids.Perm (row.id :: (s.dequeueForTarget target).2.ids) := by
  have hspec := s.dequeueForTarget_spec target
  cases hrow : (s.dequeueForTarget target).1 with
  | none =>
    rw [hrow] at hspec
    exact congrArg ids hspec.2
  | some row =>
    rw [hrow] at hspec
    exact hspec.1.map (·.id)

theorem ids_dequeueAllSteered :
    s.ids = s.dequeueAllSteered.1.map (·.id) ++ s.dequeueAllSteered.2.ids := by
  simp only [dequeueAllSteered, ids, ← List.map_append, List.takeWhile_append_dropWhile]

/-! ## Reordering -/

theorem assignSlots_unsequenced (lane : DeliveryTargetTurn) (queue : List QueuedMessage)
    (slots : List Nat) :
    (assignSlots lane queue slots).map unsequenced = queue.map unsequenced := by
  induction queue generalizing slots with
  | nil => rfl
  | cons row rest ih =>
    simp only [assignSlots]
    split
    · cases slots with
      | nil => simp [ih]
      | cons slot slots => simp [ih, unsequenced]
    · simp [ih]

theorem resequenceLane_unsequenced (lane : DeliveryTargetTurn) (queue : List QueuedMessage) :
    (resequenceLane lane queue).map unsequenced = queue.map unsequenced :=
  assignSlots_unsequenced lane queue _

/-- The rows that the reorder puts first and the rest of the queue. -/
def listed (s : PromptQueue) (messageIds : List String) : List QueuedMessage :=
  messageIds.filterMap fun id => s.queue.reverse.find? (·.id = id)

theorem reorderByIds_queue (messageIds : List String) (resequence : Bool) :
    (s.reorderByIds messageIds resequence).queue =
      let reordered := s.listed messageIds ++ s.queue.filter (fun row => row.id ∉ messageIds)
      if resequence then resequenceLane .nextTurn (resequenceLane .continuation reordered)
      else reordered := by
  have hseen : s.queue.filter (fun row => row.id ∉ messageIds.filter fun id =>
      (s.queue.reverse.find? (·.id = id)).isSome) =
        s.queue.filter (fun row => row.id ∉ messageIds) := by
    refine List.filter_congr fun row hrow => ?_
    have hfound : (s.queue.reverse.find? (·.id = row.id)).isSome = true := by
      rw [List.find?_isSome]
      exact ⟨row, List.mem_reverse.mpr hrow, by simp⟩
    simp [List.mem_filter, hfound]
  unfold reorderByIds
  dsimp only
  rw [hseen]
  rfl

theorem reorderByIds_unsequenced (messageIds : List String) (resequence : Bool) :
    (s.reorderByIds messageIds resequence).queue.map unsequenced =
      (s.listed messageIds ++
        s.queue.filter (fun row => row.id ∉ messageIds)).map unsequenced := by
  rw [reorderByIds_queue]
  cases resequence with
  | true => simp only [if_true, resequenceLane_unsequenced]
  | false => rfl

/-- The ids of the rows put first are the listed ones that are queued. -/
theorem map_id_listed (messageIds : List String) :
    (s.listed messageIds).map (·.id) = messageIds.filter (· ∈ s.ids) := by
  induction messageIds with
  | nil => rfl
  | cons id rest ih =>
    simp only [listed, List.filterMap_cons] at ih ⊢
    cases hfind : s.queue.reverse.find? (·.id = id) with
    | none =>
      have hid : id ∉ s.ids := by
        simpa [ids] using hfind
      simpa [hid] using ih
    | some row =>
      have hrow : row.id = id := by simpa using List.find?_some hfind
      have hid : id ∈ s.ids := by
        rw [← hrow]
        exact List.mem_map_of_mem (List.mem_reverse.mp (List.mem_of_find?_eq_some hfind))
      simpa [hid, hrow] using ih

/-- A reorder that lists no queued id twice permutes the rows. -/
theorem listed_perm {s : PromptQueue} {messageIds : List String} (hids : s.ids.Nodup)
    (hrepeat : (messageIds.filter (· ∈ s.ids)).Nodup) :
    (s.listed messageIds ++ s.queue.filter (fun row => row.id ∉ messageIds)).Perm s.queue := by
  have hlisted : (s.listed messageIds).Perm (s.queue.filter (fun row => row.id ∈ messageIds)) := by
    have hmap := s.map_id_listed messageIds
    refine (List.perm_ext_iff_of_nodup (List.Nodup.of_map (·.id) (hmap ▸ hrepeat))
      ((hids.of_map _).filter _)).mpr fun row => ?_
    simp only [listed, List.mem_filterMap, List.mem_filter, decide_eq_true_eq]
    constructor
    · rintro ⟨id, hid, hfind⟩
      have hrow : row.id = id := by simpa using List.find?_some hfind
      exact ⟨List.mem_reverse.mp (List.mem_of_find?_eq_some hfind), hrow ▸ hid⟩
    · rintro ⟨hrow, hid⟩
      refine ⟨row.id, hid, ?_⟩
      have hfound : (s.queue.reverse.find? (·.id = row.id)).isSome = true := by
        rw [List.find?_isSome]
        exact ⟨row, List.mem_reverse.mpr hrow, by simp⟩
      obtain ⟨other, hother⟩ := Option.isSome_iff_exists.mp hfound
      have hsame : other.id = row.id := by simpa using List.find?_some hother
      rw [hother, List.inj_on_of_nodup_map hids
        (List.mem_reverse.mp (List.mem_of_find?_eq_some hother)) hrow hsame]
  refine (hlisted.append_right _).trans ?_
  simpa only [decide_not] using List.filter_append_perm (fun row => decide (row.id ∈ messageIds)) s.queue

/-- The ids that `listed` repeats are repeated in the queue. -/
theorem repeats_of_nodup {s : PromptQueue} {messageIds : List String} {resequence : Bool}
    (h : (s.reorderByIds messageIds resequence).ids.Nodup) :
    (messageIds.filter (· ∈ s.ids)).Nodup := by
  rw [ids, ids_eq_map_unsequenced, reorderByIds_unsequenced, ← ids_eq_map_unsequenced,
    List.map_append, map_id_listed] at h
  exact h.of_append_left

/-! ## Runs -/

/-- What every operation does to the rows of a queue with distinct ids. -/
theorem rows_change {s : PromptQueue} {event : Event} (hids : s.ids.Nodup)
    (hfresh : FreshUuids s event) (hrepeat : NoRepeats s event) : RowsChange s event := by
  cases event with
  | enqueue text opts uuid now => exact s.ids_enqueue text opts uuid now
  | enqueueAtFront text opts uuid now => exact s.ids_enqueueAtFront text opts uuid now
  | enqueueExisting message uuid => exact ids_enqueueExisting hfresh
  | enqueueExistingAtFront message uuid => exact ids_enqueueExistingAtFront hfresh
  | restoreAtFront message uuid =>
    exact (reorder_ids_perm _).trans (ids_enqueueExistingAtFront hfresh)
  | steer messageId => exact s.ids_steer messageId
  | remove messageId => exact s.ids_remove messageId
  | dequeue => exact List.map_tail
  | dequeueForTarget target => exact s.ids_dequeueForTarget target
  | dequeueAllSteered => exact s.ids_dequeueAllSteered
  | reorderByIds messageIds resequence =>
    change ((s.reorderByIds messageIds resequence).queue.map unsequenced).Perm _
    rw [reorderByIds_unsequenced]
    exact (listed_perm hids hrepeat).map _
  | retarget reason restoredRows => exact ids_retarget hfresh

/-- An operation that changes the rows as it should keeps their ids distinct. -/
theorem RowsChange.nodup {s : PromptQueue} {event : Event} (h : RowsChange s event)
    (hids : s.ids.Nodup) : (step s event).ids.Nodup := by
  cases event with
  | enqueue text opts uuid now => exact h.nodup_iff.mpr (hids.insert)
  | enqueueAtFront text opts uuid now => exact h.nodup_iff.mpr (hids.insert)
  | enqueueExisting message uuid => exact h.nodup_iff.mpr (hids.insert)
  | enqueueExistingAtFront message uuid => exact h.nodup_iff.mpr (hids.insert)
  | restoreAtFront message uuid => exact h.nodup_iff.mpr (hids.insert)
  | steer messageId => exact h.nodup_iff.mpr hids
  | remove messageId =>
    rw [show (step s (.remove messageId)).ids = s.ids.erase messageId from h]
    exact hids.erase _
  | dequeue =>
    rw [show (step s .dequeue).ids = s.ids.tail from h]
    exact hids.tail
  | dequeueForTarget target =>
    simp only [RowsChange] at h
    split at h
    · rwa [h]
    · exact (List.nodup_cons.mp (h.nodup_iff.mp hids)).2
  | dequeueAllSteered =>
    rw [show s.ids = _ from h] at hids
    exact hids.of_append_right
  | reorderByIds messageIds resequence =>
    have hperm := h.map (·.id)
    rw [← ids_eq_map_unsequenced, ← ids_eq_map_unsequenced] at hperm
    exact hperm.nodup_iff.mpr hids
  | retarget reason restoredRows =>
    refine h.nodup_iff.mpr ?_
    clear h
    generalize s.ids = ids at hids
    induction restoredRows generalizing ids with
    | nil => exact hids
    | cons row rest ih => exact ih _ hids.insert

theorem nodup_restore {s : PromptQueue} (hids : s.ids.Nodup) (message : RawMessage × String) :
    (s.restore message).ids.Nodup := by
  unfold restore
  dsimp only
  split
  · simpa [ids] using hids
  · rename_i hnew
    have happend : (s.ids ++ [(s.normalizeQueuedMessage message.1 message.2).1.id]).Nodup := by
      rw [(List.perm_append_singleton _ _).nodup_iff]
      exact List.nodup_cons.mpr ⟨by simpa [ids] using hnew, hids⟩
    simpa [ids] using happend

theorem nodup_new (initial : List (RawMessage × String)) : (new initial).ids.Nodup := by
  have hfold : ∀ s : PromptQueue, s.ids.Nodup → (initial.foldl restore s).ids.Nodup := by
    induction initial with
    | nil => exact fun s hs => hs
    | cons message rest ih => exact fun s hs => ih _ (nodup_restore hs message)
  exact hfold empty List.nodup_nil

/-- **Rows are kept.** From any persisted queue, the ids in the queue stay pairwise
    distinct and every operation changes the rows by its own insertion or removal alone,
    in exactly the runs in which no reorder lists a queued id twice. -/
theorem rows_kept_iff (initial : List (RawMessage × String)) (events : List Event)
    (hfresh : Along step FreshUuids (new initial) events) :
    (Always step (fun s => s.ids.Nodup) (new initial) events ∧
      Along step RowsChange (new initial) events) ↔ Along step NoRepeats (new initial) events := by
  have hstep : ∀ s event, s.ids.Nodup → FreshUuids s event → NoRepeats s event →
      (step s event).ids.Nodup :=
    fun s event hids hfresh hrepeat => (rows_change hids hfresh hrepeat).nodup hids
  have hbad : ∀ s event, s.ids.Nodup → FreshUuids s event → ¬ NoRepeats s event →
      ¬ (step s event).ids.Nodup := by
    intro s event _ _ hrepeat hnodup
    cases event with
    | reorderByIds messageIds resequence => exact hrepeat (repeats_of_nodup hnodup)
    | _ => exact hrepeat trivial
  have hiff := always_iff_along (P := fun s => s.ids.Nodup) hstep (fun _ h => h) hbad
    (nodup_new initial) hfresh
  refine ⟨fun h => hiff.mp h.1, fun h => ⟨hiff.mpr h, ?_⟩⟩
  have hkeep : ∀ s event, s.ids.Nodup → FreshUuids s event ∧ NoRepeats s event →
      (step s event).ids.Nodup := fun s event hids hg => hstep s event hids hg.1 hg.2
  exact along_of_along hkeep (fun s event hids hg => rows_change hids hg.1 hg.2)
    (nodup_new initial) (along_and hfresh h)

/-- Options without delivery metadata. -/
def plainOptions : PromptQueueEnqueueOptions where
  displayText := none
  isSteered := none
  source := none
  verifierOwned := false
  author := .absent
  goalDispatchGuardId := none
  intentId := none
  kind := none
  targetTurn := none
  sequence := .absent
  deliveryState := none
  deliveryReason := none
  deliveryError := none
  payload := ⟨[], [], none, false, false, none⟩

/-- The rows of an empty queue are kept while a prompt is enqueued, steered and
    reordered among unknown ids. -/
theorem rows_kept_enqueue :
    let events : List Event := [.enqueue [] plainOptions "a" 0, .steer "a", .reorderByIds ["b", "b", "a"] true]
    Along step FreshUuids (new []) events ∧ Along step RowsChange (new []) events := by
  refine ⟨⟨trivial, trivial, trivial, trivial⟩, ?_⟩
  refine ((rows_kept_iff [] [.enqueue [] plainOptions "a" 0, .steer "a",
    .reorderByIds ["b", "b", "a"] true] ⟨trivial, trivial, trivial, trivial⟩).mpr ?_).2
  refine ⟨trivial, trivial, ?_, trivial⟩
  simp only [NoRepeats]
  decide

/-- A reorder that lists a queued id twice puts its row into the queue twice. -/
theorem reorder_duplicates_row :
    ¬ ∀ (initial : List (RawMessage × String)) (events : List Event),
      Along step FreshUuids (new initial) events →
        Always step (fun s => s.ids.Nodup) (new initial) events ∧
          Along step RowsChange (new initial) events := by
  intro h
  have hrun := h [] [.enqueue [] plainOptions "a" 0, .reorderByIds ["a", "a"] false]
    ⟨trivial, trivial, trivial⟩
  exact absurd hrun.1.last (by decide)

end PromptQueue

end Bobbit.Server
