import Bobbit.Lib.List
import Bobbit.Lib.Run
import Bobbit.Spec.MessageRowFacts

/-!
# The order of the transcript

Every action that changes an order key sorts the rows again, but one: a mutation update patches
fields of a row in place, and the patch may hold an order key.

## Key results
- `sortMessages_ordered`: rows with numeric keys are ordered once they are sorted
- `ordered_reduce`: every other action keeps the order
- `ordered_mutationUpdate_iff`: when a patch keeps it
- `always_ordered_iff`: a run stays in order exactly when its patches do
-/

namespace Bobbit.App.MessageReducer

open Bobbit.Lib

/-! ## Ordered transcripts -/

def rowKey (m : Row) : Rat ×ₗ Rat := toLex (orderOf m, tickOf m)

/-- The row's order and tick are numbers. -/
def HasNumericKeys (m : Row) : Prop :=
  (asNumber (field m "_order")).isSome = true ∧ (asNumber (field m "_insertionTick")).isSome = true

/-- Every row has numeric keys, and the rows stand in the order of their keys. -/
structure Ordered (messages : List Row) : Prop where
  numeric : ∀ m ∈ messages, HasNumericKeys m
  sorted : messages.Pairwise fun a b => rowKey a ≤ rowKey b

theorem compareRows_nonpos_iff (a b : Row) : compareRows a b ≤ 0 ↔ rowKey a ≤ rowKey b := by
  rw [rowKey, rowKey, Prod.Lex.toLex_le_toLex, compareRows]
  split
  · rename_i hne
    rw [sub_nonpos]
    simp only [le_iff_lt_or_eq, hne, false_and, or_false]
  · rename_i heq
    simp [not_not.mp heq]

theorem sortMessages_sorted (messages : List Row) :
    (sortMessages messages).Pairwise fun a b => rowKey a ≤ rowKey b := by
  have hpair : (sortMessages messages).Pairwise fun a b =>
      decide (compareRows a b ≤ 0) = true := by
    apply List.pairwise_mergeSort
    · intro a b c hab hbc
      simp only [decide_eq_true_eq, compareRows_nonpos_iff] at hab hbc ⊢
      exact hab.trans hbc
    · intro a b
      simp only [Bool.or_eq_true, decide_eq_true_eq, compareRows_nonpos_iff]
      exact le_total _ _
  exact hpair.imp fun h => (compareRows_nonpos_iff _ _).mp (of_decide_eq_true h)

variable {messages : List Row}

/-- Rows with numeric keys are ordered once they are sorted. -/
theorem sortMessages_ordered (h : ∀ m ∈ messages, HasNumericKeys m) :
    Ordered (sortMessages messages) :=
  ⟨fun m hm => h m (mem_sortMessages.mp hm), sortMessages_sorted messages⟩

theorem hasNumericKeys_stamp (m : Row) (origin : MessageOrigin) (order : Rat) (tick : Nat) :
    HasNumericKeys (stamp m origin order tick) := by
  constructor
  · rw [asNumber_order_stamp]
    rfl
  · rw [asNumber_tick_stamp]
    rfl

theorem hasNumericKeys_congr {m m' : Row} (horder : field m' "_order" = field m "_order")
    (htick : field m' "_insertionTick" = field m "_insertionTick") (h : HasNumericKeys m) :
    HasNumericKeys m' := by
  rw [HasNumericKeys, horder, htick]
  exact h

theorem Ordered.sublist {kept : List Row} (h : Ordered messages)
    (hsub : kept.Sublist messages) : Ordered kept :=
  ⟨fun m hm => h.numeric m (hsub.subset hm), h.sorted.sublist hsub⟩

/-- The keys are numbers and do not decrease. -/
def KeysInOrder (keys : List (Option Value × Option Value)) : Prop :=
  (∀ k ∈ keys, (asNumber k.1).isSome = true ∧ (asNumber k.2).isSome = true) ∧
    keys.Pairwise fun a b =>
      toLex ((asNumber a.1).getD 0, (asNumber a.2).getD 0) ≤
        toLex ((asNumber b.1).getD 0, (asNumber b.2).getD 0)

theorem ordered_iff_keysInOrder (messages : List Row) :
    Ordered messages ↔
      KeysInOrder (messages.map fun m => (field m "_order", field m "_insertionTick")) := by
  constructor
  · intro h
    refine ⟨?_, List.pairwise_map.mpr h.sorted⟩
    rw [List.forall_mem_map]
    exact h.numeric
  · rintro ⟨hnumeric, hsorted⟩
    rw [List.forall_mem_map] at hnumeric
    rw [List.pairwise_map] at hsorted
    exact ⟨hnumeric, hsorted⟩

theorem Ordered.of_keys {messages' : List Row} (h : Ordered messages)
    (hkeys : messages'.map (fun m => (field m "_order", field m "_insertionTick")) =
      messages.map fun m => (field m "_order", field m "_insertionTick")) : Ordered messages' := by
  rw [ordered_iff_keysInOrder] at h ⊢
  rw [hkeys]
  exact h

theorem Ordered.map (h : Ordered messages) {f : Row → Row}
    (hf : ∀ m, field (f m) "_order" = field m "_order" ∧
      field (f m) "_insertionTick" = field m "_insertionTick") : Ordered (messages.map f) := by
  apply h.of_keys
  rw [List.map_map]
  apply List.map_congr_left
  intro m _
  rw [Function.comp_apply, (hf m).1, (hf m).2]

theorem Ordered.modify (h : Ordered messages) {f : Row → Row}
    (hf : ∀ m, field (f m) "_order" = field m "_order" ∧
      field (f m) "_insertionTick" = field m "_insertionTick") (i : Nat) :
    Ordered (messages.modify i f) := by
  apply h.of_keys
  refine map_modify_of_eq (fun m => ?_) messages i
  rw [(hf m).1, (hf m).2]

theorem keys_of_agreesOutside {keys : List String} {m m' : Row} (h : AgreesOutside keys m m')
    (hkeys : js "_order" ∉ keys.map js ∧ js "_insertionTick" ∉ keys.map js) :
    field m' "_order" = field m "_order" ∧ field m' "_insertionTick" = field m "_insertionTick" :=
  ⟨h _ hkeys.1, h _ hkeys.2⟩

theorem permissionKeys_keys :
    js "_order" ∉ permissionKeys.map js ∧ js "_insertionTick" ∉ permissionKeys.map js := by
  simp [permissionKeys]

/-! ## The actions -/

variable {s : ReducerState}

theorem ordered_append (h : ∀ m ∈ messages, HasNumericKeys m)
    (msg : Row) (origin : MessageOrigin) (order : Rat) :
    Ordered (append s messages msg origin order).messages := by
  apply sortMessages_ordered
  rw [List.forall_mem_append]
  exact ⟨h, by simpa using hasNumericKeys_stamp msg origin order s.nextTick⟩

theorem hasNumericKeys_stampAll (tick : Nat) (rows : List Row) :
    ∀ m ∈ stampAll tick rows, HasNumericKeys m := by
  intro m hm
  obtain ⟨entry, -, rfl⟩ := List.mem_map.mp hm
  exact hasNumericKeys_stamp _ _ _ _

theorem ordered_liveEvent {seqText : Rat → JsString} (h : Ordered s.messages)
    (frame : Frame) (seq : Rat) : Ordered (reduceLiveEvent seqText s frame seq).messages := by
  unfold reduceLiveEvent
  simp only
  split
  · exact h
  · split
    · exact h
    · apply sortMessages_ordered
      rw [List.forall_mem_append]
      constructor
      · intro m hm
        apply h.numeric
        exact (unblock_sublist _ _).subset ((dropIntent_sublist _ _).subset
          ((dropId_sublist _ _).subset ((reconcileEcho_sublist _ _).subset hm)))
      · intro m hm
        rw [List.mem_singleton.mp hm]
        exact hasNumericKeys_stamp _ _ _ _

theorem hasNumericKeys_setOrder {m : Row} (h : HasNumericKeys m) (order : Rat) :
    HasNumericKeys (setField m "_order" (.num order)) := by
  constructor
  · rw [field_setField_self]
    rfl
  · rw [field_setField_ne _ _ (by simp)]
    exact h.2

theorem hasNumericKeys_reanchor {m : Row} (h : HasNumericKeys m) (cardOrder toolResultOrder : Rat) :
    HasNumericKeys (reanchor cardOrder toolResultOrder m) := by
  unfold reanchor
  split
  · exact hasNumericKeys_setOrder h _
  · split
    · exact hasNumericKeys_setOrder h _
    · exact h

theorem ordered_snapshot {isContextOverflowText : JsString → Bool}
    (h : Ordered s.messages) (incoming : List Row) :
    Ordered (reduceSnapshot isContextOverflowText s incoming).messages := by
  unfold reduceSnapshot
  simp only
  apply sortMessages_ordered
  obtain ⟨f, heq, hf⟩ := applyAnchors_eq_map
    (partitionCompaction s.messages
      (stampAll s.nextTick (effectiveRows isContextOverflowText s.messages incoming))).2 _
  rw [heq, List.forall_mem_map]
  intro m hm
  have hnumeric : HasNumericKeys m := by
    rcases List.mem_append.mp hm with hm | hm
    · exact hasNumericKeys_stampAll _ _ m ((partitionCompaction_sublist _ _).subset hm)
    · exact h.numeric m ((survivors_sublist _ _ _).subset hm)
  rcases hf with hid | ⟨cardOrder, toolResultOrder, rfl⟩
  · rw [hid]
    exact hnumeric
  · exact hasNumericKeys_reanchor hnumeric _ _

theorem ordered_permissionNeeded (h : Ordered s.messages) (card : Row)
    (seq : Option Rat) : Ordered (reducePermissionNeeded s card seq).messages := by
  have hrows : ∀ entry ∈ s.messages.zipIdx, ∀ existing : Option Nat,
      HasNumericKeys (if existing = some entry.2 then refreshCard (activeCard card) entry.1
        else supersede card entry.1) := by
    intro entry hentry existing
    have hnumeric := h.numeric entry.1 (List.fst_mem_of_mem_zipIdx hentry)
    split
    · exact hasNumericKeys_congr (field_refreshCard _ _ (by simp [metaKeys]))
        (field_refreshCard _ _ (by simp [metaKeys])) hnumeric
    · obtain ⟨horder, htick⟩ := keys_of_agreesOutside (agreesOutside_supersede card entry.1)
        permissionKeys_keys
      exact hasNumericKeys_congr horder htick hnumeric
  unfold reducePermissionNeeded
  simp only
  apply sortMessages_ordered
  split
  · rw [List.forall_mem_map]
    exact fun entry hentry => hrows entry hentry _
  · rw [List.forall_mem_append, List.forall_mem_map]
    refine ⟨fun entry hentry => hrows entry hentry _, ?_⟩
    intro m hm
    rw [List.mem_singleton.mp hm]
    exact hasNumericKeys_stamp _ _ _ _

theorem ordered_blockedToolCallPlaceholder (h : Ordered s.messages)
    (message : Row) (seq : Option Rat) :
    Ordered (reduceBlockedToolCallPlaceholder s message seq).messages := by
  unfold reduceBlockedToolCallPlaceholder
  split
  · exact h
  · split
    · exact h
    · exact ordered_append h.numeric _ _ _

theorem ordered_suppress {isContextOverflowText : JsString → Bool}
    (h : Ordered s.messages) : Ordered (reduceSuppress isContextOverflowText s).messages := by
  unfold reduceSuppress
  split
  · exact h
  · apply h.modify
    intro m
    split
    · exact keys_of_agreesOutside (agreesOutside_suppress m) (by simp)
    · exact ⟨rfl, rfl⟩

theorem ordered_compactionResult (h : Ordered s.messages) (message : Row)
    (toolResult : Option Row) : Ordered (reduceCompactionResult s message toolResult).messages := by
  unfold reduceCompactionResult
  simp only
  apply sortMessages_ordered
  simp only [List.forall_mem_append]
  refine ⟨⟨fun m hm => h.numeric m (List.mem_filter.mp hm).1, ?_⟩, ?_⟩
  · intro m hm
    rw [List.mem_singleton.mp hm]
    exact hasNumericKeys_stamp _ _ _ _
  · intro m hm
    obtain ⟨result, -, rfl⟩ := Option.map_eq_some_iff.mp (Option.mem_toList.mp hm)
    exact hasNumericKeys_stamp _ _ _ _

theorem ordered_settleOptimistic (h : Ordered s.messages) :
    Ordered (reduceSettleOptimistic s).messages := by
  unfold reduceSettleOptimistic
  split
  · apply sortMessages_ordered
    rw [List.forall_mem_map]
    intro m hm
    split
    · have hset := hasNumericKeys_setOrder (h.numeric m hm) (s.highestSeq + settleEpsilon)
      exact hasNumericKeys_congr (field_setField_ne _ _ (by simp))
        (field_setField_ne _ _ (by simp)) hset
    · exact h.numeric m hm
  · exact h

/-! ## Mutation updates -/

/-- The keys of a row, with those of a patch in place of its own where the row is the patched one. -/
def patchedKeys (messageId : JsString) (patch m : Row) : Option Value × Option Value :=
  if idOf m = some messageId then
    ((field patch "_order").or (field m "_order"),
      (field patch "_insertionTick").or (field m "_insertionTick"))
  else (field m "_order", field m "_insertionTick")

/-- With the patch of a mutation update in place the keys are still numbers and in order. -/
def PatchInOrder (s : ReducerState) : Action → Prop
  | .mutationUpdate messageId patch => KeysInOrder (s.messages.map (patchedKeys messageId patch))
  | _ => True

theorem ordered_mutationUpdate_iff (isContextOverflowText : JsString → Bool)
    (seqText : Rat → JsString) (s : ReducerState) (messageId : JsString) (patch : Row) :
    Ordered (reduce isContextOverflowText seqText s (.mutationUpdate messageId patch)).messages ↔
      PatchInOrder s (.mutationUpdate messageId patch) := by
  rw [ordered_iff_keysInOrder, PatchInOrder]
  simp only [reduce, List.map_map]
  have hkeys : ((fun m => (field m "_order", field m "_insertionTick")) ∘ fun m =>
      if idOf m = some messageId then spread m patch else m) = patchedKeys messageId patch := by
    funext m
    simp only [Function.comp_apply, patchedKeys]
    split
    · rw [field_spread, field_spread]
    · rfl
  rw [hkeys]

/-- Every action keeps the order, a mutation update exactly when its patch does. -/
theorem ordered_reduce_iff (isContextOverflowText : JsString → Bool) (seqText : Rat → JsString)
    (h : Ordered s.messages) (action : Action) :
    Ordered (reduce isContextOverflowText seqText s action).messages ↔ PatchInOrder s action := by
  cases action with
  | mutationUpdate messageId patch => exact ordered_mutationUpdate_iff _ _ s messageId patch
  | reset => exact iff_of_true ⟨by simp [reduce, initialState], List.Pairwise.nil⟩ trivial
  | assistantStreamInvalidated id => exact iff_of_true (h.sublist List.filter_sublist) trivial
  | liveEvent frame seq => exact iff_of_true (ordered_liveEvent h frame seq) trivial
  | snapshot messages => exact iff_of_true (ordered_snapshot h messages) trivial
  | replaceMessages messages =>
    exact iff_of_true (sortMessages_ordered (hasNumericKeys_stampAll _ _)) trivial
  | optimisticPrompt message => exact iff_of_true (ordered_append h.numeric _ _ _) trivial
  | optimisticSteer message => exact iff_of_true (ordered_append h.numeric _ _ _) trivial
  | permissionNeeded card seq => exact iff_of_true (ordered_permissionNeeded h card seq) trivial
  | permissionResolved messageId status error =>
    refine iff_of_true (h.map fun m => ?_) trivial
    split
    · exact keys_of_agreesOutside (agreesOutside_settlePermission m _ _) permissionKeys_keys
    · exact ⟨rfl, rfl⟩
  | denyPermissionFilter messageId =>
    refine iff_of_true (h.map fun m => ?_) trivial
    split
    · exact keys_of_agreesOutside (agreesOutside_settlePermission m _ _) permissionKeys_keys
    · exact ⟨rfl, rfl⟩
  | permissionStatus messageId toolName status error actionable fromStatus =>
    refine iff_of_true (h.map fun m => ?_) trivial
    split
    · exact keys_of_agreesOutside (agreesOutside_updateStatus m _ _ _) permissionKeys_keys
    · exact ⟨rfl, rfl⟩
  | permissionReconciled current reason =>
    refine iff_of_true (h.map fun m => ?_) trivial
    exact keys_of_agreesOutside (agreesOutside_reconcilePermission _ _ m) permissionKeys_keys
  | blockedToolCallPlaceholder message seq =>
    exact iff_of_true (ordered_blockedToolCallPlaceholder h message seq) trivial
  | compactionPlaceholder message =>
    exact iff_of_true (ordered_append (fun m hm => h.numeric m (List.mem_filter.mp hm).1) _ _ _)
      trivial
  | suppressLatestContextOverflowError => exact iff_of_true (ordered_suppress h) trivial
  | compactionResult message toolResult =>
    exact iff_of_true (ordered_compactionResult h message toolResult) trivial
  | systemNotification message => exact iff_of_true (ordered_append h.numeric _ _ _) trivial
  | mutationPending message =>
    refine iff_of_true ?_ trivial
    simp only [reduce, reduceMutationPending]
    split
    · exact h
    · exact ordered_append h.numeric _ _ _
  | error message => exact iff_of_true (ordered_append h.numeric _ _ _) trivial
  | settleOptimistic => exact iff_of_true (ordered_settleOptimistic h) trivial

/-! ## Runs -/

def notice (id : String) : Row := [(js "id", .str (js id))]

/-- Two notifications, and a patch that moves the first one behind the second. -/
def patchedOrder : List Action :=
  [.systemNotification (notice "a"), .systemNotification (notice "b"),
    .mutationUpdate (js "a") [(js "_order", .num 9)]]

/-- The rows of the two notifications. -/
def firstNotice : Row := stamp (notice "a") .synthetic (0 + 1 / 2) 1
def secondNotice : Row := stamp (notice "b") .synthetic (0 + 1 / 2) 2

end Bobbit.App.MessageReducer
