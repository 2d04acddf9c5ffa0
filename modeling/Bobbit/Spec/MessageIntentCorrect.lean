import Bobbit.Lib.List
import Bobbit.Lib.Run
import Bobbit.Spec.MessageRowFacts

/-!
# One user row for each delivery

A live echo drops every row of its delivery and a snapshot keeps one of them, but an optimistic row,
a replaced transcript and a patch are taken as they come.

## Key results
- `onePerIntent_liveEvent`, `onePerIntent_snapshot`: what never shows a delivery twice
- `onePerIntent_reduce_iff`: when the other actions do not
- `always_onePerIntent_iff`: a run shows every delivery once exactly when its steps bring it once
- `echo_before_optimistic`: the optimistic row of a prompt that was already echoed
-/

namespace Bobbit.App.MessageReducer

open Bobbit.Lib

/-! ## Deliveries of user rows -/

def userIntent (m : Row) : Option JsString := if isUserRow m then deliveryIntentId m else none

def userIntents (messages : List Row) : List JsString := messages.filterMap userIntent

/-- Every delivery intent is carried by at most one user row. -/
def OnePerIntent (messages : List Row) : Prop :=
  ∀ intentId, messages.countP (fun m => userIntent m == some intentId) ≤ 1

theorem count_userIntents (messages : List Row) (intentId : JsString) :
    (userIntents messages).count intentId =
      messages.countP fun m => userIntent m == some intentId := by
  induction messages with
  | nil => rfl
  | cons m rest ih =>
    rw [userIntents, List.filterMap_cons, List.countP_cons]
    rw [userIntents] at ih
    cases h : userIntent m with
    | none => simp [ih]
    | some id => simp [List.count_cons, ih]

theorem onePerIntent_iff_nodup (messages : List Row) :
    OnePerIntent messages ↔ (userIntents messages).Nodup := by
  rw [List.nodup_iff_count_le_one]
  simp only [count_userIntents]
  exact Iff.rfl

variable {m : Row}

theorem userIntent_congr {m' : Row} (hrole : field m' "role" = field m "role")
    (hintent : field m' "deliveryIntentId" = field m "deliveryIntentId")
    (hlegacy : field m' "intentId" = field m "intentId") : userIntent m' = userIntent m := by
  rw [userIntent, isUserRow_congr hrole, deliveryIntentId_congr hintent hlegacy, userIntent]

/-- The fields that a delivery is read from. -/
@[simp] def intentKeys : List String := ["role", "deliveryIntentId", "intentId"]

theorem AgreesOutside.userIntent_eq {keys : List String} {m' : Row} (h : AgreesOutside keys m m')
    (hkeys : ∀ k ∈ intentKeys, js k ∉ keys.map js) :
    userIntent m' = userIntent m :=
  userIntent_congr (h _ (hkeys _ (by simp [intentKeys]))) (h _ (hkeys _ (by simp [intentKeys])))
    (h _ (hkeys _ (by simp [intentKeys])))

theorem userIntent_stamp (m : Row) (origin : MessageOrigin) (order : Rat) (tick : Nat) :
    userIntent (stamp m origin order tick) = userIntent m :=
  (agreesOutside_stamp m origin order tick).userIntent_eq (by simp)

/-- The id and the mark of a blocked tool call are no part of a delivery. -/
theorem userIntent_block (m : Row) (id blocked : Value) :
    userIntent (setField (setField m "id" id) "_permissionBlocked" blocked) = userIntent m := by
  have hagrees : AgreesOutside ["id", "_permissionBlocked"] m
      (setField (setField m "id" id) "_permissionBlocked" blocked) :=
    (agreesOutside_setField m _ _ (by simp)).trans (agreesOutside_setField _ _ _ (by simp))
  exact hagrees.userIntent_eq (by simp)

theorem userIntent_enrichUserMessage (m : Row) : userIntent (enrichUserMessage m) = userIntent m := by
  have hagrees := agreesOutside_enrichUserMessage m
  have hintent := deliveryIntentId_congr (hagrees.field_eq "deliveryIntentId" (by simp))
    (hagrees.field_eq "intentId" (by simp))
  have huser : isUserRow (enrichUserMessage m) = isUserRow m := by
    unfold enrichUserMessage
    split
    · rfl
    · rename_i hrole
      split
      · rfl
      · simp only
        split
        · rfl
        · have hm : isUserRow m = true := by
            simp only [Bool.not_eq_true, Bool.not_eq_false'] at hrole
            simp [isUserRow, hrole]
          rw [hm, isUserRow, hasRole, hasRole, field_setField_ne _ _ (by simp),
            field_setField_self]
          simp [isText, asString]
  rw [userIntent, huser, hintent, userIntent]

/-! ## Lists of rows -/

variable {messages : List Row}

theorem userIntents_eq_of_map {messages' : List Row}
    (h : messages'.map userIntent = messages.map userIntent) :
    userIntents messages' = userIntents messages := by
  have hmap : ∀ l : List Row, userIntents l = (l.map userIntent).filterMap id := by
    intro l
    rw [List.filterMap_map]
    rfl
  rw [hmap, h, hmap]

/-- An update of the rows that leaves the deliveries alone. -/
theorem userIntents_map {f : Row → Row} (hf : ∀ m, userIntent (f m) = userIntent m)
    (messages : List Row) : userIntents (messages.map f) = userIntents messages := by
  apply userIntents_eq_of_map
  rw [List.map_map]
  exact List.map_congr_left fun m _ => hf m

theorem userIntents_sortMessages (messages : List Row) :
    (userIntents (sortMessages messages)).Perm (userIntents messages) :=
  (sortMessages_perm messages).filterMap _

theorem onePerIntent_sortMessages (messages : List Row) :
    OnePerIntent (sortMessages messages) ↔ OnePerIntent messages := by
  rw [onePerIntent_iff_nodup, onePerIntent_iff_nodup, (userIntents_sortMessages messages).nodup_iff]

theorem OnePerIntent.sublist {kept : List Row} (h : OnePerIntent messages)
    (hsub : kept.Sublist messages) : OnePerIntent kept := by
  rw [onePerIntent_iff_nodup] at h ⊢
  exact h.sublist (hsub.filterMap _)

theorem OnePerIntent.map {f : Row → Row} (hf : ∀ m, userIntent (f m) = userIntent m) :
    OnePerIntent (messages.map f) ↔ OnePerIntent messages := by
  rw [onePerIntent_iff_nodup, onePerIntent_iff_nodup, userIntents_map hf]

/-- No user row carries the delivery of this row. -/
def NewDelivery (messages : List Row) (m : Row) : Prop :=
  ∀ intentId, userIntent m = some intentId → intentId ∉ userIntents messages

/-- One more row shows no delivery twice exactly when its own is new. -/
theorem onePerIntent_concat_iff (h : OnePerIntent messages) (m : Row) :
    OnePerIntent (messages ++ [m]) ↔ NewDelivery messages m := by
  rw [onePerIntent_iff_nodup] at h ⊢
  rw [userIntents, List.filterMap_append, ← userIntents]
  unfold NewDelivery
  cases hm : userIntent m with
  | none => simpa [hm] using h
  | some intentId =>
    simp only [List.filterMap_cons, hm, List.filterMap_nil, Option.some.injEq, forall_eq']
    rw [List.nodup_append_comm, List.singleton_append, List.nodup_cons]
    exact and_iff_left h

theorem newDelivery_stamp (messages : List Row) (m : Row) (origin : MessageOrigin) (order : Rat)
    (tick : Nat) : NewDelivery messages (stamp m origin order tick) ↔ NewDelivery messages m := by
  rw [NewDelivery, userIntent_stamp, NewDelivery]

variable {s : ReducerState}

theorem onePerIntent_append_iff (h : OnePerIntent messages)
    (msg : Row) (origin : MessageOrigin) (order : Rat) :
    OnePerIntent (append s messages msg origin order).messages ↔ NewDelivery messages msg := by
  rw [append, onePerIntent_sortMessages, onePerIntent_concat_iff h, newDelivery_stamp]

/-! ## Live events -/

theorem mem_userIntents {intentId : JsString} :
    intentId ∈ userIntents messages ↔ ∃ m ∈ messages, userIntent m = some intentId :=
  List.mem_filterMap

theorem deliveryIntentId_of_userIntent {intentId : JsString}
    (h : userIntent m = some intentId) : deliveryIntentId m = some intentId := by
  unfold userIntent at h
  split at h
  · exact h
  · cases h

/-- Rows of the incoming row's delivery are gone before it comes in. -/
theorem newDelivery_dropIntent (messages : List Row) (incoming : Row) :
    NewDelivery (dropIntent messages incoming) incoming := by
  intro intentId hintent hmem
  have hid := deliveryIntentId_of_userIntent hintent
  obtain ⟨m, hm, hsame⟩ := mem_userIntents.mp hmem
  rw [dropIntent, hid] at hm
  have hne := (List.mem_filter.mp hm).2
  simp only [decide_eq_true_eq] at hne
  exact hne (deliveryIntentId_of_userIntent hsame)

theorem NewDelivery.sublist {kept : List Row} (h : NewDelivery messages m)
    (hsub : kept.Sublist messages) : NewDelivery kept m :=
  fun intentId hintent hmem => h intentId hintent ((hsub.filterMap _).subset hmem)

theorem onePerIntent_liveEvent {seqText : Rat → JsString}
    (h : OnePerIntent s.messages) (frame : Frame) (seq : Rat) :
    OnePerIntent (reduceLiveEvent seqText s frame seq).messages := by
  unfold reduceLiveEvent
  simp only
  split
  · exact h
  · split
    · exact h
    · have hsub : ∀ (messages : List Row) (incoming : Row),
          (reconcileEcho (dropId (dropIntent messages incoming) incoming) incoming).Sublist
            (dropIntent messages incoming) :=
        fun _ _ => (reconcileEcho_sublist _ _).trans (dropId_sublist _ _)
      rw [onePerIntent_sortMessages, onePerIntent_concat_iff]
      · rw [newDelivery_stamp]
        exact (newDelivery_dropIntent _ _).sublist (hsub _ _)
      · exact h.sublist ((hsub _ _).trans ((dropIntent_sublist _ _).trans (unblock_sublist _ _)))

/-! ## Snapshots -/

/-- The deliveries of deduplicated rows are different, and none was seen before. -/
theorem deduplicateFrom_nodup (seen : List JsString) (messages : List Row) :
    (userIntents (deduplicateFrom seen messages)).Nodup ∧
      ∀ intentId ∈ userIntents (deduplicateFrom seen messages), intentId ∉ seen := by
  induction messages generalizing seen with
  | nil => exact ⟨List.nodup_nil, fun _ h => by cases h⟩
  | cons m rest ih =>
    rw [deduplicateFrom]
    cases huser : isUserRow m with
    | false =>
      have hnone : userIntent m = none := by simp [userIntent, huser]
      simpa [userIntents, hnone] using ih seen
    | true =>
      simp only [Bool.not_true, Bool.false_eq_true, if_false]
      cases hintent : deliveryIntentId m with
      | none =>
        have hnone : userIntent m = none := by simp [userIntent, hintent]
        simpa [userIntents, hnone] using ih seen
      | some intentId =>
        have hsome : userIntent m = some intentId := by simp [userIntent, huser, hintent]
        simp only
        split
        · exact ih seen
        · rename_i hnew
          obtain ⟨hnodup, hfresh⟩ := ih (intentId :: seen)
          have hcons : userIntents (m :: deduplicateFrom (intentId :: seen) rest) =
              intentId :: userIntents (deduplicateFrom (intentId :: seen) rest) := by
            simp [userIntents, hsome]
          rw [hcons, List.nodup_cons, List.forall_mem_cons]
          refine ⟨⟨fun hmem => hfresh intentId hmem List.mem_cons_self, hnodup⟩, hnew, ?_⟩
          exact fun other hother hseen => hfresh other hother (List.mem_cons_of_mem _ hseen)

theorem markFrom_map_userIntent (isContextOverflowText : JsString → Bool)
    (suppressed : JsMap JsString (List Nat)) (ordinals : JsMap JsString Nat) (rows : List Row) :
    (markFrom isContextOverflowText suppressed ordinals rows).map userIntent =
      rows.map userIntent := by
  induction rows generalizing ordinals with
  | nil => rfl
  | cons m rest ih =>
    rw [markFrom]
    cases overflowKey isContextOverflowText m with
    | none => simp [ih]
    | some key =>
      simp only [List.map_cons, ih, List.cons.injEq, and_true]
      split
      · exact (agreesOutside_suppress m).userIntent_eq (by simp)
      · rfl

theorem keepSuppressions_userIntents (isContextOverflowText : JsString → Bool)
    (messages enriched : List Row) :
    userIntents (keepSuppressions isContextOverflowText messages enriched) =
      userIntents enriched := by
  apply userIntents_eq_of_map
  unfold keepSuppressions
  simp only
  split
  · rfl
  · rw [List.map_reverse, markFrom_map_userIntent, ← List.map_reverse, List.reverse_reverse]

theorem effectiveRows_onePerIntent (isContextOverflowText : JsString → Bool)
    (messages incoming : List Row) :
    OnePerIntent (effectiveRows isContextOverflowText messages incoming) := by
  have hall : OnePerIntent (keepSuppressions isContextOverflowText messages
      (deduplicateSnapshotUserDeliveryIntents (incoming.map enrichUserMessage))) := by
    rw [onePerIntent_iff_nodup, keepSuppressions_userIntents]
    exact (deduplicateFrom_nodup [] _).1
  unfold effectiveRows
  simp only
  split
  · exact hall.sublist List.filter_sublist
  · exact hall

theorem userIntents_stampAll (tick : Nat) (rows : List Row) :
    userIntents (stampAll tick rows) = userIntents rows := by
  apply userIntents_eq_of_map
  rw [stampAll, List.map_map]
  have hrow : (userIntent ∘ stampSnapshotRow tick) = userIntent ∘ Prod.fst := by
    funext entry
    exact userIntent_stamp _ _ _ _
  rw [hrow, ← List.map_map, List.zipIdx_map_fst]

theorem newDelivery_of_survives {index : SnapshotIndex} {counts : JsMap JsString Nat}
    (h : (survives index counts m).1 = true) {intentId : JsString}
    (hintent : deliveryIntentId m = some intentId) : intentId ∉ index.deliveryIntentIds := by
  intro hmem
  unfold survives at h
  rw [if_pos (by simpa [hintent] using hmem)] at h
  cases h

theorem survivors_disjoint (index : SnapshotIndex) (counts : JsMap JsString Nat)
    (messages : List Row) :
    ∀ intentId ∈ userIntents (survivors index counts messages),
      intentId ∉ index.deliveryIntentIds := by
  induction messages generalizing counts with
  | nil => exact fun _ h => by cases h
  | cons m rest ih =>
    rw [survivors]
    simp only
    split
    · rename_i hkept
      intro intentId hmem
      rw [userIntents, List.filterMap_cons] at hmem
      cases hm : userIntent m with
      | none =>
        rw [hm] at hmem
        exact ih _ intentId hmem
      | some other =>
        rw [hm] at hmem
        rcases List.mem_cons.mp hmem with rfl | hmem
        · exact newDelivery_of_survives hkept (deliveryIntentId_of_userIntent hm)
        · exact ih _ intentId hmem
    · exact ih _

theorem onePerIntent_snapshot {isContextOverflowText : JsString → Bool}
    (h : OnePerIntent s.messages) (incoming : List Row) :
    OnePerIntent (reduceSnapshot isContextOverflowText s incoming).messages := by
  have hrows : OnePerIntent (stampAll s.nextTick
      (effectiveRows isContextOverflowText s.messages incoming)) := by
    rw [onePerIntent_iff_nodup, userIntents_stampAll, ← onePerIntent_iff_nodup]
    exact effectiveRows_onePerIntent _ _ _
  unfold reduceSnapshot
  simp only
  rw [onePerIntent_sortMessages]
  obtain ⟨f, heq, hf⟩ := applyAnchors_eq_map
    (partitionCompaction s.messages
      (stampAll s.nextTick (effectiveRows isContextOverflowText s.messages incoming))).2 _
  rw [heq, OnePerIntent.map]
  · have hkept := hrows.sublist (partitionCompaction_sublist s.messages _)
    have hold := h.sublist (survivors_sublist
      (indexOf (partitionCompaction s.messages (stampAll s.nextTick
        (effectiveRows isContextOverflowText s.messages incoming))).1)
      (plainTextCounts (partitionCompaction s.messages (stampAll s.nextTick
        (effectiveRows isContextOverflowText s.messages incoming))).1) s.messages)
    rw [onePerIntent_iff_nodup] at hkept hold ⊢
    rw [userIntents, List.filterMap_append, List.nodup_append]
    refine ⟨hkept, hold, ?_⟩
    intro intentId hserver other hsurvivor heq
    subst heq
    apply survivors_disjoint _ _ _ intentId hsurvivor
    obtain ⟨m, hm, hintent⟩ := mem_userIntents.mp hserver
    exact List.mem_filterMap.mpr ⟨m, hm, deliveryIntentId_of_userIntent hintent⟩
  · intro m
    rcases hf with hid | ⟨cardOrder, toolResultOrder, rfl⟩
    · rw [hid]
    · exact (agreesOutside_reanchor _ _ m).userIntent_eq (by simp)

/-! ## Permission cards -/

/-- A row that held no delivery makes way for one that may. -/
theorem userIntents_set {i : Nat} {old : Row} (hold : messages[i]? = some old)
    (hnone : userIntent old = none) (m : Row) :
    (userIntents (messages.set i m)).Perm (userIntents messages ++ (userIntent m).toList) := by
  induction messages generalizing i with
  | nil => simp at hold
  | cons first rest ih =>
    cases i with
    | zero =>
      obtain rfl : first = old := by simpa using hold
      rw [List.set_cons_zero, userIntents, List.filterMap_cons, userIntents, List.filterMap_cons,
        hnone]
      cases hm : userIntent m with
      | none => simp
      | some intentId =>
        exact (List.perm_append_singleton intentId (List.filterMap userIntent rest)).symm
    | succ i =>
      have hrest := ih (i := i) (by simpa using hold)
      rw [List.set_cons_succ, userIntents, List.filterMap_cons, userIntents, List.filterMap_cons]
      cases userIntent first with
      | none => exact hrest
      | some intentId => exact hrest.cons intentId

/-- The card that a permission request brings: the repeated one refreshed, or a new one. -/
def requestedCard (s : ReducerState) (card : Row) (seq : Option Rat) : Row :=
  match s.messages.find? (isRepeatedCard card seq) with
  | some m => refreshCard (activeCard card) m
  | none => activeCard card

theorem userIntent_of_isRepeatedCard {card : Row} {seq : Option Rat}
    (h : isRepeatedCard card seq m = true) : userIntent m = none := by
  have hrole := (Bool.and_eq_true _ _ ▸ h).1
  rw [hasRole, isText, beq_iff_eq] at hrole
  have huser : isUserRow m = false := by
    rw [isUserRow, hasRole, hasRole, isText, isText, hrole]
    simp
  rw [userIntent, huser, if_neg (by simp)]

/-- A permission request shows no delivery twice exactly when its card brings a new one, if any. -/
theorem onePerIntent_permissionNeeded_iff (h : OnePerIntent s.messages)
    (card : Row) (seq : Option Rat) :
    OnePerIntent (reducePermissionNeeded s card seq).messages ↔
      NewDelivery s.messages (requestedCard s card seq) := by
  have hsupersede : ∀ m, userIntent (supersede card m) = userIntent m :=
    fun m => (agreesOutside_supersede card m).userIntent_eq (by simp)
  unfold reducePermissionNeeded requestedCard
  simp only
  rw [onePerIntent_sortMessages]
  cases hfind : s.messages.findIdx? (isRepeatedCard card seq) with
  | none =>
    have hnone := find?_of_findIdx?_none hfind
    have hrows := map_zipIdx_none (supersede card) (refreshCard (activeCard card)) s.messages
    simp only [hnone, Option.isSome_none, Bool.false_eq_true, if_false]
    rw [hrows, onePerIntent_concat_iff ((OnePerIntent.map hsupersede).mpr h), newDelivery_stamp,
      NewDelivery, userIntents_map hsupersede, NewDelivery]
  | some i =>
    obtain ⟨hi, hcard, -⟩ := List.findIdx?_eq_some_iff_getElem.mp hfind
    have hplace := List.getElem?_eq_getElem hi
    have hsome := (find?_of_findIdx? hfind).trans hplace
    -- the deliveries are those of the rows with the refreshed card in the place of the old one
    have hrows : userIntents (s.messages.zipIdx.map fun entry =>
        if some i = some entry.2 then refreshCard (activeCard card) entry.1
        else supersede card entry.1) =
          userIntents (s.messages.set i (refreshCard (activeCard card) s.messages[i])) := by
      apply userIntents_eq_of_map
      rw [map_zipIdx_some hplace, List.map_set, List.map_map, List.map_set]
      congr 1
      exact List.map_congr_left fun m _ => hsupersede m
    simp only [hsome, Option.isSome_some, if_true]
    rw [onePerIntent_iff_nodup] at h ⊢
    rw [hrows, (userIntents_set hplace (userIntent_of_isRepeatedCard hcard)
      _).nodup_iff]
    unfold NewDelivery
    cases userIntent (refreshCard (activeCard card) s.messages[i]) with
    | none => simpa using h
    | some intentId =>
      simp only [Option.toList_some, Option.some.injEq, forall_eq']
      rw [List.nodup_append_comm, List.singleton_append, List.nodup_cons]
      exact and_iff_left h

/-! ## The other actions -/

/-- The rows that the result of a compaction leaves in place. -/
def keptByResult (s : ReducerState) (message : Row) : List Row :=
  s.messages.filter fun m =>
    ! isLiveCompactionRow m && ! (compactionSummaryId message).any fun id => isCompactionRowOf id m

/-- The result of a compaction brings two rows, each with a delivery of its own, if any. -/
theorem onePerIntent_compactionResult_iff (h : OnePerIntent s.messages)
    (message : Row) (toolResult : Option Row) :
    OnePerIntent (reduceCompactionResult s message toolResult).messages ↔
      NewDelivery (keptByResult s message) message ∧
        ∀ m ∈ toolResult, NewDelivery (keptByResult s message ++ [message]) m := by
  have hkept : OnePerIntent (keptByResult s message) := h.sublist List.filter_sublist
  unfold reduceCompactionResult
  simp only
  rw [onePerIntent_sortMessages, ← keptByResult]
  have hstamped : ∀ order : Rat, userIntents (keptByResult s message ++
      [stamp message .synthetic order s.nextTick]) = userIntents (keptByResult s message ++ [message]) := by
    intro order
    apply userIntents_eq_of_map
    rw [List.map_append, List.map_append, List.map_singleton, userIntent_stamp, List.map_singleton]
  cases toolResult with
  | none =>
    rw [Option.map_none, Option.toList_none, List.append_nil, onePerIntent_concat_iff hkept,
      newDelivery_stamp]
    exact (and_iff_left (by simp)).symm
  | some result =>
    rw [Option.map_some, Option.toList_some]
    simp only [Option.mem_some_iff, forall_eq']
    constructor
    · intro hall
      have hfirst := hall.sublist (List.sublist_append_left _ _)
      refine ⟨?_, ?_⟩
      · rw [onePerIntent_concat_iff hkept, newDelivery_stamp] at hfirst
        exact hfirst
      · rw [onePerIntent_concat_iff hfirst, newDelivery_stamp, NewDelivery, hstamped] at hall
        exact hall
    · rintro ⟨hmessage, hresult⟩
      rw [onePerIntent_concat_iff, newDelivery_stamp, NewDelivery, hstamped]
      · exact hresult
      · rw [onePerIntent_concat_iff hkept, newDelivery_stamp]
        exact hmessage

theorem onePerIntent_replaceMessages_iff (s : ReducerState) (incoming : List Row) :
    OnePerIntent (reduceReplaceMessages s incoming).messages ↔ OnePerIntent incoming := by
  unfold reduceReplaceMessages
  simp only
  rw [onePerIntent_sortMessages, onePerIntent_iff_nodup, userIntents_stampAll,
    userIntents_map userIntent_enrichUserMessage, onePerIntent_iff_nodup]

/-- A row of tool calls that are all new to the transcript. -/
def NewToolCalls (s : ReducerState) (message : Row) : Prop :=
  toolCallIds message ≠ [] ∧
    ∀ m ∈ s.messages, ∀ id ∈ toolCallIds message, containsToolCall m id = false

theorem onePerIntent_blockedToolCallPlaceholder_iff (h : OnePerIntent s.messages)
    (message : Row) (seq : Option Rat) :
    OnePerIntent (reduceBlockedToolCallPlaceholder s message seq).messages ↔
      (NewToolCalls s message → NewDelivery s.messages message) := by
  unfold reduceBlockedToolCallPlaceholder NewToolCalls
  cases hids : toolCallIds message with
  | nil => simpa using h
  | cons first others =>
    simp only
    split
    · rename_i hshown
      apply iff_of_true h
      rintro ⟨-, hnew⟩
      obtain ⟨m, hm, hany⟩ := List.any_eq_true.mp hshown
      obtain ⟨id, hid, hcontains⟩ := List.any_eq_true.mp hany
      rw [hnew m hm id hid] at hcontains
      cases hcontains
    · rename_i hnew
      rw [onePerIntent_append_iff h, NewDelivery, userIntent_block, ← NewDelivery]
      refine ⟨fun hdelivery _ => hdelivery, fun himp => himp ⟨by simp, ?_⟩⟩
      intro m hm id hid
      by_contra hcontains
      apply hnew
      exact List.any_eq_true.mpr ⟨m, hm, List.any_eq_true.mpr ⟨id, hid, by simpa using hcontains⟩⟩

def AlreadyPending (s : ReducerState) (message : Row) : Prop :=
  truthy (field message "requestId") = true ∧
    ∃ m ∈ s.messages, hasRole m "mutation-pending" = true ∧
      strictEquals (field m "requestId") (field message "requestId") = true

theorem onePerIntent_mutationPending_iff (h : OnePerIntent s.messages) (message : Row) :
    OnePerIntent (reduceMutationPending s message).messages ↔
      AlreadyPending s message ∨ NewDelivery s.messages message := by
  have hpending : (truthy (field message "requestId") && s.messages.any fun m =>
      hasRole m "mutation-pending" &&
        strictEquals (field m "requestId") (field message "requestId")) = true ↔
      AlreadyPending s message := by
    simp [AlreadyPending]
  unfold reduceMutationPending
  split
  · rename_i hrepeated
    exact iff_of_true h (Or.inl (hpending.mp hrepeated))
  · rename_i hnew
    rw [onePerIntent_append_iff h]
    exact (or_iff_right fun hrepeated => hnew (hpending.mpr hrepeated)).symm

theorem onePerIntent_settleOptimistic (h : OnePerIntent s.messages) :
    OnePerIntent (reduceSettleOptimistic s).messages := by
  unfold reduceSettleOptimistic
  split
  · rw [onePerIntent_sortMessages, OnePerIntent.map]
    · exact h
    · intro m
      split
      · have hagrees : AgreesOutside ["_order", "_settled"] m
            (setField (setField m "_order" (.num (s.highestSeq + settleEpsilon))) "_settled"
              (.bool true)) :=
          (agreesOutside_setField m _ _ (by simp)).trans (agreesOutside_setField _ _ _ (by simp))
        exact hagrees.userIntent_eq (by simp)
      · rfl
  · exact h

theorem onePerIntent_suppress {isContextOverflowText : JsString → Bool}
    (h : OnePerIntent s.messages) :
    OnePerIntent (reduceSuppress isContextOverflowText s).messages := by
  unfold reduceSuppress
  split
  · exact h
  · rw [onePerIntent_iff_nodup] at h ⊢
    have hrows : ∀ i, userIntents (s.messages.modify i fun m =>
        if (overflowKey isContextOverflowText m).isSome && ! isSuppressed m then suppress m else m) =
          userIntents s.messages := by
      intro i
      apply userIntents_eq_of_map
      refine map_modify_of_eq (fun m => ?_) s.messages i
      split
      · exact (agreesOutside_suppress m).userIntent_eq (by simp)
      · rfl
    rw [hrows]
    exact h

/-! ## Every action -/

/-- The delivery of a row once a patch is in place. -/
def patchedIntent (messageId : JsString) (patch m : Row) : Option JsString :=
  if idOf m = some messageId then userIntent (spread m patch) else userIntent m

/-- The rows that an action brings as they are carry deliveries that no row carries yet. -/
def BringsOnce (s : ReducerState) : Action → Prop
  | .optimisticPrompt message => NewDelivery s.messages message
  | .optimisticSteer message => NewDelivery s.messages message
  | .systemNotification message => NewDelivery s.messages message
  | .error message => NewDelivery s.messages message
  | .permissionNeeded card seq => NewDelivery s.messages (requestedCard s card seq)
  | .blockedToolCallPlaceholder message _ =>
    NewToolCalls s message → NewDelivery s.messages message
  | .compactionPlaceholder message =>
    NewDelivery (s.messages.filter fun m => ! isLiveCompactionRow m) message
  | .compactionResult message toolResult =>
    NewDelivery (keptByResult s message) message ∧
      ∀ m ∈ toolResult, NewDelivery (keptByResult s message ++ [message]) m
  | .mutationPending message => AlreadyPending s message ∨ NewDelivery s.messages message
  | .mutationUpdate messageId patch =>
    (s.messages.filterMap (patchedIntent messageId patch)).Nodup
  | .replaceMessages messages => OnePerIntent messages
  | _ => True

/-- An action shows no delivery twice exactly when it brings each one once. -/
theorem onePerIntent_reduce_iff (isContextOverflowText : JsString → Bool)
    (seqText : Rat → JsString) (h : OnePerIntent s.messages) (action : Action) :
    OnePerIntent (reduce isContextOverflowText seqText s action).messages ↔ BringsOnce s action := by
  cases action with
  | optimisticPrompt message => exact onePerIntent_append_iff h _ _ _
  | optimisticSteer message => exact onePerIntent_append_iff h _ _ _
  | systemNotification message => exact onePerIntent_append_iff h _ _ _
  | error message => exact onePerIntent_append_iff h _ _ _
  | permissionNeeded card seq => exact onePerIntent_permissionNeeded_iff h card seq
  | blockedToolCallPlaceholder message seq =>
    exact onePerIntent_blockedToolCallPlaceholder_iff h message seq
  | compactionPlaceholder message =>
    exact onePerIntent_append_iff (h.sublist List.filter_sublist) _ _ _
  | compactionResult message toolResult => exact onePerIntent_compactionResult_iff h _ _
  | mutationPending message => exact onePerIntent_mutationPending_iff h message
  | mutationUpdate messageId patch =>
    rw [onePerIntent_iff_nodup, BringsOnce, userIntents, reduce, List.filterMap_map]
    have hpatched : (userIntent ∘ fun m => if idOf m = some messageId then spread m patch else m) =
        patchedIntent messageId patch := by
      funext m
      rw [Function.comp_apply, patchedIntent, apply_ite userIntent]
    rw [hpatched]
  | replaceMessages messages => exact onePerIntent_replaceMessages_iff s messages
  | reset => exact iff_of_true (fun _ => by simp [reduce, initialState]) trivial
  | assistantStreamInvalidated id => exact iff_of_true (h.sublist List.filter_sublist) trivial
  | liveEvent frame seq => exact iff_of_true (onePerIntent_liveEvent h frame seq) trivial
  | snapshot messages => exact iff_of_true (onePerIntent_snapshot h messages) trivial
  | permissionResolved messageId status error =>
    refine iff_of_true ((OnePerIntent.map fun m => ?_).mpr h) trivial
    split
    · exact (agreesOutside_settlePermission m _ _).userIntent_eq (by simp)
    · rfl
  | denyPermissionFilter messageId =>
    refine iff_of_true ((OnePerIntent.map fun m => ?_).mpr h) trivial
    split
    · exact (agreesOutside_settlePermission m _ _).userIntent_eq (by simp)
    · rfl
  | permissionStatus messageId toolName status error actionable fromStatus =>
    refine iff_of_true ((OnePerIntent.map fun m => ?_).mpr h) trivial
    split
    · exact (agreesOutside_updateStatus m _ _ _).userIntent_eq (by simp)
    · rfl
  | permissionReconciled current reason =>
    refine iff_of_true ((OnePerIntent.map fun m => ?_).mpr h) trivial
    exact (agreesOutside_reconcilePermission _ _ m).userIntent_eq (by simp)
  | suppressLatestContextOverflowError => exact iff_of_true (onePerIntent_suppress h) trivial
  | settleOptimistic => exact iff_of_true (onePerIntent_settleOptimistic h) trivial

/-! ## Runs -/

/-- A run from the initial state shows every delivery at most once in every state exactly when its
    actions bring each delivery once. -/
theorem always_onePerIntent_iff (isContextOverflowText : JsString → Bool)
    (seqText : Rat → JsString) (actions : List Action) :
    Always (reduce isContextOverflowText seqText) (fun s => OnePerIntent s.messages) initialState
        actions ↔
      Along (reduce isContextOverflowText seqText) BringsOnce initialState actions := by
  have henv : Along (reduce isContextOverflowText seqText) (fun _ _ => True) initialState actions :=
    along_of_forall (fun _ _ => trivial) _ _
  refine always_iff_along (I := fun s => OnePerIntent s.messages) ?_ ?_ ?_ ?_ henv
  · intro s action hone _ hbrings
    exact (onePerIntent_reduce_iff isContextOverflowText seqText hone action).mpr hbrings
  · exact fun _ h => h
  · intro s action hone _ hbad h
    exact hbad ((onePerIntent_reduce_iff isContextOverflowText seqText hone action).mp h)
  · exact fun _ => by simp [initialState]

/-- A prompt with the delivery intent `d`. -/
def prompt : Row :=
  [(js "role", .str (js "user")), (js "content", .str (js "hi")),
    (js "deliveryIntentId", .str (js "d"))]

/-- The echo of a prompt, and then the prompt's optimistic row. -/
def echoFirst : List Action :=
  [.liveEvent ⟨js "message_end", some prompt⟩ 1, .optimisticPrompt prompt]

def echoRow : Row := stamp (withSeqId (js "1") prompt) .server 1 1

def optimisticRow : Row := stamp prompt .optimistic (optimisticOrderBase + 2) 2

/-- The optimistic row comes in beside the echo of the same delivery. -/
theorem echo_before_optimistic :
    (run (reduce (fun _ => false) fun _ => js "1") initialState echoFirst).messages =
        [echoRow, optimisticRow] ∧
      ¬ OnePerIntent
        (run (reduce (fun _ => false) fun _ => js "1") initialState echoFirst).messages := by
  have hone : sortMessages [echoRow] = [echoRow] := List.mergeSort_singleton _
  have htwo : sortMessages [echoRow, optimisticRow] = [echoRow, optimisticRow] :=
    List.mergeSort_of_pairwise (by decide +kernel)
  have hrun : (run (reduce (fun _ => false) fun _ => js "1") initialState echoFirst).messages =
      [echoRow, optimisticRow] := by
    have hsteps : (run (reduce (fun _ => false) fun _ => js "1") initialState echoFirst).messages =
        sortMessages (sortMessages [echoRow] ++ [optimisticRow]) := by rfl
    rw [hsteps, hone, List.singleton_append, htwo]
  refine ⟨hrun, fun h => ?_⟩
  rw [hrun, onePerIntent_iff_nodup] at h
  revert h
  decide +kernel

end Bobbit.App.MessageReducer
