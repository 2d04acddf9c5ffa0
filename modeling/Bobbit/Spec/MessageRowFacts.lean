import Bobbit.App.MessageReducer

/-!
# What an action changes of a row

Most actions set a few named fields of a row and leave every other field as it is. `AgreesOutside`
says which fields may differ, and what a helper reads of the other fields it reads unchanged.

## Key results
- `agreesOutside_stamp`, `agreesOutside_settlePermission`, ...: the fields that each update sets
- `deliveryIntentId_congr`, `isUserRow_congr`: what the helpers read
- `mem_sortMessages`, `sortMessages_perm`: sorting moves rows and changes none
-/

namespace Bobbit.App.MessageReducer

open Bobbit.Lib

/-! ## Fields -/

variable (m : Row)

theorem field_setField (key : String) (value : Value) (k : String) :
    field (setField m key value) k = if js k = js key then some value else field m k := by
  rw [field, setField, JsMap.get?_set]
  rfl

@[simp] theorem field_setField_self (key : String) (value : Value) :
    field (setField m key value) key = some value := by
  rw [field_setField, if_pos rfl]

theorem field_setField_ne {key : String} (value : Value) {k : String}
    (h : js k ≠ js key) : field (setField m key value) k = field m k := by
  rw [field_setField, if_neg h]

theorem field_spread (m patch : Row) (k : String) :
    field (spread m patch) k = (field patch k).or (field m k) := by
  induction patch with
  | nil => rfl
  | cons entry rest ih =>
    have hstep : spread m (entry :: rest) = JsMap.set (spread m rest) entry.1 entry.2 := rfl
    rw [field, hstep, JsMap.get?_set, field, JsMap.get?_cons]
    by_cases h : js k = entry.1
    · rw [if_pos h, if_pos h.symm]
      rfl
    · rw [if_neg h, if_neg (Ne.symm h)]
      exact ih

/-- The fields of the reducer's metadata. -/
@[simp] def metaKeys : List String := ["_order", "_origin", "_insertionTick"]

/-- The fields of a permission's state. -/
@[simp] def permissionKeys : List String := ["status", "actionable", "error"]

/-- The two rows have the same fields but for some keys. -/
def AgreesOutside (keys : List String) (m m' : Row) : Prop :=
  ∀ k, js k ∉ keys.map js → field m' k = field m k

theorem AgreesOutside.refl (keys : List String) (m : Row) : AgreesOutside keys m m :=
  fun _ _ => rfl

variable {keys : List String} {m' : Row}

theorem AgreesOutside.trans {m m'' : Row} (h : AgreesOutside keys m m')
    (h' : AgreesOutside keys m' m'') : AgreesOutside keys m m'' :=
  fun k hk => (h' k hk).trans (h k hk)

theorem AgreesOutside.field_eq {m : Row} (h : AgreesOutside keys m m')
    (k : String) (hk : js k ∉ keys.map js) :
    field m' k = field m k :=
  h k hk

theorem agreesOutside_setField (key : String) (value : Value)
    (hkey : key ∈ keys) : AgreesOutside keys m (setField m key value) := by
  intro k hk
  apply field_setField_ne
  intro h
  exact hk (h ▸ List.mem_map_of_mem hkey)

theorem agreesOutside_erase (key : String) (hkey : key ∈ keys) :
    AgreesOutside keys m (JsMap.erase m (js key)) := by
  intro k hk
  rw [field, JsMap.get?_erase, if_neg]
  · rfl
  · intro h
    exact hk (h ▸ List.mem_map_of_mem hkey)

/-! ## Updates -/

theorem agreesOutside_stamp (origin : MessageOrigin) (order : Rat) (tick : Nat) :
    AgreesOutside metaKeys m (stamp m origin order tick) :=
  ((agreesOutside_setField m _ _ (by simp [metaKeys])).trans
    (agreesOutside_setField _ _ _ (by simp [metaKeys]))).trans
    (agreesOutside_setField _ _ _ (by simp [metaKeys]))

theorem agreesOutside_withError (error : Option JsString) :
    AgreesOutside permissionKeys m (withError m error) := by
  unfold withError
  split
  · split
    · exact AgreesOutside.refl _ m
    · exact agreesOutside_setField m _ _ (by simp [permissionKeys])
  · exact AgreesOutside.refl _ m

theorem agreesOutside_settlePermission (status : JsString) (error : Option JsString) :
    AgreesOutside permissionKeys m (settlePermission m status error) :=
  ((agreesOutside_setField m _ _ (by simp [permissionKeys])).trans
    (agreesOutside_setField _ _ _ (by simp [permissionKeys]))).trans (agreesOutside_withError _ _)

theorem agreesOutside_updateStatus (status : JsString) (error : Option JsString)
    (actionable : Option Bool) :
    AgreesOutside permissionKeys m (updateStatus status error actionable m) := by
  have hset : AgreesOutside permissionKeys m (setField (setField m "status" (.str status))
      "actionable" (.bool (actionable.getD (status ∈ activePermissionStatuses)))) :=
    (agreesOutside_setField m _ _ (by simp [permissionKeys])).trans
      (agreesOutside_setField _ _ _ (by simp [permissionKeys]))
  unfold updateStatus
  simp only
  split
  · exact hset.trans (agreesOutside_withError _ _)
  · exact hset.trans (agreesOutside_erase _ _ (by simp [permissionKeys]))

theorem agreesOutside_supersede (card m : Row) :
    AgreesOutside permissionKeys m (supersede card m) := by
  unfold supersede
  split
  · exact AgreesOutside.refl _ m
  · split
    · exact AgreesOutside.refl _ m
    · split
      · exact agreesOutside_settlePermission m _ _
      · exact AgreesOutside.refl _ m

theorem agreesOutside_reconcilePermission (current : Option Row) (status : JsString) (m : Row) :
    AgreesOutside permissionKeys m (reconcilePermission current status m) := by
  unfold reconcilePermission
  split
  · exact AgreesOutside.refl _ m
  · split
    · exact AgreesOutside.refl _ m
    · exact agreesOutside_settlePermission m _ _

theorem agreesOutside_suppress : AgreesOutside ["_suppressedByOverflowRecovery"] m (suppress m) :=
  agreesOutside_setField m _ _ (by simp)

theorem agreesOutside_reanchor (cardOrder toolResultOrder : Rat) (m : Row) :
    AgreesOutside ["_order"] m (reanchor cardOrder toolResultOrder m) := by
  unfold reanchor
  split
  · exact agreesOutside_setField m _ _ (by simp)
  · split
    · exact agreesOutside_setField m _ _ (by simp)
    · exact AgreesOutside.refl _ m

theorem agreesOutside_enrichUserMessage :
    AgreesOutside ["role", "attachments"] m (enrichUserMessage m) := by
  unfold enrichUserMessage
  split
  · exact AgreesOutside.refl _ m
  · split
    · exact AgreesOutside.refl _ m
    · simp only
      split
      · exact AgreesOutside.refl _ m
      · exact (agreesOutside_setField m _ _ (by simp)).trans (agreesOutside_setField _ _ _ (by simp))

/-! ## Metadata -/

theorem asNumber_order_stamp (origin : MessageOrigin) (order : Rat) (tick : Nat) :
    asNumber (field (stamp m origin order tick) "_order") = some order := by
  rw [stamp, field_setField_ne _ _ (by simp), field_setField_ne _ _ (by simp),
    field_setField_self]
  rfl

theorem asNumber_tick_stamp (origin : MessageOrigin) (order : Rat) (tick : Nat) :
    asNumber (field (stamp m origin order tick) "_insertionTick") = some (tick : Rat) := by
  rw [stamp, field_setField_self]
  rfl

/-! ## What helpers read -/

theorem hasRole_congr {m : Row} (h : field m' "role" = field m "role") (role : String) :
    hasRole m' role = hasRole m role := by
  rw [hasRole, h, hasRole]

theorem isUserRow_congr {m : Row} (h : field m' "role" = field m "role") :
    isUserRow m' = isUserRow m := by
  rw [isUserRow, hasRole_congr h, hasRole_congr h, isUserRow]

theorem deliveryIntentId_congr {m : Row}
    (h : field m' "deliveryIntentId" = field m "deliveryIntentId")
    (h' : field m' "intentId" = field m "intentId") : deliveryIntentId m' = deliveryIntentId m := by
  rw [deliveryIntentId, h, h', deliveryIntentId]

theorem field_keepField (m updated : Row) (key k : String) :
    field (keepField m updated key) k = if js k = js key then field m key else field updated k := by
  unfold keepField
  split
  · rename_i v hv
    rw [field_setField, hv]
  · rename_i hnone
    rw [field, JsMap.get?_erase, hnone]
    rfl

theorem field_refreshCard (card m : Row) {key : String} (hkey : key ∈ metaKeys) :
    field (refreshCard card m) key = field m key := by
  have herror : js key ≠ js "error" := by
    simp only [metaKeys, List.mem_cons, List.not_mem_nil, or_false] at hkey
    rcases hkey with rfl | rfl | rfl <;> simp
  have hkept : field (keepField m (keepField m (keepField m (spread m card) "_order") "_origin")
      "_insertionTick") key = field m key := by
    simp only [metaKeys, List.mem_cons, List.not_mem_nil, or_false] at hkey
    simp only [field_keepField]
    rcases hkey with rfl | rfl | rfl
    · rw [if_neg (by simp), if_neg (by simp), if_pos rfl]
    · rw [if_neg (by simp), if_pos rfl]
    · rw [if_pos rfl]
  unfold refreshCard
  simp only
  split
  · rw [field, JsMap.get?_erase, if_neg herror]
    exact hkept
  · exact hkept

/-! ## What remains of the rows -/

variable (messages : List Row)

theorem unblock_sublist (incoming : Row) : (unblock messages incoming).1.Sublist messages := by
  unfold unblock
  split
  · exact List.filter_sublist
  · exact List.Sublist.refl _

theorem dropIntent_sublist (incoming : Row) : (dropIntent messages incoming).Sublist messages := by
  unfold dropIntent
  split
  · exact List.filter_sublist
  · exact List.Sublist.refl _

theorem dropId_sublist (incoming : Row) : (dropId messages incoming).Sublist messages := by
  unfold dropId
  split
  · exact List.eraseP_sublist
  · exact List.Sublist.refl _

theorem reconcileEcho_sublist (incoming : Row) :
    (reconcileEcho messages incoming).Sublist messages := by
  unfold reconcileEcho
  split
  · exact List.Sublist.refl _
  · simp only
    split
    · exact List.eraseP_sublist
    · split <;> exact List.eraseP_sublist

theorem survivors_sublist (index : SnapshotIndex) (counts : JsMap JsString Nat)
    (messages : List Row) : (survivors index counts messages).Sublist messages := by
  induction messages generalizing counts with
  | nil => exact List.Sublist.refl _
  | cons m rest ih =>
    rw [survivors]
    simp only
    split
    · exact (ih _).cons_cons m
    · exact (ih _).cons m

theorem partitionCompaction_sublist (messages stampedAll : List Row) :
    (partitionCompaction messages stampedAll).1.Sublist stampedAll := by
  unfold partitionCompaction
  simp only
  split
  · exact List.filter_sublist
  · split
    · split
      · exact List.Sublist.refl _
      · rename_i card place hbest
        have hsub := (List.filter_sublist (l := stampedAll.zipIdx) (p := fun entry =>
          decide (entry.2 ≠ place) &&
            ! isPairedResult (compactionSummaryId card).toList entry.1)).map (·.1)
        rwa [List.zipIdx_map_fst] at hsub
    · exact List.Sublist.refl _

/-- The anchors move rows: one update of each row, which may set its order. -/
theorem applyAnchors_eq_map (anchors : Anchors) (merged : List Row) :
    ∃ f : Row → Row, applyAnchors anchors merged = merged.map f ∧
      ((∀ m, f m = m) ∨ ∃ cardOrder toolResultOrder, f = reanchor cardOrder toolResultOrder) := by
  have hid : ∃ f : Row → Row, merged = merged.map f ∧
      ((∀ m, f m = m) ∨ ∃ cardOrder toolResultOrder, f = reanchor cardOrder toolResultOrder) :=
    ⟨id, (List.map_id merged).symm, Or.inl fun _ => rfl⟩
  cases anchors with
  | live anchors =>
    rw [applyAnchors]
    split
    · exact ⟨_, rfl, Or.inr ⟨_, _, rfl⟩⟩
    · exact hid
  | inProgress cardOrder toolResultOrder => exact ⟨_, rfl, Or.inr ⟨_, _, rfl⟩⟩
  | none => exact hid

/-! ## Sorting -/

theorem sortMessages_perm (msgs : List Row) : (sortMessages msgs).Perm msgs :=
  List.mergeSort_perm _ _

@[simp] theorem mem_sortMessages {msgs : List Row} {m : Row} : m ∈ sortMessages msgs ↔ m ∈ msgs :=
  List.mem_mergeSort

end Bobbit.App.MessageReducer
