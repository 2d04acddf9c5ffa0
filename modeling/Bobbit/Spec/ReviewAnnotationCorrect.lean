import Bobbit.Lib.Run
import Bobbit.Server.ReviewAnnotationStore

/-!
# Review annotations under failing files

An operation writes what it has read, with its own document or review changed. When the read
failed, what it writes is its own change alone.

## Key results
- `apply_frame`: an operation changes its own document or review of the data it has read.
- `separate_step`: no call makes an id both submitted and closed.
- `survives_iff`: the runs in which the other documents and reviews stay as they were.
-/

namespace Bobbit.Server.ReviewAnnotations

open Lib Lib.JsString Lib.Json

variable {ν : Type} [JsNumber ν]

/-! ## The property -/

/-- What the file holds: what a read that does not fail finds. -/
def stored (file : FileText ν) : ReviewAnnotationData ν := read false file

/-- The documents whose annotations an operation is about. -/
def TouchesDocument : Operation ν → JsString → Prop
  | Operation.addAnnotation docTitle _ _, d => d = docTitle
  | Operation.removeAnnotation docTitle _, d => d = docTitle
  | .clearAnnotations docTitle, d => d = docTitle
  | .clearAll, _ => True
  | .writeAll _ _, _ => True
  | _, _ => False

/-- The review whose tombstone an operation is about. -/
def TouchesReview : Operation ν → JsString → Prop
  | .getReviewTombstone reviewId, r => r = reviewId
  | .setReviewTombstone reviewId _ _, r => r = reviewId
  | .clearReviewTombstone reviewId _, r => r = reviewId
  | _, _ => False

/-- The other documents and reviews are as they were. -/
structure Frame (op : Operation ν) (before after : ReviewAnnotationData ν) : Prop where
  annotations : ∀ d, ¬ TouchesDocument op d →
    getField after.annotations d = getField before.annotations d
  submitted : ∀ r, ¬ TouchesReview op r →
    (r ∈ after.submittedReviewIds ↔ r ∈ before.submittedReviewIds)
  closed : ∀ r, ¬ TouchesReview op r → (r ∈ after.closedReviewIds ↔ r ∈ before.closedReviewIds)

/-- No review id is both submitted and closed. -/
def Separate (data : ReviewAnnotationData ν) : Prop :=
  ∀ r ∈ data.submittedReviewIds, r ∉ data.closedReviewIds

/-- Every call leaves the others as they were, and no id is ever both. -/
def Survives (file : FileText ν) (calls : List (Call ν)) : Prop :=
  Along step (fun file call => Frame call.operation (stored file) (stored (step file call)))
    file calls ∧
  Always step (fun file => Separate (stored file)) file calls

/-! ## Operations -/

omit [JsNumber ν] in
theorem getField_eraseField (fields : List (JsString × Json ν)) {key k : JsString} (hk : k ≠ key) :
    getField (eraseField fields key) k = getField fields k := by
  have hsame : (fun field : JsString × Json ν =>
      decide (decide (field.1 ≠ key) = true ∧ (field.1 == k) = true)) = fun field => field.1 == k := by
    funext field
    by_cases hfield : field.1 = k
    · simp [hfield, hk]
    · simp [hfield]
  rw [getField, getField, eraseField, ← List.filter_reverse, List.find?_filter, hsame]

variable {data data' : ReviewAnnotationData ν} {op : Operation ν}

omit [JsNumber ν] in
theorem Frame.refl (op : Operation ν) (data : ReviewAnnotationData ν) : Frame op data data :=
  ⟨fun _ _ => rfl, fun _ _ => .rfl, fun _ _ => .rfl⟩

theorem apply_frame (h : apply data op = .writes data') : Frame op data data' := by
  cases op with
  | addAnnotation docTitle id annotation =>
    have hput : ∀ items, Change.writes
        { data with annotations := setField data.annotations docTitle (.arr items) } = .writes data' →
        Frame ( Operation.addAnnotation docTitle id annotation) data data' := by
      intro items heq
      obtain rfl := Change.writes.inj heq
      refine ⟨fun d hd => ?_, fun _ _ => .rfl, fun _ _ => .rfl⟩
      exact (getField_setField _ _ _ d).trans (if_neg hd)
    rw [apply, addAnnotation] at h
    split at h
    · cases h
    · exact hput _ h
    · split at h
      · cases h
      · exact hput _ h
      · exact hput _ h
  | removeAnnotation docTitle annotationId =>
    rw [apply, removeAnnotation] at h
    split at h
    · cases h
    · cases h
    · split at h
      · cases h
      · obtain rfl := Change.writes.inj h
        refine ⟨fun d hd => ?_, fun _ _ => .rfl, fun _ _ => .rfl⟩
        dsimp only
        split
        · exact getField_eraseField _ hd
        · exact (getField_setField _ _ _ d).trans (if_neg hd)
  | clearAnnotations docTitle =>
    rw [apply, clearAnnotations] at h
    split at h
    · cases h
    · obtain rfl := Change.writes.inj h
      exact ⟨fun d hd => getField_eraseField _ hd, fun _ _ => .rfl, fun _ _ => .rfl⟩
  | clearAll =>
    obtain rfl := Change.writes.inj h
    exact ⟨fun d hd => absurd trivial hd, fun _ _ => .rfl, fun _ _ => .rfl⟩
  | setSubmitted value =>
    obtain rfl := Change.writes.inj h
    exact ⟨fun _ _ => rfl, fun _ _ => .rfl, fun _ _ => .rfl⟩
  | getReviewTombstone reviewId =>
    rw [apply, getReviewTombstone] at h
    split at h
    · cases h
    · obtain rfl := Change.writes.inj h
      refine ⟨fun _ _ => rfl, fun r hr => ?_, fun _ _ => .rfl⟩
      have hne : r ≠ reviewId := hr
      simp [hne]
  | setReviewTombstone reviewId state activeFileId =>
    obtain rfl := Change.writes.inj h
    refine ⟨fun _ _ => rfl, fun r hr => ?_, fun r hr => ?_⟩
    all_goals
      have hne : r ≠ reviewId := hr
      dsimp only
      split <;> simp [hne]
  | clearReviewTombstone reviewId clearLegacy =>
    rw [apply, clearReviewTombstone] at h
    split at h
    · cases h
    · obtain rfl := Change.writes.inj h
      refine ⟨fun _ _ => rfl, fun r hr => ?_, fun r hr => ?_⟩
      all_goals
        have hne : r ≠ reviewId := hr
        simp [hne]
  | writeAll annotations submitted =>
    obtain rfl := Change.writes.inj h
    exact ⟨fun d hd => absurd trivial hd, fun _ _ => .rfl, fun _ _ => .rfl⟩

theorem apply_separate (hseparate : Separate data) (h : apply data op = .writes data') :
    Separate data' := by
  intro r hsub hclosed
  have hframe := apply_frame h
  by_cases hr : TouchesReview op r
  · cases op with
    | getReviewTombstone reviewId =>
      rw [apply, getReviewTombstone] at h
      split at h
      · cases h
      · rename_i hfree
        obtain rfl := Change.writes.inj h
        obtain rfl : r = reviewId := hr
        exact hfree (.inr (.inl hclosed))
    | setReviewTombstone reviewId state activeFileId =>
      obtain rfl := Change.writes.inj h
      obtain rfl : r = reviewId := hr
      cases state <;> simp at hsub hclosed
    | clearReviewTombstone reviewId clearLegacy =>
      rw [apply, clearReviewTombstone] at h
      split at h
      · cases h
      · obtain rfl := Change.writes.inj h
        obtain rfl : r = reviewId := hr
        simp at hsub
    | _ => exact hr.elim
  · exact hseparate r ((hframe.submitted r hr).mp hsub) ((hframe.closed r hr).mp hclosed)

/-! ## Reading what was written -/

omit [JsNumber ν] in
theorem mem_stringIds {value : Option (Json ν)} {r : JsString} (h : r ∈ stringIds value) :
    notBlank r = true := by
  rw [stringIds, JsSet.mem_ofList, List.mem_filter] at h
  exact h.2

theorem mem_stringIds_written (ids : List JsString) (r : JsString) :
    r ∈ stringIds (some (reread (.arr (ids.map .str) : Json ν))) ↔ r ∈ ids ∧ notBlank r = true := by
  have hitems : rereadItems (ids.map .str : List (Json ν)) = ids.map .str := by
    rw [rereadItems_eq_map, List.map_map]
    exact List.map_congr_left fun id _ => by rw [Function.comp_apply, reread]
  have hstrings : (ids.map .str : List (Json ν)).filterMap string? = ids := by
    rw [List.filterMap_map]
    exact List.filterMap_some
  rw [reread, hitems, stringIds, Option.bind_some, array?, Option.getD_some, hstrings,
    JsSet.mem_ofList, List.mem_filter]

variable {file : FileText ν} {call : Call ν}

theorem stored_written (data : ReviewAnnotationData ν) :
    (∀ d, getField (stored (.json (reread (toJson data)))).annotations d =
      (getField data.annotations d).map reread) ∧
    (∀ r, r ∈ (stored (.json (reread (toJson data)))).submittedReviewIds ↔
      r ∈ data.submittedReviewIds ∧ notBlank r = true) ∧
    ∀ r, r ∈ (stored (.json (reread (toJson data)))).closedReviewIds ↔
      r ∈ data.closedReviewIds ∧ notBlank r = true := by
  rw [stored, read, toJson, reread, parse, Option.getD_some]
  simp only [getField_reread]
  refine ⟨fun d => ?_, fun r => ?_, fun r => ?_⟩
  · rw [show getField _ (js "annotations") = some (.obj data.annotations) by
      simp [getField_cons], Option.map_some, reread, properties]
    exact getField_reread _ d
  · rw [show getField _ (js "submittedReviewIds") =
      some (.arr (data.submittedReviewIds.map .str)) by simp [getField_cons], Option.map_some]
    exact mem_stringIds_written _ r
  · rw [show getField _ (js "closedReviewIds") =
      some (.arr (data.closedReviewIds.map .str)) by simp [getField_cons], Option.map_some]
    exact mem_stringIds_written _ r

omit [JsNumber ν] in
theorem stored_notBlank (file : FileText ν) (r : JsString) :
    (r ∈ (stored file).submittedReviewIds → notBlank r = true) ∧
    (r ∈ (stored file).closedReviewIds → notBlank r = true) := by
  unfold stored read
  split
  · rename_i value _
    cases value with
    | obj fields => exact ⟨mem_stringIds, mem_stringIds⟩
    | _ => simp [parse, emptyData]
  · simp [emptyData]

omit [JsNumber ν] in
theorem read_cases (fails : Bool) (file : FileText ν) :
    read fails file = stored file ∨ fails = true ∧ read fails file = emptyData := by
  cases fails with
  | false => exact .inl rfl
  | true => exact .inr ⟨rfl, rfl⟩

omit [JsNumber ν] in
theorem separate_read (fails : Bool) (h : Separate (stored file)) : Separate (read fails file) := by
  rcases read_cases fails file with heq | ⟨-, heq⟩
  · rwa [heq]
  · rw [heq]
    intro r hr
    cases hr

theorem separate_step (h : Separate (stored file)) (call : Call ν) :
    Separate (stored (step file call)) := by
  rw [step]
  split
  · exact h
  · rename_i data hwrites
    have hdata := apply_separate (separate_read call.readFails h) hwrites
    split
    · intro r hsub hclosed
      exact hdata r (((stored_written data).2.1 r).mp hsub).1 (((stored_written data).2.2 r).mp hclosed).1
    · exact h
    · intro r hr
      cases hr

/-! ## When the others survive -/

/-- Nothing is stored of what the operation is not about. -/
structure Alone (op : Operation ν) (data : ReviewAnnotationData ν) : Prop where
  annotations : ∀ d, ¬ TouchesDocument op d → getField data.annotations d = none
  tombstones : ∀ r, ¬ TouchesReview op r → r ∉ data.submittedReviewIds ∧ r ∉ data.closedReviewIds

/-- What is stored of the other documents is the same after it is written and read again, as are
    all values with finite numbers. -/
def Rewrites (op : Operation ν) (data : ReviewAnnotationData ν) : Prop :=
  ∀ d value, ¬ TouchesDocument op d → getField data.annotations d = some value → reread value = value

/-- The call does not write; or what it has read is what the file holds and the write goes through;
    or there is nothing else to lose. -/
def Harmless (file : FileText ν) (call : Call ν) : Prop :=
  match apply (read call.readFails file) call.operation, call.write with
  | .nothing, _ => True
  | .writes _, .refused => True
  | .writes _, .torn => Alone call.operation (stored file)
  | .writes _, .done =>
    if call.readFails then Alone call.operation (stored file)
    else Rewrites call.operation (stored file)

omit [JsNumber ν] in
/-- To leave nothing behind leaves the others as they were iff there are none. -/
theorem frame_iff_alone {op : Operation ν} {before after : ReviewAnnotationData ν}
    (hannotations : ∀ d, ¬ TouchesDocument op d → getField after.annotations d = none)
    (htombstones : ∀ r, ¬ TouchesReview op r →
      r ∉ after.submittedReviewIds ∧ r ∉ after.closedReviewIds) :
    Frame op before after ↔ Alone op before := by
  constructor
  · intro h
    refine ⟨fun d hd => (h.annotations d hd).symm.trans (hannotations d hd), fun r hr => ?_⟩
    obtain ⟨hsub, hclosed⟩ := htombstones r hr
    exact ⟨fun hmem => hsub ((h.submitted r hr).mpr hmem),
      fun hmem => hclosed ((h.closed r hr).mpr hmem)⟩
  · intro h
    refine ⟨fun d hd => (hannotations d hd).trans (h.annotations d hd).symm, fun r hr => ?_,
      fun r hr => ?_⟩
    · exact iff_of_false (htombstones r hr).1 (h.tombstones r hr).1
    · exact iff_of_false (htombstones r hr).2 (h.tombstones r hr).2

/-- A call leaves the others as they were iff it is harmless. -/
theorem frame_step_iff (file : FileText ν) (call : Call ν) :
    Frame call.operation (stored file) (stored (step file call)) ↔ Harmless file call := by
  rw [step, Harmless]
  cases happly : apply (read call.readFails file) call.operation with
  | nothing => exact iff_of_true (Frame.refl _ _) trivial
  | writes data =>
    have hframe := apply_frame happly
    obtain ⟨hannotations, hsubmitted, hclosed⟩ := stored_written data
    cases call.write with
    | refused => exact iff_of_true (Frame.refl _ _) trivial
    | torn =>
      refine frame_iff_alone (fun _ _ => rfl) fun r _ => ⟨?_, ?_⟩
      · exact List.not_mem_nil
      · exact List.not_mem_nil
    | done =>
      dsimp only
      cases hfails : call.readFails with
      | true =>
        have hempty : read true file = emptyData := by cases file <;> rfl
        rw [hfails, hempty] at hframe
        rw [if_pos rfl]
        -- what was read is empty, so what is written holds nothing else
        refine frame_iff_alone (fun d hd => ?_) fun r hr => ⟨fun hmem => ?_, fun hmem => ?_⟩
        · rw [hannotations, hframe.annotations d hd]
          rfl
        · exact List.not_mem_nil ((hframe.submitted r hr).mp ((hsubmitted r).mp hmem).1)
        · exact List.not_mem_nil ((hframe.closed r hr).mp ((hclosed r).mp hmem).1)
      | false =>
        rw [hfails, show read false file = stored file from rfl] at hframe
        rw [if_neg Bool.false_ne_true]
        constructor
        · intro h d value hd hvalue
          have hsame := h.annotations d hd
          rw [hannotations, hframe.annotations d hd, hvalue, Option.map_some] at hsame
          exact Option.some.inj hsame
        · intro h
          refine ⟨fun d hd => ?_, fun r hr => ?_, fun r hr => ?_⟩
          · rw [hannotations, hframe.annotations d hd]
            cases hvalue : getField (stored file).annotations d with
            | none => rfl
            | some value => exact congrArg some (h d value hd hvalue)
          · rw [hsubmitted, hframe.submitted r hr, and_iff_left_of_imp (stored_notBlank file r).1]
          · rw [hclosed, hframe.closed r hr, and_iff_left_of_imp (stored_notBlank file r).2]

/-- **Review annotations.** In every run of calls, each of which may fail to read or to write, the
    other documents and reviews stay as they were and no id is both submitted and closed, iff the
    file has no such id at the start and every call is harmless. -/
theorem survives_iff (file : FileText ν) (calls : List (Call ν)) :
    Survives file calls ↔ Separate (stored file) ∧ Along step Harmless file calls := by
  have hsame : (fun (file : FileText ν) (call : Call ν) =>
      Frame call.operation (stored file) (stored (step file call))) = Harmless := by
    funext file call
    exact propext (frame_step_iff file call)
  rw [Survives, hsame, and_comm]
  refine and_congr_left fun halong => ⟨Always.first, fun h => ?_⟩
  exact always_of_along (fun _ call hseparate _ => separate_step hseparate call) h halong

/-- One failed read: the annotation of one document is added, and those of the other are gone. -/
theorem failed_read_loses :
    ¬ Survives (.json (.obj [(js "annotations", .obj [(js "plan.md", .arr [.obj []])])]) :
        FileText JsString)
      [⟨ Operation.addAnnotation (js "notes.md") (js "a1") (.obj [(js "id", .str (js "a1"))]),
        true, .done⟩] := by
  intro h
  have hkept := h.1.1.annotations (js "plan.md") (by simp [TouchesDocument])
  have hbefore : (getField (stored (.json (.obj [(js "annotations",
      .obj [(js "plan.md", .arr [.obj []])])]) : FileText JsString)).annotations
        (js "plan.md")).isSome = true := by decide +kernel
  rw [← hkept] at hbefore
  revert hbefore
  decide +kernel

end Bobbit.Server.ReviewAnnotations
