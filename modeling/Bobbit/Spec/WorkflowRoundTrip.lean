import Bobbit.Server.WorkflowStore
import Bobbit.Lib.List

/-!
# A saved workflow is read back

`InlineWorkflowStore` keeps a workflow in the inline shape and normalizes it at every read. What
`serializeWorkflow` writes is read back as it was, with one exception: an empty toggle label that
`normalizeStep` takes over from `label` is written, but a reader takes no empty `optionalLabel`.

## Key results
- `normalizeStep_serializeStep`: a step that is saved and read again.
- `normalize_serialize_iff`: a workflow comes back exactly when no step has an empty toggle label.
-/

namespace Bobbit.Spec.WorkflowRoundTrip

open Bobbit.Lib Bobbit.Server Bobbit.Server.WorkflowStore

variable {ν : Type}

/-! ## Reading a written property -/

variable {r : Json ν} {key : JsString}

theorem stringField_of_get {value : Option JsString}
    (h : r.get key = value.map .str) : stringField r key = value := by
  rw [stringField, h]
  cases value <;> rfl

theorem numberField_of_get {value : Option ν}
    (h : r.get key = value.map .num) : numberField r key = value := by
  rw [numberField, h]
  cases value <;> rfl

theorem arrayField_of_get {value : Option (List (Json ν))}
    (h : r.get key = value.map .arr) : arrayField r key = value := by
  rw [arrayField, h]
  cases value <;> rfl

theorem isTrue_of_get {flag : Bool} (h : r.get key = if flag then some (.bool true) else none) :
    WorkflowStore.isTrue r key = flag := by
  rw [WorkflowStore.isTrue, h]
  cases flag <;> rfl

/-! ## Reading a step back -/

/-- The properties of a written step that its reader looks at. -/
theorem get_serializeStep (s : VerifyStep ν) :
    (serializeStep s).get (js "name") = some (.str s.name) ∧
    (serializeStep s).get (js "type") = some (.str (stepTypeName s.type)) ∧
    (serializeStep s).get (js "component") = s.component.map .str ∧
    (serializeStep s).get (js "command") = s.command.map .str ∧
    (serializeStep s).get (js "run") = s.run.map .str ∧
    (serializeStep s).get (js "prompt") = s.prompt.map .str ∧
    (serializeStep s).get (js "expect") = s.expect.map (fun e => .str (expectName e)) ∧
    (serializeStep s).get (js "timeout") = s.timeout.map .num ∧
    (serializeStep s).get (js "phase") = s.phase.map .num ∧
    (serializeStep s).get (js "optional") = (if s.optional then some (.bool true) else none) ∧
    (serializeStep s).get (js "label") =
      (if s.type = .humanSignoff then s.label.map .str else none) ∧
    (serializeStep s).get (js "optionalLabel") = s.optionalLabel.map .str ∧
    (serializeStep s).get (js "role") = s.role.map .str ∧
    (serializeStep s).get (js "description") = s.description.map .str ∧
    (serializeStep s).get (js "failureGuidance") = s.failureGuidance.map .str ∧
    (serializeStep s).get (js "subgoal") = s.subgoal.map serializeSubgoal := by
  simp only [serializeStep, Json.get, Json.getField_append, Json.getField_optionalField,
    Json.getField_flagField, Json.getField_cons, Json.getField_nil, js_inj]
  simp

theorem normalizeSubgoal_serializeSubgoal (sg : VerifyStepSubgoal) :
    normalizeSubgoal (serializeSubgoal sg : Json ν) = sg := by
  have hstrings : ∀ ids : List JsString, strings (ids.map Json.str : List (Json ν)) = ids := by
    intro ids
    simp [strings, List.filterMap_map]
  cases sg with
  | mk planId title spec workflowId suggestedRole dependsOn =>
    simp only [normalizeSubgoal, stringField, arrayField, serializeSubgoal, Json.get,
      Json.getField_append, Json.getField_optionalField, Json.getField_cons, Json.getField_nil,
      js_inj]
    cases workflowId <;> cases suggestedRole <;> cases dependsOn <;> simp [hstrings]

theorem stepType?_stepTypeName (type : StepType) : stepType? (stepTypeName type) = some type := by
  cases type <;> decide

/-- How a written step is read: a reader takes no empty toggle label. -/
def reread (s : VerifyStep ν) : VerifyStep ν :=
  { s with
    label := if s.type = .humanSignoff then s.label else none
    optionalLabel := s.optionalLabel.filter (! ·.isEmpty) }

theorem normalizeStep_serializeStep [JsNumber ν] (s : VerifyStep ν) :
    normalizeStep (serializeStep s) = .ok (reread s) := by
  obtain ⟨hname, htype, hcomponent, hcommand, hrun, hprompt, hexpect, htimeout, hphase, hoptional,
    hlabel, hoptionalLabel, hrole, hdescription, hfailureGuidance, hsubgoal⟩ := get_serializeStep s
  have hlabel' : stringField (serializeStep s) (js "label") =
      if s.type = .humanSignoff then s.label else none := by
    refine stringField_of_get (hlabel.trans ?_)
    split <;> rfl
  have hexpect' : stringField (serializeStep s) (js "expect") = s.expect.map expectName := by
    refine stringField_of_get (hexpect.trans ?_)
    rw [Option.map_map]
    rfl
  have hexpected : (if s.expect.map expectName = some (js "success") then some Expect.success
      else if s.expect.map expectName = some (js "failure") then some .failure else none) =
      s.expect := by
    cases s.expect with
    | none => rfl
    | some e => cases e <;> simp [expectName]
  have hname' : stringField (serializeStep s) (js "name") = some s.name := stringField_of_get hname
  rw [normalizeStep, htype]
  simp only [stepType?_stepTypeName, hname', hlabel', hexpect', hexpected, hsubgoal,
    stringField_of_get hcomponent, stringField_of_get hcommand, stringField_of_get hrun,
    stringField_of_get hprompt, numberField_of_get htimeout, numberField_of_get hphase,
    isTrue_of_get hoptional, stringField_of_get hoptionalLabel, stringField_of_get hrole,
    stringField_of_get hdescription, stringField_of_get hfailureGuidance]
  refine congrArg Except.ok ?_
  rw [reread, VerifyStep.mk.injEq]
  refine ⟨rfl, rfl, rfl, rfl, rfl, rfl, rfl, rfl, ?title, ?toggle, rfl, rfl, rfl, rfl, rfl,
    ?payload⟩
  case title => split <;> rfl
  case toggle =>
    -- the label that would be taken over is only written for a sign-off, which keeps its own
    cases s.optionalLabel with
    | none => by_cases hsignoff : s.type = .humanSignoff <;> simp [hsignoff]
    | some text => cases text <;> by_cases hsignoff : s.type = .humanSignoff <;>
      simp [hsignoff, Option.filter]
  case payload =>
    cases s.subgoal with
    | none => rfl
    | some sg => exact congrArg some (normalizeSubgoal_serializeSubgoal sg)

/-! ## What normalization leaves of the labels -/

/-- An optional step, and no human sign-off, whose only toggle label is an empty `label`. -/
def EmptyToggleLabel (step : Json ν) : Prop :=
  WorkflowStore.isTrue step (js "optional") = true ∧
    stringField step (js "type") ≠ some (js "human-signoff") ∧
    (stringField step (js "optionalLabel")).getD [] = [] ∧
    stringField step (js "label") = some []

theorem stepType?_humanSignoff {name : JsString} {type : StepType}
    (h : stepType? name = some type) : type = .humanSignoff ↔ name = js "human-signoff" := by
  rw [stepType?, Option.map_eq_some_iff] at h
  obtain ⟨entry, hfind, rfl⟩ := h
  have hname : entry.1 = name := by simpa using List.find?_some hfind
  have hmem := List.mem_of_find?_eq_some hfind
  rw [← hname]
  simp only [stepTypes, List.mem_cons, List.not_mem_nil, or_false] at hmem
  obtain rfl | rfl | rfl | rfl | rfl := hmem <;> decide

/-- What `normalizeStep` makes of the type and of the two labels. -/
theorem normalizeStep_labels [JsNumber ν] {s : VerifyStep ν} (h : normalizeStep r = .ok s) :
    (s.type = .humanSignoff ↔ stringField r (js "type") = some (js "human-signoff")) ∧
      s.label = (if s.type = .humanSignoff then stringField r (js "label") else none) ∧
      s.optionalLabel =
        (if ! ((stringField r (js "optionalLabel")).getD []).isEmpty then
          some ((stringField r (js "optionalLabel")).getD [])
        else if s.type ≠ .humanSignoff && WorkflowStore.isTrue r (js "optional") then
          stringField r (js "label")
        else none) := by
  simp only [normalizeStep, bind, Except.bind, pure, Except.pure] at h
  cases hget : r.get (js "type") with
  | none =>
    rw [hget] at h
    simp only [Except.ok.injEq] at h
    subst h
    exact ⟨by simp [stringField, hget], rfl, rfl⟩
  | some value =>
    rw [hget] at h
    cases value with
    | str name =>
      cases hname : stepType? name with
      | none => simp [hname] at h
      | some type =>
        simp only [hname, Except.ok.injEq] at h
        subst h
        exact ⟨by simpa [stringField, hget] using stepType?_humanSignoff hname, rfl, rfl⟩
    | null => simp at h
    | bool b => simp at h
    | num n => simp at h
    | arr items => simp at h
    | obj fields => simp at h

/-- A step that is saved and read again is as before, unless its toggle label is empty. -/
theorem reread_eq_iff [JsNumber ν] {s : VerifyStep ν} (h : normalizeStep r = .ok s) :
    reread s = s ↔ ¬ EmptyToggleLabel r := by
  obtain ⟨htype, hlabel, htoggle⟩ := normalizeStep_labels h
  have hempty : s.optionalLabel = some [] ↔ EmptyToggleLabel r := by
    simp only [htoggle, EmptyToggleLabel, ne_eq, ← htype]
    cases htext : (stringField r (js "optionalLabel")).getD [] with
    | nil => by_cases hsignoff : s.type = .humanSignoff <;> simp [hsignoff]
    | cons c cs => simp
  rw [← hempty]
  have hkept : (if s.type = .humanSignoff then s.label else none) = s.label := by
    rw [hlabel]
    split <;> rfl
  constructor
  · intro heq hsome
    have := congrArg VerifyStep.optionalLabel heq
    simp [reread, hsome] at this
  · intro hsome
    have hfilter : s.optionalLabel.filter (! ·.isEmpty) = s.optionalLabel := by
      cases htext : s.optionalLabel with
      | none => rfl
      | some text =>
        cases text with
        | nil => exact absurd htext hsome
        | cons c cs => rfl
    rw [reread, hkept, hfilter]

/-! ## Gates and workflows -/

/-- How a written gate is read: a gate with an empty list of steps is written without one. -/
def rereadGate (g : WorkflowGate ν (Json ν)) : WorkflowGate ν (Json ν) :=
  { g with verify := (g.verify.filter (! ·.isEmpty)).map fun steps => steps.map reread }

/-- The properties of a written gate that its reader looks at. -/
theorem get_serializeGate (g : WorkflowGate ν (Json ν)) :
    (serializeGate g).get (js "id") = some (.str g.id) ∧
    (serializeGate g).get (js "name") = some (.str g.name) ∧
    (serializeGate g).get (js "depends_on") =
      (if g.dependsOn.isEmpty then none else some g.dependsOn).map .arr ∧
    (serializeGate g).get (js "dependsOn") = none ∧
    (serializeGate g).get (js "content") = (if g.content then some (.bool true) else none) ∧
    (serializeGate g).get (js "inject_downstream") =
      (if g.injectDownstream then some (.bool true) else none) ∧
    (serializeGate g).get (js "injectDownstream") = none ∧
    (serializeGate g).get (js "optional") = (if g.optional then some (.bool true) else none) ∧
    (serializeGate g).get (js "manual") = (if g.manual then some (.bool true) else none) ∧
    (serializeGate g).get (js "metadata") = g.metadata.map .obj ∧
    (serializeGate g).get (js "verify") =
      ((g.verify.filter (! ·.isEmpty)).map (·.map serializeStep)).map .arr := by
  simp only [serializeGate, Json.get, Json.getField_append, Json.getField_optionalField,
    Json.getField_flagField, Json.getField_cons, Json.getField_nil, js_inj]
  simp
  split <;> exact ⟨rfl, rfl⟩

theorem normalizeGate_serializeGate [JsNumber ν] (g : WorkflowGate ν (Json ν)) :
    normalizeGate (serializeGate g) = .ok (rereadGate g) := by
  obtain ⟨hid, hname, hdeps, hdepsCamel, hcontent, hinject, hinjectCamel, hoptional, hmanual,
    hmetadata, hverify⟩ := get_serializeGate g
  have hid' : stringField (serializeGate g) (js "id") = some g.id := stringField_of_get hid
  have hname' : stringField (serializeGate g) (js "name") = some g.name := stringField_of_get hname
  have hdepsCamel' : arrayField (serializeGate g) (js "dependsOn") = none :=
    arrayField_of_get hdepsCamel
  have hinjectCamel' : WorkflowStore.isTrue (serializeGate g) (js "injectDownstream") = false :=
    isTrue_of_get hinjectCamel
  have hsteps : ((g.verify.filter (! ·.isEmpty)).map fun steps => steps.map serializeStep).mapM
      (fun steps => steps.mapM normalizeStep) =
      .ok ((g.verify.filter (! ·.isEmpty)).map fun steps => steps.map reread) := by
    cases g.verify.filter (! ·.isEmpty) with
    | none => rfl
    | some steps =>
      have hmap : (steps.map serializeStep).mapM normalizeStep =
          (.ok (steps.map reread) : Except JsString _) := by
        rw [List.mapM_map]
        simp only [Function.comp_def, normalizeStep_serializeStep]
        exact List.mapM_pure
      rw [Option.map_some, Option.map_some, Option.mapM, hmap]
      rfl
  rw [normalizeGate]
  simp only [arrayField_of_get hverify, hsteps, hid', hname', arrayField_of_get hdeps, hdepsCamel',
    isTrue_of_get hcontent, isTrue_of_get hinject, hinjectCamel', isTrue_of_get hoptional,
    isTrue_of_get hmanual, hmetadata]
  refine congrArg Except.ok ?_
  rw [rereadGate, WorkflowStore.WorkflowGate.mk.injEq]
  refine ⟨rfl, rfl, ?deps, rfl, Bool.or_false _, rfl, rfl, ?entries, rfl⟩
  case deps => cases g.dependsOn <;> rfl
  case entries => cases g.metadata <;> rfl

/-- The properties of a written workflow that its reader looks at. -/
theorem get_serializeWorkflow (wf : Workflow ν (Json ν)) :
    (serializeWorkflow wf).get (js "id") = some (.str wf.id) ∧
    (serializeWorkflow wf).get (js "name") = some (.str wf.name) ∧
    (serializeWorkflow wf).get (js "description") = some (.str wf.description) ∧
    (serializeWorkflow wf).get (js "hidden") = (if wf.hidden then some (.bool true) else none) ∧
    (serializeWorkflow wf).get (js "gates") = some (.arr (wf.gates.map serializeGate)) ∧
    (serializeWorkflow wf).get (js "createdAt") = none ∧
    (serializeWorkflow wf).get (js "updatedAt") = none := by
  simp only [serializeWorkflow, Json.get, Json.getField_append, Json.getField_flagField,
    Json.getField_cons, Json.getField_nil, js_inj]
  simp

/-- How a written workflow is read; the timestamps are not written. -/
def rereadWorkflow [JsNumber ν] (wf : Workflow ν (Json ν)) : Workflow ν (Json ν) :=
  { wf with
    gates := wf.gates.map rereadGate
    createdAt := JsNumber.read (js "0")
    updatedAt := JsNumber.read (js "0") }

theorem normalizeWorkflow_serializeWorkflow [JsNumber ν] {wf : Workflow ν (Json ν)}
    (hid : wf.id ≠ []) (idHint : JsString) :
    normalizeWorkflow (serializeWorkflow wf) idHint = .ok (some (rereadWorkflow wf)) := by
  obtain ⟨hidField, hname, hdescription, hhidden, hgates, hcreated, hupdated⟩ :=
    get_serializeWorkflow wf
  have hid' : stringField (serializeWorkflow wf) (js "id") = some wf.id :=
    stringField_of_get hidField
  have hname' : stringField (serializeWorkflow wf) (js "name") = some wf.name :=
    stringField_of_get hname
  have hdescription' : stringField (serializeWorkflow wf) (js "description") =
      some wf.description := stringField_of_get hdescription
  have hgates' : arrayField (serializeWorkflow wf) (js "gates") =
      some (wf.gates.map serializeGate) := arrayField_of_get hgates
  have hcreated' : numberField (serializeWorkflow wf) (js "createdAt") = none :=
    numberField_of_get hcreated
  have hupdated' : numberField (serializeWorkflow wf) (js "updatedAt") = none :=
    numberField_of_get hupdated
  have hmap : (wf.gates.map serializeGate).mapM normalizeGate =
      (.ok (wf.gates.map rereadGate) : Except JsString _) := by
    rw [List.mapM_map]
    simp only [Function.comp_def, normalizeGate_serializeGate]
    exact List.mapM_pure
  obtain ⟨c, cs, hcons⟩ := List.exists_cons_of_ne_nil hid
  obtain ⟨fields, hobj⟩ : ∃ fields, serializeWorkflow wf = .obj fields := ⟨_, rfl⟩
  rw [hobj] at hid' hname' hdescription' hgates' hcreated' hupdated' hhidden ⊢
  rw [normalizeWorkflow]
  simp only [hid', hname', hdescription', hgates', hcreated', hupdated', hmap,
    isTrue_of_get hhidden, Option.getD_some, hcons]
  rw [rereadWorkflow, hcons]
  rfl

/-! ## The round trip -/

/-- A workflow without its timestamps and without empty lists of steps. -/
def saved [JsNumber ν] (wf : Workflow ν (Json ν)) : Workflow ν (Json ν) :=
  { wf with
    gates := wf.gates.map fun g => { g with verify := g.verify.filter (! ·.isEmpty) }
    createdAt := JsNumber.read (js "0")
    updatedAt := JsNumber.read (js "0") }

def rawSteps (raw : Json ν) : List (Json ν) :=
  ((arrayField raw (js "gates")).getD []).flatMap fun gate =>
    (arrayField gate (js "verify")).getD []

variable {g : WorkflowGate ν (Json ν)}

theorem rereadGate_eq_iff :
    ({ rereadGate g with verify := (rereadGate g).verify.filter (! ·.isEmpty) } =
        { g with verify := g.verify.filter (! ·.isEmpty) }) ↔
      ∀ s ∈ g.verify.getD [], reread s = s := by
  rw [rereadGate, WorkflowStore.WorkflowGate.mk.injEq]
  simp only [true_and]
  cases g.verify with
  | none => simp
  | some steps =>
    cases steps with
    | nil => simp [Option.filter]
    | cons step steps =>
      have hmap : (step :: steps).map reread = (step :: steps).map id ↔
          ∀ s ∈ step :: steps, reread s = id s := List.map_inj_left
      simpa [Option.filter] using hmap

theorem normalizeGate_verify [JsNumber ν] (h : normalizeGate r = .ok g) :
    ((arrayField r (js "verify")).getD []).mapM normalizeStep = .ok (g.verify.getD []) := by
  simp only [normalizeGate, bind, Except.bind, pure, Except.pure] at h
  split at h
  · cases h
  · rename_i verify hverify
    simp only [Except.ok.injEq] at h
    subst h
    cases hsteps : arrayField r (js "verify") with
    | none =>
      rw [hsteps] at hverify
      cases hverify
      rfl
    | some steps =>
      rw [hsteps] at hverify
      cases hmap : steps.mapM normalizeStep with
      | error e =>
        simp only [Option.mapM, hmap, Functor.map, Except.map] at hverify
        cases hverify
      | ok steps' =>
        simp only [Option.mapM, hmap, Functor.map, Except.map, Except.ok.injEq] at hverify
        subst hverify
        exact hmap

/-- A gate comes back as it was exactly when none of its raw steps has an empty toggle label. -/
theorem gate_eq_iff [JsNumber ν] (h : normalizeGate r = .ok g) :
    ({ rereadGate g with verify := (rereadGate g).verify.filter (! ·.isEmpty) } =
        { g with verify := g.verify.filter (! ·.isEmpty) }) ↔
      ∀ step ∈ (arrayField r (js "verify")).getD [], ¬ EmptyToggleLabel step := by
  rw [rereadGate_eq_iff, forall_mem_iff_of_mapM_ok (normalizeGate_verify h)]
  exact fun step s hstep => (reread_eq_iff hstep).symm

/-- **The round trip.** What is read back of a saved workflow is the workflow itself, up to
timestamps and empty lists of steps, exactly when no optional step that is no sign-off has an
empty label for its only one. -/
theorem normalize_serialize_iff [JsNumber ν] {raw : Json ν} {idHint : JsString}
    {wf : Workflow ν (Json ν)} (h : normalizeWorkflow raw idHint = .ok (some wf))
    (idHint' : JsString) :
    (∃ wf', normalizeWorkflow (serializeWorkflow wf) idHint' = .ok (some wf') ∧
        saved wf' = saved wf) ↔
      ∀ step ∈ rawSteps raw, ¬ EmptyToggleLabel step := by
  obtain ⟨hid, hgates⟩ := normalizeWorkflow_ok h
  have hsaved : saved (rereadWorkflow wf) = saved wf ↔ ∀ g ∈ wf.gates,
      ({ rereadGate g with verify := (rereadGate g).verify.filter (! ·.isEmpty) } =
        { g with verify := g.verify.filter (! ·.isEmpty) }) := by
    rw [saved, saved, rereadWorkflow, Workflow.mk.injEq]
    simp only [true_and, and_true, List.map_map, List.map_inj_left, Function.comp_apply]
  rw [normalizeWorkflow_serializeWorkflow hid idHint']
  simp only [Except.ok.injEq, Option.some.injEq, exists_eq_left', hsaved]
  rw [rawSteps, List.forall_mem_flatMap]
  exact (forall_mem_iff_of_mapM_ok hgates fun r g hg => (gate_eq_iff hg).symm).symm

/-! ## One workflow -/

namespace Examples

/-- A workflow of one gate with one optional command step. -/
def oneStep (label : JsString) : Json JsString :=
  .obj [(js "id", .str (js "w")), (js "gates", .arr [.obj [(js "id", .str (js "g")),
    (js "verify", .arr [.obj [(js "name", .str (js "Lint")), (js "optional", .bool true),
      (js "label", .str label)]])]])]

end Examples

/-- A toggle label that is taken over from `label` is still there after a save. -/
theorem label_kept : ∃ wf wf' : Workflow JsString (Json JsString),
    normalizeWorkflow (Examples.oneStep (js "Run lint")) [] = .ok (some wf) ∧
      normalizeWorkflow (serializeWorkflow wf) wf.id = .ok (some wf') ∧ saved wf' = saved wf := by
  have hlabels : ∀ step ∈ rawSteps (Examples.oneStep (js "Run lint")), ¬ EmptyToggleLabel step := by
    intro step hstep
    obtain rfl := List.mem_singleton.mp hstep
    rintro ⟨-, -, -, hlabel⟩
    exact absurd hlabel (by decide)
  have hnormal : ∃ wf : Workflow JsString (Json JsString),
      normalizeWorkflow (Examples.oneStep (js "Run lint")) [] = .ok (some wf) := ⟨_, rfl⟩
  obtain ⟨wf, hwf⟩ := hnormal
  obtain ⟨wf', hread, hsaved⟩ := (normalize_serialize_iff hwf wf.id).mpr hlabels
  exact ⟨wf, wf', hwf, hread, hsaved⟩

/-- An empty toggle label is written once and then gone. -/
theorem empty_label_lost : ∃ wf : Workflow JsString (Json JsString),
    normalizeWorkflow (Examples.oneStep []) [] = .ok (some wf) ∧
      ¬ ∃ wf', normalizeWorkflow (serializeWorkflow wf) wf.id = .ok (some wf') ∧
        saved wf' = saved wf := by
  refine ⟨_, rfl, ?_⟩
  rintro ⟨wf', hread, hsaved⟩
  rw [normalizeWorkflow_serializeWorkflow (by decide)] at hread
  cases hread
  have hlabels := congrArg (fun wf => wf.gates.flatMap fun g =>
    (g.verify.getD []).map VerifyStep.optionalLabel) hsaved
  exact absurd hlabels (by decide)

end Bobbit.Spec.WorkflowRoundTrip
