import Bobbit.Server.WorkflowValidator
import Bobbit.Lib.List

/-!
# Correctness of the workflow validator

The validator walks the raw definition and `normalizeWorkflow` rereads it. Both make the
same graphs of it: for every gate its id with its dependencies, for every subgoal step its
plan id with its dependencies (`gateNode`, `planNodes`). What the validator checks of the
raw graphs therefore holds of the frozen workflow.

## Key results

- `validGraph_of_errors_nil`: a graph that passes the checks is closed and acyclic
- `scan_ok`: what the walk has seen of a definition without errors
- `normalizeGate_graphs`: normalization keeps both graphs
- `freeze_valid`: the graphs of every workflow that `freezeWorkflowDefinition` returns
-/

namespace Bobbit.Server.WorkflowValidator

open Bobbit.Lib Bobbit.Server.WorkflowStore Relation

variable {ν : Type} [JsNumeric ν]

/-! ## Graphs -/

abbrev Node := JsString × List JsString

/-- A node depends on another directly. -/
def Edge (graph : List Node) (a b : JsString) : Prop := ∃ node ∈ graph, node.1 = a ∧ b ∈ node.2

/-- A dependency graph as a workflow must have it. -/
structure ValidGraph (graph : List Node) : Prop where
  unique : (graph.map Prod.fst).Nodup
  others : ∀ node ∈ graph, ∀ d ∈ node.2, d ≠ node.1 ∧ d ∈ graph.map Prod.fst
  acyclic : ∀ a, ¬ TransGen (Edge graph) a a

/-- The gates of a workflow with their dependencies. -/
def gateGraph (wf : Workflow ν (Json ν)) : List Node :=
  wf.gates.map fun g => (g.id, strings g.dependsOn)

/-- A subgoal step with its dependencies. -/
def planNode? (step : VerifyStep ν) : Option Node :=
  if step.type = .subgoal then
    step.subgoal.map fun subgoal => (subgoal.planId, subgoal.dependsOn.getD [])
  else none

def planNodes (gate : WorkflowStore.WorkflowGate ν (Json ν)) : List Node :=
  (gate.verify.getD []).filterMap planNode?

/-- The subgoal steps of a workflow with their dependencies. -/
def planGraph (wf : Workflow ν (Json ν)) : List Node := wf.gates.flatMap planNodes

/-- What a frozen workflow guarantees. -/
structure Frozen (wf : Workflow ν (Json ν)) : Prop where
  gates : ValidGraph (gateGraph wf)
  plans : ValidGraph (planGraph wf)
  /-- every dependency of a gate is a string -/
  stringDependencies : ∀ g ∈ wf.gates, g.dependsOn = (strings g.dependsOn).map .str
  /-- every subgoal step has its payload -/
  payloads : ∀ g ∈ wf.gates, ∀ step ∈ g.verify.getD [], step.type = .subgoal → step.subgoal.isSome

/-! ## Checked graphs -/

variable {graph : List Node}

theorem get?_graph (h : (graph.map Prod.fst).Nodup) (id : JsString) :
    JsMap.get? (graph.foldl (fun m node => JsMap.set m node.1 node.2) []) id =
      (graph.find? (·.1 = id)).map Prod.snd := by
  have hget := JsMap.get?_foldl_set Prod.fst Prod.snd ([] : JsMap JsString (List JsString)) h id
  rw [hget]
  simp [JsMap.get?]

theorem find?_node (h : (graph.map Prod.fst).Nodup) {node : Node}
    (hnode : node ∈ graph) : graph.find? (·.1 = node.1) = some node := by
  cases hfind : graph.find? (·.1 = node.1) with
  | none =>
    have hnot := List.find?_eq_none.mp hfind node hnode
    simp at hnot
  | some other =>
    have hid : other.1 = node.1 := by simpa using List.find?_some hfind
    rw [List.inj_on_of_nodup_map h (List.mem_of_find?_eq_some hfind) hnode hid]

/-- The graph that the cycle search walks has every edge of a closed graph. -/
theorem mem_knownSuccessors (h : (graph.map Prod.fst).Nodup)
    (hclosed : ∀ node ∈ graph, ∀ d ∈ node.2, d ∈ graph.map Prod.fst) {a b : JsString}
    (hedge : Edge graph a b) :
    b ∈ knownSuccessors (graph.foldl (fun m node => JsMap.set m node.1 node.2) []) a := by
  obtain ⟨node, hnode, rfl, hb⟩ := hedge
  obtain ⟨other, hother, rfl⟩ := List.mem_map.mp (hclosed node hnode b hb)
  simp only [knownSuccessors, get?_graph h, find?_node h hnode, Option.map_some,
    Option.getD_some, List.mem_filter]
  refine ⟨hb, ?_⟩
  rw [find?_node h hother]
  rfl

theorem acyclic_of_cycleErrors (h : (graph.map Prod.fst).Nodup)
    (hclosed : ∀ node ∈ graph, ∀ d ∈ node.2, d ∈ graph.map Prod.fst) {message : JsString}
    (herrors : cycleErrors (graph.foldl (fun m node => JsMap.set m node.1 node.2) []) message = [])
    (a : JsString) : ¬ TransGen (Edge graph) a a := by
  intro hcycle
  unfold cycleErrors at herrors
  split at herrors
  · rename_i visited hsearch
    have hroots : ∀ a, knownSuccessors
        (graph.foldl (fun m node => JsMap.set m node.1 node.2) []) a ≠ [] →
        a ∈ JsMap.keys (graph.foldl (fun m node => JsMap.set m node.1 node.2) []) := by
      intro a hne
      cases hget : JsMap.get? (graph.foldl (fun m node => JsMap.set m node.1 node.2) []) a with
      | none => simp [knownSuccessors, hget] at hne
      | some deps => exact JsMap.mem_keys_of_get? hget
    apply CycleSearch.acyclic_of_search hroots hsearch a
    exact TransGen.mono (fun a b hedge => mem_knownSuccessors h hclosed hedge) _ _ hcycle
  · cases herrors

theorem of_dependencyErrors {intro id : JsString} {ids deps : List JsString}
    (h : dependencyErrors intro ids id deps = []) : ∀ d ∈ deps, d ≠ id ∧ d ∈ ids := by
  simp only [dependencyErrors, List.flatMap_eq_nil_iff] at h
  intro d hd
  have hone := h d hd
  split at hone
  · cases hone
  · rename_i hne
    split at hone
    · cases hone
    · rename_i hmem
      exact ⟨hne, not_not.mp hmem⟩

/-- **Checked graphs.** A graph with unique ids that passes both checks is valid. -/
theorem validGraph_of_errors_nil {intro message : JsString} (hunique : (graph.map Prod.fst).Nodup)
    (hdeps : (graph.flatMap fun node =>
      dependencyErrors intro (graph.map Prod.fst) node.1 node.2) = [])
    (hcycle : cycleErrors (graph.foldl (fun m node => JsMap.set m node.1 node.2) []) message = []) :
    ValidGraph graph := by
  rw [List.flatMap_eq_nil_iff] at hdeps
  have hothers : ∀ node ∈ graph, ∀ d ∈ node.2, d ≠ node.1 ∧ d ∈ graph.map Prod.fst :=
    fun node hnode => of_dependencyErrors (hdeps node hnode)
  exact ⟨hunique, hothers,
    acyclic_of_cycleErrors hunique (fun node hnode d hd => (hothers node hnode d hd).2) hcycle⟩

/-- No plan id is reported when they are all different. -/
theorem nodup_of_duplicatePlanErrors {seen planIds : List JsString}
    (h : duplicatePlanErrors seen planIds = []) :
    planIds.Nodup ∧ ∀ planId ∈ planIds, planId ∉ seen := by
  induction planIds generalizing seen with
  | nil => exact ⟨List.nodup_nil, by simp⟩
  | cons planId rest ih =>
    simp only [duplicatePlanErrors, List.append_eq_nil_iff] at h
    obtain ⟨hfirst, hrest⟩ := h
    obtain ⟨hnodup, hfresh⟩ := ih hrest
    have hnot : planId ∉ seen := by
      intro hmem
      simp [hmem] at hfirst
    refine ⟨List.nodup_cons.mpr ⟨?_, hnodup⟩, ?_⟩
    · intro hmem
      exact hfresh planId hmem (List.mem_append_right _ (List.mem_singleton.mpr rfl))
    · intro other hother
      cases List.mem_cons.mp hother with
      | inl heq => exact heq ▸ hnot
      | inr hother =>
        intro hmem
        exact hfresh other hother (List.mem_append_left _ hmem)

/-! ## The walk over the gates -/

def rawId (gate : Json ν) : JsString := (stringField gate (js "id")).getD []

/-- A raw gate as the dependency checks see it. -/
def gateNode (gate : Json ν) : Node := (rawId gate, (stringArray? (gateDependencies gate)).getD [])

/-- A raw step as the dependency checks see it. -/
def rawPlanNode? (step : Json ν) : Option Node :=
  (stepSubgoal? [] 0 step).map fun s => (s.planId, s.dependsOn)

/-- The raw steps of a gate as the dependency checks see them. -/
def rawPlanNodes (gate : Json ν) : List Node :=
  ((arrayField gate (js "verify")).getD []).filterMap rawPlanNode?

/-- A gate in which the validator finds nothing wrong by itself. -/
structure GateOk (wfId : JsString) (gate : Json ν) : Prop where
  plain : isPlainObject (some gate) = true
  named : isNonEmptyString (gate.get (js "id")) = true
  fields : ∃ gateId, gateFieldErrors wfId gateId gate = []

omit [JsNumeric ν] in
/-- The plan node of a step does not depend on where it stands. -/
theorem stepSubgoal?_node (gateId : JsString) (i : Nat) (step : Json ν) :
    (stepSubgoal? gateId i step).map (fun s => (s.planId, s.dependsOn)) = rawPlanNode? step := by
  simp only [rawPlanNode?, stepSubgoal?]
  split
  · split
    · split <;> rfl
    · rfl
  · rfl

variable {wfId : JsString}

theorem scanGate_ok {s : Scan ν} {entry : Json ν × Nat} (h : (scanGate wfId s entry).errors = []) :
    s.errors = [] ∧ GateOk wfId entry.1 ∧ rawId entry.1 ∉ s.ids.members ∧
      (scanGate wfId s entry).ids.members = s.ids.members ++ [rawId entry.1] ∧
      (scanGate wfId s entry).gateRecords = s.gateRecords ++ [entry.1] ∧
      (scanGate wfId s entry).subgoals.map (fun r => (r.planId, r.dependsOn)) =
        s.subgoals.map (fun r => (r.planId, r.dependsOn)) ++ rawPlanNodes entry.1 := by
  obtain ⟨gate, gateIndex⟩ := entry
  simp only [scanGate] at h ⊢
  cases hplain : isPlainObject (some gate) with
  | false =>
    rw [hplain] at h
    simp at h
  | true =>
    rw [hplain] at h
    simp only [Bool.not_true, Bool.false_eq_true, if_false, List.append_eq_nil_iff] at h ⊢
    obtain ⟨⟨hbefore, hid⟩, hfields⟩ := h
    cases hnamed : isNonEmptyString (gate.get (js "id")) with
    | false =>
      rw [hnamed] at hid
      simp at hid
    | true =>
      rw [hnamed] at hid hfields
      simp only [Bool.not_true, Bool.false_eq_true, if_false, if_true] at hid hfields ⊢
      split at hid
      · cases hid
      · rename_i hpattern
        split at hid
        · cases hid
        · rename_i hfresh
          refine ⟨hbefore, ⟨hplain, hnamed, _, hfields⟩, hfresh, ?_, trivial, ?_⟩
          · rw [if_neg hpattern, if_neg hfresh]
            simp only [List.isEmpty_nil, if_true]
            rw [JsSet.add, dif_neg hfresh]
            rfl
          · rw [List.map_append, List.map_filterMap]
            congr 1
            simp only [stepSubgoal?_node]
            exact filterMap_zipIdx rawPlanNode? _ 0

/-- **A walk without errors** has seen every gate under an id of its own. -/
theorem scan_ok {entries : List (Json ν × Nat)} {s : Scan ν}
    (h : (entries.foldl (scanGate wfId) s).errors = []) :
    s.errors = [] ∧ (∀ entry ∈ entries, GateOk wfId entry.1) ∧
      (entries.foldl (scanGate wfId) s).ids.members =
        s.ids.members ++ entries.map (fun entry => rawId entry.1) ∧
      (entries.foldl (scanGate wfId) s).gateRecords =
        s.gateRecords ++ entries.map (fun entry => entry.1) ∧
      (entries.foldl (scanGate wfId) s).subgoals.map (fun r => (r.planId, r.dependsOn)) =
        s.subgoals.map (fun r => (r.planId, r.dependsOn)) ++
          entries.flatMap (fun entry => rawPlanNodes entry.1) := by
  induction entries generalizing s with
  | nil => exact ⟨h, by simp, by simp, by simp, by simp⟩
  | cons entry rest ih =>
    rw [List.foldl_cons] at h
    obtain ⟨hfirst, hall, hids, hrecords, hplans⟩ := ih h
    obtain ⟨hbefore, hok, -, hids', hrecords', hplans'⟩ := scanGate_ok hfirst
    refine ⟨hbefore, ?_, ?_, ?_, ?_⟩
    · intro other hother
      cases List.mem_cons.mp hother with
      | inl heq => exact heq ▸ hok
      | inr hother => exact hall other hother
    · rw [List.foldl_cons, hids, hids', List.append_assoc]
      rfl
    · rw [List.foldl_cons, hrecords, hrecords', List.append_assoc]
      rfl
    · rw [List.foldl_cons, hplans, hplans', List.append_assoc]
      rfl

/-! ## Normalization -/

omit [JsNumeric ν] in
theorem of_stringItems? {items : List (Json ν)} {deps : List JsString}
    (h : stringItems? items = some deps) : items = deps.map .str ∧ strings items = deps := by
  have hall := forall₂_of_mapM_eq_some h
  induction hall with
  | nil => exact ⟨rfl, rfl⟩
  | @cons item dep items deps hitem hrest ih =>
    have hdep : item = .str dep := by
      cases item <;> simp at hitem
      rw [hitem]
    have hsome : stringItems? items = some deps := by
      simp only [stringItems?, List.mapM_cons, hitem] at h
      cases hmap : stringItems? items with
      | none =>
        rw [stringItems?] at hmap
        simp [hmap] at h
      | some deps' =>
        rw [stringItems?] at hmap
        simpa [hmap] using h
    obtain ⟨hitems, hstrings⟩ := ih hsome
    subst hdep
    constructor
    · rw [hitems, List.map_cons]
    · show dep :: strings items = dep :: deps
      rw [hstrings]

theorem of_failures {checks : List (Bool × JsString)} (h : failures checks = []) :
    ∀ check ∈ checks, check.1 = false := by
  simp only [failures, List.map_eq_nil_iff, List.filter_eq_nil_iff, Bool.not_eq_true] at h
  exact h

omit [JsNumeric ν] in
theorem of_notStringArray {r : Json ν} {key : JsString} (h : notStringArray r key = false) :
    r.get key = none ∨ ∃ items deps, r.get key = some (.arr items) ∧ stringItems? items = some deps := by
  cases hget : r.get key with
  | none => exact .inl rfl
  | some value =>
    right
    simp only [notStringArray, hget, Option.isSome_some, Bool.true_and] at h
    cases value with
    | arr items =>
      simp only [stringArray?] at h
      cases hitems : stringItems? items with
      | none => simp [hitems] at h
      | some deps => exact ⟨items, deps, rfl, hitems⟩
    | null => simp [stringArray?] at h
    | bool b => simp [stringArray?] at h
    | num n => simp [stringArray?] at h
    | str s => simp [stringArray?] at h
    | obj fields => simp [stringArray?] at h

/-- **A gate's dependencies.** The validator and `normalizeGate` read the same spelling. -/
theorem gate_dependencies {gateId : JsString} {gate : Json ν}
    (h : gateFieldErrors wfId gateId gate = []) :
    let items := ((arrayField gate (js "depends_on")).or (arrayField gate (js "dependsOn"))).getD []
    items = (gateNode gate).2.map .str ∧ strings items = (gateNode gate).2 := by
  simp only [gateFieldErrors, List.append_eq_nil_iff] at h
  have hchecks := of_failures h.1
  simp only [List.forall_mem_append, List.forall_mem_map, List.forall_mem_cons] at hchecks
  obtain ⟨⟨⟨⟨-, hcamel, hsnake, -⟩, -⟩, -⟩, -⟩ := hchecks
  cases of_notStringArray hsnake with
  | inr hsome =>
    obtain ⟨items, deps, hget, hitems⟩ := hsome
    have hdeps : (gateNode gate).2 = deps := by
      simp [gateNode, gateDependencies, hget, stringArray?, hitems]
    rw [hdeps]
    simpa [arrayField, hget] using of_stringItems? hitems
  | inl hnone =>
    cases of_notStringArray hcamel with
    | inr hsome =>
      obtain ⟨items, deps, hget, hitems⟩ := hsome
      have hdeps : (gateNode gate).2 = deps := by
        simp [gateNode, gateDependencies, hnone, hget, stringArray?, hitems]
      rw [hdeps]
      simpa [arrayField, hnone, hget] using of_stringItems? hitems
    | inl hnone' =>
      have hdeps : (gateNode gate).2 = [] := by
        simp [gateNode, gateDependencies, hnone, hnone', stringArray?]
      rw [hdeps]
      simp [arrayField, hnone, hnone', strings]

theorem stepType?_subgoal {name : JsString} {type : StepType} (h : stepType? name = some type) :
    type = .subgoal ↔ name = js "subgoal" := by
  simp only [stepType?, Option.map_eq_some_iff] at h
  obtain ⟨entry, hfind, rfl⟩ := h
  have hname : entry.1 = name := by simpa using List.find?_some hfind
  have hmem := List.mem_of_find?_eq_some hfind
  rw [← hname]
  simp only [stepTypes, List.mem_cons, List.not_mem_nil, or_false] at hmem
  obtain rfl | rfl | rfl | rfl | rfl := hmem <;> decide

/-- What `normalizeStep` makes of the type and of the payload. -/
theorem normalizeStep_ok {step : Json ν} {step' : VerifyStep ν} (h : normalizeStep step = .ok step') :
    (step'.type = .subgoal ↔ isSubgoalStep step = true) ∧
      step'.subgoal = match step.get (js "subgoal") with
        | some (.obj fields) => some (normalizeSubgoal (.obj fields))
        | _ => none := by
  simp only [normalizeStep, bind, Except.bind, pure, Except.pure] at h
  cases hget : step.get (js "type") with
  | none =>
    rw [hget] at h
    simp only [Except.ok.injEq] at h
    subst h
    exact ⟨by simp [isSubgoalStep, stringField, hget], rfl⟩
  | some value =>
    rw [hget] at h
    cases value with
    | str name =>
      cases hname : stepType? name with
      | none => simp [hname] at h
      | some type =>
        simp only [hname, Except.ok.injEq] at h
        subst h
        exact ⟨by simpa [isSubgoalStep, stringField, hget] using stepType?_subgoal hname, rfl⟩
    | null => simp at h
    | bool b => simp at h
    | num n => simp at h
    | arr items => simp at h
    | obj fields => simp at h

omit [JsNumeric ν] in
theorem of_isNonEmptyString {r : Json ν} {key : JsString}
    (h : isNonEmptyString (r.get key) = true) :
    ∃ s, stringField r key = some s ∧ isNonEmptyString (some (.str s : Json ν)) = true := by
  unfold stringField
  cases hget : r.get key with
  | none => simp [hget, isNonEmptyString] at h
  | some value =>
    rw [hget] at h
    cases value with
    | str s => exact ⟨s, rfl, h⟩
    | null => simp [isNonEmptyString] at h
    | bool b => simp [isNonEmptyString] at h
    | num n => simp [isNonEmptyString] at h
    | arr items => simp [isNonEmptyString] at h
    | obj fields => simp [isNonEmptyString] at h

omit [JsNumeric ν] in
/-- **A subgoal's dependencies.** The validator and `normalizeStep` read the same spelling. -/
theorem subgoal_dependencies {subgoal : Json ν}
    (hcamel : notStringArray subgoal (js "dependsOn") = false)
    (hsnake : notStringArray subgoal (js "depends_on") = false) :
    stringItems? (subgoalDependencies subgoal) =
      some ((normalizeSubgoal subgoal).dependsOn.getD []) := by
  simp only [subgoalDependencies, normalizeSubgoal]
  cases of_notStringArray hcamel with
  | inr hsome =>
    obtain ⟨items, deps, hget, hitems⟩ := hsome
    have hstrings := (of_stringItems? hitems).2
    simp [arrayField, hget, hitems, hstrings]
  | inl hnone =>
    cases of_notStringArray hsnake with
    | inr hsome =>
      obtain ⟨items, deps, hget, hitems⟩ := hsome
      have hstrings := (of_stringItems? hitems).2
      simp [arrayField, hnone, hget, hitems, hstrings]
    | inl hnone' => simp [arrayField, hnone, hnone', stringItems?]

/-- **One step.** The validator and the normalized step agree on whether it is a subgoal, on its
    plan id and on its dependencies. -/
theorem planNode?_normalizeStep {intro : JsString} {step : Json ν} {step' : VerifyStep ν}
    (herrors : stepErrors intro step = []) (h : normalizeStep step = .ok step') :
    rawPlanNode? step = planNode? step' ∧ (step'.type = .subgoal → step'.subgoal.isSome) := by
  obtain ⟨htype, hsubgoal⟩ := normalizeStep_ok h
  simp only [stepErrors, List.append_eq_nil_iff] at herrors
  cases hkind : isSubgoalStep step with
  | false =>
    rw [hkind] at htype
    have hnot : step'.type ≠ .subgoal := by
      intro heq
      exact absurd (htype.mp heq) (by simp)
    constructor
    · simp [rawPlanNode?, stepSubgoal?, hkind, planNode?, hnot]
    · intro heq
      exact absurd heq hnot
  | true =>
    have hyes : step'.type = .subgoal := htype.mpr hkind
    have hpayload := herrors.2
    rw [hkind] at hpayload
    simp only [if_true] at hpayload
    split at hpayload
    · rename_i fields hget
      have hchecks := of_failures hpayload
      simp only [List.forall_mem_append, List.forall_mem_map, List.forall_mem_cons] at hchecks
      obtain ⟨⟨⟨hplanId, -⟩, -⟩, hcamel, hsnake, -⟩ := hchecks
      obtain ⟨planId, hfield, hfull⟩ := of_isNonEmptyString (by simpa using hplanId)
      have hdeps := subgoal_dependencies hcamel hsnake
      rw [hget] at hsubgoal
      constructor
      · simp only [rawPlanNode?, stepSubgoal?, hkind, hget, hfield, hdeps, hfull, if_true,
          Option.map_some, planNode?, hyes, hsubgoal]
        simp [normalizeSubgoal, hfield]
      · intro _
        rw [hsubgoal]
        rfl
    · cases hpayload

/-- **One gate.** Normalization keeps its id, its dependencies and its subgoal steps. -/
theorem normalizeGate_graphs {gate : Json ν} {gate' : WorkflowStore.WorkflowGate ν (Json ν)}
    (hok : GateOk wfId gate) (h : normalizeGate gate = .ok gate') :
    gateNode gate = (gate'.id, strings gate'.dependsOn) ∧
      gate'.dependsOn = (strings gate'.dependsOn).map .str ∧
      rawPlanNodes gate = planNodes gate' ∧
      ∀ step ∈ gate'.verify.getD [], step.type = .subgoal → step.subgoal.isSome := by
  obtain ⟨gateId, hfields⟩ := hok.fields
  obtain ⟨hitems, hstrings⟩ := gate_dependencies hfields
  simp only [normalizeGate, bind, Except.bind, pure, Except.pure] at h
  split at h
  · cases h
  · rename_i verify hverify
    simp only [Except.ok.injEq] at h
    subst h
    dsimp only
    refine ⟨?_, ?_, ?_⟩
    · rw [hstrings]
      rfl
    · rw [hstrings]
      exact hitems
    · simp only [rawPlanNodes, planNodes]
      cases hsteps : arrayField gate (js "verify") with
      | none =>
        rw [hsteps] at hverify
        simp only [Option.mapM, pure, Except.pure, Except.ok.injEq] at hverify
        subst hverify
        simp
      | some steps =>
        have hget : gate.get (js "verify") = some (.arr steps) := by
          simp only [arrayField] at hsteps
          split at hsteps
          · rename_i items hget
            rw [hget, Option.some.inj hsteps]
          · cases hsteps
        simp only [gateFieldErrors, hget, List.append_eq_nil_iff, List.flatMap_eq_nil_iff] at hfields
        -- every raw step is a plain object without errors
        have hstep : ∀ step ∈ steps, ∃ intro, stepErrors intro step = [] := by
          intro step hmem
          rw [← List.zipIdx_map_fst 0 steps] at hmem
          obtain ⟨entry, hentry, rfl⟩ := List.mem_map.mp hmem
          have hone := hfields.2 entry hentry
          split at hone
          · exact ⟨_, hone⟩
          · cases hone
        cases hmap : steps.mapM normalizeStep with
        | error e =>
          simp only [hsteps, Option.mapM, hmap, Functor.map, Except.map] at hverify
          cases hverify
        | ok steps' =>
          simp only [hsteps, Option.mapM, hmap, Functor.map, Except.map, Except.ok.injEq] at hverify
          subst hverify
          simp only [Option.getD_some]
          constructor
          · have hnodes : steps.map rawPlanNode? = steps'.map planNode? := by
              apply map_eq_of_mapM_ok hmap
              intro step hmem step' hok
              obtain ⟨intro, herrors⟩ := hstep step hmem
              exact (planNode?_normalizeStep herrors hok).1
            have hid : ∀ {α : Type} (f : α → Option Node) (l : List α),
                l.filterMap f = (l.map f).filterMap id := by
              intro α f l
              rw [List.filterMap_map, Function.id_comp]
            rw [hid, hnodes, ← hid]
          · intro step' hmem' htype
            obtain ⟨step, hmem, hok⟩ := mem_of_mapM_ok hmap hmem'
            obtain ⟨intro, herrors⟩ := hstep step hmem
            exact (planNode?_normalizeStep herrors hok).2 htype

/-! ## Frozen workflows -/

/-- What a definition without errors is made of. -/
structure Checked (raw : Json ν) : Prop where
  gates : ∀ gate ∈ (arrayField raw (js "gates")).getD [], GateOk (labelOf raw) gate
  gateGraph : ValidGraph (((arrayField raw (js "gates")).getD []).map gateNode)
  planGraph : ValidGraph (((arrayField raw (js "gates")).getD []).flatMap rawPlanNodes)

/-- **The validator.** A definition without errors makes valid graphs. -/
theorem checked_of_errors_nil {toLowerCase : JsString → JsString} {raw : Json ν}
    {components : List WorkflowComponentRef} {references : Bool}
    (h : validateWorkflowDefinition toLowerCase raw components references = []) : Checked raw := by
  unfold validateWorkflowDefinition at h
  split at h
  · cases h
  · generalize hgates : (arrayField raw (js "gates")).getD [] = gates at h
    dsimp only at h
    split at h
    · simp at h
    · simp only [List.append_eq_nil_iff] at h
      obtain ⟨⟨⟨⟨⟨⟨⟨-, hscan⟩, hdeps⟩, hcycle⟩, hplanIds⟩, hplanDeps⟩, hplanCycle⟩, -⟩ := h
      obtain ⟨-, hok, hids, hrecords, hplans⟩ := scan_ok hscan
      have hfst : gates.zipIdx.map (fun entry => entry.1) = gates := List.zipIdx_map_fst 0 gates
      have hoks : ∀ gate ∈ gates, GateOk (labelOf raw) gate := by
        intro gate hgate
        rw [← hfst] at hgate
        obtain ⟨entry, hentry, rfl⟩ := List.mem_map.mp hgate
        exact hok entry hentry
      -- the ids of the walk are those of the gates
      have hids' : (gates.zipIdx.foldl (scanGate (labelOf raw)) ⟨[], .empty, [], []⟩).ids.members =
          gates.map rawId := by
        rw [hids]
        conv_rhs => rw [← hfst, List.map_map]
        rfl
      have hrecords' : namedGates
          (gates.zipIdx.foldl (scanGate (labelOf raw)) ⟨[], .empty, [], []⟩).gateRecords =
          gates.map gateNode := by
        rw [hrecords, hfst, List.nil_append, namedGates]
        conv_rhs => rw [← List.filterMap_eq_map]
        apply List.filterMap_congr
        intro gate hgate
        rw [if_pos (hoks gate hgate).named]
        rfl
      have hplans' : (gates.zipIdx.foldl (scanGate (labelOf raw)) ⟨[], .empty, [], []⟩).subgoals.map
          (fun r => (r.planId, r.dependsOn)) = gates.flatMap rawPlanNodes := by
        rw [hplans]
        conv_rhs => rw [← hfst, List.flatMap_map]
        rfl
      have hunique : (gates.map rawId).Nodup := hids' ▸ JsSet.nodup _
      have hfstNode : (gates.map gateNode).map Prod.fst = gates.map rawId := by
        rw [List.map_map]
        rfl
      rw [hrecords', hids', ← hfstNode] at hdeps
      rw [hrecords'] at hcycle
      rw [hplans'] at hplanIds hplanDeps hplanCycle
      subst hgates
      exact ⟨hoks, validGraph_of_errors_nil (hfstNode ▸ hunique) hdeps hcycle,
        validGraph_of_errors_nil (nodup_of_duplicatePlanErrors hplanIds).1 hplanDeps hplanCycle⟩

/-- **Freezing validates what it returns.** In every workflow that `freezeWorkflowDefinition`
    returns the gate ids are unique, every dependency of a gate is the id of another gate and the
    gates make no cycle; and the same holds of the plan ids of its subgoal steps. -/
theorem freeze_valid (toLowerCase : JsString → JsString) (raw : Json ν)
    (components : List WorkflowComponentRef) (idHint : JsString) (references : Bool)
    (wf : Workflow ν (Json ν))
    (h : freezeWorkflowDefinition toLowerCase raw components idHint references = .ok wf) :
    Frozen wf := by
  unfold freezeWorkflowDefinition at h
  split at h
  · cases h
  · rename_i herrors
    have hchecked := checked_of_errors_nil herrors
    have hnormal : normalizeWorkflow raw idHint = .ok (some wf) := by
      cases hnorm : normalizeWorkflow raw idHint with
      | error e =>
        rw [hnorm] at h
        cases h
      | ok workflow? =>
        rw [hnorm] at h
        cases workflow? with
        | none => cases h
        | some workflow =>
          simp only [bind, Except.bind, Except.ok.injEq] at h
          rw [h]
    have hmap := (normalizeWorkflow_ok hnormal).2
    have hgateGraph : ((arrayField raw (js "gates")).getD []).map gateNode = gateGraph wf :=
      map_eq_of_mapM_ok hmap fun gate hgate gate' hok => (normalizeGate_graphs (hchecked.gates gate hgate) hok).1
    have hplanGraph : ((arrayField raw (js "gates")).getD []).flatMap rawPlanNodes = planGraph wf := by
      have hnodes := map_eq_of_mapM_ok hmap fun gate hgate gate' hok =>
        (normalizeGate_graphs (hchecked.gates gate hgate) hok).2.2.1
      rw [planGraph, List.flatMap_def, List.flatMap_def, hnodes]
    refine ⟨hgateGraph ▸ hchecked.gateGraph, hplanGraph ▸ hchecked.planGraph, ?_, ?_⟩
    · intro gate' hgate'
      obtain ⟨gate, hgate, hok⟩ := mem_of_mapM_ok hmap hgate'
      exact (normalizeGate_graphs (hchecked.gates gate hgate) hok).2.1
    · intro gate' hgate'
      obtain ⟨gate, hgate, hok⟩ := mem_of_mapM_ok hmap hgate'
      exact (normalizeGate_graphs (hchecked.gates gate hgate) hok).2.2.2

/-- Numbers as their tokens: the value of a token of digits. -/
instance tokenNumeric : JsNumeric JsString where
  value token :=
    if token.all isDigit && ! token.isEmpty then
      some (token.foldl (fun n c => n * 10 + (c.toNat - 0x30)) 0 : Nat)
    else none
  text token := token

def record (fields : List (String × Json JsString)) : Json JsString :=
  .obj (fields.map fun field => (js field.1, field.2))

def text (s : String) : Json JsString := .str (js s)

def exampleStep (planId depField : String) (deps : List String) : Json JsString :=
  record [("name", text planId), ("type", text "subgoal"), ("phase", .num (js "1")),
    ("subgoal", record [("planId", text planId), ("title", text planId), ("spec", text planId),
      (depField, .arr (deps.map text))])]

/-- A definition that mixes the spellings of its dependencies. -/
def exampleDefinition : Json JsString :=
  record [("id", text "parent"), ("name", text "Parent"), ("gates", .arr
    [record [("id", text "design"), ("name", text "Design"), ("dependsOn", .arr [])],
      record [("id", text "execution"), ("name", text "Execution"),
        ("depends_on", .arr [text "design"]), ("dependsOn", .arr [text "nowhere"]),
        ("verify", .arr [exampleStep "first" "dependsOn" [],
          exampleStep "second" "depends_on" ["first"]])]])]

theorem freeze_valid_mixed :
    ∃ wf, freezeWorkflowDefinition id exampleDefinition [] [] true = .ok wf ∧ Frozen wf := by
  cases hfreeze : freezeWorkflowDefinition id exampleDefinition [] [] true with
  | error e =>
    have hok : (freezeWorkflowDefinition id exampleDefinition [] [] true).isOk = true := by
      decide +kernel
    rw [hfreeze] at hok
    cases hok
  | ok wf => exact ⟨wf, rfl, freeze_valid id exampleDefinition [] [] true wf hfreeze⟩

end Bobbit.Server.WorkflowValidator
