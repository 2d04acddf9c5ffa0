import Bobbit.Lib.Run
import Bobbit.Server.DependsOnValidation

/-!
# Plan dependency validation is exact

The three parts of `validatePlanDependsOn` check one thing each. The third is Kahn's
algorithm on the edges `d -> step` of the plan, so what it reports is what lies on a
cycle or depends on one.

## Key results

- `collectPlanIds_ok_iff`, `collectMissing_ok_iff`: when the first two parts go through
- `checkCycle_eq`: what the third part answers
- `validatePlanDependsOn_exact`: when the answer is ok, and which steps a cycle error names
- `spawns_stay_valid`: children that are spawned one by one form a valid plan
-/

namespace Bobbit.Server.DependsOn

open Lib Relation Dfs

/-! ## The plan -/

/-- `a` is named among the dependencies of the step `b`. -/
def Needs (steps : List DependsOnStep) (a b : String) : Prop :=
  ∃ step ∈ steps, step.planId = b ∧ a ∈ step.deps

/-- No step of the plan depends transitively on itself. -/
def PlanAcyclic (steps : List DependsOnStep) : Prop := ∀ a, ¬ TransGen (Needs steps) a a

/-- The step lies on a cycle or depends transitively on a step that does. -/
def BehindCycle (steps : List DependsOnStep) (planId : String) : Prop :=
  ∃ a, TransGen (Needs steps) a a ∧ ReflTransGen (Needs steps) a planId

/-- The edges of the plan, in the order in which they are added. -/
def edges (steps : List DependsOnStep) : List (String × String) :=
  steps.flatMap fun step => step.deps.map fun d => (d, step.planId)

/-- The successors that an edge list gives a node. -/
def succ (steps : List DependsOnStep) (a : String) : List String :=
  ((edges steps).filter (·.1 = a)).map (·.2)

variable {steps : List DependsOnStep}

theorem mem_edges {a b : String} : (a, b) ∈ edges steps ↔ Needs steps a b := by
  simp only [edges, List.mem_flatMap, List.mem_map, Prod.mk.injEq, Needs]
  constructor
  · rintro ⟨step, hstep, d, hd, rfl, rfl⟩
    exact ⟨step, hstep, rfl, hd⟩
  · rintro ⟨step, hstep, rfl, ha⟩
    exact ⟨step, hstep, a, ha, rfl, rfl⟩

theorem edge_succ (steps : List DependsOnStep) : Edge (succ steps) = Needs steps := by
  funext a b
  rw [← mem_edges, Edge, succ, List.mem_map]
  apply propext
  constructor
  · rintro ⟨edge, hedge, rfl⟩
    obtain ⟨hmem, hstart⟩ := List.mem_filter.mp hedge
    rw [← of_decide_eq_true hstart]
    exact hmem
  · intro hmem
    exact ⟨(a, b), List.mem_filter.mpr ⟨hmem, by simp⟩, rfl⟩

/-! ## The first two parts -/

/-- The first part goes through when no plan id comes twice. -/
theorem collectPlanIds_ok_iff (steps : List DependsOnStep) (planIds : JsSet String) :
    collectPlanIds steps = .ok planIds ↔
      (steps.map (·.planId)).Nodup ∧ planIds.members = steps.map (·.planId) := by
  have hfold : ∀ (steps : List DependsOnStep) (seen planIds : JsSet String),
      steps.foldlM (fun planIds step =>
        if step.planId ∈ planIds.members then .error (.duplicatePlanId step.planId)
        else .ok (planIds.add step.planId)) seen =
          (.ok planIds : Except DependsOnError (JsSet String)) ↔
        (seen.members ++ steps.map (·.planId)).Nodup ∧
          planIds.members = seen.members ++ steps.map (·.planId) := by
    intro steps
    induction steps with
    | nil =>
      intro seen planIds
      simp only [List.foldlM_nil, pure, Except.pure, Except.ok.injEq, List.map_nil,
        List.append_nil, seen.nodup, true_and]
      constructor
      · rintro rfl
        rfl
      · intro heq
        cases seen
        cases planIds
        simp_all
    | cons step rest ih =>
      intro seen planIds
      rw [List.foldlM_cons]
      by_cases hin : step.planId ∈ seen.members
      · rw [if_pos hin]
        constructor
        · intro h
          cases h
        · rintro ⟨hnodup, -⟩
          rw [List.map_cons, List.nodup_append] at hnodup
          exact absurd rfl (hnodup.2.2 _ hin _ List.mem_cons_self)
      · rw [if_neg hin]
        have hadd : (seen.add step.planId).members = seen.members ++ [step.planId] := by
          rw [JsSet.add, dif_neg hin]
        show List.foldlM _ (seen.add step.planId) rest = _ ↔ _
        rw [ih, hadd, List.append_assoc, List.map_cons]
        exact Iff.rfl
  exact hfold steps .empty planIds

theorem mem_foldl_pushMissing (planIds : JsSet String) (deps missing : List String) (d : String) :
    d ∈ deps.foldl (pushMissing planIds) missing ↔
      d ∈ missing ∨ (d ∈ deps ∧ d ∉ planIds.members) := by
  induction deps generalizing missing with
  | nil => simp
  | cons first rest ih =>
    rw [List.foldl_cons, ih, List.mem_cons]
    unfold pushMissing
    split
    · rename_i hnew
      rw [List.mem_append, List.mem_singleton]
      constructor
      · rintro ((h | rfl) | h)
        · exact .inl h
        · exact .inr ⟨.inl rfl, hnew.1⟩
        · exact .inr ⟨.inr h.1, h.2⟩
      · rintro (h | ⟨rfl | h, hnot⟩)
        · exact .inl (.inl h)
        · exact .inl (.inr rfl)
        · exact .inr ⟨h, hnot⟩
    · rename_i hold
      rw [not_and, not_not] at hold
      constructor
      · rintro (h | h)
        · exact .inl h
        · exact .inr ⟨.inr h.1, h.2⟩
      · rintro (h | ⟨rfl | h, hnot⟩)
        · exact .inl h
        · exact .inl (hold hnot)
        · exact .inr ⟨h, hnot⟩

/-- The second part goes through when no step depends on itself, and collects the unknown names. -/
theorem collectMissing_ok_iff (planIds : JsSet String) (steps : List DependsOnStep) :
    (∃ missing, collectMissing planIds steps = .ok missing) ↔
      ∀ step ∈ steps, step.planId ∉ step.deps := by
  unfold collectMissing
  generalize ([] : List String) = missing
  induction steps generalizing missing with
  | nil => exact ⟨fun _ _ h => absurd h List.not_mem_nil, fun _ => ⟨missing, rfl⟩⟩
  | cons step rest ih =>
    rw [List.foldlM_cons, List.forall_mem_cons]
    by_cases hself : step.planId ∈ step.deps
    · rw [if_pos hself]
      exact ⟨fun h => (by obtain ⟨_, h⟩ := h; cases h), fun h => absurd hself h.1⟩
    · rw [if_neg hself]
      exact (ih _).trans (and_iff_right hself).symm

theorem mem_collectMissing {planIds : JsSet String}
    {missing : List String} (h : collectMissing planIds steps = .ok missing) (d : String) :
    d ∈ missing ↔ (∃ step ∈ steps, d ∈ step.deps) ∧ d ∉ planIds.members := by
  have hfold : ∀ (steps : List DependsOnStep) (before missing : List String),
      steps.foldlM (fun missing step =>
        if step.planId ∈ step.deps then .error (.selfDependency step.planId)
        else .ok (step.deps.foldl (pushMissing planIds) missing)) before =
          (.ok missing : Except DependsOnError (List String)) →
        (d ∈ missing ↔ d ∈ before ∨ (∃ step ∈ steps, d ∈ step.deps) ∧ d ∉ planIds.members) := by
    intro steps
    induction steps with
    | nil =>
      intro before missing h
      cases h
      simp
    | cons step rest ih =>
      intro before missing h
      rw [List.foldlM_cons] at h
      split at h
      · cases h
      · rw [ih _ _ h, mem_foldl_pushMissing, List.exists_mem_cons_iff, or_assoc, ← or_and_right]
  rw [hfold steps [] missing h]
  simp

/-- The error of a fold is the error of one of its steps. -/
theorem error_of_foldlM {α β ε : Type} {f : β → α → Except ε β} {l : List α} {b : β} {e : ε}
    (h : l.foldlM f b = .error e) : ∃ b' a, f b' a = .error e := by
  induction l generalizing b with
  | nil => cases h
  | cons a rest ih =>
    rw [List.foldlM_cons] at h
    cases hstep : f b a with
    | error e' =>
      rw [hstep] at h
      cases h
      exact ⟨b, a, hstep⟩
    | ok b' =>
      rw [hstep] at h
      exact ih h

theorem collectPlanIds_error {path : List String} :
    collectPlanIds steps ≠ .error (.dependsOnCycle path) := by
  intro h
  obtain ⟨planIds, step, hstep⟩ := error_of_foldlM h
  split at hstep
  · cases hstep
  · cases hstep

theorem collectMissing_error {planIds : JsSet String}
    {path : List String} : collectMissing planIds steps ≠ .error (.dependsOnCycle path) := by
  intro h
  obtain ⟨missing, step, hstep⟩ := error_of_foldlM h
  split at hstep
  · cases hstep
  · cases hstep

/-- A step that is spawned alone may name known siblings, and not itself. -/
theorem validateDependsOn_ok_iff (input : ValidateDependsOnInput) :
    validateDependsOn input = .ok () ↔
      ∀ d ∈ input.dependsOn.getD [], d ≠ input.planId ∧ d ∈ input.knownPlanIds := by
  unfold validateDependsOn
  dsimp only
  generalize input.dependsOn.getD [] = deps
  by_cases hnil : deps.length = 0
  · rw [if_pos hnil, List.length_eq_zero_iff.mp hnil]
    simp
  · rw [if_neg hnil]
    by_cases hself : input.planId ∈ deps
    · rw [if_pos hself]
      exact iff_of_false (fun h => (by cases h)) fun h => (h _ hself).1 rfl
    · rw [if_neg hself]
      by_cases hmissing : 0 < (deps.filter (· ∉ (JsSet.ofList input.knownPlanIds).members)).length
      · rw [if_pos hmissing]
        obtain ⟨d, hd⟩ := List.length_pos_iff_exists_mem.mp hmissing
        rw [List.mem_filter, decide_eq_true_eq, JsSet.mem_ofList] at hd
        exact iff_of_false (fun h => (by cases h)) fun h => hd.2 (h d hd.1).2
      · rw [if_neg hmissing]
        refine iff_of_true rfl fun d hd => ⟨fun heq => hself (heq ▸ hd), ?_⟩
        by_contra hunknown
        rw [← JsSet.mem_ofList] at hunknown
        exact hmissing (List.length_pos_of_mem (List.mem_filter.mpr ⟨hd, by simpa using hunknown⟩))

/-! ## The graph -/

theorem buildGraph_eq (steps : List DependsOnStep) :
    buildGraph steps = (edges steps).foldl Kahn.addEdge (emptyGraph steps) := by
  unfold buildGraph edges
  generalize emptyGraph steps = graph
  induction steps generalizing graph with
  | nil => rfl
  | cons step rest ih =>
    rw [List.foldl_cons, ih, List.flatMap_cons, List.foldl_append, List.foldl_map]

/-- Every step starts with a counter at 0 and no successors. -/
theorem emptyGraph_spec (steps : List DependsOnStep) (hnodup : (steps.map (·.planId)).Nodup) :
    JsMap.keys (emptyGraph steps).1 = steps.map (·.planId) ∧
      (∀ b, Kahn.degreeOf (emptyGraph steps).1 b = 0) ∧
      ∀ a, (JsMap.get? (emptyGraph steps).2 a).getD [] = [] := by
  have hfold : ∀ (steps : List DependsOnStep)
      (graph : JsMap String Int × JsMap String (List String)),
      (JsMap.keys graph.1 ++ steps.map (·.planId)).Nodup →
      (∀ b, Kahn.degreeOf graph.1 b = 0) → (∀ a, (JsMap.get? graph.2 a).getD [] = []) →
      let built := steps.foldl (fun graph step =>
        (JsMap.set graph.1 step.planId 0, JsMap.set graph.2 step.planId [])) graph
      JsMap.keys built.1 = JsMap.keys graph.1 ++ steps.map (·.planId) ∧
        (∀ b, Kahn.degreeOf built.1 b = 0) ∧ ∀ a, (JsMap.get? built.2 a).getD [] = [] := by
    intro steps
    induction steps with
    | nil =>
      intro graph _ hdegree hadj
      exact ⟨(List.append_nil _).symm, hdegree, hadj⟩
    | cons step rest ih =>
      intro graph hnodup hdegree hadj
      have hnew : step.planId ∉ JsMap.keys graph.1 := by
        intro hin
        rw [List.map_cons, List.nodup_append] at hnodup
        exact hnodup.2.2 _ hin _ List.mem_cons_self rfl
      have hkeys : JsMap.keys (JsMap.set graph.1 step.planId 0) =
          JsMap.keys graph.1 ++ [step.planId] := by
        rw [JsMap.keys_set, if_neg hnew]
      have hrest := ih (JsMap.set graph.1 step.planId 0, JsMap.set graph.2 step.planId [])
        (by rw [hkeys, List.append_assoc]; exact hnodup) (fun b => ?_) (fun a => ?_)
      · rw [hkeys, List.append_assoc] at hrest
        exact hrest
      · rw [Kahn.degreeOf_set]
        split
        · rfl
        · exact hdegree b
      · rw [JsMap.get?_set]
        split
        · rfl
        · exact hadj a
  exact hfold steps ([], []) hnodup (fun _ => rfl) fun _ => rfl

/-- In a map without a key twice, the keys whose values pass are read one by one. -/
theorem keys_filter {m : JsMap String Int} (h : (JsMap.keys m).Nodup) (p : Int → Bool) :
    (m.filter fun entry => p entry.2).map (·.1) =
      (JsMap.keys m).filter fun k => p (Kahn.degreeOf m k) := by
  rw [JsMap.keys, List.filter_map]
  congr 1
  refine List.filter_congr fun entry hentry => ?_
  rw [Function.comp_apply, Kahn.degreeOf, JsMap.get?_of_mem h hentry]
  rfl

/-- With known dependencies, the third part reports the steps behind a cycle, if there are any. -/
theorem checkCycle_eq (hnodup : (steps.map (·.planId)).Nodup)
    (hknown : ∀ step ∈ steps, ∀ d ∈ step.deps, d ∈ steps.map (·.planId)) :
    (checkCycle steps = .ok () ↔ PlanAcyclic steps) ∧
      ∀ error, checkCycle steps = .error error → ∃ path, error = .dependsOnCycle path ∧
        path.Nodup ∧ ∀ id, id ∈ path ↔ BehindCycle steps id := by
  obtain ⟨hkeys₀, hdegree₀, hadj₀⟩ := emptyGraph_spec steps hnodup
  have hneeds := edge_succ steps
  have hsource : ∀ edge ∈ edges steps, edge.1 ∈ steps.map (·.planId) := by
    rintro ⟨a, b⟩ hedge
    obtain ⟨step, hstep, -, ha⟩ := mem_edges.mp hedge
    exact hknown step hstep a ha
  have htarget : ∀ edge ∈ edges steps, edge.2 ∈ steps.map (·.planId) := by
    rintro ⟨a, b⟩ hedge
    obtain ⟨step, hstep, hb, -⟩ := mem_edges.mp hedge
    exact List.mem_map.mpr ⟨step, hstep, hb⟩
  have hadj : (fun id => (JsMap.get? (buildGraph steps).2 id).getD []) = succ steps := by
    funext a
    rw [buildGraph_eq, Kahn.foldl_addEdge_adj, hadj₀, List.nil_append, succ]
  have hkeys : JsMap.keys (buildGraph steps).1 = steps.map (·.planId) := by
    rw [buildGraph_eq, Kahn.foldl_addEdge_keys _ _ fun edge hedge => hkeys₀ ▸ htarget edge hedge,
      hkeys₀]
  have hdegree : ∀ b ∈ steps.map (·.planId), Kahn.degreeOf (buildGraph steps).1 b =
      Kahn.waiting (succ steps) (steps.map (·.planId)) [] b := by
    intro b _
    have hwait : Kahn.waiting (succ steps) (steps.map (·.planId)) [] b =
        (edges steps).countP (·.2 = b) := Kahn.waiting_nil (fun a => rfl) hsource b
    rw [buildGraph_eq, Kahn.foldl_addEdge_degree, hdegree₀, zero_add, hwait]
  have hclosed : Kahn.Closed (succ steps) (steps.map (·.planId)) := by
    constructor
    · intro a b hab
      rw [hneeds, ← mem_edges] at hab
      exact hsource _ hab
    · intro a b hab
      rw [hneeds, ← mem_edges] at hab
      exact htarget _ hab
  have hfuel : (steps.map (·.planId)).length ≤ steps.length := by rw [List.length_map]
  have hspec := Kahn.loop_spec hclosed hnodup hkeys hdegree hfuel
  have hqueue : ((buildGraph steps).1.filter fun entry => entry.2 = 0).map (·.1) =
      (steps.map (·.planId)).filter fun b => Kahn.degreeOf (buildGraph steps).1 b = 0 := by
    rw [keys_filter (hkeys ▸ hnodup) (fun d => decide (d = 0)), hkeys]
  unfold checkCycle
  dsimp only
  rw [hadj, hqueue]
  dsimp only at hspec
  generalize Kahn.loop (succ steps) steps.length _ _ _ = result at hspec ⊢
  obtain ⟨hresult, hpos, hcount⟩ := hspec
  rw [List.length_map] at hcount
  have hstuck : ∀ b, Kahn.Stuck (succ steps) b ↔ BehindCycle steps b := by
    intro b
    rw [Kahn.Stuck, BehindCycle, hneeds]
  by_cases hlt : result.2 < steps.length
  · rw [if_pos hlt]
    refine ⟨⟨fun h => (by cases h), fun hacyclic => ?_⟩, ?_⟩
    · obtain ⟨b, hb⟩ := hcount.mp hlt
      obtain ⟨a, hcycle, -⟩ := (hstuck b).mp hb
      exact absurd hcycle (hacyclic a)
    · rintro error ⟨⟩
      have hpath := keys_filter (hresult ▸ hnodup) (m := result.1) (fun d => decide (0 < d))
      rw [hresult] at hpath
      refine ⟨_, rfl, hpath ▸ hnodup.filter _, fun id => ?_⟩
      rw [hpath, List.mem_filter, decide_eq_true_eq, ← hstuck]
      constructor
      · rintro ⟨hid, hdeg⟩
        exact (hpos id hid).mp hdeg
      · intro hid
        obtain ⟨a, hedge, -⟩ := hid.pred
        have hmem := hclosed.target a id hedge
        exact ⟨hmem, (hpos id hmem).mpr hid⟩
  · rw [if_neg hlt]
    refine ⟨⟨fun _ a hcycle => ?_, fun _ => rfl⟩, fun _ h => (by cases h)⟩
    exact hlt (hcount.mpr ⟨a, (hstuck a).mpr ⟨a, hcycle, .refl⟩⟩)

/-! ## The answer -/

/-- **Exact validation.** A plan passes exactly when its ids are distinct, no step depends on itself,
every dependency names a step and nothing depends on itself transitively; a cycle error names the
steps on a cycle or behind one, each once. -/
theorem validatePlanDependsOn_exact (steps : List DependsOnStep) :
    (validatePlanDependsOn steps = .ok () ↔
      (steps.map (·.planId)).Nodup ∧ (∀ step ∈ steps, step.planId ∉ step.deps) ∧
        (∀ step ∈ steps, ∀ d ∈ step.deps, d ∈ steps.map (·.planId)) ∧ PlanAcyclic steps) ∧
    ∀ path, validatePlanDependsOn steps = .error (.dependsOnCycle path) →
      path.Nodup ∧ ∀ id, id ∈ path ↔ BehindCycle steps id := by
  cases hids : collectPlanIds steps with
  | error e =>
    have hanswer : validatePlanDependsOn steps = .error e := by
      rw [validatePlanDependsOn, hids]
      rfl
    rw [hanswer]
    refine ⟨⟨fun h => (by cases h), fun h => ?_⟩, ?_⟩
    · have hok := (collectPlanIds_ok_iff steps ⟨_, h.1⟩).mpr ⟨h.1, rfl⟩
      rw [hids] at hok
      cases hok
    · rintro path ⟨⟩
      exact absurd hids collectPlanIds_error
  | ok planIds =>
    obtain ⟨hnodup, hmembers⟩ := (collectPlanIds_ok_iff steps planIds).mp hids
    cases hmissing : collectMissing planIds steps with
    | error e =>
      have hanswer : validatePlanDependsOn steps = .error e := by
        rw [validatePlanDependsOn, hids]
        show (collectMissing planIds steps >>= _) = _
        rw [hmissing]
        rfl
      rw [hanswer]
      refine ⟨⟨fun h => (by cases h), fun h => ?_⟩, ?_⟩
      · obtain ⟨missing, hok⟩ := (collectMissing_ok_iff planIds steps).mpr h.2.1
        rw [hmissing] at hok
        cases hok
      · rintro path ⟨⟩
        exact absurd hmissing collectMissing_error
    | ok missing =>
      have hself := (collectMissing_ok_iff planIds steps).mp ⟨missing, hmissing⟩
      have hmem := mem_collectMissing hmissing
      rw [hmembers] at hmem
      have hanswer : validatePlanDependsOn steps =
          if 0 < missing.length then .error (.unknownPlanId missing) else checkCycle steps := by
        rw [validatePlanDependsOn, hids]
        show (collectMissing planIds steps >>= _) = _
        rw [hmissing]
        rfl
      rw [hanswer]
      by_cases hlen : 0 < missing.length
      · rw [if_pos hlen]
        refine ⟨⟨fun h => (by cases h), fun h => ?_⟩, fun _ h => (by cases h)⟩
        -- something unknown is missing
        obtain ⟨d, hd⟩ := List.length_pos_iff_exists_mem.mp hlen
        obtain ⟨⟨step, hstep, hdep⟩, hunknown⟩ := (hmem d).mp hd
        exact absurd (h.2.2.1 step hstep d hdep) hunknown
      · rw [if_neg hlen]
        have hknown : ∀ step ∈ steps, ∀ d ∈ step.deps, d ∈ steps.map (·.planId) := by
          intro step hstep d hd
          by_contra hunknown
          have hin := (hmem d).mpr ⟨⟨step, hstep, hd⟩, hunknown⟩
          exact hlen (List.length_pos_of_mem hin)
        obtain ⟨hok, herror⟩ := checkCycle_eq hnodup hknown
        refine ⟨hok.trans ⟨fun h => ⟨hnodup, hself, hknown, h⟩, fun h => h.2.2.2⟩, ?_⟩
        intro path hpath
        obtain ⟨path', heq, hrest⟩ := herror _ hpath
        cases heq
        exact hrest

-- a step behind a cycle is reported too, however often it names its dependency
example : validatePlanDependsOn [⟨"a", some ["b"]⟩, ⟨"b", some ["a"]⟩, ⟨"c", some ["a", "a"]⟩,
    ⟨"d", none⟩] = .error (.dependsOnCycle ["a", "b", "c"]) := by decide +kernel

/-! ## Spawning one step at a time -/

structure SoundPlan (steps : List DependsOnStep) : Prop where
  distinct : (steps.map (·.planId)).Nodup
  known : ∀ step ∈ steps, ∀ d ∈ step.deps, d ∈ steps.map (·.planId)
  acyclic : PlanAcyclic steps

theorem SoundPlan.valid (h : SoundPlan steps) : validatePlanDependsOn steps = .ok () := by
  have hself : ∀ step ∈ steps, step.planId ∉ step.deps := fun step hstep hdep =>
    h.acyclic step.planId (.single ⟨step, hstep, rfl, hdep⟩)
  have hids := (collectPlanIds_ok_iff steps ⟨_, h.distinct⟩).mpr ⟨h.distinct, rfl⟩
  obtain ⟨missing, hmissing⟩ := (collectMissing_ok_iff ⟨_, h.distinct⟩ steps).mpr hself
  have hnone : ¬ 0 < missing.length := by
    intro hlen
    obtain ⟨d, hd⟩ := List.length_pos_iff_exists_mem.mp hlen
    obtain ⟨⟨step, hstep, hdep⟩, hunknown⟩ := (mem_collectMissing hmissing d).mp hd
    exact hunknown (h.known step hstep d hdep)
  rw [validatePlanDependsOn, hids]
  show (collectMissing _ steps >>= _) = _
  rw [hmissing]
  show (if 0 < missing.length then _ else checkCycle steps) = _
  rw [if_neg hnone]
  exact (checkCycle_eq h.distinct h.known).1.mpr h.acyclic

/-- A step whose dependencies are there closes no cycle: nothing depends on it yet. -/
theorem SoundPlan.concat (h : SoundPlan steps) {step : DependsOnStep}
    (hfresh : step.planId ∉ steps.map (·.planId))
    (hdeps : ∀ d ∈ step.deps, d ∈ steps.map (·.planId)) : SoundPlan (steps ++ [step]) := by
  have hleaf : ∀ b, ¬ Needs (steps ++ [step]) step.planId b := by
    rintro b ⟨other, hother, -, hdep⟩
    rcases List.mem_append.mp hother with hmem | hmem
    · exact hfresh (h.known other hmem _ hdep)
    · rw [List.mem_singleton.mp hmem] at hdep
      exact hfresh (hdeps _ hdep)
  have hold : ∀ a b, Needs (steps ++ [step]) a b → b = step.planId ∨ Needs steps a b := by
    rintro a b ⟨other, hother, rfl, hdep⟩
    rcases List.mem_append.mp hother with hmem | hmem
    · exact .inr ⟨other, hmem, rfl, hdep⟩
    · exact .inl (by rw [List.mem_singleton.mp hmem])
  have hpath : ∀ a b, TransGen (Needs (steps ++ [step])) a b →
      b = step.planId ∨ TransGen (Needs steps) a b := by
    intro a b hab
    induction hab with
    | single hab => exact (hold a _ hab).imp_right .single
    | tail _ hbc ih =>
      rcases ih with rfl | hab
      · exact absurd hbc (hleaf _)
      · exact (hold _ _ hbc).imp_right hab.tail
  refine ⟨?_, ?_, fun a hcycle => ?_⟩
  · rw [List.map_append, List.map_singleton]
    exact List.nodup_append.mpr ⟨h.distinct, List.nodup_singleton _, fun a ha b hb heq =>
      hfresh (List.mem_singleton.mp hb ▸ heq ▸ ha)⟩
  · intro other hother d hd
    rw [List.map_append]
    rcases List.mem_append.mp hother with hmem | hmem
    · exact List.mem_append_left _ (h.known other hmem d hd)
    · exact List.mem_append_left _ (hdeps d (List.mem_singleton.mp hmem ▸ hd))
  · rcases hpath a a hcycle with rfl | hcycle
    · obtain ⟨b, hab, -⟩ := TransGen.head'_iff.mp hcycle
      exact hleaf b hab
    · exact h.acyclic a hcycle

/-- Nothing depends on a child that leaves the store. -/
def Unneeded (siblings : List DependsOnStep) : ChildEvent → Prop
  | .spawn _ => True
  | .delete planId => ∀ step ∈ siblings, planId ∉ step.deps

/-- A spawn that is not refused leaves a sound plan, and none is refused for a cycle. -/
theorem spawnChild_sound (h : SoundPlan steps) (step : DependsOnStep) :
    (∃ steps', spawnChild steps step = .ok steps' ∧ SoundPlan steps') ∨
      ∃ e, spawnChild steps step = .error e ∧ ∀ path, e ≠ .dependsOnCycle path := by
  rw [spawnChild]
  split
  · exact .inl ⟨steps, rfl, h⟩
  · rename_i hfresh
    split
    · rename_i hdeps
      refine .inl ⟨_, rfl, h.concat hfresh fun d hd => ?_⟩
      rw [DependsOnStep.deps, hdeps] at hd
      exact absurd hd List.not_mem_nil
    · rename_i deps hdeps
      cases hok : validateDependsOn ⟨step.planId, some deps, steps.map (·.planId)⟩ with
      | error e =>
        refine .inr ⟨e, rfl, ?_⟩
        rintro path rfl
        rw [validateDependsOn] at hok
        grind
      | ok _ =>
        have hsound : SoundPlan (steps ++ [step]) := by
          refine h.concat hfresh fun d hd => ((validateDependsOn_ok_iff _).mp hok d ?_).2
          rwa [DependsOnStep.deps, hdeps] at hd
        -- the second check passes whatever the first one lets through
        refine .inl ⟨_, ?_, hsound⟩
        rw [hsound.valid]
        rfl

/-- The children form a valid plan, and no spawn is refused for a cycle. -/
structure SpawnsSafely (siblings : List DependsOnStep) : Prop where
  valid : validatePlanDependsOn siblings = .ok ()
  noCycle : ∀ step path, spawnChild siblings step ≠ .error (.dependsOnCycle path)

theorem soundPlan_step (siblings : List DependsOnStep) (event : ChildEvent)
    (h : SoundPlan siblings) (hunneeded : Unneeded siblings event) :
    SoundPlan (childStep siblings event) := by
  cases event with
  | spawn step =>
    rw [childStep]
    rcases spawnChild_sound h step with ⟨steps', heq, hsound⟩ | ⟨e, heq, -⟩
    · rw [heq]
      exact hsound
    · rw [heq]
      exact h
  | delete planId =>
    have hsub : (siblings.filter (·.planId ≠ planId)).Sublist siblings := List.filter_sublist
    refine ⟨h.distinct.sublist (hsub.map _), fun step hstep d hd => ?_, fun a hcycle => ?_⟩
    · have hmem := hsub.subset hstep
      obtain ⟨other, hother, rfl⟩ := List.mem_map.mp (h.known step hmem d hd)
      refine List.mem_map_of_mem (List.mem_filter.mpr ⟨hother, decide_eq_true fun heq => ?_⟩)
      exact hunneeded step hmem (heq ▸ hd)
    · refine h.acyclic a (TransGen.mono (fun b c hneeds => ?_) a a hcycle)
      obtain ⟨step, hstep, hid, hdep⟩ := hneeds
      exact ⟨step, hsub.subset hstep, hid, hdep⟩

/-- **Spawning one by one.** While nothing depends on a child that leaves, the children's steps pass
    the validation of whole plans, and no spawn is ever refused for a cycle. -/
theorem spawns_stay_valid (events : List ChildEvent) (h : Along childStep Unneeded [] events) :
    Always childStep SpawnsSafely [] events := by
  have hempty : SoundPlan [] := by
    refine ⟨List.nodup_nil, nofun, fun a hcycle => ?_⟩
    obtain ⟨b, ⟨step, hstep, -⟩, -⟩ := TransGen.head'_iff.mp hcycle
    cases hstep
  refine (always_of_along soundPlan_step hempty h).mono fun siblings hsound =>
    ⟨hsound.valid, fun step path hcycle => ?_⟩
  rcases spawnChild_sound hsound step with ⟨steps', heq, -⟩ | ⟨e, heq, hne⟩
  · rw [heq] at hcycle
    cases hcycle
  · rw [heq] at hcycle
    exact hne path (Except.error.inj hcycle)

/-- `b` is spawned before `a`, which it does not know. -/
theorem spawns_stay_valid_refused :
    Always childStep SpawnsSafely [] [.spawn ⟨"b", some ["a"]⟩, .spawn ⟨"a", none⟩,
      .spawn ⟨"b", some ["a"]⟩, .delete "b"] :=
  have hleaf : ∀ step ∈ [⟨"a", none⟩, ⟨"b", some ["a"]⟩], "b" ∉ DependsOnStep.deps step := by decide
  spawns_stay_valid _ ⟨trivial, trivial, trivial, hleaf, trivial⟩

end Bobbit.Server.DependsOn
