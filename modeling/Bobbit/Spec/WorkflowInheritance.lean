import Bobbit.Server.WorkflowStore

/-!
# The workflow a child goal inherits

`stripSubgoalStepsForChildInheritance` takes the gates strictly between `execution` and
`ready-to-merge` out of a parent meta-workflow. The two searches it runs are exact
(`mem_downstreamOfExec`, `mem_upstreamOfRtm`), so the removed gates are exactly those between
the two, and the dependencies it leaves are those between surviving gates, with one from
`ready-to-merge` to `execution`.

## Key results

- `mem_aggregationGateIds`: the removed gates are those strictly between
- `dependsOn_stripped`: the dependencies that are left
- `inherited_workflow`: the result is closed and acyclic, and keeps every order that does not
  run through a removed gate
-/

namespace Bobbit.Server.WorkflowStore

open Bobbit.Lib Relation

variable {ν : Type}

/-! ## Statements -/

/-- A gate depends on another directly. -/
def DependsOn (gates : List (WorkflowGate ν JsString)) (a b : JsString) : Prop :=
  ∃ g ∈ gates, g.id = a ∧ b ∈ g.dependsOn

/-- A gate depends on another, directly or through others. -/
def Requires (gates : List (WorkflowGate ν JsString)) : JsString → JsString → Prop :=
  TransGen (DependsOn gates)

/-- The gate lies strictly between `execution` and `ready-to-merge`. -/
def Between (gates : List (WorkflowGate ν JsString)) (id : JsString) : Prop :=
  Requires gates id execution ∧ Requires gates readyToMerge id

/-- A dependency between two gates that are not between `execution` and `ready-to-merge`. -/
def Surviving (gates : List (WorkflowGate ν JsString)) (a b : JsString) : Prop :=
  DependsOn gates a b ∧ ¬ Between gates a ∧ ¬ Between gates b

/-- A workflow graph without duplicates, loose ends or cycles. -/
structure WellFormed (gates : List (WorkflowGate ν JsString)) : Prop where
  unique : (gates.map WorkflowGate.id).Nodup
  closed : ∀ a b, DependsOn gates a b → b ∈ gates.map WorkflowGate.id
  acyclic : ∀ a, ¬ Requires gates a a

/-! ## Changing one gate -/

variable {gates : List (WorkflowGate ν JsString)}

theorem updateGate_eq_map (h : (gates.map WorkflowGate.id).Nodup) (id : JsString)
    (f : WorkflowGate ν JsString → WorkflowGate ν JsString) :
    updateGate id f gates = gates.map fun g => if g.id = id then f g else g := by
  induction gates with
  | nil => rfl
  | cons g rest ih =>
    rw [List.map_cons, List.nodup_cons] at h
    obtain ⟨hnot, hrest⟩ := h
    rw [List.map_cons, updateGate]
    by_cases hid : g.id = id
    · -- no later gate has this id
      have hsame : (rest.map fun g => if g.id = id then f g else g) = rest := by
        conv_rhs => rw [← List.map_id rest]
        apply List.map_congr_left
        intro other hother
        have hne : other.id ≠ id := by
          intro heq
          exact hnot (hid ▸ heq ▸ List.mem_map_of_mem hother)
        rw [if_neg hne, id_eq]
      rw [hsame, if_pos hid, if_pos (beq_iff_eq.mpr hid)]
    · rw [if_neg hid, if_neg (by simpa using hid), ih hrest]

theorem dependsOn_map
    {f : WorkflowGate ν JsString → WorkflowGate ν JsString} (hid : ∀ g, (f g).id = g.id)
    (a b : JsString) :
    DependsOn (gates.map f) a b ↔ ∃ g ∈ gates, g.id = a ∧ b ∈ (f g).dependsOn := by
  unfold DependsOn
  constructor
  · intro h
    obtain ⟨g', hg', ha, hb⟩ := h
    obtain ⟨g, hg, rfl⟩ := List.mem_map.mp hg'
    exact ⟨g, hg, (hid g) ▸ ha, hb⟩
  · intro h
    obtain ⟨g, hg, ha, hb⟩ := h
    exact ⟨f g, List.mem_map_of_mem hg, (hid g).trans ha, hb⟩

/-- Taking the subgoal steps out of `execution` changes no id and no dependency. -/
theorem updateGate_withoutSubgoalSteps (h : (gates.map WorkflowGate.id).Nodup) :
    (updateGate execution withoutSubgoalSteps gates).map WorkflowGate.id =
        gates.map WorkflowGate.id ∧
      DependsOn (updateGate execution withoutSubgoalSteps gates) = DependsOn gates := by
  have hsame : ∀ g : WorkflowGate ν JsString,
      (if g.id = execution then withoutSubgoalSteps g else g).id = g.id ∧
        (if g.id = execution then withoutSubgoalSteps g else g).dependsOn = g.dependsOn := by
    intro g
    split <;> exact ⟨rfl, rfl⟩
  rw [updateGate_eq_map h]
  constructor
  · rw [List.map_map]
    apply List.map_congr_left
    intro g _
    exact (hsame g).1
  · funext a b
    rw [dependsOn_map (fun g => (hsame g).1)]
    simp only [(hsame _).2, DependsOn]

/-! ## The two searches -/

variable {a b : JsString}

theorem mem_dependents : b ∈ dependents gates a ↔ DependsOn gates b a := by
  simp only [dependents, List.mem_map, List.mem_filter, decide_eq_true_eq, DependsOn]
  constructor
  · intro h
    obtain ⟨g, ⟨hg, ha⟩, hb⟩ := h
    exact ⟨g, hg, hb, ha⟩
  · intro h
    obtain ⟨g, hg, hb, ha⟩ := h
    exact ⟨g, ⟨hg, ha⟩, hb⟩

theorem mem_dependencies (h : (gates.map WorkflowGate.id).Nodup) :
    b ∈ dependencies gates a ↔ DependsOn gates a b := by
  unfold dependencies
  split
  · rename_i g hfind
    have hg : g ∈ gates := List.mem_reverse.mp (List.mem_of_find?_eq_some hfind)
    have hid : g.id = a := by simpa using List.find?_some hfind
    constructor
    · intro hb
      exact ⟨g, hg, hid, hb⟩
    · intro hdep
      obtain ⟨g', hg', hid', hb⟩ := hdep
      have : g' = g := List.inj_on_of_nodup_map h hg' hg (hid'.trans hid.symm)
      exact this ▸ hb
  · rename_i hfind
    constructor
    · intro hb
      simp at hb
    · intro hdep
      obtain ⟨g', hg', hid', -⟩ := hdep
      have hnot := List.find?_eq_none.mp hfind g' (List.mem_reverse.mpr hg')
      exact absurd (beq_iff_eq.mpr hid') hnot

theorem transGen_reverse {α : Type} {r s : α → α → Prop} (h : ∀ a b, r a b ↔ s b a) {a b : α} :
    TransGen r a b ↔ TransGen s b a := by
  have hswap : r = Function.swap s := by
    funext x y
    exact propext (h x y)
  rw [hswap]
  exact Relation.transGen_swap

theorem transGen_iff_successors {α : Type} {r : α → α → Prop} {a b : α} :
    TransGen r a b ↔ ∃ c, r a c ∧ ReflTransGen r c b :=
  TransGen.head'_iff

/-- `downstreamOfExec` holds what requires `execution`. -/
theorem mem_downstreamOfExec {id : JsString} :
    id ∈ (downstreamOfExec gates).members ↔ Requires gates id execution := by
  have hnodes : ∀ a, ∀ b ∈ dependents gates a, b ∈ gates.map WorkflowGate.id := by
    intro a b hb
    obtain ⟨g, hg, hid, -⟩ := mem_dependents.mp hb
    exact hid ▸ List.mem_map_of_mem hg
  have hedge : ∀ a b, Dfs.Edge (dependents gates) a b ↔ DependsOn gates b a := fun a b =>
    mem_dependents
  unfold downstreamOfExec
  rw [Bfs.mem_loop_iff hnodes _ (by simp only [searchFuel, List.length_map]; omega)]
  rw [Requires, ← transGen_reverse hedge, transGen_iff_successors]
  exact Iff.rfl

/-- `upstreamOfRtm` holds what `ready-to-merge` requires. -/
theorem mem_upstreamOfRtm
    (h : (gates.map WorkflowGate.id).Nodup) {rtm : WorkflowGate ν JsString} (hrtm : rtm ∈ gates)
    (hid : rtm.id = readyToMerge) {id : JsString} :
    id ∈ (upstreamOfRtm gates rtm).members ↔ Requires gates readyToMerge id := by
  have hnodes : ∀ a, ∀ b ∈ dependencies gates a, b ∈ gates.flatMap WorkflowGate.dependsOn := by
    intro a b hb
    obtain ⟨g, hg, -, hdep⟩ := (mem_dependencies h).mp hb
    exact List.mem_flatMap.mpr ⟨g, hg, hdep⟩
  have hedge : Dfs.Edge (dependencies gates) = DependsOn gates := by
    funext a b
    exact propext (mem_dependencies h)
  have hroots : ∀ b, b ∈ rtm.dependsOn ↔ DependsOn gates readyToMerge b := by
    intro b
    constructor
    · intro hb
      exact ⟨rtm, hrtm, hid, hb⟩
    · intro hdep
      obtain ⟨g, hg, hgid, hb⟩ := hdep
      have : g = rtm := List.inj_on_of_nodup_map h hg hrtm (hgid.trans hid.symm)
      exact this ▸ hb
  unfold upstreamOfRtm
  rw [Bfs.mem_loop_iff hnodes _ (by simp only [searchFuel]; omega), hedge, Requires,
    transGen_iff_successors]
  simp only [hroots]

/-- **The removed gates** are those strictly between `execution` and `ready-to-merge`. -/
theorem mem_aggregationGateIds (h : WellFormed gates)
    {id : JsString} : id ∈ aggregationGateIds gates ↔ Between gates id := by
  unfold aggregationGateIds
  split
  · -- without a `ready-to-merge` gate nothing is between
    rename_i hfind
    constructor
    · intro hmem
      simp at hmem
    · intro hbetween
      obtain ⟨b, ⟨g, hg, hgid, -⟩, -⟩ := transGen_iff_successors.mp hbetween.2
      exact absurd (beq_iff_eq.mpr hgid) (List.find?_eq_none.mp hfind g hg)
  · rename_i rtm hfind
    have hrtm : rtm ∈ gates := List.mem_of_find?_eq_some hfind
    have hid : rtm.id = readyToMerge := by simpa using List.find?_some hfind
    simp only [List.mem_filter, mem_downstreamOfExec, Bool.and_eq_true, decide_eq_true_eq,
      mem_upstreamOfRtm h.unique hrtm hid]
    constructor
    · intro hmem
      exact ⟨hmem.1, hmem.2.2⟩
    · intro hbetween
      refine ⟨hbetween.1, ⟨?_, ?_⟩, hbetween.2⟩
      · intro heq
        exact h.acyclic _ (heq ▸ hbetween.1)
      · intro heq
        exact h.acyclic _ (heq ▸ hbetween.2)

/-! ## What is left -/

/-- The gates of the child's workflow when some are removed. -/
def withoutGates (removed : List JsString) (gates : List (WorkflowGate ν JsString)) :
    List (WorkflowGate ν JsString) :=
  (updateGate readyToMerge (rewire removed) (gates.filter fun g => g.id ∉ removed)).map
    (prune removed)

theorem withoutGates_eq_map (h : (gates.map WorkflowGate.id).Nodup) (removed : List JsString) :
    withoutGates removed gates = (gates.filter fun g => g.id ∉ removed).map fun g =>
      prune removed (if g.id = readyToMerge then rewire removed g else g) := by
  have hleft : ((gates.filter fun g => g.id ∉ removed).map WorkflowGate.id).Nodup :=
    h.sublist (List.filter_sublist.map _)
  rw [withoutGates, updateGate_eq_map hleft, List.map_map]
  rfl

theorem mem_newDependsOn {removed : List JsString} (hexec : execution ∉ removed)
    (g : WorkflowGate ν JsString) (b : JsString) :
    b ∈ (prune removed (if g.id = readyToMerge then rewire removed g else g)).dependsOn ↔
      (b ∈ g.dependsOn ∧ b ∉ removed) ∨ (g.id = readyToMerge ∧ b = execution) := by
  by_cases hid : g.id = readyToMerge
  · simp only [hid, if_true, prune, rewire, List.mem_filter, decide_eq_true_eq, true_and]
    constructor
    · intro hb
      obtain ⟨hb, hnot⟩ := hb
      split at hb
      · simp only [List.mem_filter, decide_eq_true_eq] at hb
        exact .inl hb
      · simp only [List.mem_append, List.mem_filter, decide_eq_true_eq, List.mem_singleton] at hb
        exact hb
    · intro hb
      cases hb with
      | inl hb =>
        refine ⟨?_, hb.2⟩
        split
        · simpa using hb
        · exact List.mem_append_left _ (by simpa using hb)
      | inr hb =>
        subst hb
        refine ⟨?_, hexec⟩
        split
        · rename_i hkept
          simpa using hkept
        · exact List.mem_append_right _ (List.mem_singleton.mpr rfl)
  · simp [hid, prune]

/-- **The dependencies that are left**: those between gates that stay, and the one from
    `ready-to-merge` to `execution`. -/
theorem dependsOn_withoutGates (h : (gates.map WorkflowGate.id).Nodup) {removed : List JsString}
    (hexec : execution ∉ removed) (hrtm : readyToMerge ∉ removed)
    (hmem : readyToMerge ∈ gates.map WorkflowGate.id) (a b : JsString) :
    DependsOn (withoutGates removed gates) a b ↔
      (DependsOn gates a b ∧ a ∉ removed ∧ b ∉ removed) ∨ (a = readyToMerge ∧ b = execution) := by
  have hid : ∀ g : WorkflowGate ν JsString,
      (prune removed (if g.id = readyToMerge then rewire removed g else g)).id = g.id := by
    intro g
    split <;> rfl
  rw [withoutGates_eq_map h, dependsOn_map hid]
  simp only [mem_newDependsOn hexec, List.mem_filter, decide_eq_true_eq]
  constructor
  · intro hdep
    obtain ⟨g, ⟨hg, hstay⟩, rfl, hb⟩ := hdep
    exact hb.imp (fun hb => ⟨⟨g, hg, rfl, hb.1⟩, hstay, hb.2⟩) id
  · intro hdep
    cases hdep with
    | inl hdep =>
      obtain ⟨⟨g, hg, rfl, hb⟩, hstay, hb'⟩ := hdep
      exact ⟨g, ⟨hg, hstay⟩, rfl, .inl ⟨hb, hb'⟩⟩
    | inr hdep =>
      obtain ⟨rfl, rfl⟩ := hdep
      obtain ⟨g, hg, hgid⟩ := List.mem_map.mp hmem
      exact ⟨g, ⟨hg, hgid ▸ hrtm⟩, hgid, .inr ⟨hgid, rfl⟩⟩

theorem ids_withoutGates (h : (gates.map WorkflowGate.id).Nodup) (removed : List JsString) :
    (withoutGates removed gates).map WorkflowGate.id =
      (gates.map WorkflowGate.id).filter (· ∉ removed) := by
  rw [withoutGates_eq_map h, List.map_map, List.filter_map]
  apply List.map_congr_left
  intro g _
  simp only [Function.comp_apply]
  split <;> rfl

/-- What a child inherits: the ids that stay and the dependencies between them. -/
structure Inherited (gates out : List (WorkflowGate ν JsString)) : Prop where
  ids_eq : ∀ id, id ∈ out.map WorkflowGate.id ↔
    id ∈ gates.map WorkflowGate.id ∧ ¬ Between gates id
  unique : (out.map WorkflowGate.id).Nodup
  dependsOn_iff : ∀ a b, DependsOn out a b ↔
    Surviving gates a b ∨ (a = readyToMerge ∧ b = execution ∧ ∃ c, Between gates c)

/-- A parent meta-workflow loses exactly the gates between `execution` and `ready-to-merge`. -/
theorem dependsOn_stripped {wf : Workflow ν JsString} (h : WellFormed wf.gates)
    (hmeta : isParentMetaWorkflow wf = true) :
    Inherited wf.gates (stripSubgoalStepsForChildInheritance wf).gates := by
  unfold stripSubgoalStepsForChildInheritance
  rw [hmeta]
  simp only [Bool.not_true, Bool.false_eq_true, if_false]
  -- without anything between, the graph stays
  have hsame : ∀ out : List (WorkflowGate ν JsString),
      out.map WorkflowGate.id = wf.gates.map WorkflowGate.id → DependsOn out = DependsOn wf.gates →
      (∀ c, ¬ Between wf.gates c) → Inherited wf.gates out := by
    intro out hids hdep hnone
    refine ⟨?_, hids ▸ h.unique, ?_⟩
    · intro id
      rw [hids]
      exact ⟨fun hid => ⟨hid, hnone id⟩, fun hid => hid.1⟩
    · intro a b
      rw [hdep]
      constructor
      · intro hab
        exact .inl ⟨hab, hnone a, hnone b⟩
      · intro hab
        cases hab with
        | inl hab => exact hab.1
        | inr hab =>
          obtain ⟨-, -, c, hc⟩ := hab
          exact absurd hc (hnone c)
  split
  · -- no `execution` gate: by closedness nothing requires it
    rename_i hexec
    apply hsame _ rfl rfl
    intro c hc
    obtain ⟨b, -, hdep⟩ := TransGen.tail'_iff.mp hc.1
    obtain ⟨g, hg, hgid⟩ := List.mem_map.mp (h.closed b execution hdep)
    rw [Option.isNone_iff_eq_none] at hexec
    exact List.find?_eq_none.mp hexec g hg (beq_iff_eq.mpr hgid)
  · obtain ⟨hids, hdep⟩ := updateGate_withoutSubgoalSteps h.unique
    have hreq : Requires (updateGate execution withoutSubgoalSteps wf.gates) =
        Requires wf.gates := by
      unfold Requires
      rw [hdep]
    have hbetween : ∀ id, Between (updateGate execution withoutSubgoalSteps wf.gates) id ↔
        Between wf.gates id := by
      intro id
      unfold Between
      rw [hreq]
    have hwf : WellFormed (updateGate execution withoutSubgoalSteps wf.gates) := by
      refine ⟨hids ▸ h.unique, ?_, ?_⟩
      · intro a b hab
        rw [hids]
        exact h.closed a b (hdep ▸ hab)
      · intro a hcycle
        exact h.acyclic a (hreq ▸ hcycle)
    have hremoved : ∀ id,
        id ∈ aggregationGateIds (updateGate execution withoutSubgoalSteps wf.gates) ↔
          Between wf.gates id := fun id => (mem_aggregationGateIds hwf).trans (hbetween id)
    split
    · rename_i hempty
      rw [List.isEmpty_iff] at hempty
      apply hsame _ hids hdep
      intro c hc
      have := (hremoved c).mpr hc
      rw [hempty] at this
      simp at this
    · rename_i hne
      have hsome : ∃ c, Between wf.gates c := by
        obtain ⟨c, hc⟩ := List.exists_mem_of_ne_nil _ fun hnil => hne (List.isEmpty_iff.mpr hnil)
        exact ⟨c, (hremoved c).mp hc⟩
      have hrtm : readyToMerge ∈ wf.gates.map WorkflowGate.id := by
        obtain ⟨c, hc⟩ := hsome
        obtain ⟨b, ⟨g, hg, hgid, -⟩, -⟩ := transGen_iff_successors.mp hc.2
        exact hgid ▸ List.mem_map_of_mem hg
      have hexec' : ¬ Between wf.gates execution := fun hb => h.acyclic _ hb.1
      have hrtm' : ¬ Between wf.gates readyToMerge := fun hb => h.acyclic _ hb.2
      show Inherited wf.gates (withoutGates _ _)
      refine ⟨?_, ?_, ?_⟩
      · intro id
        rw [ids_withoutGates hwf.unique, List.mem_filter, hids, decide_eq_true_eq, hremoved]
      · rw [ids_withoutGates hwf.unique]
        exact hwf.unique.filter _
      · intro a b
        rw [dependsOn_withoutGates hwf.unique (fun hb => hexec' ((hremoved _).mp hb))
          (fun hb => hrtm' ((hremoved _).mp hb)) (hids ▸ hrtm), hdep, hremoved, hremoved]
        constructor
        · intro hab
          exact hab.imp id fun hab => ⟨hab.1, hab.2, hsome⟩
        · intro hab
          exact hab.imp id fun hab => ⟨hab.1, hab.2.1⟩

/-! ## The order that is kept -/

/-- No order is made up: what a surviving gate requires, it required before. -/
theorem Inherited.requires {out : List (WorkflowGate ν JsString)} (h : Inherited gates out)
    (hab : Requires out a b) : Requires gates a b := by
  have hstep : ∀ {a b : JsString}, DependsOn out a b → Requires gates a b := by
    intro a b hdep
    cases (h.dependsOn_iff a b).mp hdep with
    | inl hold => exact .single hold.1
    | inr hnew =>
      obtain ⟨rfl, rfl, c, hc⟩ := hnew
      exact hc.2.trans hc.1
  induction hab with
  | single hdep => exact hstep hdep
  | tail _ hdep ih => exact ih.trans (hstep hdep)

/-- An order that runs through surviving gates only is kept. -/
theorem Inherited.surviving {out : List (WorkflowGate ν JsString)} (h : Inherited gates out)
    (hab : TransGen (Surviving gates) a b) : Requires out a b :=
  TransGen.mono (fun a b hdep => (h.dependsOn_iff a b).mpr (.inl hdep)) _ _ hab

/-- What `execution` requires survives with all its dependencies. -/
theorem surviving_of_execution (h : WellFormed gates)
    (hb : Requires gates execution b) : TransGen (Surviving gates) execution b := by
  have hnot : ∀ {c}, Requires gates execution c → ¬ Between gates c := fun hc hbetween =>
    h.acyclic _ (hc.trans hbetween.1)
  have hexec : ¬ Between gates execution := fun hbetween => h.acyclic _ hbetween.1
  induction hb with
  | single hdep => exact .single ⟨hdep, hexec, hnot (.single hdep)⟩
  | tail hpath hdep ih => exact ih.tail ⟨hdep, hnot hpath, hnot (.tail hpath hdep)⟩

/-- **The inherited workflow.** A workflow that is no parent meta-workflow is inherited as it is.
    Of a parent meta-workflow that is closed and acyclic with unique ids the child inherits one
    that is so too: the gates not strictly between `execution` and `ready-to-merge`, no order that
    was not there, every order that runs through surviving gates only, and for `ready-to-merge`
    `execution` and all that it requires. -/
theorem inherited_workflow (wf : Workflow ν JsString) (h : WellFormed wf.gates) :
    (isParentMetaWorkflow wf = false → stripSubgoalStepsForChildInheritance wf = wf) ∧
    (isParentMetaWorkflow wf = true →
      let out := (stripSubgoalStepsForChildInheritance wf).gates
      WellFormed out ∧
      (∀ id, id ∈ out.map WorkflowGate.id ↔
        id ∈ wf.gates.map WorkflowGate.id ∧ ¬ Between wf.gates id) ∧
      (∀ a b, Requires out a b → Requires wf.gates a b) ∧
      (∀ a b, TransGen (Surviving wf.gates) a b → Requires out a b) ∧
      ((∃ c, Between wf.gates c) → Requires out readyToMerge execution ∧
        ∀ b, Requires wf.gates execution b → Requires out readyToMerge b)) := by
  constructor
  · intro hmeta
    simp [stripSubgoalStepsForChildInheritance, hmeta]
  · intro hmeta out
    have hin : Inherited wf.gates out := dependsOn_stripped h hmeta
    refine ⟨⟨hin.unique, ?_, ?_⟩, hin.ids_eq, fun a b => hin.requires, fun a b => hin.surviving, ?_⟩
    · intro a b hab
      cases (hin.dependsOn_iff a b).mp hab with
      | inl hold => exact (hin.ids_eq b).mpr ⟨h.closed a b hold.1, hold.2.2⟩
      | inr hnew =>
        obtain ⟨-, rfl, c, hc⟩ := hnew
        obtain ⟨d, -, hdep⟩ := TransGen.tail'_iff.mp hc.1
        exact (hin.ids_eq _).mpr ⟨h.closed d _ hdep, fun hbetween => h.acyclic _ hbetween.1⟩
    · intro a hcycle
      exact h.acyclic a (hin.requires hcycle)
    · intro hsome
      have hdirect : DependsOn out readyToMerge execution :=
        (hin.dependsOn_iff _ _).mpr (.inr ⟨rfl, rfl, hsome⟩)
      refine ⟨.single hdirect, fun b hb => ?_⟩
      exact .head hdirect (hin.surviving (surviving_of_execution h hb))

/-! ## Orders through a removed gate -/

/-- Gates listed after what they depend on make no cycle. -/
theorem acyclic_of_rank (rank : JsString → Nat)
    (h : ∀ g ∈ gates, ∀ b ∈ g.dependsOn, rank b < rank g.id) (a : JsString) :
    ¬ Requires gates a a := by
  have hless : ∀ {a b : JsString}, Requires gates a b → rank b < rank a := by
    intro a b hab
    induction hab with
    | single hdep =>
      obtain ⟨g, hg, rfl, hb⟩ := hdep
      exact h g hg _ hb
    | tail _ hdep ih =>
      obtain ⟨g, hg, rfl, hb⟩ := hdep
      exact Nat.lt_trans (h g hg _ hb) ih
  intro hcycle
  exact Nat.lt_irrefl _ (hless hcycle)

/-- A set of gates closed under dependencies is not left. -/
theorem not_requires_of_closed (ids : List JsString)
    (h : ∀ g ∈ gates, g.id ∈ ids → ∀ b ∈ g.dependsOn, b ∈ ids) (ha : a ∈ ids)
    (hb : b ∉ ids) : ¬ Requires gates a b := by
  intro hab
  apply hb
  induction hab with
  | single hdep =>
    obtain ⟨g, hg, rfl, hmem⟩ := hdep
    exact h g hg ha _ hmem
  | tail _ hdep ih =>
    obtain ⟨g, hg, rfl, hmem⟩ := hdep
    exact h g hg (ih (fun hmid => hb (h g hg hmid _ hmem))) _ hmem

/-- A gate of the example: an id, its dependencies and its steps. -/
def exampleGate (id : String) (dependsOn : List String) (steps : List StepType) :
    WorkflowGate Nat JsString :=
  ⟨js id, js id, dependsOn.map js, false, false, false, false, none, some (steps.map fun type =>
    ⟨[], type, none, none, none, none, none, false, none, none, none, none, none, none, none,
      none⟩)⟩

/-- A parent whose synthesis gate also asks for the documents, and a gate beside it. -/
def exampleParent : Workflow Nat JsString :=
  ⟨js "parent", js "Parent", [],
    [exampleGate "execution" [] [.subgoal, .command], exampleGate "documents" [] [],
      exampleGate "synthesis" ["execution", "documents"] [],
      exampleGate "archive" ["synthesis"] [], exampleGate "ready-to-merge" ["synthesis"] []],
    0, 0, false⟩

theorem exampleParent_wellFormed : WellFormed exampleParent.gates := by
  have hclosed : ∀ g ∈ exampleParent.gates, ∀ b ∈ g.dependsOn,
      b ∈ exampleParent.gates.map WorkflowGate.id := by decide +kernel
  refine ⟨by decide +kernel, ?_, ?_⟩
  · intro a b hab
    obtain ⟨g, hg, -, hb⟩ := hab
    exact hclosed g hg b hb
  · exact acyclic_of_rank (fun id => (exampleParent.gates.map WorkflowGate.id).idxOf id)
      (by decide +kernel)

theorem inherited_workflow_parent :
    WellFormed (stripSubgoalStepsForChildInheritance exampleParent).gates :=
  ((inherited_workflow exampleParent exampleParent_wellFormed).2 (by decide +kernel)).1

/-- Orders that ran through the removed gate are lost: `ready-to-merge` no longer requires the
    documents, nor the gate beside it `execution`. -/
theorem inherited_order_lost :
    let out := (stripSubgoalStepsForChildInheritance exampleParent).gates
    WellFormed exampleParent.gates ∧ isParentMetaWorkflow exampleParent = true ∧
    out.map WorkflowGate.id =
      [js "execution", js "documents", js "archive", js "ready-to-merge"] ∧
    Requires exampleParent.gates (js "ready-to-merge") (js "documents") ∧
    ¬ Requires out (js "ready-to-merge") (js "documents") ∧
    Requires exampleParent.gates (js "archive") (js "execution") ∧
    ¬ Requires out (js "archive") (js "execution") := by
  have hedge : ∀ {a b : JsString}, b ∈ dependencies exampleParent.gates a →
      DependsOn exampleParent.gates a b := fun hb =>
    (mem_dependencies exampleParent_wellFormed.unique).mp hb
  refine ⟨exampleParent_wellFormed, by decide +kernel, by decide +kernel, ?_, ?_, ?_, ?_⟩
  · exact .head (b := js "synthesis") (hedge (by decide +kernel))
      (.single (hedge (by decide +kernel)))
  · exact not_requires_of_closed (a := js "ready-to-merge") [js "ready-to-merge", js "execution"]
      (by decide +kernel) (by decide +kernel) (by decide +kernel)
  · exact .head (b := js "synthesis") (hedge (by decide +kernel))
      (.single (hedge (by decide +kernel)))
  · exact not_requires_of_closed (a := js "archive") [js "archive"]
      (by decide +kernel) (by decide +kernel) (by decide +kernel)

end Bobbit.Server.WorkflowStore
