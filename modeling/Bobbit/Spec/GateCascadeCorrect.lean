import Bobbit.Lib.Bfs
import Bobbit.Spec.GateResetCorrect

/-!
# What a reset reaches

`getDependentGateIds` walks the reverse `dependsOn` relation breadth first. Its loop is
`Bfs.loop` with the visited nodes listed in the order of the queue, so it lists each gate
that can be reached once. A reset treats all of them, `cascadeReset` all but the gate
itself.

## Key results

- `visitDependents_fuel`: the loop ends by itself
- `mem_getDependentGateIds`: the gates that are listed are the ones that can be reached
- `reset_reaches_dependents`: what each kind of reset does to every gate of the store
- `cascade_spares_gate`: `cascadeReset` leaves the gate itself alone
-/

namespace Bobbit.Server

open Lib Relation Dfs

/-- The second gate names the first one among its dependencies. -/
def DependsOn (workflow : List WorkflowGate) (gateId dependentId : String) : Prop :=
  ∃ gate ∈ workflow, gate.id = dependentId ∧ gateId ∈ gate.dependsOn

variable (workflow : List WorkflowGate)

theorem edge_adjacency : Edge (adjacency workflow) = DependsOn workflow := by
  funext a b
  simp only [Edge, adjacency, DependsOn, List.mem_flatMap, List.mem_map, List.mem_filter,
    decide_eq_true_eq, eq_iff_iff]
  constructor
  · rintro ⟨gate, hgate, dep, ⟨hdep, rfl⟩, rfl⟩
    exact ⟨gate, hgate, rfl, hdep⟩
  · rintro ⟨gate, hgate, rfl, hdep⟩
    exact ⟨gate, hgate, a, ⟨hdep, rfl⟩, rfl⟩

/-! ## The loop -/

/-- The gates that are queued in one turn are those that `discover` queues. -/
theorem discover_fresh (visited queue : List String) (seen : JsSet String)
    (hseen : seen.members = visited) (next : List String) :
    (Bfs.discover queue seen next).1 =
        queue ++ (JsSet.ofList (next.filter (· ∉ visited))).members ∧
      (Bfs.discover queue seen next).2.members =
        visited ++ (JsSet.ofList (next.filter (· ∉ visited))).members := by
  have hfold : ∀ (next : List String) (fresh seen : JsSet String),
      seen.members = visited ++ fresh.members →
      (Bfs.discover (queue ++ fresh.members) seen next).1 =
          queue ++ (fresh.addAll (next.filter (· ∉ visited))).members ∧
        (Bfs.discover (queue ++ fresh.members) seen next).2.members =
          visited ++ (fresh.addAll (next.filter (· ∉ visited))).members := by
    intro next
    induction next with
    | nil =>
      intro fresh seen hseen
      exact ⟨rfl, hseen⟩
    | cons node rest ih =>
      intro fresh seen hseen
      simp only [Bfs.discover, List.foldl_cons, hseen, List.mem_append]
      by_cases hold : node ∈ visited
      · simpa [hold, Bfs.discover] using ih fresh seen hseen
      · by_cases hfresh : node ∈ fresh.members
        · have hadd : fresh.add node = fresh := by rw [JsSet.add, dif_pos hfresh]
          have := ih fresh seen hseen
          simpa [hold, hfresh, Bfs.discover, JsSet.addAll, hadd] using this
        · have hadd : (fresh.add node).members = fresh.members ++ [node] := by
            rw [JsSet.add, dif_neg hfresh]
          have hnot : node ∉ seen.members := by simp [hseen, hold, hfresh]
          have hseen' : (seen.add node).members = visited ++ (fresh.add node).members := by
            rw [hadd, ← List.append_assoc, ← hseen, JsSet.add, dif_neg hnot]
          have := ih (fresh.add node) (seen.add node) hseen'
          rw [hadd, ← List.append_assoc] at this
          simpa [hold, hfresh, Bfs.discover, JsSet.addAll] using this
  have := hfold next .empty seen (by simp [hseen, JsSet.empty])
  simpa [JsSet.empty, JsSet.ofList] using this

theorem adjacency_known (a b : String)
    (h : b ∈ adjacency workflow a) : b ∈ workflow.map (·.id) := by
  have hedge : Edge (adjacency workflow) a b := h
  rw [edge_adjacency] at hedge
  obtain ⟨gate, hgate, rfl, -⟩ := hedge
  exact List.mem_map_of_mem hgate

section Loop

variable {workflow : List WorkflowGate} {queue : List String} {seen : JsSet String}

/-- The turns that are left: one for each queued gate, and for each that can still be queued. -/
def turnsLeft (workflow : List WorkflowGate) (queue : List String) (seen : JsSet String) : Nat :=
  queue.length + unvisited (workflow.map (·.id)) seen

theorem turnsLeft_turn (workflow : List WorkflowGate) (queue : List String) (seen : JsSet String)
    (current : String) :
    turnsLeft workflow (Bfs.discover queue seen (adjacency workflow current)).1
      (Bfs.discover queue seen (adjacency workflow current)).2 + 1 ≤
      turnsLeft workflow (current :: queue) seen := by
  have hlen := (Bfs.discover_spec (workflow.map (·.id)) queue seen (adjacency workflow current)
    (adjacency_known workflow current)).2.2.2.2
  unfold turnsLeft
  rw [List.length_cons]
  omega

theorem visitDependents_turn (fuel : Nat) (current : String) :
    visitDependents workflow (fuel + 1) seen.members (current :: queue) =
      current :: visitDependents workflow fuel
        (Bfs.discover queue seen (adjacency workflow current)).2.members
        (Bfs.discover queue seen (adjacency workflow current)).1 := by
  obtain ⟨hqueue, hmembers⟩ :=
    discover_fresh seen.members queue seen rfl (adjacency workflow current)
  rw [hqueue, hmembers, visitDependents]

/-- The loop ends by itself: more fuel changes nothing. -/
theorem visitDependents_fuel (fuel more : Nat) (hfuel : turnsLeft workflow queue seen ≤ fuel) :
    visitDependents workflow (fuel + more) seen.members queue =
      visitDependents workflow fuel seen.members queue := by
  induction fuel generalizing queue seen with
  | zero =>
    have hnil : queue = [] := List.length_eq_zero_iff.mp (by unfold turnsLeft at hfuel; omega)
    subst hnil
    cases more with
    | zero => rfl
    | succ more => rfl
  | succ fuel ih =>
    cases queue with
    | nil =>
      rw [Nat.add_right_comm]
      rfl
    | cons current queue =>
      have hturn := turnsLeft_turn workflow queue seen current
      rw [Nat.add_right_comm, visitDependents_turn, visitDependents_turn, ih (by omega)]

/-- What the loop lists: the queue, and what `Bfs.loop` comes to see. -/
theorem mem_visitDependents_iff (fuel : Nat) (hfuel : turnsLeft workflow queue seen ≤ fuel)
    (hseen : queue ⊆ seen.members) (x : String) :
    x ∈ visitDependents workflow fuel seen.members queue ↔
      x ∈ queue ∨ (x ∈ (Bfs.loop (adjacency workflow) fuel queue seen).members ∧
        x ∉ seen.members) := by
  induction fuel generalizing queue seen with
  | zero =>
    have hnil : queue = [] := List.length_eq_zero_iff.mp (by unfold turnsLeft at hfuel; omega)
    subst hnil
    simp [visitDependents, Bfs.loop]
  | succ fuel ih =>
    cases queue with
    | nil => simp [visitDependents, Bfs.loop]
    | cons current queue =>
      have hturn := turnsLeft_turn workflow queue seen current
      obtain ⟨hqueue, hmembers⟩ :=
        discover_fresh seen.members queue seen rfl (adjacency workflow current)
      have hsub : (Bfs.discover queue seen (adjacency workflow current)).1 ⊆
          (Bfs.discover queue seen (adjacency workflow current)).2.members := by
        rw [hqueue, hmembers]
        exact List.append_subset.mpr
          ⟨fun y hy => List.mem_append_left _ (hseen (List.mem_cons_of_mem _ hy)),
            fun y hy => List.mem_append_right _ hy⟩
      have hgrows : (Bfs.discover queue seen (adjacency workflow current)).2.members ⊆
          (Bfs.loop (adjacency workflow) fuel
            (Bfs.discover queue seen (adjacency workflow current)).1
            (Bfs.discover queue seen (adjacency workflow current)).2).members :=
        Bfs.subset_loop fuel _ _
      have hnew : ∀ y ∈ (JsSet.ofList
          ((adjacency workflow current).filter (· ∉ seen.members))).members, y ∉ seen.members := by
        intro y hy
        simpa using (List.mem_filter.mp (JsSet.mem_ofList.mp hy)).2
      rw [visitDependents_turn, List.mem_cons, ih (by omega) hsub, List.mem_cons, or_assoc,
        Bfs.loop]
      rw [hmembers] at hgrows
      rw [hqueue] at hgrows
      rw [hqueue, hmembers, List.mem_append, List.mem_append]
      refine or_congr_right ?_
      constructor
      · rintro ((hold | hfresh) | ⟨hloop, hnot⟩)
        · exact .inl hold
        · exact .inr ⟨hgrows (List.mem_append_right _ hfresh), hnew x hfresh⟩
        · exact .inr ⟨hloop, fun hin => hnot (.inl hin)⟩
      · rintro (hold | ⟨hloop, hnot⟩)
        · exact .inl (.inl hold)
        · by_cases hfresh : x ∈ (JsSet.ofList
              ((adjacency workflow current).filter (· ∉ seen.members))).members
          · exact .inl (.inr hfresh)
          · exact .inr ⟨hloop, fun hin => hin.elim hnot hfresh⟩

end Loop

theorem turnsLeft_start (gateId : String) :
    turnsLeft workflow [gateId] (.ofList [gateId]) ≤ workflow.length + 1 := by
  have hle : unvisited (workflow.map (·.id)) (.ofList [gateId]) ≤ _ := List.countP_le_length
  rw [List.length_map] at hle
  unfold turnsLeft
  rw [List.length_singleton]
  omega

/-- The dependents that are listed are the gates that can be reached, each once; the gate itself is
among them when it is asked for. -/
theorem mem_getDependentGateIds {gateId : String} {workflow : List WorkflowGate} {all : Bool}
    {ids : List String} (h : getDependentGateIds gateId workflow all = some ids) (x : String) :
    x ∈ ids ↔ ReflTransGen (DependsOn workflow) gateId x ∧ (all = true ∨ x ≠ gateId) := by
  have hfuel := turnsLeft_start workflow gateId
  have hreach : x ∈ visitDependents workflow (workflow.length + 1) [gateId] [gateId] ↔
      ReflTransGen (DependsOn workflow) gateId x := by
    have hvisit := mem_visitDependents_iff (workflow.length + 1) hfuel (List.Subset.refl _) x
    have hlength : [gateId].length + (workflow.map (·.id)).length ≤ workflow.length + 1 := by
      rw [List.length_singleton, List.length_map, Nat.add_comm]
    have hloop := Bfs.mem_loop_iff (adjacency_known workflow) [gateId] hlength x
    have hroot : x = gateId → x ∈ (Bfs.loop (adjacency workflow) (workflow.length + 1) [gateId]
        (.ofList [gateId])).members := fun heq =>
      Bfs.subset_loop _ _ _ (JsSet.mem_ofList.mpr (List.mem_singleton.mpr heq))
    simp only [List.mem_singleton, exists_eq_left, edge_adjacency] at hloop
    have hmembers : (JsSet.ofList [gateId]).members = [gateId] := rfl
    rw [hmembers] at hvisit
    rw [hvisit, ← hloop, List.mem_singleton]
    constructor
    · rintro (heq | hin)
      · exact hroot heq
      · exact hin.1
    · intro hin
      by_cases heq : x = gateId
      · exact .inl heq
      · exact .inr ⟨hin, heq⟩
  unfold getDependentGateIds at h
  split at h
  · cases h
  · obtain rfl := Option.some.inj h
    cases all with
    | true => simpa using hreach
    | false => simpa [and_comm] using and_congr_left fun _ => hreach

theorem getDependentGateIds_isSome {gateId : String} {workflow : List WorkflowGate}
    (hknown : gateId ∈ workflow.map (·.id)) (all : Bool) :
    ∃ ids, getDependentGateIds gateId workflow all = some ids := by
  unfold getDependentGateIds
  have hany : ¬ (workflow.all (·.id ≠ gateId)) = true := by
    intro hall
    obtain ⟨gate, hgate, heq⟩ := List.mem_map.mp hknown
    exact of_decide_eq_true (List.all_eq_true.mp hall gate hgate) heq
  rw [if_neg hany]
  exact ⟨_, rfl⟩

namespace GateState

/-- What `cascadeReset` leaves of a dependent. -/
def afterCascade (gate : GateState) (now : Nat) : GateState :=
  ((gate.nextStatusCommit .pending now).map (·.1)).getD gate

theorem status_nextStatusCommit (gate : GateState) (status : GateStatus) (now : Nat) :
    (((gate.nextStatusCommit status now).map (·.1)).getD gate).status = status := by
  unfold nextStatusCommit
  split
  · assumption
  · rfl

theorem status_afterReset (gate : GateState) (now : Nat) : (gate.afterReset now).status = .pending :=
  status_nextStatusCommit _ _ _

theorem status_afterCascade (gate : GateState) (now : Nat) :
    (gate.afterCascade now).status = .pending :=
  status_nextStatusCommit _ _ _

end GateState

namespace GateStore

/-! ## The gates after a reset -/

theorem gates_save (s : GateStore) (keys : List String) : (s.save keys).gates = s.gates := by
  unfold save gates SqlitePersistence.schedule
  dsimp only
  split
  · rfl
  · rfl

theorem gates_publishStatusCommitsDetached (s : GateStore) (keys : List String)
    (commits : List GateStatusCommit) :
    (s.publishStatusCommitsDetached keys commits).gates = s.gates := by
  unfold publishStatusCommitsDetached
  split
  · exact gates_save s keys
  · dsimp only
    split
    · rfl
    · rfl

/-- The gates right after a reset of any of the three kinds. -/
theorem get?_resetInternal (s : GateStore) (goalId gateId : String) (workflow : List WorkflowGate)
    (strict persist : Bool) (now : Nat) (key : String) :
    (s.resetGateAndDependentsInternal goalId gateId workflow strict persist now).gates.get? key =
      if key ∈ (affectedGates gateId workflow).map (compositeKey goalId) then
        (s.gates.get? key).map (·.afterReset now)
      else s.gates.get? key := by
  have hnodup := affectedGates_nodup gateId workflow
  unfold resetGateAndDependentsInternal affectedGates at *
  cases hids : getDependentGateIds gateId workflow true with
  | none => rfl
  | some ids =>
    rw [hids, Option.getD_some] at hnodup
    rw [Option.getD_some, ← ResetPass.get?_foldl hnodup ⟨s.gates, [], [], []⟩ key]
    dsimp only
    generalize ids.foldl (ResetPass.visit goalId now) ⟨s.gates, [], [], []⟩ = pass
    -- what follows the loop publishes, and leaves the gates alone
    split
    · rfl
    · split
      · rfl
      · split
        · rw [gates, SqlitePersistence.publishStrict_rows]
          rfl
        · split
          · show JsMap.get? (publishStatusCommitsDetached _ _ _).gates key = _
            rw [gates_publishStatusCommitsDetached]
            rfl
          · show JsMap.get? (save _ _).gates key = _
            rw [gates_save]
            rfl

/-- A loop that treats one gate in a turn treats each gate of a list without repetitions once. -/
theorem get?_foldl_once {σ : Type} (gatesOf : σ → JsMap String GateState) {turn : σ → String → σ}
    {goalId : String} {f : GateState → GateState}
    (hturn : ∀ a gateId key, (gatesOf (turn a gateId)).get? key =
      if key = compositeKey goalId gateId then ((gatesOf a).get? key).map f
      else (gatesOf a).get? key)
    {ids : List String} (hnodup : ids.Nodup) (a : σ) (key : String) :
    (gatesOf (ids.foldl turn a)).get? key =
      if key ∈ ids.map (compositeKey goalId) then ((gatesOf a).get? key).map f
      else (gatesOf a).get? key := by
  induction ids generalizing a with
  | nil => rfl
  | cons gateId rest ih =>
    rw [List.nodup_cons] at hnodup
    rw [List.foldl_cons, ih hnodup.2, hturn]
    by_cases hkey : key = compositeKey goalId gateId
    · have hnot : key ∉ rest.map (compositeKey goalId) := by
        intro hmem
        obtain ⟨other, hother, hcomposite⟩ := List.mem_map.mp hmem
        exact hnodup.1 (compositeKey_injective goalId (hcomposite.trans hkey) ▸ hother)
      rw [if_neg hnot, if_pos hkey, if_pos (by simp [hkey])]
    · simp [hkey]

theorem get?_cascadeReset (s : GateStore) (goalId gateId : String) (workflow : List WorkflowGate)
    (now : Nat) (key : String) :
    (s.cascadeReset goalId gateId workflow now).gates.get? key =
      if key ∈ ((getDependentGateIds gateId workflow false).getD []).map (compositeKey goalId) then
        (s.gates.get? key).map (·.afterCascade now)
      else s.gates.get? key := by
  unfold cascadeReset
  cases hids : getDependentGateIds gateId workflow false with
  | none => rfl
  | some ids =>
    have hnodup := getDependentGateIds_nodup hids
    rw [Option.getD_some]
    dsimp only
    generalize hfold : ids.foldl _ (s, [], []) = result
    have hresult : JsMap.get? result.1.gates key =
        if key ∈ ids.map (compositeKey goalId) then (s.gates.get? key).map (·.afterCascade now)
        else s.gates.get? key := by
      rw [← hfold]
      refine get?_foldl_once (fun a : GateStore × List String × List GateStatusCommit => a.1.gates)
        (fun a depId key => ?_) hnodup (s, [], []) key
      split
      · -- there is no such gate, or it is pending already
        rename_i hnone
        split
        · rename_i hkey
          subst hkey
          cases hgate : JsMap.get? a.1.gates (compositeKey goalId depId) with
          | none => rfl
          | some gate =>
            rw [hgate, Option.bind_some] at hnone
            rw [Option.map_some, GateState.afterCascade, hnone]
            rfl
        · rfl
      · rename_i gate commit hsome
        obtain ⟨before, hbefore, hnext⟩ := Option.bind_eq_some_iff.mp hsome
        show JsMap.get? (JsMap.set a.1.gates (compositeKey goalId depId) gate) key = _
        rw [JsMap.get?_set]
        split
        · rename_i hkey
          subst hkey
          rw [hbefore, Option.map_some, GateState.afterCascade, hnext]
          rfl
        · rfl
    split
    · exact hresult
    · rw [gates_publishStatusCommitsDetached]
      exact hresult

/-! ## The result -/

/-- What becomes of the gates of a store: those for which `Reached` holds are changed by `f`, each
once, and every other one stays as it is. -/
structure ReachesExactly (s s' : GateStore) (goalId : String) (Reached : String → Prop)
    (f : GateState → GateState) : Prop where
  reached : ∀ gateId, Reached gateId →
    s'.gates.get? (compositeKey goalId gateId) =
      (s.gates.get? (compositeKey goalId gateId)).map f
  others : ∀ key, (∀ gateId, Reached gateId → key ≠ compositeKey goalId gateId) →
    s'.gates.get? key = s.gates.get? key

theorem reachesExactly_of_ids {s s' : GateStore} {goalId : String} {ids : List String}
    {Reached : String → Prop} {f : GateState → GateState} (hids : ∀ x, x ∈ ids ↔ Reached x)
    (h : ∀ key, s'.gates.get? key =
      if key ∈ ids.map (compositeKey goalId) then (s.gates.get? key).map f else s.gates.get? key) :
    ReachesExactly s s' goalId Reached f where
  reached gateId hreached := by
    rw [h, if_pos (List.mem_map_of_mem ((hids gateId).mpr hreached))]
  others key hnot := by
    rw [h, if_neg]
    intro hmem
    obtain ⟨gateId, hgate, heq⟩ := List.mem_map.mp hmem
    exact hnot gateId ((hids gateId).mp hgate) heq.symm

/-- **Reach of a reset.** For a gate of the workflow the walk ends by itself and lists each gate that
depends on it, at whatever distance, once. A reset of any kind puts these, the gate among them, back
to pending; a cascade all but the gate itself; and neither changes another gate. -/
theorem reset_reaches_dependents (s : GateStore) (goalId gateId : String)
    (workflow : List WorkflowGate) (now : Nat) (hknown : gateId ∈ workflow.map (·.id)) :
    (∀ more, visitDependents workflow (workflow.length + 1 + more) [gateId] [gateId] =
      visitDependents workflow (workflow.length + 1) [gateId] [gateId]) ∧
    (∃ ids, getDependentGateIds gateId workflow true = some ids ∧ ids.Nodup ∧
      ∀ x, x ∈ ids ↔ ReflTransGen (DependsOn workflow) gateId x) ∧
    (∀ strict persist,
      ReachesExactly s (s.resetGateAndDependentsInternal goalId gateId workflow strict persist now)
        goalId (ReflTransGen (DependsOn workflow) gateId) (·.afterReset now)) ∧
    ReachesExactly s (s.cascadeReset goalId gateId workflow now) goalId
      (fun x => ReflTransGen (DependsOn workflow) gateId x ∧ x ≠ gateId) (·.afterCascade now) ∧
    ∀ gate : GateState,
      (gate.afterReset now).status = .pending ∧ (gate.afterCascade now).status = .pending := by
  obtain ⟨ids, hids⟩ := getDependentGateIds_isSome hknown true
  obtain ⟨below, hbelow⟩ := getDependentGateIds_isSome hknown false
  have hmem : ∀ x, x ∈ ids ↔ ReflTransGen (DependsOn workflow) gateId x := fun x => by
    simpa using mem_getDependentGateIds hids x
  refine ⟨fun more => ?_, ⟨ids, hids, getDependentGateIds_nodup hids, hmem⟩, ?_, ?_,
    fun gate => ⟨gate.status_afterReset now, gate.status_afterCascade now⟩⟩
  · exact visitDependents_fuel (workflow.length + 1) more (turnsLeft_start workflow gateId)
  · intro strict persist
    refine reachesExactly_of_ids hmem fun key => ?_
    rw [get?_resetInternal, affectedGates, hids, Option.getD_some]
  · have hmemb : ∀ x, x ∈ below ↔ ReflTransGen (DependsOn workflow) gateId x ∧ x ≠ gateId :=
      fun x => by simpa using mem_getDependentGateIds hbelow x
    refine reachesExactly_of_ids hmemb fun key => ?_
    rw [get?_cascadeReset, hbelow, Option.getD_some]

/-- Two gates of one goal that have passed. -/
def passedPair : GateStore :=
  loaded [("g::a", { GateState.new "g" "a" 0 with status := .passed }),
    ("g::b", { GateState.new "g" "b" 0 with status := .passed })]

def pairWorkflow : List WorkflowGate := [⟨"a", []⟩, ⟨"b", ["a"]⟩]

theorem reset_reaches_pair :
    "a" ∈ pairWorkflow.map (·.id) ∧
      ReachesExactly passedPair (passedPair.cascadeReset "g" "a" pairWorkflow 1) "g"
        (fun x => ReflTransGen (DependsOn pairWorkflow) "a" x ∧ x ≠ "a") (·.afterCascade 1) :=
  ⟨by decide, (reset_reaches_dependents passedPair "g" "a" pairWorkflow 1 (by decide)).2.2.2.1⟩

/-- A cascade from `a` resets `b` and leaves `a` passed. -/
theorem cascade_spares_gate :
    ReflTransGen (DependsOn pairWorkflow) "a" "a" ∧
      (passedPair.gates.get? "g::a").map (·.status) = some .passed ∧
      ((passedPair.cascadeReset "g" "a" pairWorkflow 1).gates.get? "g::a").map (·.status) =
        some .passed ∧
      ((passedPair.cascadeReset "g" "a" pairWorkflow 1).gates.get? "g::b").map (·.status) =
        some .pending :=
  ⟨.refl, by decide +kernel, by decide +kernel, by decide +kernel⟩

end GateStore

end Bobbit.Server
