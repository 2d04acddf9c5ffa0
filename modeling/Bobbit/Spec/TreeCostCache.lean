import Bobbit.Lib.Keyed
import Bobbit.Lib.Run
import Bobbit.Spec.TreeShape

/-!
# The cache of tree costs

A tracker, a growing list of goals and the cached breakdowns, along any run of usage records, session
removals, backfills, changes of goals and queries. A cached breakdown is what an empty cache gave at
some earlier moment. From then until it is read the tracker stands still and the members keep their
shapes, so only two things can be out of date: the titles, which the signature leaves out, and the
depths, when the depth of the requested goal has changed.

## Key results

* `cache_history` — every cached breakdown was right at an earlier moment of the run.
* `untitled_freshTreeCost` — what two moments with one signature have in common.
* `tree_cost_cached` — what a query returns.
-/

namespace Bobbit.Server

open Lib

variable {ν : Type} [CostNumber ν]

/-! ## Runs -/

structure TreeCostSystem (ν : Type) where
  tracker : CostTracker ν
  goals : List TreeCostGoal
  cache : TreeCostCache ν

/-- `goals.set(goal.id, goal)`: a goal is created, renamed, moved or archived. -/
def putGoal (goals : List TreeCostGoal) (goal : TreeCostGoal) : List TreeCostGoal :=
  Keyed.put TreeCostGoal.id goals goal

inductive TreeCostEvent (ν : Type) where
  | recordUsage (sessionId : String) (usage : UsageData ν) (goalId : Option String) (now : Nat)
  | removeSession (sessionId : String)
  | backfillGoalIds (resolver : String → Option String)
  | putGoal (goal : TreeCostGoal)
  | computeTreeCost (rootGoalId : String) (sessionIdsForGoal : Option (String → List String))

namespace TreeCostSystem

def step (s : TreeCostSystem ν) : TreeCostEvent ν → TreeCostSystem ν
  | .recordUsage sessionId usage goalId now =>
    { s with tracker := s.tracker.recordUsage sessionId usage goalId now }
  | .removeSession sessionId => { s with tracker := s.tracker.removeSession sessionId }
  | .backfillGoalIds resolver => { s with tracker := s.tracker.backfillGoalIds resolver }
  | .putGoal goal => { s with goals := Server.putGoal s.goals goal }
  | .computeTreeCost rootGoalId sessionIdsForGoal =>
    { s with
      cache := (Server.computeTreeCost rootGoalId s.goals s.tracker s.cache sessionIdsForGoal).2 }

/-- A tracker without goals and with an empty cache. -/
def start (tracker : CostTracker ν) : TreeCostSystem ν where
  tracker := tracker
  goals := []
  cache := []

/-- What `computeTreeCost` without a resolver returns. -/
def treeCost (s : TreeCostSystem ν) (rootGoalId : String) : TreeCostBreakdown ν :=
  (computeTreeCost rootGoalId s.goals s.tracker s.cache none).1

/-- What it returns with an empty cache. -/
def uncachedTreeCost (s : TreeCostSystem ν) (rootGoalId : String) : TreeCostBreakdown ν :=
  (computeTreeCost rootGoalId s.goals s.tracker [] none).1

end TreeCostSystem

/-! ## The goals -/

/-- Goals come at the end, once each. -/
structure GrowsFrom (ids : List String) (goals : List TreeCostGoal) : Prop where
  nodup : (goals.map TreeCostGoal.id).Nodup
  grown : ids.Sublist (goals.map TreeCostGoal.id)

theorem GrowsFrom.putGoal {ids : List String} {goals : List TreeCostGoal} (h : GrowsFrom ids goals)
    (goal : TreeCostGoal) : GrowsFrom ids (putGoal goals goal) :=
  ⟨Keyed.nodup_put h.nodup goal, h.grown.trans (Keyed.sublist_put goals goal)⟩

theorem GrowsFrom.step {ids : List String} (s : TreeCostSystem ν) (event : TreeCostEvent ν)
    (h : GrowsFrom ids s.goals) : GrowsFrom ids (s.step event).goals := by
  cases event with
  | putGoal goal => exact h.putGoal goal
  | recordUsage sessionId usage goalId now => exact h
  | removeSession sessionId => exact h
  | backfillGoalIds resolver => exact h
  | computeTreeCost rootGoalId sessionIdsForGoal => exact h

theorem growsFrom_run {ids : List String} {s : TreeCostSystem ν} (h : GrowsFrom ids s.goals)
    (events : List (TreeCostEvent ν)) : GrowsFrom ids (run TreeCostSystem.step s events).goals :=
  inv_run (I := fun s : TreeCostSystem ν => GrowsFrom ids s.goals) GrowsFrom.step h events

theorem nodup_run (tracker : CostTracker ν) (events : List (TreeCostEvent ν)) :
    ((run TreeCostSystem.step (.start tracker) events).goals.map TreeCostGoal.id).Nodup := by
  have hstart : GrowsFrom [] (TreeCostSystem.start tracker).goals :=
    ⟨List.nodup_nil, List.Sublist.refl _⟩
  exact (growsFrom_run hstart events).nodup

/-- The ids of an earlier moment stand in the list of a later one, in their order. -/
theorem growsFrom_take (tracker : CostTracker ν) (events : List (TreeCostEvent ν)) (i : Nat) :
    GrowsFrom ((run TreeCostSystem.step (.start tracker) (events.take i)).goals.map TreeCostGoal.id)
      (run TreeCostSystem.step (.start tracker) events).goals := by
  have hthen := nodup_run tracker (events.take i)
  have hrun := growsFrom_run ⟨hthen, List.Sublist.refl _⟩ (events.drop i)
  rwa [← run_append, List.take_append_drop] at hrun

/-! ## The tracker -/

/-- A step that changes the records takes the generation up. -/
theorem moves_tracker (s : TreeCostSystem ν) (event : TreeCostEvent ν) :
    Moves (fun s : TreeCostSystem ν => (s.tracker.generation : Int)) TreeCostSystem.tracker s
      (s.step event) := by
  cases event with
  | recordUsage sessionId usage goalId now =>
    left
    show (s.tracker.generation : Int) < (s.tracker.generation + 1 : Nat)
    omega
  | removeSession sessionId =>
    show Moves _ _ s { s with tracker := s.tracker.removeSession sessionId }
    unfold CostTracker.removeSession
    split
    · left
      show (s.tracker.generation : Int) < (s.tracker.generation + 1 : Nat)
      omega
    · exact .refl s
  | backfillGoalIds resolver =>
    show Moves _ _ s { s with tracker := s.tracker.backfillGoalIds resolver }
    unfold CostTracker.backfillGoalIds
    dsimp only
    split
    · left
      show (s.tracker.generation : Int) < (s.tracker.generation + 1 : Nat)
      omega
    · exact .refl s
  | putGoal goal => exact .inr ⟨rfl, rfl⟩
  | computeTreeCost rootGoalId sessionIdsForGoal => exact .inr ⟨rfl, rfl⟩

/-- Two moments with one generation have the same records. -/
theorem tracker_eq {s : TreeCostSystem ν} {events : List (TreeCostEvent ν)} {i j : Nat}
    (h : (run TreeCostSystem.step s (events.take i)).tracker.generation =
      (run TreeCostSystem.step s (events.take j)).tracker.generation) :
    (run TreeCostSystem.step s (events.take i)).tracker =
      (run TreeCostSystem.step s (events.take j)).tracker :=
  view_eq_of_clock_eq (fun s : TreeCostSystem ν => (s.tracker.generation : Int))
    TreeCostSystem.tracker (fun s event _ => moves_tracker s event)
    (@along_of_forall _ _ _ (fun _ _ => True) (fun _ _ => trivial) s events)
    (congrArg Nat.cast h)

/-! ## The cache -/

/-- The entry of a root is what an empty cache gave at a moment. -/
structure CachedAt (s : TreeCostSystem ν) (rootGoalId : String) (entry : TreeCostCacheEntry ν) :
    Prop where
  generation : entry.generation = s.tracker.generation
  treeSignature : entry.treeSignature = computeTreeSignature rootGoalId s.goals
  result : entry.result = freshTreeCost rootGoalId s.goals s.tracker none

theorem get?_computeTreeCost {s : TreeCostSystem ν} {rootGoalId : String}
    {sessionIdsForGoal : Option (String → List String)} {id : String}
    {entry : TreeCostCacheEntry ν}
    (h : JsMap.get? (computeTreeCost rootGoalId s.goals s.tracker s.cache sessionIdsForGoal).2 id =
      some entry) : JsMap.get? s.cache id = some entry ∨ CachedAt s id entry := by
  unfold computeTreeCost at h
  dsimp only at h
  split at h
  · exact .inl h
  · cases sessionIdsForGoal with
    | some resolver => exact .inl h
    | none =>
      rw [if_neg (by simp), JsMap.get?_set] at h
      split at h
      · rename_i hid
        rw [Option.some.injEq] at h
        subst hid h
        exact .inr ⟨rfl, rfl, rfl⟩
      · exact .inl h

/-- Every cached breakdown was right at an earlier moment of the run. -/
theorem cache_history (tracker : CostTracker ν) (events : List (TreeCostEvent ν)) :
    ∀ id entry, JsMap.get? (run TreeCostSystem.step (.start tracker) events).cache id = some entry →
      ∃ i ≤ events.length,
        CachedAt (run TreeCostSystem.step (.start tracker) (events.take i)) id entry := by
  refine inv_history (H := fun events (s : TreeCostSystem ν) => ∀ id entry,
      JsMap.get? s.cache id = some entry →
    ∃ i ≤ events.length,
      CachedAt (run TreeCostSystem.step (.start tracker) (events.take i)) id entry)
    (fun id entry h => by cases h) (fun events event ih id entry h => ?_) events
  -- an entry that was there keeps its moment
  have hold : JsMap.get? (run TreeCostSystem.step (.start tracker) events).cache id = some entry →
      ∃ i ≤ (events ++ [event]).length,
        CachedAt (run TreeCostSystem.step (.start tracker) ((events ++ [event]).take i)) id
          entry := by
    intro h
    obtain ⟨i, hi, hcached⟩ := ih id entry h
    refine ⟨i, ?_, ?_⟩
    · rw [List.length_append]
      omega
    · rwa [List.take_append_of_le_length hi]
  cases event with
  | recordUsage sessionId usage goalId now => exact hold h
  | removeSession sessionId => exact hold h
  | backfillGoalIds resolver => exact hold h
  | putGoal goal => exact hold h
  | computeTreeCost rootGoalId sessionIdsForGoal =>
    rcases get?_computeTreeCost h with h | hcached
    · exact hold h
    · refine ⟨events.length, ?_, ?_⟩
      · rw [List.length_append]
        omega
      · rwa [List.take_append_of_le_length (Nat.le_refl _), List.take_length]

theorem uncachedTreeCost_eq (s : TreeCostSystem ν) (rootGoalId : String) :
    s.uncachedTreeCost rootGoalId = freshTreeCost rootGoalId s.goals s.tracker none := rfl

theorem treeCost_cases (s : TreeCostSystem ν) (rootGoalId : String) :
    s.treeCost rootGoalId = s.uncachedTreeCost rootGoalId ∨
      ∃ entry, JsMap.get? s.cache rootGoalId = some entry ∧
        entry.generation = s.tracker.generation ∧
        entry.treeSignature = computeTreeSignature rootGoalId s.goals ∧
        s.treeCost rootGoalId = entry.result := by
  rw [uncachedTreeCost_eq, TreeCostSystem.treeCost]
  unfold computeTreeCost
  dsimp only
  split
  · rename_i entry hcached
    obtain ⟨hget, hvalid⟩ := Option.filter_eq_some_iff.mp hcached
    simp only [Bool.and_eq_true, decide_eq_true_eq] at hvalid
    exact .inr ⟨entry, hget, hvalid.1.1.1, hvalid.1.1.2, rfl⟩
  · exact .inl rfl

/-- **What a query returns.** The breakdown of an earlier moment with the records of now and the
    signature of now. -/
theorem exists_moment (tracker : CostTracker ν) (events : List (TreeCostEvent ν))
    (rootGoalId : String) :
    ∃ i ≤ events.length,
      (run TreeCostSystem.step (.start tracker) events).treeCost rootGoalId =
        (run TreeCostSystem.step (.start tracker) (events.take i)).uncachedTreeCost rootGoalId ∧
      (run TreeCostSystem.step (.start tracker) (events.take i)).tracker =
        (run TreeCostSystem.step (.start tracker) events).tracker ∧
      computeTreeSignature rootGoalId
          (run TreeCostSystem.step (.start tracker) (events.take i)).goals =
        computeTreeSignature rootGoalId (run TreeCostSystem.step (.start tracker) events).goals := by
  rcases treeCost_cases (run TreeCostSystem.step (.start tracker) events) rootGoalId with
    hfresh | ⟨entry, hget, hgeneration, hsignature, hresult⟩
  · refine ⟨events.length, Nat.le_refl _, ?_⟩
    rw [List.take_length]
    exact ⟨hfresh, rfl, rfl⟩
  · obtain ⟨i, hi, hcached⟩ := cache_history tracker events rootGoalId entry hget
    refine ⟨i, hi, hresult.trans (hcached.result.trans (uncachedTreeCost_eq _ _).symm), ?_,
      hcached.treeSignature.symm.trans hsignature⟩
    have hclock : (run TreeCostSystem.step (.start tracker) (events.take i)).tracker.generation =
        (run TreeCostSystem.step (.start tracker) (events.take events.length)).tracker.generation := by
      rw [List.take_length, ← hcached.generation, hgeneration]
    rw [tracker_eq hclock, List.take_length]

/-! ## Two moments with one signature -/

/-- A breakdown without its titles. -/
def TreeCostEntry.untitled (e : TreeCostEntry ν) : TreeCostEntry ν := { e with title := "" }

def TreeCostBreakdown.untitled (b : TreeCostBreakdown ν) : TreeCostBreakdown ν :=
  { b with breakdown := b.breakdown.map TreeCostEntry.untitled }

/-- The totals of a breakdown, in cost and tokens. -/
def TreeCostBreakdown.totals (b : TreeCostBreakdown ν) : ν × ν × ν :=
  (b.totalCostUsd, b.totalTokensIn, b.totalTokensOut)

/-- The depth of the requested goal, if it is there. -/
def rootDepth (rootGoalId : String) (goals : List TreeCostGoal) : Option Nat :=
  (goalById goals rootGoalId).map (depthOf goals)

section OneSignature

variable {rootGoalId : String} {l l' : List TreeCostGoal}

/-- The requested goal is there at both moments or at neither one. -/
theorem sameTree_or_absent (hgrown : GrowsFrom (l.map TreeCostGoal.id) l')
    (hids : (l.map TreeCostGoal.id).Nodup)
    (h : computeTreeSignature rootGoalId l = computeTreeSignature rootGoalId l') :
    SameTree rootGoalId l l' ∨ goalById l rootGoalId = none ∧ goalById l' rootGoalId = none := by
  by_cases hroot : ∃ g ∈ l, g.id = rootGoalId
  · exact .inl ⟨hids, hgrown.nodup, hgrown.grown, perm_of_signature h, hroot⟩
  · right
    have hnone : goalById l rootGoalId = none := by
      rw [Option.eq_none_iff_forall_ne_some]
      intro g hg
      exact hroot ⟨g, (goalById_iff hids).mp hg⟩
    refine ⟨hnone, ?_⟩
    rw [Option.eq_none_iff_forall_ne_some]
    intro g hg
    -- the goal itself would be a member, and so would be its counterpart
    obtain ⟨hmem, rfl⟩ := (goalById_iff hgrown.nodup).mp hg
    have hmember : g ∈ treeMembers g.id l' :=
      (mem_treeMembers hgrown.nodup (id_ne_empty g) g).mpr ⟨hmem, 0, by omega, .root⟩
    obtain ⟨g', hg', hshape⟩ :=
      List.mem_map.mp ((perm_of_signature h).mem_iff.mpr (List.mem_map_of_mem hmember))
    have hmem' := ((mem_treeMembers hids (id_ne_empty g) g').mp hg').1
    exact hroot ⟨g', hmem', congrArg GoalShape.id hshape⟩

theorem treeGoalCost_eq (tracker : CostTracker ν) {g g' : TreeCostGoal} (h : g.id = g'.id) :
    treeGoalCost tracker none g = treeGoalCost tracker none g' := by
  rw [treeGoalCost, treeGoalCost, h]

theorem totals_freshTreeCost (h : SameTree rootGoalId l l') (tracker : CostTracker ν) :
    (freshTreeCost rootGoalId l tracker none).totals =
      (freshTreeCost rootGoalId l' tracker none).totals := by
  obtain ⟨root, hroot, hrootId⟩ := h.root
  obtain ⟨root', hroot', hrootId'⟩ := h.root'
  have hcosts : (treeMembers rootGoalId l).map (fun g => treeGoalCost tracker none g) =
      (treeMembers rootGoalId l').map (fun g => treeGoalCost tracker none g) :=
    map_eq_of_map_eq h.map_shape_treeMembers fun g _ g' _ hshape =>
      treeGoalCost_eq tracker (congrArg GoalShape.id hshape)
  -- each total is a fold over the costs of the members
  have hfold : ∀ field : RawSessionCost ν → ν,
      (treeMembers rootGoalId l).foldl (fun total g => total + field (treeGoalCost tracker none g)) 0 =
        (treeMembers rootGoalId l').foldl
          (fun total g => total + field (treeGoalCost tracker none g)) 0 := by
    intro field
    have hsame := congrArg (List.foldl (fun total cost => total + field cost) 0) hcosts
    rwa [List.foldl_map, List.foldl_map] at hsame
  unfold freshTreeCost
  rw [(goalById_iff h.ids).mpr ⟨hroot, hrootId⟩, (goalById_iff h.ids').mpr ⟨hroot', hrootId'⟩]
  simp only [TreeCostBreakdown.totals, List.foldl_map, treeEntry, hfold]

omit [CostNumber ν] in
/-- The order of the breakdown compares depths and times of creation. -/
theorem treeEntryLe_eq (h : SameTree rootGoalId l l') {a b : TreeCostEntry ν}
    (ha : ∃ g ∈ treeMembers rootGoalId l, g.id = a.goalId)
    (hb : ∃ g ∈ treeMembers rootGoalId l, g.id = b.goalId) :
    treeEntryLe l a b = treeEntryLe l' a.untitled b.untitled := by
  have htime : ∀ {id : String}, (∃ g ∈ treeMembers rootGoalId l, g.id = id) →
      ((goalById l id).bind (·.createdAt)).getD 0 = ((goalById l' id).bind (·.createdAt)).getD 0 := by
    rintro id ⟨g, hg, rfl⟩
    have hmem := ((mem_treeMembers h.ids h.rootId_ne g).mp hg).1
    obtain ⟨g', hg', hshape⟩ := h.counterpart.1 g hg
    have hmem' := ((mem_treeMembers h.ids' h.rootId_ne g').mp hg').1
    have hid' : g'.id = g.id := congrArg GoalShape.id hshape
    rw [(goalById_iff h.ids).mpr ⟨hmem, rfl⟩, (goalById_iff h.ids').mpr ⟨hmem', hid'⟩]
    exact (congrArg GoalShape.createdAt hshape).symm
  unfold treeEntryLe
  rw [htime ha, htime hb]
  rfl

/-- Where the requested goal has kept its depth, only the titles can differ. -/
theorem untitled_freshTreeCost (h : SameTree rootGoalId l l')
    (hdepth : rootDepth rootGoalId l = rootDepth rootGoalId l') (tracker : CostTracker ν) :
    (freshTreeCost rootGoalId l tracker none).untitled =
      (freshTreeCost rootGoalId l' tracker none).untitled := by
  obtain ⟨root, hroot, hrootId⟩ := h.root
  obtain ⟨root', hroot', hrootId'⟩ := h.root'
  have hget := (goalById_iff h.ids).mpr ⟨hroot, hrootId⟩
  have hget' := (goalById_iff h.ids').mpr ⟨hroot', hrootId'⟩
  rw [rootDepth, rootDepth, hget, hget', Option.map_some, Option.map_some,
    Option.some.injEq] at hdepth
  have hentries : ((treeMembers rootGoalId l).map (treeEntry l tracker none)).map
        TreeCostEntry.untitled =
      ((treeMembers rootGoalId l').map (treeEntry l' tracker none)).map TreeCostEntry.untitled := by
    rw [List.map_map, List.map_map]
    refine map_eq_of_map_eq h.map_shape_treeMembers fun g hg g' hg' hshape => ?_
    have hid : g.id = g'.id := congrArg GoalShape.id hshape
    have hmem' := ((mem_treeMembers h.ids' h.rootId_ne g').mp hg').1
    simp only [Function.comp_apply, treeEntry, TreeCostEntry.untitled, treeGoalCost_eq tracker hid,
      h.depthOf_eq hget hget' hdepth hg hmem' hid, hid]
  have hmember : ∀ e ∈ (treeMembers rootGoalId l).map (treeEntry l tracker none),
      ∃ g ∈ treeMembers rootGoalId l, g.id = e.goalId := by
    intro e he
    obtain ⟨g, hg, rfl⟩ := List.mem_map.mp he
    exact ⟨g, hg, rfl⟩
  have htotals := totals_freshTreeCost h tracker
  unfold freshTreeCost at htotals ⊢
  rw [hget, hget'] at htotals ⊢
  simp only [TreeCostBreakdown.totals, Prod.mk.injEq] at htotals
  simp only [TreeCostBreakdown.untitled, htotals.1, htotals.2.1, htotals.2.2,
    TreeCostBreakdown.mk.injEq, true_and]
  rw [List.map_mergeSort (s := treeEntryLe l')
      fun a ha b hb => treeEntryLe_eq h (hmember a ha) (hmember b hb),
    hentries, List.map_mergeSort (f := TreeCostEntry.untitled) (r := treeEntryLe l')
      (s := treeEntryLe l') fun a _ b _ => rfl]

end OneSignature

/-! ## The cache and the titles -/

/-- The breakdown of an earlier moment: its totals are those of now, and where the requested goal had
    the depth that it has now, so is all but the titles. -/
theorem tree_cost_cached (tracker : CostTracker ν) (events : List (TreeCostEvent ν))
    (rootGoalId : String) :
    ∃ i ≤ events.length,
      (run TreeCostSystem.step (.start tracker) events).treeCost rootGoalId =
        (run TreeCostSystem.step (.start tracker) (events.take i)).uncachedTreeCost rootGoalId ∧
      ((run TreeCostSystem.step (.start tracker) events).treeCost rootGoalId).totals =
        ((run TreeCostSystem.step (.start tracker) events).uncachedTreeCost rootGoalId).totals ∧
      (rootDepth rootGoalId (run TreeCostSystem.step (.start tracker) (events.take i)).goals =
          rootDepth rootGoalId (run TreeCostSystem.step (.start tracker) events).goals →
        ((run TreeCostSystem.step (.start tracker) events).treeCost rootGoalId).untitled =
          ((run TreeCostSystem.step (.start tracker) events).uncachedTreeCost
            rootGoalId).untitled) := by
  obtain ⟨i, hi, hresult, htracker, hsignature⟩ := exists_moment tracker events rootGoalId
  refine ⟨i, hi, hresult, ?_⟩
  rw [hresult, uncachedTreeCost_eq, uncachedTreeCost_eq, htracker]
  rcases sameTree_or_absent (growsFrom_take tracker events i)
      (nodup_run tracker (events.take i)) hsignature with
    hsame | ⟨hnone, hnone'⟩
  · exact ⟨totals_freshTreeCost hsame _, fun hdepth => untitled_freshTreeCost hsame hdepth _⟩
  · rw [freshTreeCost, freshTreeCost, hnone, hnone']
    exact ⟨rfl, fun _ => rfl⟩

/-! ## A goal renamed -/

section Renamed

theorem isGoalId_g : IsGoalId "g" := by
  unfold IsGoalId
  decide

theorem isGoalId_absent (id : String) (h : none = some id) : IsGoalId id := by cases h

/-- A single goal under some title. -/
def soleGoal (title : String) : TreeCostGoal where
  id := "g"
  title := some title
  createdAt := some 1
  parentGoalId := none
  rootGoalId := none
  archived := false
  idOk := isGoalId_g
  parentOk := isGoalId_absent
  rootOk := isGoalId_absent

def noCosts : CostTracker Rat where
  costs := []
  generation := 0

def renamedGoal : List (TreeCostEvent Rat) :=
  [.putGoal (soleGoal "Draft"), .computeTreeCost "g" none, .putGoal (soleGoal "Final")]

/-- The next query still shows the old title. -/
theorem title_out_of_date :
    (run TreeCostSystem.step (.start noCosts) renamedGoal).treeCost "g" ≠
      (run TreeCostSystem.step (.start noCosts) renamedGoal).uncachedTreeCost "g" := by
  have hmembers : ∀ title, treeMembers "g" [soleGoal title] = [soleGoal title] := fun _ => rfl
  have hsignature : ∀ title, computeTreeSignature "g" [soleGoal title] =
      computeTreeSignature "g" [soleGoal "Draft"] := by
    intro title
    rw [computeTreeSignature, computeTreeSignature, hmembers, hmembers]
    rfl
  have hfresh : ∀ title, ((freshTreeCost "g" [soleGoal title] noCosts none).breakdown.map
      TreeCostEntry.title) = [title] := by
    intro title
    have hget : goalById [soleGoal title] "g" = some (soleGoal title) := rfl
    rw [freshTreeCost, hget, hmembers]
    simp only [List.map_cons, List.map_nil, List.mergeSort_singleton, treeEntry]
    rfl
  -- the first query has left its breakdown in the cache
  have hcache : (run TreeCostSystem.step (.start noCosts) renamedGoal).cache =
      [("g", ⟨0, computeTreeSignature "g" [soleGoal "Draft"], false,
        freshTreeCost "g" [soleGoal "Draft"] noCosts none⟩)] := rfl
  have hgoals : (run TreeCostSystem.step (.start noCosts) renamedGoal).goals =
      [soleGoal "Final"] := rfl
  have htracker : (run TreeCostSystem.step (.start noCosts) renamedGoal).tracker = noCosts := rfl
  have hhit : (run TreeCostSystem.step (.start noCosts) renamedGoal).treeCost "g" =
      freshTreeCost "g" [soleGoal "Draft"] noCosts none := by
    rw [TreeCostSystem.treeCost, hcache, hgoals, htracker]
    unfold computeTreeCost
    rw [hsignature "Final"]
    simp [JsMap.get?_cons, Option.filter, noCosts]
  intro h
  rw [hhit, uncachedTreeCost_eq, hgoals] at h
  have htitles := congrArg (fun b => b.breakdown.map TreeCostEntry.title) h
  rw [hfresh "Draft"] at htitles
  exact absurd (htitles.trans (hfresh "Final")) (by decide)

end Renamed

end Bobbit.Server
