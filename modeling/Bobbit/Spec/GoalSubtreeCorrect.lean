import Bobbit.Lib.ParentTree
import Bobbit.Server.GoalSubtree

/-!
# The walk over a subtree of goals and its cascades

The walk lists the accepted goals level by level, so each goal comes before the goals below it, and a
cascade calls its action on them in that order or in the reverse one.

## Key results

* `visitKid_foldl` — what a round of the walk adds.
* `walkGoalSubtree_eq` — the walk as the levels of the tree of parents.
* `runCascade_calls` — the calls of a cascade.
* `goal_subtree` — the walk and a bottom-up cascade over it.
-/

namespace Bobbit.Server

open Lib Lib.ParentTree

variable {γ : Type} [SubtreeGoal γ]

/-! ## The index of children -/

/-- The parent of a goal; the empty id names no goal. -/
def parentOf (g : γ) : Option String := (SubtreeGoal.parentGoalId g).filter (· ≠ "")

/-- The children that the index has under a parent. -/
def indexed (allGoals : List γ) (pid : String) : List γ :=
  (kids parentOf allGoals pid).filter fun g => SubtreeGoal.id g ≠ pid

theorem get?_addChild (index : JsMap String (List γ)) (g : γ) (pid : String) :
    (JsMap.get? (SubtreeWalk.addChild index g) pid).getD [] =
      (JsMap.get? index pid).getD [] ++ indexed [g] pid := by
  unfold SubtreeWalk.addChild indexed kids parentOf
  cases hparent : SubtreeGoal.parentGoalId g with
  | none => simp [hparent]
  | some p =>
    dsimp only
    by_cases hempty : p = ""
    · simp [hparent, hempty]
    · by_cases hself : p = SubtreeGoal.id g
      · by_cases hpid : p = pid
        · simp [hparent, ← hself, hpid]
        · simp [hparent, hempty, ← hself, hpid]
      · rw [if_neg hempty, if_neg hself]
        by_cases hpid : p = pid
        · subst hpid
          cases hget : JsMap.get? index p <;>
            simp [JsMap.get?_set, hparent, hempty, Ne.symm hself]
        · cases hget : JsMap.get? index p <;>
            simp [JsMap.get?_set, hparent, hpid, Ne.symm hpid]

theorem get?_byParent (allGoals : List γ) (pid : String) :
    (JsMap.get? (SubtreeWalk.byParent allGoals) pid).getD [] = indexed allGoals pid := by
  have hfold : ∀ (rest : List γ) (index : JsMap String (List γ)),
      (JsMap.get? (rest.foldl SubtreeWalk.addChild index) pid).getD [] =
        (JsMap.get? index pid).getD [] ++ indexed rest pid := by
    intro rest
    induction rest with
    | nil => simp [indexed, kids]
    | cons g rest ih =>
      intro index
      rw [List.foldl_cons, ih, get?_addChild, List.append_assoc]
      simp only [indexed, kids, ← List.filter_append, List.singleton_append]
  exact hfold allGoals []

/-! ## A round of the walk -/

open SubtreeWalk

/-- What the loop over the kids adds, when their ids are different. -/
theorem visitKid_foldl (opts : SubtreeWalkOpts γ) (kids : List γ)
    (hnodup : (kids.map SubtreeGoal.id).Nodup) (s : SubtreeWalk.State γ) :
    let fresh := kids.filter fun g => SubtreeGoal.id g ∉ s.seen.members
    let s' := kids.foldl (visitKid opts) s
    s'.out = s.out ++ fresh.filter (accept opts) ∧
      s'.next = s.next ++ fresh.map SubtreeGoal.id ∧
      ∀ id, id ∈ s'.seen.members ↔ id ∈ s.seen.members ∨ id ∈ kids.map SubtreeGoal.id := by
  induction kids generalizing s with
  | nil => simp
  | cons g rest ih =>
    rw [List.map_cons, List.nodup_cons] at hnodup
    have hvisit := ih hnodup.2 (visitKid opts s g)
    dsimp only at hvisit ⊢
    rw [List.foldl_cons]
    obtain ⟨hout, hnext, hseen⟩ := hvisit
    rw [hout, hnext]
    by_cases hg : SubtreeGoal.id g ∈ s.seen.members
    · have hsame : visitKid opts s g = s := by rw [visitKid, if_pos hg]
      rw [hsame] at hseen ⊢
      refine ⟨by simp [hg], by simp [hg], fun id => ?_⟩
      rw [hseen, List.map_cons, List.mem_cons]
      exact ⟨fun h => h.imp_right .inr, fun h => h.elim .inl fun h =>
        h.elim (fun heq => .inl (heq ▸ hg)) .inr⟩
    · -- the others have different ids, so they are as fresh as before
      have hfresh : (rest.filter fun g' =>
            SubtreeGoal.id g' ∉ (visitKid opts s g).seen.members) =
          rest.filter fun g' => SubtreeGoal.id g' ∉ s.seen.members := by
        refine List.filter_congr fun g' hg' => ?_
        have hne : SubtreeGoal.id g' ≠ SubtreeGoal.id g := fun heq =>
          hnodup.1 (heq ▸ List.mem_map_of_mem hg')
        simp [visitKid, hg, JsSet.mem_add, hne]
      rw [hfresh]
      refine ⟨?_, ?_, fun id => ?_⟩
      · rw [visitKid, if_neg hg, List.filter_cons_of_pos (by simpa using hg), List.filter_cons]
        split <;> simp
      · rw [visitKid, if_neg hg, List.filter_cons_of_pos (by simpa using hg)]
        simp
      · rw [hseen, visitKid, if_neg hg, List.map_cons, List.mem_cons, JsSet.mem_add, or_assoc]

/-- The loop over a frontier goes over the kids of all its goals. -/
theorem visitFrontier_eq (opts : SubtreeWalkOpts γ) (allGoals : List γ) (frontier : List String)
    (s : SubtreeWalk.State γ) :
    visitFrontier opts (byParent allGoals) frontier s =
      (frontier.flatMap (indexed allGoals)).foldl (visitKid opts) s := by
  induction frontier generalizing s with
  | nil => rfl
  | cons pid rest ih =>
    have hparent : visitParent opts (byParent allGoals) s pid =
        (indexed allGoals pid).foldl (visitKid opts) s := by
      rw [← get?_byParent, visitParent]
      cases JsMap.get? (byParent allGoals) pid <;> rfl
    rw [List.flatMap_cons, List.foldl_append, ← hparent, ← ih]
    rfl

/-! ## The walk as the levels of the tree -/

section Walk

variable {allGoals : List γ} (hids : (allGoals.map SubtreeGoal.id).Nodup) {rootId : String}

include hids

/-- What the index has under the goals of a level and has not been seen is the next level. -/
theorem fresh_eq_level {d : Nat} {seen : JsSet String}
    (hseen : ∀ id, id ∈ seen.members ↔
      ∃ e ≤ d, Depth SubtreeGoal.id parentOf allGoals rootId e id) :
    ((levelKeys SubtreeGoal.id parentOf allGoals rootId d).flatMap (indexed allGoals)).filter
        (fun g => SubtreeGoal.id g ∉ seen.members) =
      level SubtreeGoal.id parentOf allGoals rootId d := by
  unfold level nextLevel
  rw [List.filter_flatMap, List.filter_flatMap]
  refine List.flatMap_congr fun pid hpid => ?_
  unfold indexed
  rw [List.filter_filter]
  refine List.filter_congr fun g hg => ?_
  rw [mem_kids] at hg
  have hdepth := mem_levelKeys.mp hpid
  rw [Bool.eq_iff_iff, Bool.and_eq_true, decide_eq_true_eq, decide_eq_true_eq, decide_eq_true_eq]
  constructor
  · rintro ⟨hfresh, _⟩ hroot
    exact hfresh ((hseen _).mpr ⟨0, Nat.zero_le _, hroot ▸ .root⟩)
  · intro hne
    -- a goal of the next level has no smaller depth, so it is new and not its own parent
    have hnext := Depth.child hdepth hg.1 hg.2 hne
    constructor
    · intro hmem
      obtain ⟨e, he, hother⟩ := (hseen _).mp hmem
      have := depth_unique hids hnext hother
      omega
    · intro hself
      have := depth_unique hids hnext (hself ▸ hdepth)
      omega

variable (opts : SubtreeWalkOpts γ)

theorem loop_eq (rounds d : Nat) (out : List γ) (seen : JsSet String)
    (hseen : ∀ id, id ∈ seen.members ↔
      ∃ e ≤ d, Depth SubtreeGoal.id parentOf allGoals rootId e id) :
    loop opts (byParent allGoals) rounds (levelKeys SubtreeGoal.id parentOf allGoals rootId d) out
        seen =
      out ++ (List.range rounds).flatMap fun i =>
        (level SubtreeGoal.id parentOf allGoals rootId (d + i)).filter (accept opts) := by
  induction rounds generalizing d out seen with
  | zero => simp [loop]
  | succ rounds ih =>
    have hsub : ((levelKeys SubtreeGoal.id parentOf allGoals rootId d).flatMap
        (indexed allGoals)).Sublist
        ((levelKeys SubtreeGoal.id parentOf allGoals rootId d).flatMap (kids parentOf allGoals)) :=
      List.Sublist.flatMap_right _ fun _ _ => List.filter_sublist
    have hnodup := (nodup_flatMap_kids hids
      (@nodup_levelKeys _ _ _ parentOf _ rootId _ hids d)).sublist
        (hsub.map SubtreeGoal.id)
    obtain ⟨hout, hnext, hmem⟩ :=
      visitKid_foldl opts _ hnodup { out := out, seen := seen, next := [] }
    have hfresh := fresh_eq_level hids hseen
    rw [hfresh] at hout hnext
    rw [loop, List.range_succ_eq_map, List.flatMap_cons, List.flatMap_map]
    simp only [visitFrontier_eq]
    rw [hout, hnext]
    split
    · -- no goal in this level, and so none below
      rename_i hempty
      have hzero : level SubtreeGoal.id parentOf allGoals rootId d = [] := level_eq_nil hempty 0
      simp [hzero, level_eq_nil hempty]
    · rw [List.nil_append, ← levelKeys_succ, ih (d + 1)]
      · simp only [Nat.add_zero, List.append_assoc, Nat.succ_eq_add_one, Nat.add_assoc,
          Nat.add_comm 1]
      · intro id
        rw [hmem, hseen]
        constructor
        · rintro (⟨e, he, hdepth⟩ | hkid)
          · exact ⟨e, by omega, hdepth⟩
          · obtain ⟨g, hg, rfl⟩ := List.mem_map.mp hkid
            by_cases hold : SubtreeGoal.id g ∈ seen.members
            · obtain ⟨e, he, hdepth⟩ := (hseen _).mp hold
              exact ⟨e, by omega, hdepth⟩
            · have hlevel : g ∈ level SubtreeGoal.id parentOf allGoals rootId d := by
                rw [← hfresh]
                exact List.mem_filter.mpr ⟨hg, decide_eq_true hold⟩
              exact ⟨d + 1, Nat.le_refl _, ((mem_level hids).mp hlevel).2⟩
        · rintro ⟨e, he, hdepth⟩
          by_cases hlast : e = d + 1
          · rw [hlast] at hdepth
            have hkey := mem_levelKeys.mpr hdepth
            rw [levelKeys_succ, ← hfresh] at hkey
            obtain ⟨g, hg, rfl⟩ := List.mem_map.mp hkey
            exact .inr (List.mem_map_of_mem (List.mem_filter.mp hg).1)
          · exact .inl ⟨e, by omega, hdepth⟩

/-- The walk: the root if it is wanted, and the accepted goals of the levels below it. -/
theorem walkGoalSubtree_eq (hroot : rootId ≠ "") (opts : SubtreeWalkOpts γ) :
    walkGoalSubtree rootId allGoals opts =
      (if opts.includeRoot then
        (allGoals.find? (SubtreeGoal.id · = rootId)).toList.filter (accept opts) else []) ++
        (levels SubtreeGoal.id parentOf allGoals rootId opts.maxDepth).filter (accept opts) := by
  have hfind : JsMap.get? (byId allGoals) rootId =
      allGoals.find? (SubtreeGoal.id · = rootId) := by
    rw [byId, JsMap.get?_foldl_set SubtreeGoal.id (fun g => g) [] hids]
    cases allGoals.find? (SubtreeGoal.id · = rootId) <;> rfl
  have hseen : ∀ id, id ∈ (JsSet.ofList [rootId]).members ↔
      ∃ e ≤ 0, Depth SubtreeGoal.id parentOf allGoals rootId e id := by
    intro id
    rw [JsSet.mem_ofList, List.mem_singleton]
    constructor
    · rintro rfl
      exact ⟨0, Nat.le_refl _, .root⟩
    · rintro ⟨e, he, hdepth⟩
      rw [Nat.le_zero.mp he] at hdepth
      exact depth_zero hdepth
  unfold walkGoalSubtree
  rw [if_neg hroot, hfind]
  dsimp only
  have hloop := @loop_eq γ _ allGoals hids rootId opts opts.maxDepth 0
  simp only [levelKeys, Nat.zero_add] at hloop
  rw [hloop _ _ hseen, levels, List.filter_flatMap]
  congr 1
  cases allGoals.find? (SubtreeGoal.id · = rootId) with
  | none => rfl
  | some root => cases opts.includeRoot <;> cases haccept : accept opts root <;> simp [haccept]

theorem mem_walkGoalSubtree (g : γ) : g ∈ walkGoalSubtree rootId allGoals opts ↔
      rootId ≠ "" ∧ g ∈ allGoals ∧ accept opts g = true ∧
        (SubtreeGoal.id g = rootId → opts.includeRoot = true) ∧
        ∃ n ≤ opts.maxDepth, Climbs SubtreeGoal.id parentOf allGoals rootId n (SubtreeGoal.id g) := by
  by_cases hroot : rootId = ""
  · simp [walkGoalSubtree, hroot]
  · have hfind : ∀ g, g ∈ (allGoals.find? (SubtreeGoal.id · = rootId)).toList ↔
        g ∈ allGoals ∧ SubtreeGoal.id g = rootId := by
      intro g
      rw [Option.mem_toList]
      constructor
      · intro h
        exact ⟨List.mem_of_find?_eq_some h, by simpa using List.find?_some h⟩
      · rintro ⟨hg, hkey⟩
        cases hsome : allGoals.find? (SubtreeGoal.id · = rootId) with
        | none => exact absurd (decide_eq_true hkey) (List.find?_eq_none.mp hsome g hg)
        | some g' =>
          have hkey' : SubtreeGoal.id g' = rootId := by simpa using List.find?_some hsome
          exact congrArg some
            (eq_of_key hids (List.mem_of_find?_eq_some hsome) hg (hkey'.trans hkey.symm))
    rw [walkGoalSubtree_eq hids hroot, List.mem_append, List.mem_filter, mem_levels hids,
      climbs_iff_depth]
    constructor
    · rintro (h | ⟨⟨hg, hne, hdepth⟩, haccept⟩)
      · split at h
        · rename_i hinclude
          obtain ⟨hmem, haccept⟩ := List.mem_filter.mp h
          obtain ⟨hg, hkey⟩ := (hfind g).mp hmem
          exact ⟨hroot, hg, haccept, fun _ => hinclude, 0, Nat.zero_le _, hkey ▸ .root⟩
        · cases h
      · exact ⟨hroot, hg, haccept, fun hkey => absurd hkey hne, hdepth⟩
    · rintro ⟨_, hg, haccept, hinclude, hdepth⟩
      by_cases hkey : SubtreeGoal.id g = rootId
      · left
        rw [if_pos (hinclude hkey)]
        exact List.mem_filter.mpr ⟨(hfind g).mpr ⟨hg, hkey⟩, haccept⟩
      · exact .inr ⟨⟨hg, hkey, hdepth⟩, haccept⟩

/-- The walk lists no id twice, and no goal before one that is above it. -/
theorem pairwise_walkGoalSubtree : (walkGoalSubtree rootId allGoals opts).Pairwise fun x y =>
      SubtreeGoal.id x ≠ SubtreeGoal.id y ∧
        ¬ Below SubtreeGoal.id parentOf allGoals rootId (SubtreeGoal.id x) (SubtreeGoal.id y) := by
  by_cases hroot : rootId = ""
  · rw [walkGoalSubtree, if_pos hroot]
    exact .nil
  · rw [walkGoalSubtree_eq hids hroot]
    refine List.pairwise_append.mpr ⟨?_, (pairwise_levels hids _).filter _, ?_⟩
    · split
      · cases allGoals.find? (SubtreeGoal.id · = rootId) with
        | none => exact .nil
        | some root => exact (List.pairwise_singleton _ root).filter _
      · exact .nil
    · -- the root comes first and is below nothing
      intro x hx y hy
      have hx' : SubtreeGoal.id x = rootId := by
        split at hx
        · simpa using List.find?_some (Option.mem_toList.mp (List.mem_filter.mp hx).1)
        · cases hx
      have hy' := ((mem_levels hids).mp (List.mem_filter.mp hy).1).2.1
      refine ⟨fun hkey => hy' (hkey.symm.trans hx'), fun hbelow => ?_⟩
      rw [hx'] at hbelow
      obtain ⟨e, he, _⟩ := hbelow.depth_lt hids .root
      omega

end Walk

/-! ## Cascades -/

section Cascade

variable {σ ε τ : Type}

/-- Calls of an action, one after the other, each in the world that the one before it left. -/
inductive Called (apply : γ → σ → Except ε τ × σ) : σ → List (γ × Except ε τ) → σ → Prop
  | nil (world : σ) : Called apply world [] world
  | cons {g : γ} {world : σ} {calls : List (γ × Except ε τ)} {last : σ}
    (h : Called apply (apply g world).2 calls last) :
    Called apply world ((g, (apply g world).1) :: calls) last

/-- The goals whose action succeeded, with its results. -/
def succeeded (calls : List (γ × Except ε τ)) : List (String × τ) :=
  calls.filterMap fun call => call.2.toOption.map fun value => (SubtreeGoal.id call.1, value)

/-- The goals whose action failed, with its errors. -/
def failed (calls : List (γ × Except ε τ)) : List (String × ε) :=
  calls.filterMap fun call =>
    match call.2 with
    | .ok _ => none
    | .error error => some (SubtreeGoal.id call.1, error)

/-- The calls of a cascade over a list of goals: all of them, unless it stops at an error. -/
structure CascadeCalls (opts : CascadeOpts γ σ ε τ) (ordered : List γ) (world : σ)
    (calls : List (γ × Except ε τ)) (last : σ) : Prop where
  called : Called opts.apply world calls last
  inOrder : calls.map Prod.fst <+: ordered
  all : opts.stopOnError = false → calls.map Prod.fst = ordered
  stopped : opts.stopOnError = true → (failed calls.dropLast = [] ∧
    (failed calls = [] → calls.map Prod.fst = ordered))

theorem runCascade_calls (opts : CascadeOpts γ σ ε τ) (ordered : List γ)
    (result : CascadeResult ε τ) (world : σ) :
    ∃ calls, CascadeCalls opts ordered world calls (runCascade opts ordered result world).2 ∧
      (runCascade opts ordered result world).1.processed = result.processed ++ succeeded calls ∧
      (runCascade opts ordered result world).1.errors = result.errors ++ failed calls := by
  induction ordered generalizing result world with
  | nil =>
    exact ⟨[], ⟨.nil world, List.nil_prefix, fun _ => rfl, fun _ => ⟨rfl, fun _ => rfl⟩⟩,
      (List.append_nil _).symm, (List.append_nil _).symm⟩
  | cons g rest ih =>
    -- the calls after a first one that did not stop the cascade
    have hgo : ∀ result' : CascadeResult ε τ,
        (opts.stopOnError = true → failed [(g, (opts.apply g world).1)] = []) →
        runCascade opts (g :: rest) result world =
          runCascade opts rest result' (opts.apply g world).2 →
        result'.processed = result.processed ++ succeeded [(g, (opts.apply g world).1)] →
        result'.errors = result.errors ++ failed [(g, (opts.apply g world).1)] →
        ∃ calls, CascadeCalls opts (g :: rest) world calls
            (runCascade opts (g :: rest) result world).2 ∧
          (runCascade opts (g :: rest) result world).1.processed =
            result.processed ++ succeeded calls ∧
          (runCascade opts (g :: rest) result world).1.errors = result.errors ++ failed calls := by
      intro result' hfirst hrun hprocessed herrors
      obtain ⟨calls, hcalls, hp, he⟩ := ih result' (opts.apply g world).2
      refine ⟨(g, (opts.apply g world).1) :: calls, ⟨?_, ?_, ?_, ?_⟩, ?_, ?_⟩
      · rw [hrun]
        exact .cons hcalls.called
      · exact (List.prefix_cons_inj g).mpr hcalls.inOrder
      · intro hstop
        rw [List.map_cons, hcalls.all hstop]
      · intro hstop
        obtain ⟨hlast, hall⟩ := hcalls.stopped hstop
        have hone := hfirst hstop
        have hcons : ∀ cs, failed ((g, (opts.apply g world).1) :: cs) = failed cs := by
          intro cs
          have happend : failed ([(g, (opts.apply g world).1)] ++ cs) =
              failed [(g, (opts.apply g world).1)] ++ failed cs := List.filterMap_append
          rw [hone] at happend
          exact happend
        constructor
        · cases calls with
          | nil => rfl
          | cons call calls => rw [List.dropLast_cons_cons, hcons, hlast]
        · intro hnone
          rw [hcons] at hnone
          rw [List.map_cons, hall hnone]
      · rw [hrun, hp, hprocessed, List.append_assoc]
        exact congrArg _ List.filterMap_append.symm
      · rw [hrun, he, herrors, List.append_assoc]
        exact congrArg _ List.filterMap_append.symm
    cases happly : opts.apply g world with
    | mk outcome world' =>
      cases outcome with
      | ok value =>
        refine hgo { result with processed := result.processed ++ [(SubtreeGoal.id g, value)] }
          (fun _ => ?_) ?_ ?_ ?_
        · rw [happly]; rfl
        · rw [runCascade, happly]
        · rw [happly]; rfl
        · rw [happly]; exact (List.append_nil _).symm
      | error error =>
        cases hstop : opts.stopOnError with
        | false =>
          refine hgo { result with errors := result.errors ++ [(SubtreeGoal.id g, error)] }
            (fun h => ?_) ?_ ?_ ?_
          · rw [hstop] at h; cases h
          · rw [runCascade, happly]; simp [hstop]
          · rw [happly]; exact (List.append_nil _).symm
          · rw [happly]; rfl
        | true =>
          have hrun : runCascade opts (g :: rest) result world =
              ({ result with errors := result.errors ++ [(SubtreeGoal.id g, error)] }, world') := by
            rw [runCascade, happly]
            simp [hstop]
          have hcalled := @Called.cons _ _ _ _ opts.apply g world _ _ (.nil _)
          rw [happly] at hcalled
          rw [hrun]
          refine ⟨[(g, .error error)], ⟨hcalled, ?_, fun h => ?_, fun _ => ⟨rfl, fun h => ?_⟩⟩, ?_,
            rfl⟩
          · exact List.prefix_append [g] rest
          · rw [hstop] at h; cases h
          · cases h
          · exact (List.append_nil _).symm

end Cascade

/-! ## The claim -/

/-- The walk returns the goal: it is not archived unless archived goals are included, and the filter
lets it through. -/
def Accepted (opts : SubtreeWalkOpts γ) (g : γ) : Prop :=
  (SubtreeGoal.archived g = true → opts.includeArchived = true) ∧
    ∀ filter, opts.filter = some filter → filter g = true

theorem accept_eq_true_iff (opts : SubtreeWalkOpts γ) (g : γ) :
    accept opts g = true ↔ Accepted opts g := by
  unfold accept Accepted
  cases opts.includeArchived <;> cases SubtreeGoal.archived g <;> cases opts.filter <;> simp

/-- **Subtrees of goals.** The walk lists, each once and before the goals below it, the accepted goals
whose chain of parents reaches the root within the depth cap, and a bottom-up cascade calls its action
on them from below and collects what it gives. -/
theorem goal_subtree (allGoals : List γ) (hids : (allGoals.map SubtreeGoal.id).Nodup)
    (rootId : String) (opts : SubtreeWalkOpts γ) :
    (∀ g, g ∈ walkGoalSubtree rootId allGoals opts ↔
      rootId ≠ "" ∧ g ∈ allGoals ∧ Accepted opts g ∧
        (SubtreeGoal.id g = rootId → opts.includeRoot = true) ∧
        ∃ n ≤ opts.maxDepth,
          Climbs SubtreeGoal.id parentOf allGoals rootId n (SubtreeGoal.id g)) ∧
    ((walkGoalSubtree rootId allGoals opts).Pairwise fun x y =>
      SubtreeGoal.id x ≠ SubtreeGoal.id y ∧
        ¬ Below SubtreeGoal.id parentOf allGoals rootId (SubtreeGoal.id x) (SubtreeGoal.id y)) ∧
    ∀ (σ ε τ : Type) (cascade : CascadeOpts γ σ ε τ) (world : σ), cascade.order = .bottomUp →
      ∃ calls, CascadeCalls cascade (walkGoalSubtree rootId allGoals opts).reverse world calls
          (cascadeSubtree rootId allGoals opts cascade world).2 ∧
        ((calls.map Prod.fst).Pairwise fun x y =>
          ¬ Below SubtreeGoal.id parentOf allGoals rootId (SubtreeGoal.id y) (SubtreeGoal.id x)) ∧
        (cascadeSubtree rootId allGoals opts cascade world).1.processed = succeeded calls ∧
        (cascadeSubtree rootId allGoals opts cascade world).1.errors = failed calls := by
  refine ⟨fun g => ?_, pairwise_walkGoalSubtree hids opts, ?_⟩
  · rw [mem_walkGoalSubtree hids, accept_eq_true_iff]
  · intro σ ε τ cascade world horder
    unfold cascadeSubtree
    dsimp only
    rw [if_pos horder]
    obtain ⟨calls, hcalls, hprocessed, herrors⟩ := runCascade_calls cascade
      (walkGoalSubtree rootId allGoals opts).reverse ⟨[], []⟩ world
    refine ⟨calls, hcalls, ?_, hprocessed, herrors⟩
    have hforward : (walkGoalSubtree rootId allGoals opts).Pairwise fun x y =>
        ¬ Below SubtreeGoal.id parentOf allGoals rootId (SubtreeGoal.id x) (SubtreeGoal.id y) :=
      (pairwise_walkGoalSubtree hids opts).imp fun h => h.2
    exact (List.pairwise_reverse.mpr hforward).sublist hcalls.inOrder.sublist

/-- Goals as their ids and parents, none archived. -/
instance linkedGoal : SubtreeGoal (String × Option String) := ⟨Prod.fst, Prod.snd, fun _ => false⟩

/-- A root in a cycle with its child, which has a child itself, and a goal that is its own parent. -/
theorem goal_subtree_cycle :
    (walkGoalSubtree "r" [("c", some "r"), ("r", some "c"), ("g", some "c"), ("s", some "s")] {}).map
        Prod.fst = ["r", "c", "g"] ∧
      (walkGoalSubtree "r"
        [("c", some "r"), ("r", some "c"), ("g", some "c"), ("s", some "s")] {}).Pairwise fun x y =>
        SubtreeGoal.id x ≠ SubtreeGoal.id y ∧
          ¬ Below SubtreeGoal.id parentOf
            [("c", some "r"), ("r", some "c"), ("g", some "c"), ("s", some "s")] "r"
            (SubtreeGoal.id x) (SubtreeGoal.id y) :=
  ⟨by decide, (goal_subtree [("c", some "r"), ("r", some "c"), ("g", some "c"), ("s", some "s")]
    (by decide) "r" {}).2.1⟩

end Bobbit.Server
