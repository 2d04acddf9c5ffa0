import Bobbit.Lib.CappedClimb
import Bobbit.Lib.Keyed
import Bobbit.Spec.GoalSubtreeCorrect
import Bobbit.Spec.TreeSignature

/-!
# Trees with one signature

Two lists of goals, the second grown out of the first one, with one signature below a root: the walk
gives the same shapes in the same order. A depth counts the goals above the root as well, which the
signature does not have; so the depths agree as soon as the depth of the root does.

## Key results

* `map_shape_treeMembers` — the members and their order.
* `depthOf_eq` — their depths.
-/

namespace Bobbit.Server

open Lib Lib.ParentTree Lib.CappedClimb

/-! ## Lists -/

/-- A sublist of a list without repetition is a filter. -/
theorem filter_of_sublist {α : Type} [DecidableEq α] {l m : List α} (h : l.Sublist m)
    (hm : m.Nodup) : m.filter (· ∈ l) = l := by
  induction m generalizing l with
  | nil => rw [List.sublist_nil.mp h, List.filter_nil]
  | cons a m ih =>
    obtain ⟨hnew, hnodup⟩ := List.nodup_cons.mp hm
    cases h with
    | cons _ h =>
      have hmem : a ∉ l := fun hmem => hnew (h.subset hmem)
      rw [List.filter_cons_of_neg (by simpa using hmem), ih h hnodup]
    | cons_cons _ h =>
      rename_i l
      have hrest : m.filter (· ∈ a :: l) = m.filter (· ∈ l) := by
        refine List.filter_congr fun b hb => ?_
        have hne : b ≠ a := fun heq => hnew (heq ▸ hb)
        simp [hne]
      rw [List.filter_cons_of_pos (by simp), hrest, ih h hnodup]

/-- Sublists of one list without repetition are told by their members. -/
theorem sublist_ext {α : Type} [DecidableEq α] {l l' m : List α} (hm : m.Nodup)
    (hl : l.Sublist m) (hl' : l'.Sublist m) (h : ∀ a, a ∈ l ↔ a ∈ l') : l = l' := by
  rw [← filter_of_sublist hl hm, ← filter_of_sublist hl' hm]
  exact List.filter_congr fun a _ => by simp [h a]

/-- Lists that agree on what tells their elements apart. -/
theorem map_eq_of_map_eq {α β γ : Type} {key : α → β} {f f' : α → γ} {l l' : List α}
    (hkey : l.map key = l'.map key)
    (h : ∀ a ∈ l, ∀ a' ∈ l', key a = key a' → f a = f' a') : l.map f = l'.map f' := by
  induction l generalizing l' with
  | nil =>
    rw [List.map_nil, eq_comm, List.map_eq_nil_iff] at hkey
    rw [hkey]
    rfl
  | cons a l ih =>
    cases l' with
    | nil => cases hkey
    | cons a' l' =>
      obtain ⟨hhead, htail⟩ := List.cons.inj hkey
      rw [List.map_cons, List.map_cons, h a List.mem_cons_self a' List.mem_cons_self hhead,
        ih htail fun b hb b' hb' => h b (List.mem_cons_of_mem _ hb) b' (List.mem_cons_of_mem _ hb')]

/-! ## Members -/

section Shape

variable {rootId : String} {l : List TreeCostGoal}

theorem id_ne_empty (g : TreeCostGoal) : g.id ≠ "" := g.idOk.1

theorem parentOf_iff {g : TreeCostGoal} {p : String} :
    parentOf g = some p ↔ p ≠ "" ∧ g.shape.parentGoalId = p := by
  show g.parentGoalId.filter (· ≠ "") = some p ↔ p ≠ "" ∧ g.parentGoalId.getD "" = p
  rw [Option.filter_eq_some_iff]
  cases g.parentGoalId with
  | none =>
    constructor
    · intro h
      cases h.1
    · rintro ⟨hne, rfl⟩
      exact absurd rfl hne
  | some q => simp [and_comm]

theorem accept_treeOpts (g : TreeCostGoal) : SubtreeWalk.accept treeOpts g = true := rfl

theorem goalById_eq (hids : (l.map TreeCostGoal.id).Nodup) (id : String) :
    goalById l id = l.find? (·.id = id) := by
  have hget := JsMap.get?_foldl_set SubtreeGoal.id (fun g : TreeCostGoal => g) [] hids id
  rw [goalById, SubtreeWalk.byId, hget]
  show ((l.find? (·.id = id)).map fun g => g).or _ = _
  cases l.find? (·.id = id) <;> rfl

theorem goalById_iff (hids : (l.map TreeCostGoal.id).Nodup) {id : String} {g : TreeCostGoal} :
    goalById l id = some g ↔ g ∈ l ∧ g.id = id := by
  rw [goalById_eq hids]
  exact Keyed.find?_key_iff hids

theorem mem_treeMembers (hids : (l.map TreeCostGoal.id).Nodup) (hroot : rootId ≠ "")
    (g : TreeCostGoal) :
    g ∈ treeMembers rootId l ↔
      g ∈ l ∧ ∃ d ≤ 32, Depth SubtreeGoal.id parentOf l rootId d g.id := by
  rw [treeMembers, mem_walkGoalSubtree hids, accept_treeOpts, climbs_iff_depth]
  exact ⟨fun h => ⟨h.2.1, h.2.2.2.2⟩, fun h => ⟨hroot, h.1, rfl, fun _ => rfl, h.2⟩⟩

theorem treeMembers_eq (hids : (l.map TreeCostGoal.id).Nodup) (hroot : rootId ≠ "") :
    treeMembers rootId l = (l.find? (·.id = rootId)).toList ++
      levels SubtreeGoal.id parentOf l rootId 32 := by
  have haccept : ∀ l : List TreeCostGoal, l.filter (SubtreeWalk.accept treeOpts) = l :=
    fun l => List.filter_eq_self.mpr fun g _ => accept_treeOpts g
  rw [treeMembers, walkGoalSubtree_eq hids hroot, haccept, haccept]
  rfl

theorem nextLevel_eq (keys : List String) :
    nextLevel SubtreeGoal.id parentOf l rootId keys =
      keys.flatMap fun p => (kids parentOf l p).filter fun g => SubtreeGoal.id g ≠ rootId := by
  rw [nextLevel, List.filter_flatMap]

end Shape

/-! ## Two lists with one signature -/

/-- The second list has grown out of the first one, and the members have the same shapes. -/
structure SameTree (rootId : String) (l l' : List TreeCostGoal) : Prop where
  ids : (l.map TreeCostGoal.id).Nodup
  ids' : (l'.map TreeCostGoal.id).Nodup
  grown : (l.map TreeCostGoal.id).Sublist (l'.map TreeCostGoal.id)
  shapes : ((treeMembers rootId l).map TreeCostGoal.shape).Perm
    ((treeMembers rootId l').map TreeCostGoal.shape)
  root : ∃ g ∈ l, g.id = rootId

namespace SameTree

variable {rootId : String} {l l' : List TreeCostGoal}

theorem rootId_ne (h : SameTree rootId l l') : rootId ≠ "" := by
  obtain ⟨g, -, rfl⟩ := h.root
  exact id_ne_empty g

theorem counterpart (h : SameTree rootId l l') :
    (∀ g ∈ treeMembers rootId l, ∃ g' ∈ treeMembers rootId l', g'.shape = g.shape) ∧
      ∀ g' ∈ treeMembers rootId l', ∃ g ∈ treeMembers rootId l, g.shape = g'.shape := by
  constructor
  · intro g hg
    exact List.mem_map.mp (h.shapes.mem_iff.mp (List.mem_map_of_mem hg))
  · intro g' hg'
    exact List.mem_map.mp (h.shapes.mem_iff.mpr (List.mem_map_of_mem hg'))

theorem shape_eq (h : SameTree rootId l l') {g g' : TreeCostGoal} (hg : g ∈ treeMembers rootId l)
    (hg' : g' ∈ l') (hid : g.id = g'.id) : g.shape = g'.shape := by
  obtain ⟨g'', hg'', hshape⟩ := h.counterpart.1 g hg
  have hmem := ((mem_treeMembers h.ids' h.rootId_ne g'').mp hg'').1
  have hsame : g''.id = g'.id := (congrArg GoalShape.id hshape).trans hid
  rw [← hshape, List.inj_on_of_nodup_map h.ids' hmem hg' hsame]

theorem map_shape_kids (h : SameTree rootId l l') {d : Nat} (hd : d < 32) {p : String}
    (hp : Depth SubtreeGoal.id parentOf l rootId d p)
    (hp' : Depth SubtreeGoal.id parentOf l' rootId d p) :
    ((kids parentOf l p).filter fun g => SubtreeGoal.id g ≠ rootId).map TreeCostGoal.shape =
      ((kids parentOf l' p).filter fun g => SubtreeGoal.id g ≠ rootId).map TreeCostGoal.shape := by
  have hkid : ∀ {l : List TreeCostGoal} {g : TreeCostGoal},
      (g ∈ (kids parentOf l p).filter fun g => SubtreeGoal.id g ≠ rootId) ↔
        g ∈ l ∧ parentOf g = some p ∧ g.id ≠ rootId := by
    intro l g
    rw [List.mem_filter, mem_kids, decide_eq_true_eq, and_assoc]
    rfl
  have hmember : ∀ {g : TreeCostGoal}, g ∈ l → parentOf g = some p → g.id ≠ rootId →
      g ∈ treeMembers rootId l := fun hg hparent hne =>
    (mem_treeMembers h.ids h.rootId_ne _).mpr ⟨hg, d + 1, hd, .child hp hg hparent hne⟩
  have hmember' : ∀ {g : TreeCostGoal}, g ∈ l' → parentOf g = some p → g.id ≠ rootId →
      g ∈ treeMembers rootId l' := fun hg hparent hne =>
    (mem_treeMembers h.ids' h.rootId_ne _).mpr ⟨hg, d + 1, hd, .child hp' hg hparent hne⟩
  -- both lists of ids stand in the order of the second list
  have hids : ((kids parentOf l p).filter fun g => SubtreeGoal.id g ≠ rootId).map
        TreeCostGoal.id =
      ((kids parentOf l' p).filter fun g => SubtreeGoal.id g ≠ rootId).map TreeCostGoal.id := by
    refine sublist_ext h.ids' (((List.filter_sublist.trans List.filter_sublist).map _).trans
      h.grown) ((List.filter_sublist.trans List.filter_sublist).map _) fun id => ?_
    simp only [List.mem_map, hkid]
    constructor
    · rintro ⟨g, ⟨hg, hparent, hne⟩, rfl⟩
      obtain ⟨g', hg', hshape⟩ := h.counterpart.1 g (hmember hg hparent hne)
      have hid : g'.id = g.id := congrArg GoalShape.id hshape
      refine ⟨g', ⟨((mem_treeMembers h.ids' h.rootId_ne g').mp hg').1, ?_, hid ▸ hne⟩, hid⟩
      rw [parentOf_iff, hshape, ← parentOf_iff]
      exact hparent
    · rintro ⟨g', ⟨hg', hparent, hne⟩, rfl⟩
      obtain ⟨g, hg, hshape⟩ := h.counterpart.2 g' (hmember' hg' hparent hne)
      have hid : g.id = g'.id := congrArg GoalShape.id hshape
      refine ⟨g, ⟨((mem_treeMembers h.ids h.rootId_ne g).mp hg).1, ?_, hid ▸ hne⟩, hid⟩
      rw [parentOf_iff, hshape, ← parentOf_iff]
      exact hparent
  refine map_eq_of_map_eq hids fun g hg g' hg' hid => ?_
  obtain ⟨hg, hparent, hne⟩ := hkid.mp hg
  exact h.shape_eq (hmember hg hparent hne) (hkid.mp hg').1 hid

theorem levelKeys_eq (h : SameTree rootId l l') {d : Nat} (hd : d ≤ 32) :
    levelKeys SubtreeGoal.id parentOf l rootId d =
      levelKeys SubtreeGoal.id parentOf l' rootId d ∧
    (0 < d → (level SubtreeGoal.id parentOf l rootId (d - 1)).map TreeCostGoal.shape =
      (level SubtreeGoal.id parentOf l' rootId (d - 1)).map TreeCostGoal.shape) := by
  induction d with
  | zero => exact ⟨rfl, fun h => absurd h (Nat.lt_irrefl 0)⟩
  | succ d ih =>
    have hkeys := (ih (by omega)).1
    have hshape : (level SubtreeGoal.id parentOf l rootId d).map TreeCostGoal.shape =
        (level SubtreeGoal.id parentOf l' rootId d).map TreeCostGoal.shape := by
      rw [level, level, nextLevel_eq, nextLevel_eq, List.map_flatMap, List.map_flatMap, ← hkeys]
      refine List.flatMap_congr fun p hp => ?_
      exact h.map_shape_kids (by omega) (mem_levelKeys.mp hp) (mem_levelKeys.mp (hkeys ▸ hp))
    refine ⟨?_, fun _ => hshape⟩
    have hid : ∀ l : List TreeCostGoal,
        l.map SubtreeGoal.id = (l.map TreeCostGoal.shape).map GoalShape.id := by
      intro l
      rw [List.map_map]
      rfl
    rw [levelKeys_succ, levelKeys_succ, hid, hid, hshape]

theorem map_shape_treeMembers (h : SameTree rootId l l') :
    (treeMembers rootId l).map TreeCostGoal.shape =
      (treeMembers rootId l').map TreeCostGoal.shape := by
  obtain ⟨root, hroot, hid⟩ := h.root
  have hmember : root ∈ treeMembers rootId l :=
    (mem_treeMembers h.ids h.rootId_ne root).mpr ⟨hroot, 0, by omega, hid ▸ .root⟩
  obtain ⟨root', hmember', hshape⟩ := h.counterpart.1 root hmember
  have hroot' := ((mem_treeMembers h.ids' h.rootId_ne root').mp hmember').1
  have hid' : root'.id = rootId := (congrArg GoalShape.id hshape).trans hid
  rw [treeMembers_eq h.ids h.rootId_ne, treeMembers_eq h.ids' h.rootId_ne, ← goalById_eq h.ids,
    ← goalById_eq h.ids', (goalById_iff h.ids).mpr ⟨hroot, hid⟩,
    (goalById_iff h.ids').mpr ⟨hroot', hid'⟩, List.map_append, List.map_append, levels, levels,
    List.map_flatMap, List.map_flatMap]
  congr 1
  · exact congrArg (fun shape => [shape]) hshape.symm
  · refine List.flatMap_congr fun d hd => ?_
    exact (h.levelKeys_eq (d := d + 1) (List.mem_range.mp hd)).2 (Nat.succ_pos d)

/-! ## Depths -/

/-- The members within the cap are the same keys at the same depths. -/
theorem depth_iff (h : SameTree rootId l l') {d : Nat} (hd : d ≤ 32) (a : String) :
    Depth SubtreeGoal.id parentOf l rootId d a ↔ Depth SubtreeGoal.id parentOf l' rootId d a := by
  rw [← mem_levelKeys, ← mem_levelKeys, (h.levelKeys_eq hd).1]

end SameTree

/-- One step up from an id to the id of the parent, if both goals are there. -/
def upIn (l : List TreeCostGoal) (a : String) : Option String :=
  (goalById l a).bind fun g => (parentOf g).filter fun p => (goalById l p).isSome

section Climb

variable {rootId : String} {l : List TreeCostGoal}

theorem upIn_iff (hids : (l.map TreeCostGoal.id).Nodup) {a b : String} :
    upIn l a = some b ↔
      ∃ g ∈ l, g.id = a ∧ parentOf g = some b ∧ ∃ p ∈ l, p.id = b := by
  unfold upIn
  rw [Option.bind_eq_some_iff]
  simp only [Option.filter_eq_some_iff, Option.isSome_iff_exists, goalById_iff hids]
  constructor
  · rintro ⟨g, ⟨hg, hid⟩, hparent, p, hp, hpid⟩
    exact ⟨g, hg, hid, hparent, p, hp, hpid⟩
  · rintro ⟨g, hg, hid, hparent, p, hp, hpid⟩
    exact ⟨g, ⟨hg, hid⟩, hparent, p, hp, hpid⟩

theorem depthFrom_eq (hids : (l.map TreeCostGoal.id).Nodup) (n : Nat) (seen : List String)
    {g : TreeCostGoal} (hg : g ∈ l) : depthFrom l n seen g = climb (upIn l) n seen g.id := by
  induction n generalizing seen g with
  | zero => rfl
  | succ n ih =>
    have hget : goalById l g.id = some g := (goalById_iff hids).mpr ⟨hg, rfl⟩
    have hup : upIn l g.id = (parentOf g).filter fun p => (goalById l p).isSome := by
      rw [upIn, hget]
      rfl
    have hparent : presentId g.parentGoalId = parentOf g := rfl
    rw [depthFrom, hparent]
    cases hp : parentOf g with
    | none =>
      rw [hp] at hup
      exact (climb_none hup).symm
    | some pid =>
      rw [hp] at hup
      dsimp only
      by_cases hseen : g.id ∈ seen
      · rw [if_pos hseen, climb_seen hseen]
      · rw [if_neg hseen]
        cases hnext : goalById l pid with
        | none =>
          rw [Option.filter_some, hnext] at hup
          exact (climb_none hup).symm
        | some next =>
          rw [Option.filter_some, hnext] at hup
          obtain ⟨hmem, hid⟩ := (goalById_iff hids).mp hnext
          rw [climb_some hseen hup, ← hid]
          dsimp only
          rw [ih _ hmem]

theorem exists_of_depth (hroot : ∃ g ∈ l, g.id = rootId) {d : Nat} {a : String}
    (h : Depth SubtreeGoal.id parentOf l rootId d a) : ∃ g ∈ l, g.id = a := by
  cases h with
  | root => exact hroot
  | child _ hg _ _ => exact ⟨_, hg, rfl⟩

/-- The depth of a member is that of the root and its own below it, when the parent of the root does
not lie below it. -/
theorem climb_member (hids : (l.map TreeCostGoal.id).Nodup) (hroot : ∃ g ∈ l, g.id = rootId)
    (habove : ∀ b, upIn l rootId = some b →
      ∀ d, Depth SubtreeGoal.id parentOf l rootId d b → 32 ≤ d) {k : Nat} (hk : k ≤ 32)
    {a : String} (ha : Depth SubtreeGoal.id parentOf l rootId k a) :
    climb (upIn l) 32 [] a = min 32 (climb (upIn l) 32 [] rootId + k) := by
  refine climb_through (fun a h => depth_zero h) (fun d a h => ?_)
    (fun d d' a h h' => depth_unique hids h h') (fun d a b hup h _ hne => ?_) habove ha hk
  · refine ⟨h.ne_root, ?_⟩
    cases h with
    | child hp hg hparent hne =>
      exact ⟨_, (upIn_iff hids).mpr ⟨_, hg, rfl, hparent, exists_of_depth hroot hp⟩, hp⟩
  · obtain ⟨g, hg, rfl, hparent, -⟩ := (upIn_iff hids).mp hup
    exact .child h hg hparent hne

end Climb

namespace SameTree

variable {rootId : String} {l l' : List TreeCostGoal}

theorem root' (h : SameTree rootId l l') : ∃ g ∈ l', g.id = rootId := by
  obtain ⟨g, hg, hid⟩ := h.root
  obtain ⟨g', hg', hid'⟩ := List.mem_map.mp (h.grown.subset (List.mem_map_of_mem hg))
  exact ⟨g', hg', hid'.trans hid⟩

/-- A step up from a member to another one is there in both lists. -/
theorem upIn_eq (h : SameTree rootId l l') {d e : Nat} {a b : String} (hd : d ≤ 32) (he : e ≤ 32)
    (ha : Depth SubtreeGoal.id parentOf l rootId d a)
    (hb : Depth SubtreeGoal.id parentOf l rootId e b) :
    upIn l a = some b ↔ upIn l' a = some b := by
  have hb' := exists_of_depth h.root hb
  have hb'' := exists_of_depth h.root' ((h.depth_iff he b).mp hb)
  obtain ⟨g, hg, rfl⟩ := exists_of_depth h.root ha
  have hmember := (mem_treeMembers h.ids h.rootId_ne g).mpr ⟨hg, d, hd, ha⟩
  rw [upIn_iff h.ids, upIn_iff h.ids']
  constructor
  · rintro ⟨g₁, hg₁, hid, hparent, -⟩
    obtain ⟨g', hg', hshape⟩ := h.counterpart.1 g hmember
    rw [List.inj_on_of_nodup_map h.ids hg₁ hg hid, parentOf_iff, ← hshape, ← parentOf_iff] at hparent
    exact ⟨g', ((mem_treeMembers h.ids' h.rootId_ne g').mp hg').1, congrArg GoalShape.id hshape,
      hparent, hb''⟩
  · rintro ⟨g', hg', hid, hparent, -⟩
    rw [parentOf_iff, ← h.shape_eq hmember hg' hid.symm, ← parentOf_iff] at hparent
    exact ⟨g, hg, rfl, hparent, hb'⟩

/-- When the parent of the root is a member, a climb from a member stays among the members. -/
theorem climb_inside (h : SameTree rootId l l') {b : String} {e : Nat} (he : e < 32)
    (hup : upIn l rootId = some b) (hb : Depth SubtreeGoal.id parentOf l rootId e b)
    {k : Nat} (hk : k ≤ 32) {a : String} (ha : Depth SubtreeGoal.id parentOf l rootId k a) :
    climb (upIn l) 32 [] a = climb (upIn l') 32 [] a := by
  refine climb_congr (S := fun a => ∃ d ≤ 32, Depth SubtreeGoal.id parentOf l rootId d a)
    (fun a ha => ?_) ⟨k, hk, ha⟩ 32 []
  obtain ⟨d, hd, ha⟩ := ha
  -- the step up from a member leads to a member
  obtain ⟨p, e', he', hp, hup⟩ : ∃ p e', e' ≤ 32 ∧ Depth SubtreeGoal.id parentOf l rootId e' p ∧
      upIn l a = some p := by
    cases ha with
    | root => exact ⟨b, e, by omega, hb, hup⟩
    | child hp hg hparent hne =>
      exact ⟨_, _, by omega, hp,
        (upIn_iff h.ids).mpr ⟨_, hg, rfl, hparent, exists_of_depth h.root hp⟩⟩
  refine ⟨hup.trans ((h.upIn_eq hd he' ha hp).mp hup).symm, fun b' hb' => ?_⟩
  rw [hup, Option.some.injEq] at hb'
  exact hb' ▸ ⟨e', he', hp⟩

/-- The depths of the members agree when the depth of the root does. -/
theorem climb_eq (h : SameTree rootId l l')
    (hroot : climb (upIn l) 32 [] rootId = climb (upIn l') 32 [] rootId) {k : Nat} (hk : k ≤ 32)
    {a : String} (ha : Depth SubtreeGoal.id parentOf l rootId k a) :
    climb (upIn l) 32 [] a = climb (upIn l') 32 [] a := by
  by_cases hin : ∃ b e, e < 32 ∧ upIn l rootId = some b ∧
      Depth SubtreeGoal.id parentOf l rootId e b
  · obtain ⟨b, e, he, hup, hb⟩ := hin
    exact h.climb_inside he hup hb hk ha
  · have habove : ∀ b, upIn l rootId = some b →
        ∀ d, Depth SubtreeGoal.id parentOf l rootId d b → 32 ≤ d := by
      intro b hup d hd
      by_contra hlt
      exact hin ⟨b, d, by omega, hup, hd⟩
    have habove' : ∀ b, upIn l' rootId = some b →
        ∀ d, Depth SubtreeGoal.id parentOf l' rootId d b → 32 ≤ d := by
      intro b hup d hd
      by_contra hlt
      have hb := (h.depth_iff (by omega) b).mpr hd
      exact hin ⟨b, d, by omega,
        (h.upIn_eq (Nat.zero_le _) (by omega) .root hb).mpr hup, hb⟩
    rw [climb_member h.ids h.root habove hk ha,
      climb_member h.ids' h.root' habove' hk ((h.depth_iff hk a).mp ha), hroot]

/-- The depths of the members agree exactly when the depth of the root does. -/
theorem depthOf_eq (h : SameTree rootId l l') {root root' g g' : TreeCostGoal}
    (hroot : goalById l rootId = some root) (hroot' : goalById l' rootId = some root')
    (hdepth : depthOf l root = depthOf l' root') (hg : g ∈ treeMembers rootId l) (hg' : g' ∈ l')
    (hid : g.id = g'.id) : depthOf l g = depthOf l' g' := by
  obtain ⟨hmem, hrootId⟩ := (goalById_iff h.ids).mp hroot
  obtain ⟨hmem', hrootId'⟩ := (goalById_iff h.ids').mp hroot'
  obtain ⟨hgl, k, hk, hdepthG⟩ := (mem_treeMembers h.ids h.rootId_ne g).mp hg
  rw [depthOf, depthOf, depthFrom_eq h.ids _ _ hmem, depthFrom_eq h.ids' _ _ hmem', hrootId,
    hrootId'] at hdepth
  rw [depthOf, depthOf, depthFrom_eq h.ids _ _ hgl, depthFrom_eq h.ids' _ _ hg', ← hid]
  exact h.climb_eq hdepth hk hdepthG

end SameTree

end Bobbit.Server
