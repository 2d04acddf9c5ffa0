import Mathlib

/-!
# Trees given by parent pointers

Nodes in a list, each with a key and at most one parent key; keys are not repeated. `Depth` is the
number of steps from a key up to the root, `level` lists the nodes of one depth in breadth-first
order, and `Below` is the ancestor relation on the way up to the root. The parent pointers are
arbitrary: there may be cycles, pointers to nothing, and a parent of the root.

## Key results

- `depth_unique`: a key has one depth
- `mem_level`, `nodup_level`: a level lists the nodes of its depth, each once
- `Below.depth_lt`: whoever is above on the way to the root has a smaller depth
- `climbs_iff_depth`: a chain of parents to the root of bounded length
- `pairwise_levels`: levels one after the other list a node before what is below it
-/

namespace Bobbit.Lib.ParentTree

open Relation

variable {γ κ : Type} (key : γ → κ) (parent : γ → Option κ) (nodes : List γ)
  (root : κ)

/-- The steps from a key up to the root. -/
inductive Depth : Nat → κ → Prop
  | root : Depth 0 root
  | child {d : Nat} {p : κ} {g : γ} (hp : Depth d p) (hg : g ∈ nodes)
    (hparent : parent g = some p) (hne : key g ≠ root) : Depth (d + 1) (key g)

/-- One step up, not from the root. -/
def Edge (c p : κ) : Prop := c ≠ root ∧ ∃ g ∈ nodes, key g = c ∧ parent g = some p

/-- The second key lies above the first one on its way to the root. -/
def Below : κ → κ → Prop := TransGen (Edge key parent nodes root)

/-- A number of steps up from a key to a target, whatever lies between. -/
inductive Climbs (target : κ) : Nat → κ → Prop
  | refl : Climbs target 0 target
  | up {n : Nat} {p : κ} {g : γ} (hg : g ∈ nodes) (hparent : parent g = some p)
    (h : Climbs target n p) : Climbs target (n + 1) (key g)

variable {key parent nodes root}

theorem eq_of_key (hnodup : (nodes.map key).Nodup) {g g' : γ} (hg : g ∈ nodes) (hg' : g' ∈ nodes)
    (h : key g = key g') : g = g' := List.inj_on_of_nodup_map hnodup hg hg' h

/-! ## Depth -/

theorem depth_unique (hnodup : (nodes.map key).Nodup) {d d' : Nat} {a : κ}
    (h : Depth key parent nodes root d a) (h' : Depth key parent nodes root d' a) : d = d' := by
  induction h generalizing d' with
  | root =>
    cases h' with
    | root => rfl
    | child _ _ _ hne => exact absurd rfl hne
  | child hp hg hparent hne ih =>
    rename_i g
    generalize hkey : key g = a at h'
    cases h' with
    | root => exact absurd hkey hne
    | child hp' hg' hparent' hne' =>
      have hsame := eq_of_key hnodup hg hg' hkey
      rw [← hsame, hparent, Option.some.injEq] at hparent'
      rw [ih (hparent' ▸ hp')]

theorem depth_zero {a : κ} (h : Depth key parent nodes root 0 a) : a = root := by
  cases h
  rfl

theorem Depth.ne_root {d : Nat} {a : κ} (h : Depth key parent nodes root (d + 1) a) : a ≠ root := by
  cases h with
  | child _ _ _ hne => exact hne

/-- Whoever is above on the way to the root has a smaller depth. -/
theorem Below.depth_lt (hnodup : (nodes.map key).Nodup) {c a : κ}
    (h : Below key parent nodes root c a) {d : Nat} (hd : Depth key parent nodes root d c) :
    ∃ e < d, Depth key parent nodes root e a := by
  -- a step up is the step that the depth counts
  have hstep : ∀ {c p : κ} {d : Nat}, Edge key parent nodes root c p →
      Depth key parent nodes root d c → ∃ e < d, Depth key parent nodes root e p := by
    rintro c p d ⟨hne, g, hg, hkey, hparent⟩ hdepth
    cases hdepth with
    | root => exact absurd rfl hne
    | child hp hg' hparent' hne' =>
      have hsame := eq_of_key hnodup hg hg' hkey
      rw [← hsame, hparent, Option.some.injEq] at hparent'
      exact ⟨_, Nat.lt_succ_self _, hparent' ▸ hp⟩
  induction h with
  | single hedge => exact hstep hedge hd
  | tail hbelow hedge ih =>
    obtain ⟨e, he, hdepth⟩ := ih
    obtain ⟨e', he', hdepth'⟩ := hstep hedge hdepth
    exact ⟨e', he'.trans he, hdepth'⟩

/-- A chain of parents from a key to the root, of bounded length, is a depth within the bound. -/
theorem climbs_iff_depth {a : κ} {bound : Nat} :
    (∃ n ≤ bound, Climbs key parent nodes root n a) ↔
      ∃ d ≤ bound, Depth key parent nodes root d a := by
  constructor
  · rintro ⟨n, hn, h⟩
    induction h generalizing bound with
    | refl => exact ⟨0, Nat.zero_le _, .root⟩
    | up hg hparent h ih =>
      rename_i m p g
      -- the chain may come to the root before its end
      by_cases hkey : key g = root
      · exact ⟨0, Nat.zero_le _, by rw [hkey]; exact .root⟩
      · obtain ⟨d, hd, hdepth⟩ := ih (Nat.le_refl m)
        exact ⟨d + 1, by omega, .child hdepth hg hparent hkey⟩
  · rintro ⟨d, hd, h⟩
    refine ⟨d, hd, ?_⟩
    clear hd
    induction h with
    | root => exact .refl
    | child _ hg hparent _ ih => exact .up hg hparent ih

/-! ## Levels -/

section Levels

variable [DecidableEq κ]

variable (parent nodes) in
def kids (p : κ) : List γ := nodes.filter fun g => parent g = some p

variable (key parent nodes root) in
/-- The nodes below the root one step further down than the keys of a level. -/
def nextLevel (keys : List κ) : List γ :=
  (keys.flatMap (kids parent nodes)).filter fun g => key g ≠ root

variable (key parent nodes root) in
def levelKeys : Nat → List κ
  | 0 => [root]
  | d + 1 => (nextLevel key parent nodes root (levelKeys d)).map key

variable (key parent nodes root) in
/-- The nodes of a level below the root. -/
def level (d : Nat) : List γ :=
  nextLevel key parent nodes root (levelKeys key parent nodes root d)

theorem levelKeys_succ (d : Nat) :
    levelKeys key parent nodes root (d + 1) = (level key parent nodes root d).map key := rfl

theorem level_eq_nil {d : Nat} (h : levelKeys key parent nodes root d = []) (i : Nat) :
    level key parent nodes root (d + i) = [] := by
  have hkeys : levelKeys key parent nodes root (d + i) = [] := by
    induction i with
    | zero => exact h
    | succ i ih =>
      rw [← Nat.add_assoc, levelKeys_succ, level, ih]
      rfl
  rw [level, hkeys]
  rfl

theorem mem_kids {p : κ} {g : γ} : g ∈ kids parent nodes p ↔ g ∈ nodes ∧ parent g = some p := by
  simp [kids]

theorem mem_levelKeys {d : Nat} {a : κ} :
    a ∈ levelKeys key parent nodes root d ↔ Depth key parent nodes root d a := by
  induction d generalizing a with
  | zero =>
    rw [levelKeys, List.mem_singleton]
    exact ⟨fun h => h ▸ .root, depth_zero⟩
  | succ d ih =>
    simp only [levelKeys, nextLevel, List.mem_map, List.mem_filter, List.mem_flatMap, mem_kids,
      decide_eq_true_eq]
    constructor
    · rintro ⟨g, ⟨⟨p, hp, hg, hparent⟩, hne⟩, rfl⟩
      exact .child (ih.mp hp) hg hparent hne
    · intro h
      cases h with
      | child hp hg hparent hne => exact ⟨_, ⟨⟨_, ih.mpr hp, hg, hparent⟩, hne⟩, rfl⟩

theorem mem_level (hnodup : (nodes.map key).Nodup) {d : Nat} {g : γ} :
    g ∈ level key parent nodes root d ↔
      g ∈ nodes ∧ Depth key parent nodes root (d + 1) (key g) := by
  have hmem : ∀ {g : γ}, g ∈ level key parent nodes root d → g ∈ nodes := by
    intro g hg
    simp only [level, nextLevel, List.mem_filter, List.mem_flatMap, mem_kids] at hg
    exact hg.1.choose_spec.2.1
  constructor
  · intro hg
    exact ⟨hmem hg, mem_levelKeys.mp (List.mem_map_of_mem hg)⟩
  · rintro ⟨hg, hdepth⟩
    obtain ⟨g', hg', hkey⟩ := List.mem_map.mp (mem_levelKeys.mpr hdepth)
    exact eq_of_key hnodup (hmem hg') hg hkey ▸ hg'

theorem nodup_flatMap_kids (hnodup : (nodes.map key).Nodup) {keys : List κ} (h : keys.Nodup) :
    ((keys.flatMap (kids parent nodes)).map key).Nodup := by
  have hnodes : nodes.Nodup := List.Nodup.of_map key hnodup
  have hflat : (keys.flatMap (kids parent nodes)).Nodup := by
    refine List.nodup_flatMap.mpr ⟨fun p _ => hnodes.filter _, ?_⟩
    -- a node has one parent
    refine h.imp fun {p q} hpq => List.disjoint_left.mpr fun g hp hq => hpq ?_
    have hp' : parent g = some p := (mem_kids.mp hp).2
    have hsame : some p = some q := hp'.symm.trans (mem_kids.mp hq).2
    exact Option.some.inj hsame
  refine hflat.map_on fun g hg g' hg' hkey => ?_
  obtain ⟨p, _, hkid⟩ := List.mem_flatMap.mp hg
  obtain ⟨p', _, hkid'⟩ := List.mem_flatMap.mp hg'
  exact eq_of_key hnodup (mem_kids.mp hkid).1 (mem_kids.mp hkid').1 hkey

theorem nodup_levelKeys (hnodup : (nodes.map key).Nodup) (d : Nat) :
    (levelKeys key parent nodes root d).Nodup := by
  induction d with
  | zero => exact List.nodup_singleton _
  | succ d ih =>
    rw [levelKeys_succ]
    exact (nodup_flatMap_kids hnodup ih).sublist (List.filter_sublist.map key)

theorem nodup_level (hnodup : (nodes.map key).Nodup) (d : Nat) :
    ((level key parent nodes root d).map key).Nodup := by
  rw [← levelKeys_succ]
  exact nodup_levelKeys hnodup (d + 1)

/-- The levels of a range, one after the other. -/
def levels (key : γ → κ) (parent : γ → Option κ) (nodes : List γ) (root : κ) (bound : Nat) :
    List γ := (List.range bound).flatMap (level key parent nodes root)

theorem mem_levels (hnodup : (nodes.map key).Nodup) {bound : Nat} {g : γ} :
    g ∈ levels key parent nodes root bound ↔
      g ∈ nodes ∧ key g ≠ root ∧ ∃ d ≤ bound, Depth key parent nodes root d (key g) := by
  simp only [levels, List.mem_flatMap, List.mem_range, mem_level hnodup]
  constructor
  · rintro ⟨d, hd, hg, hdepth⟩
    exact ⟨hg, hdepth.ne_root, d + 1, hd, hdepth⟩
  · rintro ⟨hg, hne, d, hd, hdepth⟩
    cases d with
    | zero => exact absurd (depth_zero hdepth) hne
    | succ d => exact ⟨d, hd, hg, hdepth⟩

/-- Levels one after the other list a node before what is below it. -/
theorem pairwise_levels (hnodup : (nodes.map key).Nodup) (bound : Nat) :
    (levels key parent nodes root bound).Pairwise fun x y =>
      key x ≠ key y ∧ ¬ Below key parent nodes root (key x) (key y) := by
  -- depths do not fall along the list, and a key that is below has the greater one
  have hnot : ∀ {d e : Nat} {x y : γ}, Depth key parent nodes root d (key x) →
      Depth key parent nodes root e (key y) → d ≤ e →
      ¬ Below key parent nodes root (key x) (key y) := by
    intro d e x y hx hy hle hbelow
    obtain ⟨e', he', hy'⟩ := hbelow.depth_lt hnodup hx
    have := depth_unique hnodup hy hy'
    omega
  refine List.pairwise_flatMap.mpr ⟨fun d _ => ?_, ?_⟩
  · have hkeys := List.pairwise_map.mp (@nodup_level _ _ _ parent _ root _ hnodup d)
    refine hkeys.imp_of_mem fun {x y} hx hy hne => ⟨hne, ?_⟩
    exact hnot ((mem_level hnodup).mp hx).2 ((mem_level hnodup).mp hy).2 (Nat.le_refl _)
  · refine List.pairwise_lt_range.imp fun {d e} hlt => ?_
    intro x hx y hy
    have hdx := ((mem_level hnodup).mp hx).2
    have hdy := ((mem_level hnodup).mp hy).2
    refine ⟨fun hkey => ?_, hnot hdx hdy (by omega)⟩
    have := depth_unique hnodup hdx (hkey ▸ hdy)
    omega

end Levels

end Bobbit.Lib.ParentTree
