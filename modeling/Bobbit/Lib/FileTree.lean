import Mathlib

/-!
# Trees of files

A tree of files as the list of its paths, each with what stands there. A directory is listed by
the paths one name longer, in the order of the list.

## Key results
- `mem_children`, `lookup_of_unique`: what listing and looking up find.
- `mkdirs_eq_append`: making a directory with its parents adds directories.
-/

namespace Bobbit.Lib.FileTree

inductive Entry (ε : Type) where
  | dir
  | leaf (a : ε)
  deriving DecidableEq

def Entry.map {ε δ : Type} (f : ε → δ) : Entry ε → Entry δ
  | .dir => .dir
  | .leaf a => .leaf (f a)

abbrev Tree (ν ε : Type) := List (List ν × Entry ε)

variable {ν ε : Type} [DecidableEq ν]

def lookup (t : Tree ν ε) (p : List ν) : Option (Entry ε) := (t.find? (·.1 = p)).map (·.2)

/-- The last name of a path in a directory. -/
def nameIn (p q : List ν) : Option ν := if q.dropLast = p then q.getLast? else none

/-- `readdir`. -/
def children (t : Tree ν ε) (p : List ν) : List ν := (t.map (·.1)).filterMap (nameIn p)

/-- Where a path is after `src` has been renamed to `dst`. -/
def relocate (src dst p : List ν) : List ν :=
  if src <+: p then dst ++ p.drop src.length else p

def rename (t : Tree ν ε) (src dst : List ν) : Tree ν ε :=
  t.map fun e => (relocate src dst e.1, e.2)

/-- A directory is made where nothing stands. -/
def mkdir (t : Tree ν ε) (p : List ν) : Tree ν ε :=
  if (lookup t p).isSome then t else t ++ [(p, .dir)]

/-- A directory is made, with its parents. -/
def mkdirs (t : Tree ν ε) (p : List ν) : Tree ν ε := (p.inits.filter (· ≠ [])).foldl mkdir t

/-- Each path stands once, below directories. -/
structure Valid (t : Tree ν ε) : Prop where
  nodup : (t.map (·.1)).Nodup
  parent : ∀ p n e, (p ++ [n], e) ∈ t → p ≠ [] → (p, .dir) ∈ t

variable {t : Tree ν ε} {p q : List ν} {e e' : Entry ε}

/-! ## Looking up and listing -/

theorem lookup_of_unique (h : (p, e) ∈ t) (hunique : ∀ e', (p, e') ∈ t → e' = e) :
    lookup t p = some e := by
  cases hfind : t.find? (·.1 = p) with
  | none => exact absurd (List.find?_eq_none.mp hfind (p, e) h) (by simp)
  | some x =>
    have hkey := List.find?_some hfind
    have hmem := List.mem_of_find?_eq_some hfind
    rw [decide_eq_true_eq] at hkey
    rw [lookup, hfind, Option.map_some, hunique x.2 (hkey ▸ hmem)]

theorem mem_of_lookup (h : lookup t p = some e) : (p, e) ∈ t := by
  obtain ⟨x, hfind, rfl⟩ := Option.map_eq_some_iff.mp h
  have hkey := List.find?_some hfind
  rw [decide_eq_true_eq] at hkey
  exact hkey ▸ List.mem_of_find?_eq_some hfind

theorem lookup_eq_none_iff : lookup t p = none ↔ ∀ e, (p, e) ∉ t := by
  rw [lookup, Option.map_eq_none_iff, List.find?_eq_none]
  constructor
  · intro h e hmem
    exact h (p, e) hmem (by simp)
  · intro h x hx hkey
    rw [decide_eq_true_eq] at hkey
    exact h x.2 (hkey ▸ hx)

theorem nameIn_eq_some_iff {n : ν} : nameIn p q = some n ↔ q = p ++ [n] := by
  rw [nameIn]
  constructor
  · intro h
    split at h
    · rename_i hparent
      obtain ⟨init, rfl⟩ := List.getLast?_eq_some_iff.mp h
      rw [← hparent, List.dropLast_concat]
    · cases h
  · rintro rfl
    rw [List.dropLast_concat, if_pos rfl, List.getLast?_concat]

theorem mem_children {n : ν} : n ∈ children t p ↔ ∃ e, (p ++ [n], e) ∈ t := by
  rw [children, List.mem_filterMap]
  constructor
  · rintro ⟨q, hq, h⟩
    obtain ⟨x, hx, rfl⟩ := List.mem_map.mp hq
    exact ⟨x.2, nameIn_eq_some_iff.mp h ▸ hx⟩
  · rintro ⟨e, he⟩
    exact ⟨p ++ [n], List.mem_map.mpr ⟨_, he, rfl⟩, nameIn_eq_some_iff.mpr rfl⟩

namespace Valid

omit [DecidableEq ν] in
theorem unique (ht : Valid t) (h : (p, e) ∈ t) (h' : (p, e') ∈ t) : e = e' := by
  have := List.inj_on_of_nodup_map ht.nodup h h' rfl
  exact congrArg Prod.snd this

omit [DecidableEq ν] in
theorem above (ht : Valid t) (hp : p ≠ []) (hne : p ≠ q) (hpq : p <+: q) (h : (q, e) ∈ t) :
    (p, .dir) ∈ t := by
  obtain ⟨rest, rfl⟩ := hpq
  induction rest using List.reverseRecOn generalizing e with
  | nil => exact absurd (List.append_nil p).symm hne
  | append_singleton rest n ih =>
    rw [← List.append_assoc] at h
    have hparent := ht.parent _ _ _ h (by simp [hp])
    by_cases hrest : rest = []
    · rwa [hrest, List.append_nil] at hparent
    · exact ih (by simpa using hrest) hparent

theorem children_nodup (ht : Valid t) (p : List ν) : (children t p).Nodup := by
  refine ht.nodup.filterMap fun q q' n hq hq' => ?_
  rw [nameIn_eq_some_iff.mp hq, nameIn_eq_some_iff.mp hq']

end Valid

/-! ## Making directories -/

theorem mkdir_eq_append (t : Tree ν ε) (p : List ν) :
    ∃ made, mkdir t p = t ++ made ∧ ∀ x ∈ made, x = (p, .dir) ∧ ∀ e, (p, e) ∉ t := by
  rw [mkdir]
  split
  · exact ⟨[], (List.append_nil t).symm, fun x hx => absurd hx List.not_mem_nil⟩
  · rename_i hnone
    rw [Option.not_isSome_iff_eq_none, lookup_eq_none_iff] at hnone
    exact ⟨_, rfl, fun x hx => ⟨List.mem_singleton.mp hx, hnone⟩⟩

/-- Directories are added, at paths above the one that is made or at it. -/
theorem mkdirs_eq_append (t : Tree ν ε) (p : List ν) :
    ∃ made, mkdirs t p = t ++ made ∧ ∀ x ∈ made, x.2 = .dir ∧ x.1 ≠ [] ∧ x.1 <+: p := by
  have hfold : ∀ (paths : List (List ν)) (t : Tree ν ε), (∀ q ∈ paths, q ≠ [] ∧ q <+: p) →
      ∃ made, paths.foldl mkdir t = t ++ made ∧ ∀ x ∈ made, x.2 = .dir ∧ x.1 ≠ [] ∧ x.1 <+: p := by
    intro paths
    induction paths with
    | nil =>
      exact fun t _ => ⟨[], (List.append_nil t).symm, fun x hx => absurd hx List.not_mem_nil⟩
    | cons q rest ih =>
      intro t hpaths
      obtain ⟨made, hmade, hspec⟩ := mkdir_eq_append t q
      obtain ⟨more, hmore, hspec'⟩ := ih (t ++ made) fun r hr => hpaths r (List.mem_cons_of_mem _ hr)
      refine ⟨made ++ more, ?_, fun x hx => ?_⟩
      · rw [List.foldl_cons, hmade, hmore, List.append_assoc]
      · rcases List.mem_append.mp hx with hx | hx
        · rw [(hspec x hx).1]
          exact ⟨rfl, hpaths q List.mem_cons_self⟩
        · exact hspec' x hx
  refine hfold _ t fun q hq => ?_
  rw [List.mem_filter, decide_eq_true_eq, List.mem_inits] at hq
  exact ⟨hq.2, hq.1⟩

end Bobbit.Lib.FileTree
