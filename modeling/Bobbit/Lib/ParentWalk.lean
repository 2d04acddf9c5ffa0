import Mathlib

/-!
# Memoised walks along parent links

Every node of a finite graph has at most one parent. A walk goes up from a node until it leaves the
graph or meets a node known to be resolved, and fails when it meets itself (`walk`); a pass over all
nodes keeps what the walks have resolved (`resolveAll`). `chain` lists what is above a node.

## Key results
- `resolveAll_isSome_iff`: the pass succeeds exactly when there is no cycle.
- `exists_chain`: where every walk ends, the chain of a node lists each node above it once.
- `chain_links`: a chain follows the links.
-/

namespace Bobbit.Lib.ParentWalk

open Relation

variable {α : Type} [DecidableEq α]

/-- One walk: the path extended by the nodes it has met, `none` when it meets itself. -/
def walk (up : α → Option α) (resolved : List α) : Nat → List α → Option α → Option (List α)
  | _, path, none => some path
  | 0, _, some _ => none
  | fuel + 1, path, some x =>
    if x ∈ resolved then some path
    else if x ∈ path then none
    else walk up resolved fuel (path ++ [x]) (up x)

/-- Walk from all nodes in turn; what the earlier walks have met is resolved. -/
def resolveAll (up : α → Option α) (fuel : Nat) : List α → List α → Option (List α)
  | resolved, [] => some resolved
  | resolved, x :: rest =>
    match walk up resolved fuel [] (some x) with
    | none => none
    | some path => resolveAll up fuel (resolved ++ path) rest

def Step (up : α → Option α) (a b : α) : Prop := up a = some b

/-- Every walk up from a node ends. -/
def Ends (up : α → Option α) (x : α) : Prop := Acc (fun b a => Step up a b) x

variable {up : α → Option α} {resolved nodes : List α}

omit [DecidableEq α] in
theorem Ends.not_cycle {x : α} (h : Ends up x) : ¬ TransGen (Step up) x x := by
  induction h with
  | intro x _ ih =>
    intro hcycle
    obtain ⟨y, hstep, hback⟩ := TransGen.head'_iff.mp hcycle
    exact ih y hstep (TransGen.tail' hback hstep)

omit [DecidableEq α] in
theorem ends_of_up {x : α} (h : ∀ y, up x = some y → Ends up y) : Ends up x :=
  Acc.intro x fun y hy => h y hy

/-! ## One walk -/

/-- From all that a successful walk has met, walks end. -/
theorem walk_ends (hresolved : ∀ r ∈ resolved, Ends up r) {fuel : Nat} {path path' : List α}
    {current : Option α} (h : walk up resolved fuel path current = some path') :
    (∀ x, current = some x → Ends up x) ∧ ∀ y ∈ path', y ∈ path ∨ Ends up y := by
  induction fuel generalizing path current with
  | zero =>
    cases current with
    | none =>
      obtain rfl := Option.some.inj h
      exact ⟨by simp, fun y hy => .inl hy⟩
    | some x => cases h
  | succ fuel ih =>
    cases current with
    | none =>
      obtain rfl := Option.some.inj h
      exact ⟨by simp, fun y hy => .inl hy⟩
    | some x =>
      rw [walk] at h
      split at h
      · rename_i hx
        obtain rfl := Option.some.inj h
        refine ⟨?_, fun y hy => .inl hy⟩
        intro y hy
        rw [← Option.some.inj hy]
        exact hresolved x hx
      · split at h
        · cases h
        · obtain ⟨hup, hmem⟩ := ih h
          have hx : Ends up x := ends_of_up hup
          refine ⟨?_, ?_⟩
          · intro y hy
            rw [← Option.some.inj hy]
            exact hx
          · intro y hy
            rcases hmem y hy with hpath | hends
            · rcases List.mem_append.mp hpath with hpath | hlast
              · exact .inl hpath
              · rw [List.mem_singleton.mp hlast]
                exact .inr hx
            · exact .inr hends

/-- A walk that fails has come back to its path: a longer one has no room in the graph. -/
theorem exists_cycle_of_walk (hnodes : ∀ x y, up x = some y → y ∈ nodes) {fuel : Nat} {path : List α}
    {current : Option α} (hpath : path.Nodup) (hmem : ∀ p ∈ path, p ∈ nodes)
    (habove : ∀ x, current = some x → x ∈ nodes ∧ ∀ p ∈ path, TransGen (Step up) p x)
    (hfuel : nodes.length < fuel + path.length) (h : walk up resolved fuel path current = none) :
    ∃ a, TransGen (Step up) a a := by
  induction fuel generalizing path current with
  | zero =>
    have hlength := (hpath.subperm hmem).length_le
    omega
  | succ fuel ih =>
    cases current with
    | none => cases h
    | some x =>
      obtain ⟨hx, hbelow⟩ := habove x rfl
      rw [walk] at h
      split at h
      · cases h
      · split at h
        · rename_i hagain
          exact ⟨x, hbelow x hagain⟩
        · rename_i hnew
          refine ih ?_ ?_ ?_ ?_ h
          · refine List.nodup_append.mpr ⟨hpath, List.nodup_singleton x, ?_⟩
            intro a ha b hb hab
            rw [hab, List.mem_singleton.mp hb] at ha
            exact hnew ha
          · intro p hp
            rcases List.mem_append.mp hp with hp | hp
            · exact hmem p hp
            · rw [List.mem_singleton.mp hp]
              exact hx
          · intro y hy
            refine ⟨hnodes x y hy, ?_⟩
            intro p hp
            rcases List.mem_append.mp hp with hp | hp
            · exact (hbelow p hp).tail hy
            · rw [List.mem_singleton.mp hp]
              exact .single hy
          · rw [List.length_append, List.length_singleton]
            omega

/-! ## All walks -/

theorem ends_of_resolveAll {fuel : Nat} {roots result : List α}
    (hresolved : ∀ r ∈ resolved, Ends up r) (h : resolveAll up fuel resolved roots = some result) :
    ∀ x ∈ roots, Ends up x := by
  induction roots generalizing resolved with
  | nil => simp
  | cons x rest ih =>
    rw [resolveAll] at h
    split at h
    · cases h
    · rename_i path hwalk
      obtain ⟨hx, hmem⟩ := walk_ends hresolved hwalk
      refine List.forall_mem_cons.mpr ⟨hx x rfl, ih ?_ h⟩
      intro r hr
      rcases List.mem_append.mp hr with hr | hr
      · exact hresolved r hr
      · exact (hmem r hr).resolve_left List.not_mem_nil

theorem exists_cycle_of_resolveAll (hnodes : ∀ x y, up x = some y → y ∈ nodes) {fuel : Nat}
    (hfuel : nodes.length < fuel) {roots : List α} (hroots : ∀ x ∈ roots, x ∈ nodes)
    (h : resolveAll up fuel resolved roots = none) : ∃ a, TransGen (Step up) a a := by
  induction roots generalizing resolved with
  | nil => cases h
  | cons x rest ih =>
    rw [resolveAll] at h
    split at h
    · rename_i hwalk
      refine exists_cycle_of_walk hnodes List.nodup_nil (by simp) ?_ (by simpa using hfuel) hwalk
      intro y hy
      rw [← Option.some.inj hy]
      exact ⟨hroots x List.mem_cons_self, by simp⟩
    · exact ih (fun y hy => hroots y (List.mem_cons_of_mem _ hy)) h

/-- **The pass over all nodes.** It succeeds exactly when there is no cycle, and then every walk
ends. -/
theorem resolveAll_isSome_iff (hnodes : ∀ x y, up x = some y → x ∈ nodes ∧ y ∈ nodes) {fuel : Nat}
    (hfuel : nodes.length < fuel) :
    (resolveAll up fuel [] nodes).isSome ↔ ∀ a, ¬ TransGen (Step up) a a := by
  constructor
  · intro h a hcycle
    obtain ⟨result, hresult⟩ := Option.isSome_iff_exists.mp h
    obtain ⟨b, hstep, -⟩ := TransGen.head'_iff.mp hcycle
    exact (ends_of_resolveAll (by simp) hresult a (hnodes a b hstep).1).not_cycle hcycle
  · intro h
    by_contra hnone
    rw [Bool.not_eq_true, Option.isSome_eq_false_iff, Option.isNone_iff_eq_none] at hnone
    obtain ⟨a, hcycle⟩ := exists_cycle_of_resolveAll (fun x y hy => (hnodes x y hy).2) hfuel
      (fun x hx => hx) hnone
    exact h a hcycle

theorem ends_of_acyclic (hnodes : ∀ x y, up x = some y → x ∈ nodes ∧ y ∈ nodes)
    (h : ∀ a, ¬ TransGen (Step up) a a) (x : α) : Ends up x := by
  obtain ⟨result, hresult⟩ := Option.isSome_iff_exists.mp
    ((resolveAll_isSome_iff hnodes (Nat.lt_succ_self _)).mpr h)
  refine ends_of_up fun y hy => ?_
  exact ends_of_resolveAll (by simp) hresult y (hnodes x y hy).2

/-! ## Chains -/

/-- The nodes from one up to its root; `none` when a node is unknown or comes twice. -/
def chain (next : α → Option (Option α)) : Nat → List α → Option α → Option (List α)
  | _, _, none => some []
  | 0, _, some _ => none
  | fuel + 1, seen, some x =>
    if x ∈ seen then none
    else
      match next x with
      | none => none
      | some parent => (chain next fuel (x :: seen) parent).map (x :: ·)

theorem chain_head {next : α → Option (Option α)} {fuel : Nat} {seen l : List α} {x : α}
    (h : chain next fuel seen (some x) = some l) : ∃ rest, l = x :: rest := by
  cases fuel with
  | zero => cases h
  | succ fuel =>
    rw [chain] at h
    split at h
    · cases h
    · split at h
      · cases h
      · obtain ⟨rest, -, rfl⟩ := Option.map_eq_some_iff.mp h
        exact ⟨rest, rfl⟩

/-- A chain follows the links from its node to a root, and meets no node twice. -/
theorem chain_links {next : α → Option (Option α)} {fuel : Nat} {seen l : List α}
    {current : Option α} (h : chain next fuel seen current = some l) :
    l.Nodup ∧ (∀ x ∈ l, x ∉ seen) ∧ (∀ x ∈ l, (next x).isSome) ∧ l.head? = current ∧
      l.IsChain (fun x y => next x = some (some y)) ∧ ∀ x ∈ l.getLast?, next x = some none := by
  induction fuel generalizing seen current l with
  | zero =>
    cases current with
    | none =>
      obtain rfl := Option.some.inj h
      simp
    | some x => cases h
  | succ fuel ih =>
    cases current with
    | none =>
      obtain rfl := Option.some.inj h
      simp
    | some x =>
      rw [chain] at h
      split at h
      · cases h
      · rename_i hnew
        split at h
        · cases h
        · rename_i parent hparent
          obtain ⟨rest, hrest, rfl⟩ := Option.map_eq_some_iff.mp h
          obtain ⟨hnodup, hseen, hknown, hhead, hlinks, hlast⟩ := ih hrest
          refine ⟨?_, ?_, List.forall_mem_cons.mpr ⟨by rw [hparent]; rfl, hknown⟩, rfl, ?_, ?_⟩
          · refine List.nodup_cons.mpr ⟨?_, hnodup⟩
            intro hagain
            exact hseen x hagain List.mem_cons_self
          · intro y hy
            cases List.mem_cons.mp hy with
            | inl heq => exact heq ▸ hnew
            | inr hin => exact fun hold => hseen y hin (List.mem_cons_of_mem x hold)
          · rw [List.isChain_cons]
            refine ⟨?_, hlinks⟩
            intro y hy
            rw [hparent, ← hhead, hy]
          · intro y hy
            cases rest with
            | nil =>
              obtain rfl : x = y := by simpa using hy
              rw [hparent, ← hhead]
              rfl
            | cons z tail => exact hlast y (by simpa using hy)

omit [DecidableEq α] in
theorem reflTransGen_iff {x y : α} : ReflTransGen (Step up) x y ↔
    y = x ∨ ∃ z, up x = some z ∧ ReflTransGen (Step up) z y := by
  rw [ReflTransGen.cases_head_iff]
  constructor
  · rintro (rfl | ⟨z, hz, h⟩)
    · exact .inl rfl
    · exact .inr ⟨z, hz, h⟩
  · rintro (rfl | ⟨z, hz, h⟩)
    · exact .inl rfl
    · exact .inr ⟨z, hz, h⟩

/-- **The chain of a node** from which walks end: each node above it, once. -/
theorem exists_chain {next : α → Option (Option α)} (hnext : ∀ x ∈ nodes, next x = some (up x))
    (hnodes : ∀ x y, up x = some y → y ∈ nodes) {x : α} (hx : x ∈ nodes) (hends : Ends up x)
    {fuel : Nat} {seen : List α} (hseen : seen.Nodup) (hmem : ∀ p ∈ seen, p ∈ nodes)
    (habove : ∀ p ∈ seen, TransGen (Step up) p x) (hfuel : nodes.length < fuel + seen.length) :
    ∃ l, chain next fuel seen (some x) = some l ∧ l.Nodup ∧
      ∀ y, y ∈ l ↔ ReflTransGen (Step up) x y := by
  induction hends generalizing fuel seen with
  | intro x hacc ih =>
    have hends : Ends up x := Acc.intro x hacc
    have hnew : x ∉ seen := fun hagain => hends.not_cycle (habove x hagain)
    have hseen' : (x :: seen).Nodup := List.nodup_cons.mpr ⟨hnew, hseen⟩
    have hmem' : ∀ p ∈ x :: seen, p ∈ nodes := List.forall_mem_cons.mpr ⟨hx, hmem⟩
    cases fuel with
    | zero =>
      have hlength := (hseen.subperm hmem).length_le
      omega
    | succ fuel =>
      rw [chain, if_neg hnew, hnext x hx]
      simp only
      cases hup : up x with
      | none =>
        refine ⟨[x], by cases fuel <;> rfl, List.nodup_singleton x, ?_⟩
        intro y
        rw [reflTransGen_iff, List.mem_singleton]
        simp [hup]
      | some y =>
        obtain ⟨l, hl, hnodup, hiff⟩ := @ih y hup (hnodes x y hup) fuel (x :: seen) hseen' hmem'
          (by
            intro p hp
            rcases List.mem_cons.mp hp with rfl | hp
            · exact .single hup
            · exact (habove p hp).tail hup)
          (by rw [List.length_cons]; omega)
        refine ⟨x :: l, by rw [hl]; rfl, ?_, ?_⟩
        · refine List.nodup_cons.mpr ⟨?_, hnodup⟩
          -- the node is not above itself
          intro hagain
          exact hends.not_cycle (TransGen.head' hup ((hiff x).mp hagain))
        · intro z
          rw [reflTransGen_iff, List.mem_cons, hiff]
          simp [hup]

end Bobbit.Lib.ParentWalk
