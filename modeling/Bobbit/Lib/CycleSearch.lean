import Mathlib
import Bobbit.Lib.Dfs

/-!
# Depth-first search for a cycle

The search marks a node as visited when all that it leads to is, and fails on a
node that it is still visiting. `fuel` bounds the depth of the recursion; one
more than the number of nodes that have successors is enough.

Key results:

- `acyclic_of_search`: a graph whose search of all nodes succeeds has no cycle.
-/

namespace Bobbit.Lib.CycleSearch

open Relation Dfs

variable {α : Type*} [DecidableEq α]

/-- Visit a node; `visiting` is the path to it. The error is the node found twice on a path. -/
def visit (succ : α → List α) : Nat → List α → JsSet α → α → Except α (JsSet α)
  | 0, _, _, node => .error node
  | fuel + 1, visiting, visited, node =>
    if node ∈ visited.members then .ok visited
    else if node ∈ visiting then .error node
    else do
      let visited ← (succ node).foldlM (visit succ fuel (node :: visiting)) visited
      .ok (visited.add node)

def search (succ : α → List α) (fuel : Nat) (roots : List α) : Except α (JsSet α) :=
  roots.foldlM (visit succ fuel []) .empty

section Search

variable {succ : α → List α}

/-- Every node stands after its successors. -/
def Sorted (succ : α → List α) (members : List α) : Prop :=
  ∀ before a after, members = before ++ a :: after → ∀ b ∈ succ a, b ∈ before

omit [DecidableEq α] in
theorem Sorted.concat {members : List α} (h : Sorted succ members) {a : α}
    (ha : ∀ b ∈ succ a, b ∈ members) : Sorted succ (members ++ [a]) := by
  intro before x after heq b hb
  cases after using List.reverseRecOn with
  | nil =>
    obtain ⟨rfl, hcons⟩ := List.append_inj' heq rfl
    rw [List.cons.injEq] at hcons
    exact ha b (hcons.1 ▸ hb)
  | append_singleton after y =>
    rw [← List.cons_append, ← List.append_assoc] at heq
    exact h before x after (List.append_inj' heq rfl).1 b hb

/-- In a sorted list without duplicates the successors of a node stand before it. -/
theorem Sorted.idxOf_lt {members : List α} (h : Sorted succ members) (hn : members.Nodup) {a b : α}
    (ha : a ∈ members) (hb : b ∈ succ a) : b ∈ members ∧ members.idxOf b < members.idxOf a := by
  obtain ⟨before, after, heq⟩ := List.append_of_mem ha
  have hbefore := h before a after heq b hb
  have hnot : a ∉ before := by
    rw [heq, List.nodup_append] at hn
    intro hmem
    exact hn.2.2 a hmem a List.mem_cons_self rfl
  subst heq
  refine ⟨List.mem_append_left _ hbefore, ?_⟩
  rw [List.idxOf_append_of_mem hbefore, List.idxOf_append_of_notMem hnot]
  have := List.idxOf_lt_length_of_mem hbefore
  omega

/-- What a visit that succeeds leaves: the node and what was visited before, still sorted. -/
structure Extends (succ : α → List α) (visited visited' : JsSet α) : Prop where
  mono : visited.members ⊆ visited'.members
  sorted : Sorted succ visited.members → Sorted succ visited'.members

omit [DecidableEq α] in
theorem Extends.refl (visited : JsSet α) : Extends succ visited visited :=
  ⟨List.Subset.refl _, id⟩

omit [DecidableEq α] in
theorem Extends.trans {v v' v'' : JsSet α} (h : Extends succ v v') (h' : Extends succ v' v'') :
    Extends succ v v'' :=
  ⟨List.Subset.trans h.mono h'.mono, fun hs => h'.sorted (h.sorted hs)⟩

omit [DecidableEq α] in
/-- Visiting nodes in turn extends what was visited and reaches all of them. -/
theorem foldlM_extends {step : JsSet α → α → Except α (JsSet α)}
    (hstep : ∀ visited visited' node, step visited node = .ok visited' →
      Extends succ visited visited' ∧ node ∈ visited'.members)
    {nodes : List α} {visited visited' : JsSet α} (h : nodes.foldlM step visited = .ok visited') :
    Extends succ visited visited' ∧ ∀ node ∈ nodes, node ∈ visited'.members := by
  induction nodes generalizing visited with
  | nil =>
    simp only [List.foldlM_nil, pure, Except.pure, Except.ok.injEq] at h
    subst h
    exact ⟨.refl _, by simp⟩
  | cons node rest ih =>
    rw [List.foldlM_cons] at h
    cases hnode : step visited node with
    | error e =>
      rw [hnode] at h
      cases h
    | ok mid =>
      rw [hnode] at h
      obtain ⟨hfirst, hmem⟩ := hstep _ _ _ hnode
      obtain ⟨hrest, hall⟩ := ih h
      refine ⟨hfirst.trans hrest, ?_⟩
      intro other hother
      cases List.mem_cons.mp hother with
      | inl heq => exact heq ▸ hrest.mono hmem
      | inr hother => exact hall other hother

theorem visit_extends (fuel : Nat) (visiting : List α) (visited visited' : JsSet α) (node : α)
    (h : visit succ fuel visiting visited node = .ok visited') :
    Extends succ visited visited' ∧ node ∈ visited'.members := by
  induction fuel generalizing visiting visited visited' node with
  | zero => cases h
  | succ fuel ih =>
    simp only [visit] at h
    split at h
    · rename_i hmem
      obtain rfl := Except.ok.inj h
      exact ⟨.refl _, hmem⟩
    · split at h
      · cases h
      · cases hfold : (succ node).foldlM (visit succ fuel (node :: visiting)) visited with
        | error e =>
          rw [hfold] at h
          cases h
        | ok mid =>
          rw [hfold] at h
          obtain rfl := Except.ok.inj h
          obtain ⟨hext, hall⟩ := foldlM_extends (ih (node :: visiting)) hfold
          refine ⟨⟨fun x hx => JsSet.mem_add.mpr (.inl (hext.mono hx)), ?_⟩,
            JsSet.mem_add.mpr (.inr rfl)⟩
          intro hs
          have hmid := hext.sorted hs
          by_cases hin : node ∈ mid.members
          · rwa [JsSet.add, dif_pos hin]
          · rw [JsSet.add, dif_neg hin]
            exact hmid.concat hall

/-- A search that succeeds has found an order of all nodes, so there is no cycle. -/
theorem acyclic_of_search {roots : List α} (hroots : ∀ a, succ a ≠ [] → a ∈ roots) {fuel : Nat}
    {visited : JsSet α} (h : search succ fuel roots = .ok visited) : Acyclic succ := by
  obtain ⟨hext, hall⟩ := foldlM_extends (visit_extends fuel []) h
  have hsorted : Sorted succ visited.members := hext.sorted (by
    intro before a after heq
    simp [JsSet.empty] at heq)
  have hless : ∀ {a b : α}, TransGen (Edge succ) a b →
      b ∈ visited.members ∧ visited.members.idxOf b < visited.members.idxOf a := by
    intro a b hab
    induction hab with
    | single hedge =>
      have ha := hall a (hroots a (List.ne_nil_of_mem hedge))
      exact hsorted.idxOf_lt visited.nodup ha hedge
    | tail _ hedge ih =>
      have hstep := hsorted.idxOf_lt visited.nodup ih.1 hedge
      exact ⟨hstep.1, Nat.lt_trans hstep.2 ih.2⟩
  intro a hcycle
  exact Nat.lt_irrefl _ (hless hcycle).2

end Search

end Bobbit.Lib.CycleSearch
