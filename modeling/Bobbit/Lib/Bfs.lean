import Mathlib
import Bobbit.Lib.Dfs

/-!
# Breadth-first search

A worklist loop: take the first node of the queue, and queue those of its
successors that have not been seen. One unit of fuel is one turn of the loop;
the length of the first queue plus the number of nodes that can be queued is
enough.

Key results:

- `mem_loop_iff`: with enough fuel the loop has seen exactly what can be reached
  from the nodes it was started with.
-/

namespace Bobbit.Lib.Bfs

open Relation Dfs

variable {α : Type*} [DecidableEq α]

/-- Queue the nodes that have not been seen. -/
def discover (queue : List α) (seen : JsSet α) (next : List α) : List α × JsSet α :=
  next.foldl (fun (state : List α × JsSet α) node =>
    if node ∈ state.2.members then state else (state.1 ++ [node], state.2.add node)) (queue, seen)

def loop (succ : α → List α) : Nat → List α → JsSet α → JsSet α
  | 0, _, seen => seen
  | _, [], seen => seen
  | fuel + 1, node :: queue, seen =>
    let state := discover queue seen (succ node)
    loop succ fuel state.1 state.2

/-- What `discover` adds: new nodes of `next`, each queued once. -/
theorem discover_spec (nodes : List α) (queue : List α) (seen : JsSet α) (next : List α)
    (hnext : ∀ node ∈ next, node ∈ nodes) :
    (∀ node, node ∈ (discover queue seen next).2.members ↔ node ∈ seen.members ∨ node ∈ next) ∧
      (∀ node ∈ (discover queue seen next).1, node ∈ queue ∨ node ∈ next) ∧
      (∀ node, node ∈ queue → node ∈ (discover queue seen next).1) ∧
      (∀ node ∈ next, node ∉ seen.members → node ∈ (discover queue seen next).1) ∧
      (discover queue seen next).1.length + unvisited nodes (discover queue seen next).2 ≤
        queue.length + unvisited nodes seen := by
  induction next generalizing queue seen with
  | nil => simp [discover]
  | cons first rest ih =>
    have hrest : ∀ node ∈ rest, node ∈ nodes := fun node hmem =>
      hnext node (List.mem_cons_of_mem _ hmem)
    by_cases hseen : first ∈ seen.members
    · have hstep : discover queue seen (first :: rest) = discover queue seen rest := by
        simp only [discover, List.foldl_cons, hseen, if_true]
      obtain ⟨hmem, hfrom, hkeep, hnew, hlen⟩ := ih queue seen hrest
      rw [hstep]
      refine ⟨?_, ?_, hkeep, ?_, hlen⟩
      · intro node
        rw [hmem, List.mem_cons]
        constructor
        · intro h
          exact h.imp id .inr
        · intro h
          cases h with
          | inl h => exact .inl h
          | inr h => exact h.elim (fun heq => .inl (heq ▸ hseen)) .inr
      · intro node h
        exact (hfrom node h).imp id (List.mem_cons_of_mem _)
      · intro node h hnot
        cases List.mem_cons.mp h with
        | inl heq => exact absurd (heq ▸ hseen) hnot
        | inr h => exact hnew node h hnot
    · have hstep : discover queue seen (first :: rest) =
          discover (queue ++ [first]) (seen.add first) rest := by
        simp only [discover, List.foldl_cons, hseen, if_false]
      obtain ⟨hmem, hfrom, hkeep, hnew, hlen⟩ := ih (queue ++ [first]) (seen.add first) hrest
      rw [hstep]
      refine ⟨?_, ?_, ?_, ?_, ?_⟩
      · intro node
        rw [hmem, JsSet.mem_add, List.mem_cons, or_assoc]
      · intro node h
        cases hfrom node h with
        | inl h =>
          cases List.mem_append.mp h with
          | inl h => exact .inl h
          | inr h => exact .inr (List.mem_cons.mpr (.inl (List.mem_singleton.mp h)))
        | inr h => exact .inr (List.mem_cons_of_mem _ h)
      · intro node h
        exact hkeep node (List.mem_append_left _ h)
      · intro node h hnot
        by_cases heq : node = first
        · exact hkeep node (heq ▸ List.mem_append_right _ (List.mem_singleton.mpr rfl))
        · apply hnew node ((List.mem_cons.mp h).resolve_left heq)
          intro hadd
          exact (JsSet.mem_add.mp hadd).elim hnot heq
      · -- one more in the queue, one fewer unseen
        have hless := unvisited_add (hnext first List.mem_cons_self) hseen
        rw [List.length_append, List.length_singleton] at hlen
        omega

section Loop

variable {succ : α → List α} {nodes : List α}

/-- Everything the loop sees can be reached from a node it started with. -/
theorem loop_sound (roots : List α) (fuel : Nat) {queue : List α} {seen : JsSet α}
    (hqueue : ∀ node ∈ queue, ∃ root ∈ roots, ReflTransGen (Edge succ) root node)
    (hseen : ∀ node ∈ seen.members, ∃ root ∈ roots, ReflTransGen (Edge succ) root node) :
    ∀ node ∈ (loop succ fuel queue seen).members,
      ∃ root ∈ roots, ReflTransGen (Edge succ) root node := by
  induction fuel generalizing queue seen with
  | zero => exact hseen
  | succ fuel ih =>
    cases queue with
    | nil => exact hseen
    | cons first rest =>
      obtain ⟨hmem, hfrom, -⟩ := discover_spec (succ first) rest seen (succ first) (fun _ h => h)
      have hnext : ∀ node ∈ succ first, ∃ root ∈ roots, ReflTransGen (Edge succ) root node := by
        intro node hnode
        obtain ⟨root, hroot, hreach⟩ := hqueue first List.mem_cons_self
        exact ⟨root, hroot, hreach.tail hnode⟩
      apply ih
      · intro node hnode
        exact (hfrom node hnode).elim (fun h => hqueue node (List.mem_cons_of_mem _ h)) (hnext node)
      · intro node hnode
        exact ((hmem node).mp hnode).elim (hseen node) (hnext node)

theorem subset_loop (fuel : Nat) (queue : List α) (seen : JsSet α) :
    seen.members ⊆ (loop succ fuel queue seen).members := by
  induction fuel generalizing queue seen with
  | zero => exact List.Subset.refl _
  | succ fuel ih =>
    cases queue with
    | nil => exact List.Subset.refl _
    | cons first rest =>
      obtain ⟨hmem, -⟩ := discover_spec (succ first) rest seen (succ first) (fun _ h => h)
      exact fun node hnode => ih _ _ ((hmem node).mpr (.inl hnode))

/-- With enough fuel the loop ends with the queue empty, and what it has seen is closed under
    successors. -/
theorem loop_closed (hnodes : ∀ a, ∀ b ∈ succ a, b ∈ nodes) (fuel : Nat) {queue : List α}
    {seen : JsSet α} (hfuel : queue.length + unvisited nodes seen ≤ fuel)
    (hopen : ∀ node ∈ seen.members, node ∈ queue ∨ ∀ b ∈ succ node, b ∈ seen.members) :
    seen.members ⊆ (loop succ fuel queue seen).members ∧
      ∀ node ∈ (loop succ fuel queue seen).members,
        ∀ b ∈ succ node, b ∈ (loop succ fuel queue seen).members := by
  induction fuel generalizing queue seen with
  | zero =>
    have hnil : queue = [] := List.length_eq_zero_iff.mp (by omega)
    exact ⟨List.Subset.refl _, fun node hnode => (hopen node hnode).resolve_left (by simp [hnil])⟩
  | succ fuel ih =>
    cases queue with
    | nil =>
      exact ⟨List.Subset.refl _, fun node hnode => (hopen node hnode).resolve_left (by simp)⟩
    | cons first rest =>
      obtain ⟨hmem, -, hkeep, hnew, hlen⟩ :=
        discover_spec nodes rest seen (succ first) (hnodes first)
      have hopen' : ∀ node ∈ (discover rest seen (succ first)).2.members,
          node ∈ (discover rest seen (succ first)).1 ∨
            ∀ b ∈ succ node, b ∈ (discover rest seen (succ first)).2.members := by
        intro node hnode
        by_cases hold : node ∈ seen.members
        · cases hopen node hold with
          | inl hq =>
            cases List.mem_cons.mp hq with
            | inl heq => exact .inr fun b hb => (hmem b).mpr (.inr (heq ▸ hb))
            | inr hq => exact .inl (hkeep node hq)
          | inr hclosed => exact .inr fun b hb => (hmem b).mpr (.inl (hclosed b hb))
        · exact .inl (hnew node (((hmem node).mp hnode).resolve_left hold) hold)
      obtain ⟨hsub, hclosed⟩ := ih (by simp only [List.length_cons] at hfuel; omega) hopen'
      exact ⟨fun node hnode => hsub ((hmem node).mpr (.inl hnode)), hclosed⟩

/-- **The loop is exact.** -/
theorem mem_loop_iff (hnodes : ∀ a, ∀ b ∈ succ a, b ∈ nodes) (roots : List α) {fuel : Nat}
    (hfuel : roots.length + nodes.length ≤ fuel) (node : α) :
    node ∈ (loop succ fuel roots (.ofList roots)).members ↔
      ∃ root ∈ roots, ReflTransGen (Edge succ) root node := by
  constructor
  · apply loop_sound roots fuel
    · intro root hroot
      exact ⟨root, hroot, .refl⟩
    · intro root hroot
      exact ⟨root, JsSet.mem_ofList.mp hroot, .refl⟩
  · intro h
    obtain ⟨root, hroot, hreach⟩ := h
    have hbound : unvisited nodes (.ofList roots) ≤ nodes.length := List.countP_le_length
    have hfuel : roots.length + unvisited nodes (.ofList roots) ≤ fuel := by omega
    obtain ⟨hsub, hclosed⟩ := loop_closed hnodes fuel hfuel
      (fun node hnode => .inl (JsSet.mem_ofList.mp hnode))
    induction hreach with
    | refl => exact hsub (JsSet.mem_ofList.mpr hroot)
    | tail _ hedge ih => exact hclosed _ ih _ hedge

end Loop

end Bobbit.Lib.Bfs
