import Mathlib
import Bobbit.Lib.JsSet

/-!
# Depth-first search

A recursive search that shares its set of visited nodes between branches and
stops when it meets its target. `fuel` bounds the depth of the recursion; the
number of nodes that have successors is enough.

Key results:

- `search_eq_none_iff`: the search meets its target exactly when the target can be
  reached.
- `acyclic_replace_iff`: giving a node of an acyclic graph new successors makes no
  cycle exactly when the node cannot be reached from them.
-/

namespace Bobbit.Lib.Dfs

open Relation

variable {α : Type*} [DecidableEq α]

/-- Visit a node and all that can be reached from it; `none` when the target is met. -/
def walk (succ : α → List α) (target : α) : Nat → JsSet α → α → Option (JsSet α)
  | 0, visited, node => if node = target then none else some (visited.add node)
  | fuel + 1, visited, node =>
    if node = target then none
    else if node ∈ visited.members then some visited
    else (succ node).foldlM (walk succ target fuel) (visited.add node)

def search (succ : α → List α) (target : α) (fuel : Nat) (roots : List α) : Option (JsSet α) :=
  roots.foldlM (walk succ target fuel) .empty

/-- The second node is a successor of the first. -/
def Edge (succ : α → List α) (a b : α) : Prop := b ∈ succ a

def Acyclic (succ : α → List α) : Prop := ∀ a, ¬ TransGen (Edge succ) a a

section Search

variable {succ : α → List α} {target : α} {nodes : List α}

variable {visited : JsSet α}

theorem reaches_of_walk {fuel : Nat} {node : α}
    (h : walk succ target fuel visited node = none) : ReflTransGen (Edge succ) node target := by
  induction fuel generalizing visited node with
  | zero =>
    simp only [walk] at h
    split at h
    · rename_i heq
      exact heq ▸ .refl
    · cases h
  | succ fuel ih =>
    simp only [walk] at h
    split at h
    · rename_i heq
      exact heq ▸ .refl
    · split at h
      · cases h
      · have hfold : ∀ (next : List α) (visited : JsSet α),
            next.foldlM (walk succ target fuel) visited = none →
              ∃ b ∈ next, ReflTransGen (Edge succ) b target := by
          intro next
          induction next with
          | nil => intro visited h; cases h
          | cons b rest ihrest =>
            intro visited h
            rw [List.foldlM_cons] at h
            cases hb : walk succ target fuel visited b with
            | none => exact ⟨b, List.mem_cons_self, ih hb⟩
            | some visited' =>
              rw [hb] at h
              obtain ⟨c, hc, hreach⟩ := ihrest visited' h
              exact ⟨c, List.mem_cons_of_mem _ hc, hreach⟩
        obtain ⟨b, hb, hreach⟩ := hfold _ _ h
        exact .head hb hreach

/-- The nodes with successors that are not visited yet. -/
def unvisited (nodes : List α) (visited : JsSet α) : Nat :=
  nodes.countP (· ∉ visited.members)

theorem unvisited_mono {visited' : JsSet α} (h : visited.members ⊆ visited'.members) :
    unvisited nodes visited' ≤ unvisited nodes visited :=
  List.countP_mono_left fun node _ hnot => by
    simp only [decide_eq_true_eq] at hnot ⊢
    exact fun hmem => hnot (h hmem)

theorem unvisited_add {node : α} (hnode : node ∈ nodes) (hnot : node ∉ visited.members) :
    unvisited nodes (visited.add node) < unvisited nodes visited := by
  induction nodes with
  | nil => cases hnode
  | cons first rest ih =>
    have hrest : unvisited rest (visited.add node) ≤ unvisited rest visited :=
      unvisited_mono fun _ hmem => JsSet.mem_add.mpr (.inl hmem)
    unfold unvisited at hrest ih ⊢
    rw [List.countP_cons, List.countP_cons]
    by_cases hfirst : first = node
    · subst hfirst
      simp [JsSet.mem_add, hnot] at hrest ⊢
      omega
    · have hmem : node ∈ rest := (List.mem_cons.mp hnode).resolve_left (Ne.symm hfirst)
      have hsame : decide (first ∉ (visited.add node).members) = decide (first ∉ visited.members) := by
        simp [JsSet.mem_add, hfirst]
      rw [hsame]
      exact Nat.add_lt_add_right (ih hmem) _

/-- What a search that does not meet its target has visited: the node, not the
    target, and the successors of everything that is new. -/
structure Explored (succ : α → List α) (target : α) (visited visited' : JsSet α) : Prop where
  mono : visited.members ⊆ visited'.members
  safe : target ∉ visited.members → target ∉ visited'.members
  closed : ∀ a ∈ visited'.members, a ∉ visited.members → ∀ b ∈ succ a, b ∈ visited'.members

omit [DecidableEq α] in
theorem Explored.refl (visited : JsSet α) : Explored succ target visited visited :=
  ⟨List.Subset.refl _, id, fun _ hmem hnot => absurd hmem hnot⟩

theorem Explored.trans {v v' v'' : JsSet α} (h : Explored succ target v v')
    (h' : Explored succ target v' v'') : Explored succ target v v'' where
  mono := List.Subset.trans h.mono h'.mono
  safe hnot := h'.safe (h.safe hnot)
  closed a hmem hnot b hb := by
    by_cases hmid : a ∈ v'.members
    · exact h'.mono (h.closed a hmid hnot b hb)
    · exact h'.closed a hmem hmid b hb

/-- With enough fuel a search that returns has explored all it could reach. -/
theorem explored_of_walk (hnodes : ∀ a, succ a ≠ [] → a ∈ nodes) {fuel : Nat} {visited' : JsSet α}
    {node : α} (hfuel : unvisited nodes visited < fuel)
    (h : walk succ target fuel visited node = some visited') :
    Explored succ target visited visited' ∧ node ∈ visited'.members := by
  induction fuel generalizing visited visited' node with
  | zero => omega
  | succ fuel ih =>
    simp only [walk] at h
    split at h
    · cases h
    · rename_i htarget
      split at h
      · rename_i hmem
        obtain rfl := Option.some.inj h
        exact ⟨.refl _, hmem⟩
      · rename_i hnot
        have hfold : ∀ (next : List α) (visited visited' : JsSet α),
            (next ≠ [] → unvisited nodes visited < fuel) →
            next.foldlM (walk succ target fuel) visited = some visited' →
              Explored succ target visited visited' ∧ ∀ b ∈ next, b ∈ visited'.members := by
          intro next
          induction next with
          | nil =>
            intro visited visited' _ h
            obtain rfl := Option.some.inj h
            exact ⟨.refl _, by simp⟩
          | cons b rest ihrest =>
            intro visited visited' hfuel h
            rw [List.foldlM_cons] at h
            cases hb : walk succ target fuel visited b with
            | none =>
              rw [hb] at h
              cases h
            | some mid =>
              rw [hb] at h
              obtain ⟨hfirst, hmem⟩ := ih (hfuel (by simp)) hb
              obtain ⟨hrest, hall⟩ := ihrest mid visited' (fun _ =>
                Nat.lt_of_le_of_lt (unvisited_mono hfirst.mono) (hfuel (by simp))) h
              refine ⟨hfirst.trans hrest, fun c hc => ?_⟩
              rcases List.mem_cons.mp hc with rfl | hc
              · exact hrest.mono hmem
              · exact hall c hc
        have henough : succ node ≠ [] → unvisited nodes (visited.add node) < fuel := by
          intro hne
          have := unvisited_add (hnodes node hne) hnot
          omega
        obtain ⟨hexplored, hall⟩ := hfold _ _ _ henough h
        have hself : node ∈ (visited.add node).members := JsSet.mem_add.mpr (.inr rfl)
        refine ⟨⟨fun _ hmem => hexplored.mono (JsSet.mem_add.mpr (.inl hmem)), fun hsafe =>
          hexplored.safe fun hmem => ?_, fun a hmem hnew b hb => ?_⟩, hexplored.mono hself⟩
        · rcases JsSet.mem_add.mp hmem with hmem | rfl
          · exact hsafe hmem
          · exact htarget rfl
        · by_cases ha : a = node
          · subst ha
            exact hall b hb
          · refine hexplored.closed a hmem (fun hadd => ?_) b hb
            exact (JsSet.mem_add.mp hadd).elim hnew ha

/-- **The search is exact.** -/
theorem search_eq_none_iff (hnodes : ∀ a, succ a ≠ [] → a ∈ nodes) {fuel : Nat}
    (hfuel : nodes.length < fuel) (roots : List α) :
    search succ target fuel roots = none ↔ ∃ root ∈ roots, ReflTransGen (Edge succ) root target := by
  constructor
  · intro h
    have hfold : ∀ (roots : List α) (visited : JsSet α),
        roots.foldlM (walk succ target fuel) visited = none →
          ∃ root ∈ roots, ReflTransGen (Edge succ) root target := by
      intro roots
      induction roots with
      | nil => intro visited h; cases h
      | cons root rest ih =>
        intro visited h
        rw [List.foldlM_cons] at h
        cases hroot : walk succ target fuel visited root with
        | none => exact ⟨root, List.mem_cons_self, reaches_of_walk hroot⟩
        | some visited' =>
          rw [hroot] at h
          obtain ⟨other, hother, hreach⟩ := ih visited' h
          exact ⟨other, List.mem_cons_of_mem _ hother, hreach⟩
    exact hfold roots .empty h
  · rintro ⟨root, hroot, hreach⟩
    cases hsearch : search succ target fuel roots with
    | none => rfl
    | some visited =>
      have hfold : ∀ (roots : List α) (visited visited' : JsSet α),
          roots.foldlM (walk succ target fuel) visited = some visited' →
            Explored succ target visited visited' ∧ ∀ root ∈ roots, root ∈ visited'.members := by
        intro roots
        induction roots with
        | nil =>
          intro visited visited' h
          obtain rfl := Option.some.inj h
          exact ⟨.refl _, by simp⟩
        | cons root rest ih =>
          intro visited visited' h
          rw [List.foldlM_cons] at h
          cases hroot : walk succ target fuel visited root with
          | none =>
            rw [hroot] at h
            cases h
          | some mid =>
            rw [hroot] at h
            have hbound : unvisited nodes visited < fuel :=
              Nat.lt_of_le_of_lt List.countP_le_length hfuel
            obtain ⟨hfirst, hmem⟩ := explored_of_walk hnodes hbound hroot
            obtain ⟨hrest, hall⟩ := ih mid visited' h
            refine ⟨hfirst.trans hrest, fun c hc => ?_⟩
            rcases List.mem_cons.mp hc with rfl | hc
            · exact hrest.mono hmem
            · exact hall c hc
      obtain ⟨hexplored, hall⟩ := hfold roots .empty visited hsearch
      have hclosed : ∀ b, ReflTransGen (Edge succ) root b → b ∈ visited.members := by
        intro b hb
        induction hb with
        | refl => exact hall root hroot
        | tail _ hedge ih => exact hexplored.closed _ ih (by simp [JsSet.empty]) _ hedge
      exact absurd (hclosed target hreach) (hexplored.safe (by simp [JsSet.empty]))

end Search

/-! ## Replacing the successors of a node -/

/-- The graph with other successors of one node. -/
def replace (succ : α → List α) (node : α) (next : List α) : α → List α :=
  fun a => if a = node then next else succ a

section Replace

variable {succ : α → List α} {node : α} {next : List α}

/-- A node is reached before its own successors matter. -/
theorem reaches_replace_iff {a : α} :
    ReflTransGen (Edge (replace succ node next)) a node ↔ ReflTransGen (Edge succ) a node := by
  have hmono : ∀ (f g : α → List α), (∀ a, a ≠ node → f a = g a) → ∀ {a},
      ReflTransGen (Edge f) a node → ReflTransGen (Edge g) a node := by
    intro f g hfg a h
    induction h using ReflTransGen.head_induction_on with
    | refl => exact .refl
    | @head a b hedge _ ih =>
      by_cases ha : a = node
      · rw [ha]
      · exact .head (show b ∈ g a from hfg a ha ▸ hedge) ih
  exact ⟨hmono _ _ fun a ha => if_neg ha, hmono _ _ fun a ha => (if_neg ha).symm⟩

/-- A cycle that misses a node does not need its successors. -/
theorem transGen_of_replace {a b : α} (h : TransGen (Edge (replace succ node next)) a b) :
    TransGen (Edge succ) a b ∨ ReflTransGen (Edge (replace succ node next)) a node ∧
      ∃ c ∈ next, ReflTransGen (Edge (replace succ node next)) c b := by
  induction h with
  | @single b hedge =>
    by_cases ha : a = node
    · subst ha
      exact .inr ⟨.refl, b, by simpa [Edge, replace] using hedge, .refl⟩
    · exact .inl (.single (by simpa [Edge, replace, ha] using hedge))
  | @tail b c hpath hedge ih =>
    by_cases hb : b = node
    · subst hb
      exact .inr ⟨hpath.to_reflTransGen, c, by simpa [Edge, replace] using hedge, .refl⟩
    · rcases ih with hold | ⟨hreach, d, hd, hdb⟩
      · exact .inl (hold.tail (by simpa [Edge, replace, hb] using hedge))
      · exact .inr ⟨hreach, d, hd, hdb.tail hedge⟩

/-- **New successors.** They close a cycle exactly when the node can be reached from
    one of them. -/
theorem acyclic_replace_iff (h : Acyclic succ) :
    Acyclic (replace succ node next) ↔ ¬ ∃ a ∈ next, ReflTransGen (Edge succ) a node := by
  constructor
  · rintro hnew ⟨a, ha, hreach⟩
    have hpath : ReflTransGen (Edge (replace succ node next)) a node := reaches_replace_iff.mpr hreach
    exact hnew node (.head' (by simpa [Edge, replace] using ha) hpath)
  · intro hnot a hcycle
    rcases transGen_of_replace hcycle with hold | ⟨hreach, c, hc, hca⟩
    · exact h a hold
    · exact hnot ⟨c, hc, reaches_replace_iff.mp (hca.trans hreach)⟩

end Replace

end Bobbit.Lib.Dfs
