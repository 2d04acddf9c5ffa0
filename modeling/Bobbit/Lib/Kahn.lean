import Bobbit.Lib.Dfs
import Bobbit.Lib.JsMap

/-!
# Kahn's algorithm

The loop takes a node of degree 0 from the queue and drops its edges; a node
whose last edge is dropped joins the queue. Edges may be repeated. One unit of
fuel is one turn of the loop; the number of nodes is enough.

## Key results

- `foldl_addEdge_degree`, `foldl_addEdge_adj`: what the counters and the lists of
  successors hold of a list of edges
- `loop_spec`: the nodes that are left over are those that lie on a cycle or
  behind one, and there are some exactly when fewer nodes are visited than there are
-/

namespace Bobbit.Lib.Kahn

open Relation Dfs

variable {α : Type*} [DecidableEq α]

/-! ## The counters and the lists of successors -/

/-- Count an edge in, and list its end under its start. -/
def addEdge (state : JsMap α Int × JsMap α (List α)) (edge : α × α) :
    JsMap α Int × JsMap α (List α) :=
  (JsMap.set state.1 edge.2 ((JsMap.get? state.1 edge.2).getD 0 + 1),
    JsMap.set state.2 edge.1 ((JsMap.get? state.2 edge.1).getD [] ++ [edge.2]))

def degreeOf (degree : JsMap α Int) (node : α) : Int := (JsMap.get? degree node).getD 0

theorem degreeOf_set (degree : JsMap α Int) (node : α) (d : Int) (b : α) :
    degreeOf (JsMap.set degree node d) b = if b = node then d else degreeOf degree b := by
  unfold degreeOf
  rw [JsMap.get?_set]
  split
  · rfl
  · rfl

variable (edges : List (α × α))

theorem foldl_addEdge_degree (state : JsMap α Int × JsMap α (List α)) (b : α) :
    degreeOf (edges.foldl addEdge state).1 b =
      degreeOf state.1 b + (edges.countP (·.2 = b) : Nat) := by
  induction edges generalizing state with
  | nil => simp
  | cons edge rest ih =>
    rw [List.foldl_cons, ih, addEdge, degreeOf_set, List.countP_cons]
    by_cases hb : b = edge.2
    · subst hb
      simp [degreeOf]
      omega
    · simp [hb, Ne.symm hb]

/-- A list of successors grows by the ends of the edges out of its node. -/
theorem foldl_addEdge_adj (state : JsMap α Int × JsMap α (List α)) (a : α) :
    (JsMap.get? (edges.foldl addEdge state).2 a).getD [] =
      (JsMap.get? state.2 a).getD [] ++ (edges.filter (·.1 = a)).map (·.2) := by
  induction edges generalizing state with
  | nil => simp
  | cons edge rest ih =>
    rw [List.foldl_cons, ih, addEdge, JsMap.get?_set, List.filter_cons]
    by_cases ha : a = edge.1
    · subst ha
      simp
    · simp [ha, Ne.symm ha]

/-- Edges between known nodes bring in no other counter. -/
theorem foldl_addEdge_keys (state : JsMap α Int × JsMap α (List α))
    (h : ∀ edge ∈ edges, edge.2 ∈ JsMap.keys state.1) :
    JsMap.keys (edges.foldl addEdge state).1 = JsMap.keys state.1 := by
  induction edges generalizing state with
  | nil => rfl
  | cons edge rest ih =>
    have hkeys : JsMap.keys (addEdge state edge).1 = JsMap.keys state.1 := by
      rw [addEdge, JsMap.keys_set, if_pos (h edge List.mem_cons_self)]
    rw [List.foldl_cons, ih, hkeys]
    intro other hother
    rw [hkeys]
    exact h other (List.mem_cons_of_mem _ hother)

/-! ## The loop -/

/-- One edge into `next` is dropped; a node without edges joins the queue. -/
def relax (state : List α × JsMap α Int) (next : α) : List α × JsMap α Int :=
  let d := (JsMap.get? state.2 next).getD 0 - 1
  (if d = 0 then state.1 ++ [next] else state.1, JsMap.set state.2 next d)

/-- Take nodes from the queue and drop their edges. The last number counts the turns. -/
def loop (succ : α → List α) : Nat → List α → JsMap α Int → Nat → JsMap α Int × Nat
  | 0, _, degree, visited => (degree, visited)
  | _ + 1, [], degree, visited => (degree, visited)
  | fuel + 1, id :: queue, degree, visited =>
    let state := (succ id).foldl relax (queue, degree)
    loop succ fuel state.1 state.2 (visited + 1)

theorem foldl_relax_keys (next queue : List α) (degree : JsMap α Int)
    (h : ∀ b ∈ next, b ∈ JsMap.keys degree) :
    JsMap.keys (next.foldl relax (queue, degree)).2 = JsMap.keys degree := by
  induction next generalizing queue degree with
  | nil => rfl
  | cons first rest ih =>
    have hkeys : JsMap.keys (relax (queue, degree) first).2 = JsMap.keys degree := by
      simp only [relax]
      rw [JsMap.keys_set, if_pos (h first List.mem_cons_self)]
    have hrest := ih (relax (queue, degree) first).1 (relax (queue, degree) first).2 fun b hb =>
      hkeys ▸ h b (List.mem_cons_of_mem _ hb)
    rw [List.foldl_cons, ← hkeys]
    exact hrest

/-- Dropping edges lowers each counter by its edges, and queues the nodes that get to 0, each once. -/
theorem foldl_relax (next queue : List α) (degree : JsMap α Int)
    (h : ∀ b ∈ next, (next.count b : Int) ≤ degreeOf degree b) :
    (∀ b, degreeOf (next.foldl relax (queue, degree)).2 b = degreeOf degree b - next.count b) ∧
      ∃ news, (next.foldl relax (queue, degree)).1 = queue ++ news ∧ news.Nodup ∧
        ∀ b, b ∈ news ↔ b ∈ next ∧ degreeOf degree b = next.count b := by
  induction next generalizing queue degree with
  | nil => exact ⟨by simp, [], by simp, List.nodup_nil, by simp⟩
  | cons first rest ih =>
    obtain ⟨queue', degree', hstep⟩ : ∃ queue' degree', relax (queue, degree) first =
        (queue', degree') := ⟨_, _, rfl⟩
    simp only [relax, Prod.mk.injEq] at hstep
    obtain ⟨hqueue, hdegree⟩ := hstep
    have hdeg : ∀ b, degreeOf degree' b = degreeOf degree b - if b = first then 1 else 0 := by
      intro b
      rw [← hdegree, degreeOf_set]
      split
      · rename_i hb
        rw [hb]
        rfl
      · rw [sub_zero]
    have hcount : ∀ b, ((first :: rest).count b : Int) =
        rest.count b + if b = first then 1 else 0 := by
      intro b
      rw [List.count_cons]
      by_cases hb : b = first
      · simp [hb]
      · simp [hb, Ne.symm hb]
    have hrest : ∀ b ∈ rest, (rest.count b : Int) ≤ degreeOf degree' b := by
      intro b hb
      have hle := h b (List.mem_cons_of_mem _ hb)
      rw [hcount] at hle
      rw [hdeg]
      omega
    obtain ⟨hlow, news, hnews, hnodup, hmem⟩ := ih queue' degree' hrest
    have hfold : (first :: rest).foldl relax (queue, degree) =
        rest.foldl relax (queue', degree') := by
      rw [List.foldl_cons, relax, hqueue, hdegree]
    rw [hfold]
    refine ⟨fun b => ?_, ?_⟩
    · rw [hlow, hdeg, hcount]
      omega
    · have hfirst := h first List.mem_cons_self
      rw [hcount, if_pos rfl] at hfirst
      rw [hnews, ← hqueue]
      by_cases hzero : degreeOf degree first = 1
      · -- the last edge into `first`: it is queued, and does not come again
        have hnot : first ∉ rest := by
          intro hin
          have := List.count_pos_iff.mpr hin
          omega
        have hd : (JsMap.get? degree first).getD 0 - 1 = 0 := by
          unfold degreeOf at hzero
          omega
        refine ⟨first :: news, ?_, List.nodup_cons.mpr ⟨fun hin => hnot ((hmem first).mp hin).1,
          hnodup⟩, fun b => ?_⟩
        · simp [hd]
        · rw [List.mem_cons, hmem, hdeg, hcount, List.mem_cons]
          by_cases hb : b = first
          · subst hb
            simp [hzero, List.count_eq_zero_of_not_mem hnot]
          · simp [hb]
      · have hd : (JsMap.get? degree first).getD 0 - 1 ≠ 0 := by
          unfold degreeOf at hzero
          omega
        refine ⟨news, by simp [hd], hnodup, fun b => ?_⟩
        rw [hmem, hdeg, hcount, List.mem_cons]
        by_cases hb : b = first
        · subst hb
          constructor
          · rintro ⟨-, heq⟩
            simp only [if_true] at heq ⊢
            exact ⟨.inl trivial, by omega⟩
          · rintro ⟨-, heq⟩
            simp only [if_true] at heq ⊢
            refine ⟨List.count_pos_iff.mp ?_, by omega⟩
            omega
        · simp [hb]

/-! ## What is left over -/

section Graph

variable {succ : α → List α}

/-- The node lies on a cycle, or a cycle leads to it. -/
def Stuck (succ : α → List α) (b : α) : Prop :=
  ∃ a, TransGen (Edge succ) a a ∧ ReflTransGen (Edge succ) a b

omit [DecidableEq α] in
/-- A node on a cycle or behind one has such a node before it. -/
theorem Stuck.pred {b : α} (h : Stuck succ b) : ∃ a, Edge succ a b ∧ Stuck succ a := by
  obtain ⟨c, hcycle, hreach⟩ := h
  have hpath : TransGen (Edge succ) c b := hcycle.trans_left hreach
  obtain ⟨a, hca, hab⟩ := TransGen.tail'_iff.mp hpath
  exact ⟨a, hab, c, hcycle, hca⟩

omit [DecidableEq α] in
/-- In a finite set in which every node has a node before it, all are on a cycle or behind one. -/
theorem stuck_of_pred {S : Set α} (hfinite : S.Finite)
    (hpred : ∀ b ∈ S, ∃ a ∈ S, Edge succ a b) {b : α} (hb : b ∈ S) : Stuck succ b := by
  choose! f hf hedge using hpred
  have hmem : ∀ n, f^[n] b ∈ S := by
    intro n
    induction n with
    | zero => exact hb
    | succ n ih =>
      rw [Function.iterate_succ_apply']
      exact hf _ ih
  have hback : ∀ n k, ReflTransGen (Edge succ) (f^[n + k] b) (f^[n] b) := by
    intro n k
    induction k with
    | zero => exact .refl
    | succ k ih =>
      rw [← Nat.add_assoc, Function.iterate_succ_apply']
      exact .head (hedge _ (hmem _)) ih
  -- going back for ever, the walk comes to some node twice
  have : Finite S := hfinite
  obtain ⟨i, j, hij, heq⟩ := Finite.exists_ne_map_eq_of_infinite fun n => (⟨f^[n] b, hmem n⟩ : S)
  rw [Subtype.mk.injEq] at heq
  have hcycle : ∀ i j : Nat, i < j → f^[i] b = f^[j] b → Stuck succ b := by
    intro i j hlt heq
    obtain ⟨k, rfl⟩ := Nat.exists_eq_add_of_lt hlt
    refine ⟨f^[i] b, ?_, ?_⟩
    · have hstep : TransGen (Edge succ) (f^[i + k + 1] b) (f^[i] b) := by
        rw [Function.iterate_succ_apply']
        exact TransGen.head' (hedge _ (hmem _)) (hback i k)
      rwa [← heq] at hstep
    · have hstart := hback 0 i
      rwa [Nat.zero_add] at hstart
  rcases Nat.lt_or_gt_of_ne hij with hlt | hgt
  · exact hcycle i j hlt heq
  · exact hcycle j i hgt heq.symm

/-- The edges into a node from nodes that are not done. -/
def waiting (succ : α → List α) (nodes done : List α) (b : α) : Nat :=
  ∑ a ∈ nodes.toFinset with a ∉ done, (succ a).count b

variable {nodes done : List α}

theorem waiting_eq_zero {b : α} :
    waiting succ nodes done b = 0 ↔ ∀ a ∈ nodes, Edge succ a b → a ∈ done := by
  unfold waiting Edge
  rw [Finset.sum_eq_zero_iff]
  simp only [Finset.mem_filter, List.mem_toFinset, List.count_eq_zero, and_imp]
  exact forall₂_congr fun a _ => not_imp_not

theorem waiting_concat {id : α} (hid : id ∈ nodes) (hnew : id ∉ done) (b : α) :
    waiting succ nodes done b = waiting succ nodes (done ++ [id]) b + (succ id).count b := by
  unfold waiting
  have hset : (nodes.toFinset.filter fun a => a ∉ done) =
      insert id (nodes.toFinset.filter fun a => a ∉ done ++ [id]) := by
    ext a
    simp only [Finset.mem_filter, List.mem_toFinset, Finset.mem_insert, List.mem_append,
      List.mem_singleton, not_or]
    by_cases ha : a = id
    · subst ha
      simp [hid, hnew]
    · simp [ha]
  rw [hset, Finset.sum_insert (by simp), Nat.add_comm]

/-! ## The invariant -/

/-- Every counter holds the edges from nodes that are not done; the nodes at 0 are those that are
done or queued, each once; and none of these lies on a cycle or behind one. -/
structure Inv (succ : α → List α) (nodes done queue : List α) (degree : JsMap α Int) : Prop where
  keys : JsMap.keys degree = nodes
  degrees : ∀ b ∈ nodes, degreeOf degree b = waiting succ nodes done b
  nodup : (done ++ queue).Nodup
  known : ∀ b ∈ done ++ queue, b ∈ nodes
  zero : ∀ b ∈ nodes, b ∈ done ++ queue ↔ waiting succ nodes done b = 0
  free : ∀ b ∈ done ++ queue, ¬ Stuck succ b

/-- Edges lead from nodes to nodes. -/
structure Closed (succ : α → List α) (nodes : List α) : Prop where
  source : ∀ a b, Edge succ a b → a ∈ nodes
  target : ∀ a b, Edge succ a b → b ∈ nodes

omit [DecidableEq α] in
theorem not_stuck_of_preds {b : α} (h : ∀ a, Edge succ a b → ¬ Stuck succ a) : ¬ Stuck succ b :=
  fun hb => hb.pred.elim fun a ha => h a ha.1 ha.2

variable {degree : JsMap α Int}

theorem Inv.start (hclosed : Closed succ nodes) (hnodup : nodes.Nodup)
    (hkeys : JsMap.keys degree = nodes)
    (hdegree : ∀ b ∈ nodes, degreeOf degree b = waiting succ nodes [] b) :
    Inv succ nodes [] (nodes.filter fun b => degreeOf degree b = 0) degree where
  keys := hkeys
  degrees := hdegree
  nodup := hnodup.filter _
  known _ hb := (List.mem_filter.mp hb).1
  zero b hb := by
    simp [hb, hdegree b hb]
  free b hb := by
    simp only [List.nil_append, List.mem_filter, decide_eq_true_eq] at hb
    rw [hdegree b hb.1, Nat.cast_eq_zero, waiting_eq_zero] at hb
    exact not_stuck_of_preds fun a hab _ => absurd (hb.2 a (hclosed.source a b hab) hab)
      List.not_mem_nil

theorem Inv.step {id : α} {queue : List α} (hclosed : Closed succ nodes)
    (h : Inv succ nodes done (id :: queue) degree) :
    Inv succ nodes (done ++ [id]) ((succ id).foldl relax (queue, degree)).1
      ((succ id).foldl relax (queue, degree)).2 := by
  have hid : id ∈ nodes := h.known id (by simp)
  have hnew : id ∉ done := by
    have hnodup := h.nodup
    rw [List.nodup_append] at hnodup
    exact fun hin => hnodup.2.2 id hin id List.mem_cons_self rfl
  have htarget : ∀ b ∈ succ id, b ∈ nodes := fun b hb => hclosed.target id b hb
  have hwait : ∀ b, waiting succ nodes done b =
      waiting succ nodes (done ++ [id]) b + (succ id).count b := waiting_concat hid hnew
  have hle : ∀ b ∈ succ id, ((succ id).count b : Int) ≤ degreeOf degree b := by
    intro b hb
    rw [h.degrees b (htarget b hb), hwait b]
    omega
  obtain ⟨hlow, news, hqueue, hnews, hmem⟩ := foldl_relax (succ id) queue degree hle
  have hdone : done ++ id :: queue = (done ++ [id]) ++ queue := by simp
  have hold := h.known
  have hzero := h.zero
  have hfree := h.free
  have hnodup := h.nodup
  rw [hdone] at hold hzero hfree hnodup
  -- the new ones had edges left, so none of them was done or queued
  have hfresh : ∀ b ∈ news, b ∈ nodes ∧ b ∉ (done ++ [id]) ++ queue ∧
      waiting succ nodes (done ++ [id]) b = 0 := by
    intro b hb
    obtain ⟨hedge, heq⟩ := (hmem b).mp hb
    have hnode := htarget b hedge
    have hcount := List.count_pos_iff.mpr hedge
    rw [h.degrees b hnode, hwait b] at heq
    refine ⟨hnode, fun hin => ?_, by omega⟩
    have := (hzero b hnode).mp hin
    rw [hwait b] at this
    omega
  rw [hqueue]
  constructor
  case keys =>
    rw [foldl_relax_keys _ _ _ fun b hb => h.keys ▸ htarget b hb, h.keys]
  case degrees =>
    intro b hb
    rw [hlow, h.degrees b hb, hwait b]
    omega
  case nodup =>
    rw [← List.append_assoc]
    refine List.nodup_append.mpr ⟨hnodup, hnews, ?_⟩
    rintro b hin _ hb rfl
    exact (hfresh b hb).2.1 hin
  case known =>
    intro b hb
    rw [← List.append_assoc, List.mem_append] at hb
    exact hb.elim (hold b) fun hb => (hfresh b hb).1
  case zero =>
    intro b hb
    rw [← List.append_assoc, List.mem_append, hzero b hb, hwait b]
    constructor
    · rintro (hz | hin)
      · omega
      · exact (hfresh b hin).2.2
    · intro hz
      by_cases hedge : b ∈ succ id
      · refine .inr ((hmem b).mpr ⟨hedge, ?_⟩)
        rw [h.degrees b hb, hwait b, hz, Nat.zero_add]
      · exact .inl (by rw [hz, List.count_eq_zero_of_not_mem hedge])
  case free =>
    intro b hb
    rw [← List.append_assoc, List.mem_append] at hb
    rcases hb with hin | hb
    · exact hfree b hin
    · -- all predecessors of a new one are done
      refine not_stuck_of_preds fun a hab => hfree a (List.mem_append_left _ ?_)
      exact waiting_eq_zero.mp (hfresh b hb).2.2 a (hclosed.source a b hab) hab

/-- At the end exactly the nodes that are done are free. -/
theorem Inv.finish (h : Inv succ nodes done [] degree) {b : α}
    (hb : b ∈ nodes) : 0 < degreeOf degree b ↔ Stuck succ b := by
  have hzero := h.zero
  have hfree := h.free
  rw [List.append_nil] at hzero hfree
  rw [h.degrees b hb]
  constructor
  · intro hpos
    refine stuck_of_pred (S := {a | a ∈ nodes ∧ a ∉ done}) ?_ ?_ ⟨hb, fun hin => ?_⟩
    · exact nodes.toFinset.finite_toSet.subset fun a ha => by simpa using ha.1
    · rintro c ⟨hc, hnot⟩
      have hwait : waiting succ nodes done c ≠ 0 := fun hz => hnot ((hzero c hc).mpr hz)
      rw [Ne, waiting_eq_zero] at hwait
      push Not at hwait
      obtain ⟨a, ha, hedge, hleft⟩ := hwait
      exact ⟨a, ⟨ha, hleft⟩, hedge⟩
    · rw [(hzero b hb).mp hin] at hpos
      omega
  · intro hstuck
    have hne : waiting succ nodes done b ≠ 0 := fun hz => hfree b ((hzero b hb).mpr hz) hstuck
    omega

/-- With enough fuel the loop runs until the queue is empty. -/
theorem loop_inv (hclosed : Closed succ nodes) (fuel : Nat) {queue : List α}
    (h : Inv succ nodes done queue degree) (hfuel : nodes.length ≤ done.length + fuel) :
    ∃ done', Inv succ nodes done' [] (loop succ fuel queue degree done.length).1 ∧
      (loop succ fuel queue degree done.length).2 = done'.length := by
  induction fuel generalizing done queue degree with
  | zero =>
    have hle : (done ++ queue).length ≤ nodes.length :=
      (List.subperm_of_subset h.nodup h.known).length_le
    have hnil : queue = [] := by
      rw [List.length_append] at hle
      exact List.length_eq_zero_iff.mp (by omega)
    subst hnil
    exact ⟨done, h, rfl⟩
  | succ fuel ih =>
    cases queue with
    | nil => exact ⟨done, h, rfl⟩
    | cons id queue =>
      have hnext := ih (h.step hclosed) (by rw [List.length_append, List.length_singleton]; omega)
      rw [List.length_append, List.length_singleton] at hnext
      exact hnext

/-- **Kahn's algorithm.** The counters that stay above 0 are those of the nodes on a cycle or behind
one; fewer nodes are visited than there are exactly when there is such a node. -/
theorem loop_spec (hclosed : Closed succ nodes) (hnodes : nodes.Nodup)
    (hkeys : JsMap.keys degree = nodes)
    (hdegree : ∀ b ∈ nodes, degreeOf degree b = waiting succ nodes [] b) {fuel : Nat}
    (hfuel : nodes.length ≤ fuel) :
    let result := loop succ fuel (nodes.filter fun b => degreeOf degree b = 0) degree 0
    JsMap.keys result.1 = nodes ∧ (∀ b ∈ nodes, 0 < degreeOf result.1 b ↔ Stuck succ b) ∧
      (result.2 < nodes.length ↔ ∃ b, Stuck succ b) := by
  obtain ⟨done, hinv, hcount⟩ := loop_inv hclosed fuel
    (Inv.start hclosed hnodes hkeys hdegree) (by simpa using hfuel)
  have hknown := hinv.known
  have hnodup := hinv.nodup
  rw [List.append_nil] at hknown hnodup
  refine ⟨hinv.keys, fun b hb => hinv.finish hb, ?_⟩
  simp only [List.length_nil] at hcount
  rw [hcount]
  constructor
  · intro hlt
    by_contra hnone
    push Not at hnone
    have hall : nodes ⊆ done := by
      intro b hb
      by_contra hnot
      have hpos : ¬ 0 < degreeOf _ b := fun hpos => hnone b ((hinv.finish hb).mp hpos)
      rw [hinv.degrees b hb] at hpos
      have hzero := (hinv.zero b hb).mpr (by omega)
      rw [List.append_nil] at hzero
      exact hnot hzero
    have := (List.subperm_of_subset hnodes hall).length_le
    omega
  · rintro ⟨b, hstuck⟩
    obtain ⟨a, hedge, -⟩ := hstuck.pred
    have hb := hclosed.target a b hedge
    have hnot : b ∉ done := fun hin => hinv.free b (List.mem_append_left _ hin) hstuck
    have hsub : (b :: done).Subperm nodes :=
      List.subperm_of_subset (List.nodup_cons.mpr ⟨hnot, hnodup⟩)
        (List.cons_subset.mpr ⟨hb, hknown⟩)
    have := hsub.length_le
    rw [List.length_cons] at this
    omega

/-! ## The edges of a list -/

/-- Without anything done, a node waits for all edges into it. -/
theorem waiting_nil {edges : List (α × α)} (hadj : ∀ a, succ a = (edges.filter (·.1 = a)).map (·.2))
    (hsource : ∀ edge ∈ edges, edge.1 ∈ nodes) (b : α) :
    waiting succ nodes [] b = edges.countP (·.2 = b) := by
  have hcount : ∀ a, (succ a).count b = (edges.filter (·.2 = b)).countP (·.1 = a) := by
    intro a
    rw [hadj, List.count, List.countP_map, List.countP_filter, List.countP_filter]
    refine List.countP_congr fun edge _ => ?_
    simp [and_comm]
  unfold waiting
  simp only [List.not_mem_nil, not_false_eq_true, Finset.filter_true, hcount]
  rw [List.countP_eq_length_filter]
  have hmem : ∀ edge ∈ edges.filter (·.2 = b), edge.1 ∈ nodes :=
    fun edge hedge => hsource edge (List.mem_filter.mp hedge).1
  -- every edge is counted at its start
  generalize edges.filter (·.2 = b) = into at hmem
  induction into with
  | nil => simp
  | cons edge rest ih =>
    simp only [List.countP_cons, List.length_cons, Finset.sum_add_distrib]
    rw [ih fun e he => hmem e (List.mem_cons_of_mem _ he)]
    simp [hmem edge List.mem_cons_self]

end Graph

end Bobbit.Lib.Kahn
