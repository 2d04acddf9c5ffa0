import Bobbit.Spec.PromptQueueLanes

/-!
# Retargeting the continuation

What `retargetContinuationToNextTurn` does to a queue. When it moves a row it puts the
whole next-turn lane in the order of creation and gives every row of it a new sequence;
when there is none to move it leaves the lane as it is.

## Key results
- `retargets`: one retargeting, for a queue whose counters are above its sequences.
- `drainLane_eq`: a lane whose sequences increase is dequeued in visible order.
- `continuation_retargeted`: so in every queue that a run reaches.
- `lane_left_unordered`: nothing to move, and a lane that stays out of order.
-/

namespace Bobbit.Server

open Lib

namespace PromptQueue

/-! ## What it should do -/

/-- The rows of the next-turn lane, in visible order. -/
def nextTurnRows (s : PromptQueue) : List QueuedMessage :=
  s.queue.filter (·.targetTurn = some .nextTurn)

/-- The rows that the next-turn lane is made of after a retargeting. -/
def mergedRows (s : PromptQueue) (reason : JsString) : List QueuedMessage :=
  (s.queue.map (retargeted reason)).filter (·.targetTurn = some .nextTurn)

/-- The rows that so many dequeues of a lane return. -/
def drainLane (target : DeliveryTargetTurn) : Nat → PromptQueue → List QueuedMessage
  | 0, _ => []
  | n + 1, s =>
    match (s.dequeueForTarget target).1 with
    | none => []
    | some row => row :: drainLane target n (s.dequeueForTarget target).2

/-- The counter of the next turn can give out a safe integer to every row of the lane. -/
def HasRoom (s : PromptQueue) (reason : JsString) : Prop :=
  s.nextSequence .nextTurn + (s.mergedRows reason).length ≤ 2 ^ 53

structure Retargets (reason : JsString) (s s' : PromptQueue) (returned : List QueuedMessage) :
    Prop where
  kept : s'.ids.Perm s.ids
  /-- no queued, failed or state-less row is left on the continuation lane -/
  left : ∀ row ∈ s'.queue, isRetargetable row = false
  /-- the next turn is ordered by creation time -/
  sorted : s'.nextTurnRows.Pairwise (·.createdAt ≤ ·.createdAt)
  /-- rows of one time stand as they did; only sequences change -/
  stable : ∀ time, (s'.nextTurnRows.filter (·.createdAt = time)).map unsequenced =
    ((s.mergedRows reason).filter (·.createdAt = time)).map unsequenced
  /-- the sequences are new and increase by one -/
  fresh : s.HasRoom reason → s'.nextTurnRows.map (·.sequence) =
    (List.range' (s.nextSequence .nextTurn) s'.nextTurnRows.length).map some
  /-- no row had them before -/
  unused : ∀ lane, ∀ n ∈ s.laneSequences lane, n < s.nextSequence lane
  /-- the lane is dequeued in that order -/
  released : s.HasRoom reason →
    drainLane .nextTurn s'.nextTurnRows.length s' = s'.nextTurnRows
  /-- rows outside the lane stay where they are -/
  outside : ∀ (i : Nat) row, s.queue[i]? = some row → isRetargetable row = false →
    row.targetTurn ≠ some .nextTurn → s'.queue[i]? = some row
  /-- the moved rows are returned, in their new order -/
  returned : returned.Sublist s'.nextTurnRows ∧
    (returned.map (·.id)).Perm ((s.queue.filter isRetargetable).map (·.id))

/-! ## The places of the lane -/

variable {rows : List QueuedMessage}

theorem filter_fillNextTurn {queue : List QueuedMessage}
    (hlen : rows.length = (queue.filter inNextTurn).length)
    (hin : ∀ row ∈ rows, inNextTurn row = true) :
    (fillNextTurn queue rows).filter inNextTurn = rows := by
  induction queue generalizing rows with
  | nil => simpa [fillNextTurn, eq_comm] using hlen
  | cons row rest ih =>
    by_cases hrow : inNextTurn row = true
    · cases rows with
      | nil => simp [hrow] at hlen
      | cons next rows =>
        rw [List.filter_cons_of_pos hrow, List.length_cons, List.length_cons,
          Nat.add_right_cancel_iff] at hlen
        simp only [fillNextTurn, hrow, if_true]
        rw [List.filter_cons_of_pos (hin next List.mem_cons_self),
          ih hlen fun r hr => hin r (List.mem_cons_of_mem _ hr)]
    · rw [List.filter_cons_of_neg hrow] at hlen
      simp only [fillNextTurn, hrow, Bool.false_eq_true, if_false]
      rw [List.filter_cons_of_neg hrow, ih hlen hin]

theorem getElem?_fillNextTurn {queue : List QueuedMessage} {i : Nat} {row : QueuedMessage}
    (hget : queue[i]? = some row) (hrow : inNextTurn row = false) :
    (fillNextTurn queue rows)[i]? = some row := by
  induction queue generalizing rows i with
  | nil => cases hget
  | cons first rest ih =>
    cases i with
    | zero =>
      rw [List.getElem?_cons_zero, Option.some.injEq] at hget
      subst hget
      simp [fillNextTurn, hrow]
    | succ i =>
      rw [List.getElem?_cons_succ] at hget
      simp only [fillNextTurn]
      split
      · cases rows with
        | nil => exact ih hget
        | cons next rows => exact ih hget
      · exact ih hget

/-! ## The order of the lane -/

/-- Rows of one creation time are sorted into the order in which they stood. -/
theorem filter_mergeSort_createdAt (rows : List QueuedMessage) (time : Nat) :
    (rows.mergeSort (·.createdAt ≤ ·.createdAt)).filter (·.createdAt = time) =
      rows.filter (·.createdAt = time) := by
  have hsub : (rows.filter (·.createdAt = time)).Sublist
      (rows.mergeSort (·.createdAt ≤ ·.createdAt)) := by
    refine List.sublist_mergeSort (by simp; omega) (by simp; omega) ?_ List.filter_sublist
    refine List.pairwise_of_forall_mem_list ?_
    intro a ha b hb
    have ha := (List.mem_filter.mp ha).2
    have hb := (List.mem_filter.mp hb).2
    simp only [decide_eq_true_eq] at ha hb ⊢
    omega
  have hfiltered := hsub.filter (·.createdAt = time)
  rw [List.filter_filter] at hfiltered
  simp only [Bool.and_self] at hfiltered
  refine (hfiltered.eq_of_length ?_).symm
  exact ((List.mergeSort_perm _ _).filter _).length_eq.symm

theorem pairwise_mergeSort_createdAt (rows : List QueuedMessage) :
    (rows.mergeSort (·.createdAt ≤ ·.createdAt)).Pairwise (·.createdAt ≤ ·.createdAt) := by
  have h : (rows.mergeSort (·.createdAt ≤ ·.createdAt)).Pairwise fun a b =>
      decide (a.createdAt ≤ b.createdAt) = true :=
    List.pairwise_mergeSort (by simp; omega) (by simp; omega) rows
  simpa using h

variable {s : PromptQueue}

/-- With room, sequences are given out one after the other. -/
theorem sequences_allocateRows (hroom : s.nextSequence .nextTurn + rows.length ≤ 2 ^ 53) :
    (s.allocateRows rows).1.map (·.sequence) =
      (List.range' (s.nextSequence .nextTurn) rows.length).map some := by
  induction rows generalizing s with
  | nil => rfl
  | cons row rest ih =>
    rw [List.length_cons] at hroom
    have hnext : (s.allocateSequence .nextTurn).2.nextSequence .nextTurn =
        s.nextSequence .nextTurn + 1 := by
      simp only [allocateSequence, if_true, numberSucc]
      omega
    have hrest := ih (s := (s.allocateSequence .nextTurn).2) (by rw [hnext]; omega)
    rw [hnext] at hrest
    rw [List.length_cons, List.range'_succ, List.map_cons, ← hrest]
    rfl

/-! ## Releasing the lane -/

/-- A lane whose rows have valid sequences that increase. -/
def Increasing (rows : List QueuedMessage) : Prop :=
  (∀ row ∈ rows, ∃ n, validSequence row.sequence = some n) ∧
    rows.Pairwise fun a b => sequenceLt (validSequence a.sequence) (validSequence b.sequence) = true

/-- The first row of such a lane is dequeued, and leaves the others. -/
theorem dequeueForTarget_first {row : QueuedMessage} {rest : List QueuedMessage}
    (hrows : s.nextTurnRows = row :: rest) (h : Increasing (row :: rest)) :
    (s.dequeueForTarget .nextTurn).1 = some row ∧
      (s.dequeueForTarget .nextTurn).2.nextTurnRows = rest := by
  have hspec := s.dequeueForTarget_spec .nextTurn
  have hmem : ∀ other, other ∈ row :: rest ↔
      other ∈ s.queue ∧ other.targetTurn = some .nextTurn := by
    intro other
    rw [← hrows, nextTurnRows, List.mem_filter, decide_eq_true_eq]
  obtain ⟨hfirst, hlane⟩ := (hmem row).mp List.mem_cons_self
  cases hrow : (s.dequeueForTarget .nextTurn).1 with
  | none =>
    rw [hrow] at hspec
    exact absurd hlane (hspec.1 row hfirst)
  | some out =>
    rw [hrow] at hspec
    obtain ⟨hperm, hout, hleast⟩ := hspec
    have hbefore := (List.pairwise_cons.mp h.2).1
    -- a later row has a greater sequence than the first
    obtain rfl : out = row := by
      rcases List.mem_cons.mp ((hmem out).mpr ⟨hperm.symm.subset List.mem_cons_self, hout⟩) with
        heq | hlater
      · exact heq
      · have hlt := hbefore out hlater
        rw [hleast row hfirst hlane] at hlt
        cases hlt
    refine ⟨rfl, ?_⟩
    obtain ⟨queue, hstate, hsub⟩ := s.dequeueForTarget_sublist .nextTurn
    rw [hstate] at hperm ⊢
    have hfilter := hperm.filter (·.targetTurn = some .nextTurn)
    rw [List.filter_cons_of_pos (by simpa using hout)] at hfilter
    have hleft : rest.Perm (queue.filter (·.targetTurn = some .nextTurn)) :=
      (List.perm_cons out).mp (hrows ▸ hfilter)
    have hnot : out ∉ queue.filter (·.targetTurn = some .nextTurn) := by
      intro hin
      have hlt := hbefore out (hleft.symm.subset hin)
      rw [sequenceLt_irrefl] at hlt
      cases hlt
    have hsublist : (queue.filter (·.targetTurn = some .nextTurn)).Sublist (out :: rest) :=
      hrows ▸ hsub.filter _
    have htail := (List.sublist_cons_iff.mp hsublist).resolve_right (by
      rintro ⟨r, heq, -⟩
      exact hnot (heq ▸ List.mem_cons_self))
    exact htail.eq_of_length hleft.length_eq.symm

/-- A lane whose sequences increase is dequeued in visible order. -/
theorem drainLane_eq (h : Increasing s.nextTurnRows) :
    drainLane .nextTurn s.nextTurnRows.length s = s.nextTurnRows := by
  generalize hrows : s.nextTurnRows = rows at h
  induction rows generalizing s with
  | nil => rfl
  | cons row rest ih =>
    obtain ⟨hfirst, hleft⟩ := dequeueForTarget_first hrows h
    rw [List.length_cons, drainLane, hfirst]
    simp only [List.cons.injEq, true_and]
    exact ih hleft ⟨fun r hr => h.1 r (List.mem_cons_of_mem _ hr), h.2.of_cons⟩

theorem increasing_of_range {first : Nat}
    (hseq : rows.map (·.sequence) = (List.range' first rows.length).map some)
    (hroom : first + rows.length ≤ 2 ^ 53) : Increasing rows := by
  have hvalid : rows.map (fun row => validSequence row.sequence) =
      (List.range' first rows.length).map some := by
    have h := congrArg (List.map validSequence) hseq
    rw [List.map_map, List.map_map] at h
    refine h.trans (List.map_congr_left fun n hn => ?_)
    rw [List.mem_range'_1] at hn
    exact validSequence_eq_some.mpr ⟨rfl, by unfold maxSafeInteger; omega⟩
  constructor
  · intro row hrow
    have hmem : validSequence row.sequence ∈ (List.range' first rows.length).map some :=
      hvalid ▸ List.mem_map_of_mem hrow
    obtain ⟨n, _, hn⟩ := List.mem_map.mp hmem
    exact ⟨n, hn.symm⟩
  · have hpairs : (rows.map fun row => validSequence row.sequence).Pairwise
        fun a b => sequenceLt a b = true := by
      rw [hvalid, List.pairwise_map]
      exact (List.pairwise_lt_range' 1 Nat.one_pos).imp fun hlt => by simpa [sequenceLt] using hlt
    exact List.pairwise_map.mp hpairs

/-! ## One retargeting -/

theorem inNextTurn_eq {row : QueuedMessage}
    (hkind : row.targetTurn.isSome = true → row.kind.isSome = true) :
    inNextTurn row = decide (row.targetTurn = some .nextTurn) := by
  cases hlane : row.targetTurn with
  | none => simp [inNextTurn, hlane]
  | some lane => simp [inNextTurn, hlane, hkind (by rw [hlane]; rfl)]

section Retargeting

variable {s : PromptQueue} (reason : JsString) (h : CounterInv s)

include h

/-- Retargeting keeps the lane and the kind of a row together. -/
theorem kinded_retargeted {row : QueuedMessage} (hrow : row ∈ s.queue)
    (hlane : (retargeted reason row).targetTurn.isSome = true) :
    (retargeted reason row).kind.isSome = true := by
  rw [retargeted_kind]
  refine h.kinded row hrow ?_
  unfold retargeted at hlane
  split at hlane
  · rename_i hret
    simp only [isRetargetable, Bool.and_eq_true, decide_eq_true_eq] at hret
    simp [hret.1]
  · exact hlane

/-- Every row whose target is the next turn is of the lane. -/
theorem filter_inNextTurn :
    (s.queue.map (retargeted reason)).filter inNextTurn = s.mergedRows reason := by
  refine List.filter_congr fun row hrow => ?_
  obtain ⟨old, hold, rfl⟩ := List.mem_map.mp hrow
  exact inNextTurn_eq (kinded_retargeted reason h hold)

theorem retarget_state (hany : s.queue.all (! isRetargetable ·) = false) :
    s.retargetContinuationToNextTurn reason [] =
      { (s.allocateRows ((s.mergedRows reason).mergeSort (·.createdAt ≤ ·.createdAt))).2 with
        queue := fillNextTurn (s.queue.map (retargeted reason))
          (s.allocateRows ((s.mergedRows reason).mergeSort (·.createdAt ≤ ·.createdAt))).1 } := by
  rw [← filter_inNextTurn reason h]
  unfold retargetContinuationToNextTurn
  simp only [List.foldl_nil, hany, Bool.false_eq_true, if_false]
  rfl

/-- The rows of the lane after a retargeting that moves rows. -/
theorem nextTurnRows_retarget (hany : s.queue.all (! isRetargetable ·) = false) :
    (s.retargetContinuationToNextTurn reason []).nextTurnRows =
      (s.allocateRows ((s.mergedRows reason).mergeSort (·.createdAt ≤ ·.createdAt))).1 := by
  obtain ⟨-, hunsequenced⟩ :=
    s.allocateRows_spec ((s.mergedRows reason).mergeSort (·.createdAt ≤ ·.createdAt))
  have hlen := congrArg List.length hunsequenced
  rw [List.length_map, List.length_map, List.length_mergeSort, ← filter_inNextTurn reason h]
    at hlen
  have hin : ∀ row ∈ (s.allocateRows
      ((s.mergedRows reason).mergeSort (·.createdAt ≤ ·.createdAt))).1, inNextTurn row = true := by
    intro row hrow
    obtain ⟨old, hold, heq⟩ := List.mem_map.mp (hunsequenced ▸ List.mem_map_of_mem hrow)
    obtain ⟨-, hlane, hkind⟩ := unsequenced_eq heq
    rw [List.mem_mergeSort, ← filter_inNextTurn reason h] at hold
    have hold := (List.mem_filter.mp hold).2
    rw [inNextTurn] at hold ⊢
    rw [← hlane, ← hkind, hold]
  have hkinded := (counterInv_retarget h reason).kinded
  have hfilter : (s.retargetContinuationToNextTurn reason []).nextTurnRows =
      (s.retargetContinuationToNextTurn reason []).queue.filter inNextTurn :=
    List.filter_congr fun row hrow => (inNextTurn_eq (hkinded row hrow)).symm
  rw [hfilter, retarget_state reason h hany]
  rw [← filter_inNextTurn reason h] at hin ⊢
  exact filter_fillNextTurn hlen hin

theorem map_unsequenced_retarget (hany : s.queue.all (! isRetargetable ·) = false) :
    (s.retargetContinuationToNextTurn reason []).nextTurnRows.map unsequenced =
      ((s.mergedRows reason).mergeSort (·.createdAt ≤ ·.createdAt)).map unsequenced := by
  rw [nextTurnRows_retarget reason h hany]
  exact (s.allocateRows_spec _).2

/-- Where the rows come from after a retargeting that moves rows. -/
theorem mem_queue_retarget (hany : s.queue.all (! isRetargetable ·) = false)
    {row : QueuedMessage} (hrow : row ∈ (s.retargetContinuationToNextTurn reason []).queue)
    (hlane : row.targetTurn ≠ some .nextTurn) : row ∈ s.queue.map (retargeted reason) := by
  have hrows := nextTurnRows_retarget reason h hany
  have hlen := congrArg List.length (map_unsequenced_retarget reason h hany)
  rw [hrows, List.length_map, List.length_map, List.length_mergeSort,
    ← filter_inNextTurn reason h] at hlen
  have hmem := hrow
  rw [retarget_state reason h hany] at hmem
  rw [← filter_inNextTurn reason h] at hmem hrows
  rcases List.mem_append.mp ((fillNextTurn_perm _ _ hlen).subset hmem) with hin | hout
  · rw [← hrows] at hin
    exact absurd (by simpa using (List.mem_filter.mp hin).2) hlane
  · exact (List.mem_filter.mp hout).1

omit h in
theorem not_isRetargetable_retargeted (row : QueuedMessage) :
    isRetargetable (retargeted reason row) = false := by
  unfold retargeted
  split
  · simp [isRetargetable]
  · rename_i hnot
    exact Bool.eq_false_iff.mpr hnot

theorem left_retarget (hany : s.queue.all (! isRetargetable ·) = false) :
    ∀ row ∈ (s.retargetContinuationToNextTurn reason []).queue, isRetargetable row = false := by
  intro row hrow
  by_cases hlane : row.targetTurn = some .nextTurn
  · simp [isRetargetable, hlane]
  · obtain ⟨old, -, rfl⟩ := List.mem_map.mp (mem_queue_retarget reason h hany hrow hlane)
    exact not_isRetargetable_retargeted reason old

theorem outside_retarget (hany : s.queue.all (! isRetargetable ·) = false) {i : Nat}
    {row : QueuedMessage} (hget : s.queue[i]? = some row) (hnot : isRetargetable row = false)
    (hlane : row.targetTurn ≠ some .nextTurn) :
    (s.retargetContinuationToNextTurn reason []).queue[i]? = some row := by
  have hsame : retargeted reason row = row := by
    unfold retargeted
    rw [if_neg (by simp [hnot])]
  rw [retarget_state reason h hany]
  refine getElem?_fillNextTurn ?_ ?_
  · rw [List.getElem?_map, hget, Option.map_some, hsame]
  · exact (not_inNextTurn (h.kinded row (List.mem_of_getElem? hget))).mpr hlane

theorem stable_retarget (hany : s.queue.all (! isRetargetable ·) = false) (time : Nat) :
    ((s.retargetContinuationToNextTurn reason []).nextTurnRows.filter (·.createdAt = time)).map
        unsequenced =
      ((s.mergedRows reason).filter (·.createdAt = time)).map unsequenced := by
  have hfilter (rows : List QueuedMessage) :
      (rows.filter (·.createdAt = time)).map unsequenced =
        (rows.map unsequenced).filter (·.createdAt = time) := by
    rw [List.filter_map]
    rfl
  rw [hfilter, map_unsequenced_retarget reason h hany, ← hfilter, filter_mergeSort_createdAt]

theorem sorted_retarget (hany : s.queue.all (! isRetargetable ·) = false) :
    (s.retargetContinuationToNextTurn reason []).nextTurnRows.Pairwise
      (·.createdAt ≤ ·.createdAt) := by
  have h := pairwise_mergeSort_createdAt (s.mergedRows reason)
  have hmap (rows : List QueuedMessage) :
      rows.Pairwise (·.createdAt ≤ ·.createdAt) ↔
        (rows.map unsequenced).Pairwise (·.createdAt ≤ ·.createdAt) := by
    rw [List.pairwise_map]
    rfl
  rw [hmap] at h ⊢
  rwa [map_unsequenced_retarget reason ‹_› hany]

theorem retargetedRows_eq (hany : s.queue.all (! isRetargetable ·) = false) :
    s.retargetedRows reason [] =
      (s.retargetContinuationToNextTurn reason []).nextTurnRows.filter fun row =>
        row.id ∈ (s.queue.filter isRetargetable).map (·.id) := by
  have hne : (s.queue.filter isRetargetable).isEmpty = false := by
    rw [Bool.eq_false_iff]
    intro hempty
    have hnil := List.isEmpty_iff.mp hempty
    rw [List.filter_eq_nil_iff] at hnil
    rw [List.all_eq_false] at hany
    obtain ⟨row, hrow, hret⟩ := hany
    exact hnil row hrow (by simpa using hret)
  rw [nextTurnRows_retarget reason h hany, ← filter_inNextTurn reason h]
  unfold retargetedRows
  simp only [List.foldl_nil, hne, Bool.false_eq_true, if_false]
  rfl

omit h in
theorem kept_retarget : (s.retargetContinuationToNextTurn reason []).ids.Perm s.ids :=
  ids_retarget trivial

theorem returned_retarget (hids : s.ids.Nodup)
    (hany : s.queue.all (! isRetargetable ·) = false) :
    (s.retargetedRows reason []).Sublist
        (s.retargetContinuationToNextTurn reason []).nextTurnRows ∧
      ((s.retargetedRows reason []).map (·.id)).Perm
        ((s.queue.filter isRetargetable).map (·.id)) := by
  rw [retargetedRows_eq reason h hany]
  refine ⟨List.filter_sublist, ?_⟩
  have hids' : (s.retargetContinuationToNextTurn reason []).ids.Nodup :=
    (kept_retarget reason).nodup_iff.mpr hids
  refine (List.perm_ext_iff_of_nodup ?_ ?_).mpr ?_
  · exact hids'.sublist ((List.filter_sublist.trans List.filter_sublist).map _)
  · exact hids.sublist (List.filter_sublist.map _)
  · intro id
    constructor
    · intro hid
      obtain ⟨row, hrow, rfl⟩ := List.mem_map.mp hid
      exact of_decide_eq_true (List.mem_filter.mp hrow).2
    · intro hid
      obtain ⟨old, hold, hold_id⟩ := List.mem_map.mp hid
      obtain ⟨hold, hret⟩ := List.mem_filter.mp hold
      have hmoved : retargeted reason old ∈ s.mergedRows reason := by
        refine List.mem_filter.mpr ⟨List.mem_map_of_mem hold, ?_⟩
        simp [retargeted, hret]
      have hsorted : unsequenced (retargeted reason old) ∈
          (s.retargetContinuationToNextTurn reason []).nextTurnRows.map unsequenced := by
        rw [map_unsequenced_retarget reason h hany]
        exact List.mem_map_of_mem (List.mem_mergeSort.mpr hmoved)
      obtain ⟨row, hrow, heq⟩ := List.mem_map.mp hsorted
      have hrow_id : row.id = id := by
        rw [(unsequenced_eq heq).1, ← hold_id]
        unfold retargeted
        split <;> rfl
      exact List.mem_map.mpr ⟨row, List.mem_filter.mpr ⟨hrow, by simpa [hrow_id] using hid⟩,
        hrow_id⟩

theorem retargets (hids : s.ids.Nodup) (hany : s.queue.all (! isRetargetable ·) = false) :
    Retargets reason s (s.retargetContinuationToNextTurn reason [])
      (s.retargetedRows reason []) := by
  have hlen : (s.retargetContinuationToNextTurn reason []).nextTurnRows.length =
      (s.mergedRows reason).length := by
    have hlen := congrArg List.length (map_unsequenced_retarget reason h hany)
    rwa [List.length_map, List.length_map, List.length_mergeSort] at hlen
  have hfresh : s.HasRoom reason →
      (s.retargetContinuationToNextTurn reason []).nextTurnRows.map (·.sequence) =
        (List.range' (s.nextSequence .nextTurn)
          (s.retargetContinuationToNextTurn reason []).nextTurnRows.length).map some := by
    intro hroom
    rw [hlen, nextTurnRows_retarget reason h hany,
      sequences_allocateRows (by rw [List.length_mergeSort]; exact hroom), List.length_mergeSort]
  exact {
    kept := kept_retarget reason
    left := left_retarget reason h hany
    sorted := sorted_retarget reason h hany
    stable := stable_retarget reason h hany
    fresh := hfresh
    unused := h.below
    released := fun hroom => drainLane_eq
      (increasing_of_range (hfresh hroom) (by rw [hlen]; exact hroom))
    outside := fun i row hget hnot hlane => outside_retarget reason h hany hget hnot hlane
    returned := returned_retarget reason h hids hany }

end Retargeting

/-! ## Every run -/

def Sound (s : PromptQueue) : Prop := CounterInv s ∧ s.ids.Nodup

theorem sound_step {event : Event} (h : Sound s)
    (hg : FreshUuids s event ∧ NoRepeats s event) : Sound (step s event) :=
  ⟨counterInv_step h.1 h.2 hg.1 hg.2, (rows_change h.2 hg.1 hg.2).nodup h.2⟩

theorem sound_run (initial : List (RawMessage × String)) {events : List Event}
    (hfresh : Along step FreshUuids (new initial) events)
    (hrepeat : Along step NoRepeats (new initial) events) :
    Sound (run step (new initial) events) :=
  (always_of_along (fun _ _ h hg => sound_step h hg) ⟨counterInv_new initial, nodup_new initial⟩
    (along_and hfresh hrepeat)).last

theorem sound_admitRow {row : RawMessage × String} (h : Sound s)
    (hfresh : row.2 ∉ s.ids) : Sound (admitRow s row) :=
  show Sound (step s (.enqueueExisting row.1 row.2)) from sound_step h ⟨hfresh, trivial⟩

theorem sound_admitRows {restoredRows : List (RawMessage × String)}
    (h : Sound s) (hfresh : Along admitRow (fun s row => row.2 ∉ s.ids) s restoredRows) :
    Sound (run admitRow s restoredRows) :=
  (always_of_along (fun _ _ h hg => sound_admitRow h hg) h hfresh).last

theorem prefix_admitRows (s : PromptQueue) (restoredRows : List (RawMessage × String)) :
    s.queue <+: (run admitRow s restoredRows).queue := by
  induction restoredRows generalizing s with
  | nil => exact List.prefix_refl _
  | cons row rest ih =>
    refine List.IsPrefix.trans ?_ (ih (admitRow s row))
    unfold admitRow enqueueExisting
    split
    · exact List.prefix_refl _
    · simp only [normalizeQueuedMessage_queue, observeSequence_queue]
      exact List.prefix_append _ _

/-- **Retargeting.** For every queue that a run reaches and all restored rows: these come in
    behind the queue, each id once; then, if a row can be moved, the next-turn lane is
    merged and reordered, and otherwise nothing changes. -/
theorem continuation_retargeted (initial : List (RawMessage × String)) (events : List Event)
    (hfresh : Along step FreshUuids (new initial) events)
    (hrepeat : Along step NoRepeats (new initial) events) (reason : JsString)
    (restoredRows : List (RawMessage × String))
    (hrestored : Along admitRow (fun s row => row.2 ∉ s.ids)
      (run step (new initial) events) restoredRows) :
    let s := run step (new initial) events
    let admitted := run admitRow s restoredRows
    let s' := s.retargetContinuationToNextTurn reason restoredRows
    let returned := s.retargetedRows reason restoredRows
    s.queue <+: admitted.queue ∧
      admitted.ids.Perm
        (restoredRows.foldl (fun ids row => ids.insert (restoredId row.1 row.2)) s.ids) ∧
      admitted.ids.Nodup ∧
      if admitted.queue.all (! isRetargetable ·) then s' = admitted ∧ returned = []
      else Retargets reason admitted s' returned := by
  intro s admitted s' returned
  have hsound : Sound admitted := sound_admitRows (sound_run initial hfresh hrepeat) hrestored
  refine ⟨prefix_admitRows s restoredRows, ids_foldl_enqueueExisting hrestored, hsound.2, ?_⟩
  have hstate : s' = admitted.retargetContinuationToNextTurn reason [] := rfl
  have hreturned : returned = admitted.retargetedRows reason [] := rfl
  cases hany : admitted.queue.all (! isRetargetable ·) with
  | true =>
    rw [if_pos rfl]
    constructor
    · rw [hstate]
      unfold retargetContinuationToNextTurn
      simp only [List.foldl_nil, hany, if_true]
    · rw [hreturned]
      have hnil : (admitted.queue.filter isRetargetable).isEmpty = true := by
        rw [List.isEmpty_iff, List.filter_eq_nil_iff]
        intro row hrow
        simpa using List.all_eq_true.mp hany row hrow
      unfold retargetedRows
      simp only [List.foldl_nil, hnil, if_true]
  | false =>
    rw [if_neg (by simp), hstate, hreturned]
    exact retargets reason hsound.1 hsound.2 hany

def recordOf (id : String) (target : DeliveryTargetTurn) (createdAt : Nat) : RawMessage where
  id := .valid id
  text := []
  displayText := .absent
  isSteered := false
  createdAt := createdAt
  kind := .absent
  targetTurn := .valid target
  sequence := .absent
  deliveryState := .absent
  deliveryReason := .absent
  deliveryError := .absent
  source := .absent
  verifierOwned := false
  author := .absent
  goalDispatchGuardId := .absent
  payload := ⟨[], [], none, false, false, none⟩

/-- A continuation that is older than the next turn. -/
theorem older_continuation_retargeted :
    let s := run step (new [(recordOf "a" .nextTurn 2, "u"), (recordOf "b" .continuation 1, "v")]) []
    Along step FreshUuids s [] ∧ Along step NoRepeats s [] ∧
      Along admitRow (fun s row => row.2 ∉ s.ids) s [] ∧
      s.queue <+: (run admitRow s []).queue ∧ (run admitRow s []).ids.Perm s.ids ∧
      (run admitRow s []).ids.Nodup ∧
      if (run admitRow s []).queue.all (! isRetargetable ·) then
        s.retargetContinuationToNextTurn [] [] = run admitRow s [] ∧ s.retargetedRows [] [] = []
      else Retargets [] (run admitRow s []) (s.retargetContinuationToNextTurn [] [])
        (s.retargetedRows [] []) :=
  ⟨trivial, trivial, trivial, continuation_retargeted
    [(recordOf "a" .nextTurn 2, "u"), (recordOf "b" .continuation 1, "v")] [] trivial trivial [] []
    trivial⟩

/-- With nothing to move, the next-turn lane stays out of order. -/
theorem lane_left_unordered :
    ¬ ((new [(recordOf "a" .nextTurn 2, "u"), (recordOf "b" .nextTurn 1, "v")]
      ).retargetContinuationToNextTurn [] []).nextTurnRows.Pairwise
        (·.createdAt ≤ ·.createdAt) := by
  decide

end PromptQueue

end Bobbit.Server
