import Bobbit.Lib.List
import Bobbit.Server.DynamicQueue

/-!
# Every run of the bounded dynamic queue

A run is any list of events: the workers may offer whatever they like while they run, and they
complete and fail in any order. What `schedule` does is said once (`takeWhileRoom_takes`): it
moves a front part of the waiting items into worker calls, as many as there is room for. The
invariant `Sound` follows, and from it what the caller sees.

## Key results

- `takeWhileRoom_takes`: what one turn of `schedule` takes.
- `sound_run`: the invariant, in every state of every run.
- `measure_run`: a run has only so many events, for the items it was given and offered.
- `processDynamicQueue_runs`: the contract of `processDynamicQueue`.
- `start_after_failure`: a call scheduled before a failure begins after it.
-/

namespace Bobbit.Spec.DynamicQueue

open Bobbit.Lib Bobbit.Server.DynamicQueue

variable {α ε : Type*} {c : Config α} {q q' : Queue α ε}

/-- The items that wait, in the order they are taken. -/
def waiting (c : Config α) (q : Queue α ε) : List α :=
  q.pending.drop q.pendingCursor ++ c.initialItems.drop q.initialCursor

/-- The items of the worker calls, in the order they were taken. -/
def items (q : Queue α ε) : List α := q.calls.map Call.item

/-! ## What the queue holds -/

theorem configure_ok {initialItems : List α} {limit : Int} {maxQueued : Option Int}
    (h : configure initialItems limit maxQueued = .ok c) :
    c.initialItems = initialItems ∧ (c.limit : Int) = limit ∧
      (c.maxQueued : Int) = maxQueued.getD limit := by
  rw [configure] at h
  split at h
  · cases h
  · split at h
    · cases h
    · obtain rfl := Except.ok.inj h
      refine ⟨rfl, ?_, ?_⟩
      · show ((limit.toNat : Nat) : Int) = limit
        omega
      · show (((maxQueued.getD limit).toNat : Nat) : Int) = maxQueued.getD limit
        omega

theorem hasWork_iff : hasWork c q = true ↔ waiting c q ≠ [] := by
  rw [hasWork, waiting, pendingLength]
  simp only [Bool.or_eq_true, decide_eq_true_eq, ne_eq, List.append_eq_nil_iff,
    List.drop_eq_nil_iff, not_and_or]
  omega

theorem hasWork_eq_false_iff : hasWork c q = false ↔ waiting c q = [] := by
  rw [← not_iff_not, Bool.not_eq_false, hasWork_iff]

/-- What `schedule` takes: a front part of the waiting items becomes worker calls, and nothing
    else changes. -/
structure Takes (c : Config α) (q q' : Queue α ε) (taken : List α) : Prop where
  waiting_eq : waiting c q = taken ++ waiting c q'
  pending_le : pendingLength q' ≤ pendingLength q
  cursor_le : q.pendingCursor ≤ q.pending.length → q'.pendingCursor ≤ q'.pending.length
  active_eq : q'.active = q.active + taken.length
  calls_eq : q'.calls = q.calls ++ taken.map fun item => ⟨item, .taken⟩
  stopped_eq : q'.stopped = q.stopped
  firstError_eq : q'.firstError = q.firstError
  yieldScheduled_eq : q'.yieldScheduled = q.yieldScheduled
  settled_eq : q'.settled = q.settled
  started_eq : q'.started = q.started
  accepted_eq : q'.accepted = q.accepted
  failures_eq : q'.failures = q.failures

theorem Takes.refl (q : Queue α ε) : Takes c q q [] :=
  ⟨rfl, le_rfl, id, rfl, by simp, rfl, rfl, rfl, rfl, rfl, rfl, rfl⟩

theorem Takes.trans {q₁ q₂ q₃ : Queue α ε} {xs ys : List α} (h : Takes c q₁ q₂ xs)
    (h' : Takes c q₂ q₃ ys) : Takes c q₁ q₃ (xs ++ ys) where
  waiting_eq := by rw [h.waiting_eq, h'.waiting_eq, List.append_assoc]
  pending_le := h'.pending_le.trans h.pending_le
  cursor_le := fun hcursor => h'.cursor_le (h.cursor_le hcursor)
  active_eq := by rw [h'.active_eq, h.active_eq, List.length_append, Nat.add_assoc]
  calls_eq := by rw [h'.calls_eq, h.calls_eq, List.map_append, List.append_assoc]
  stopped_eq := h'.stopped_eq.trans h.stopped_eq
  firstError_eq := h'.firstError_eq.trans h.firstError_eq
  yieldScheduled_eq := h'.yieldScheduled_eq.trans h.yieldScheduled_eq
  settled_eq := h'.settled_eq.trans h.settled_eq
  started_eq := h'.started_eq.trans h.started_eq
  accepted_eq := h'.accepted_eq.trans h.accepted_eq
  failures_eq := h'.failures_eq.trans h.failures_eq

/-- One round takes the first waiting item: from `pending` while it has one, else from the
    initial items. -/
theorem takeWork_takes (h : hasWork c q = true) :
    ∃ item, Takes c q (takeWork c q) [item] := by
  rw [takeWork]
  cases hpending : q.pending[q.pendingCursor]? with
  | some item =>
    obtain ⟨hlt, hitem⟩ := List.getElem?_eq_some_iff.mp hpending
    have hdrop : q.pending.drop q.pendingCursor = item :: q.pending.drop (q.pendingCursor + 1) := by
      rw [List.drop_eq_getElem_cons hlt, hitem]
    refine ⟨item, ?_⟩
    -- with the consumed front dropped or not, the same items are left
    by_cases hlong : cooperativeYieldInterval ≤ q.pendingCursor + 1 ∧
        q.pending.length ≤ (q.pendingCursor + 1) * 2
    · simp only [if_pos hlong]
      refine ⟨?_, ?_, fun _ => Nat.zero_le _, rfl, by simp, rfl, rfl, rfl, rfl, rfl, rfl, rfl⟩
      · simp [waiting, hdrop]
      · simp [pendingLength]
        omega
    · simp only [if_neg hlong]
      refine ⟨?_, ?_, fun _ => hlt, rfl, by simp, rfl, rfl, rfl, rfl, rfl, rfl, rfl⟩
      · simp [waiting, hdrop]
      · simp [pendingLength]
        omega
  | none =>
    have hempty : q.pending.drop q.pendingCursor = [] := by
      rw [List.drop_eq_nil_iff]
      exact List.getElem?_eq_none_iff.mp hpending
    have hinitial : q.initialCursor < c.initialItems.length := by
      rw [hasWork_iff, waiting, hempty, List.nil_append, ne_eq, List.drop_eq_nil_iff] at h
      omega
    have hdrop := List.drop_eq_getElem_cons hinitial
    refine ⟨c.initialItems[q.initialCursor], ?_⟩
    simp only [List.getElem?_eq_getElem hinitial]
    refine ⟨?_, le_rfl, id, rfl, by simp, rfl, rfl, rfl, rfl, rfl, rfl, rfl⟩
    rw [waiting, waiting, hempty, hdrop]
    rfl

/-- **The loop of `schedule`.** It takes no more than there is room for, and stops short only
    when nothing waits. -/
theorem takeWhileRoom_takes (room : Nat) (q : Queue α ε) :
    ∃ taken, Takes c q (takeWhileRoom c room q) taken ∧ taken.length ≤ room ∧
      (taken.length = room ∨ waiting c (takeWhileRoom c room q) = []) := by
  induction room generalizing q with
  | zero => exact ⟨[], .refl q, le_rfl, .inl rfl⟩
  | succ room ih =>
    rw [takeWhileRoom]
    cases hwork : hasWork c q with
    | false => exact ⟨[], .refl q, Nat.zero_le _, .inr (hasWork_eq_false_iff.mp hwork)⟩
    | true =>
      obtain ⟨item, hitem⟩ := takeWork_takes hwork
      obtain ⟨taken, htaken, hroom, hfull⟩ := ih (takeWork c q)
      refine ⟨item :: taken, hitem.trans htaken, by simpa using hroom, ?_⟩
      simpa using hfull

/-! ## The invariant -/

/-- When a settlement is the right one. -/
def Settles (c : Config α) (q : Queue α ε) : Except ε Unit → Prop
  | .error error => q.failures.head? = some error
  | .ok _ => q.failures = [] ∧ waiting c q = []

/-- What holds in every state of every run. -/
structure Sound (c : Config α) (q : Queue α ε) : Prop where
  active_eq : q.active = q.calls.countP Call.unsettled
  active_le : q.active ≤ c.limit
  pending_le : pendingLength q ≤ c.maxQueued
  cursor_le : q.pendingCursor ≤ q.pending.length
  started_perm : q.started.Perm ((q.calls.filter Call.begun).map Call.item)
  conserved : q.stopped = false →
    (items q ++ waiting c q).Perm (c.initialItems ++ q.accepted)
  taken_subperm : (items q).Subperm (c.initialItems ++ q.accepted)
  firstError_eq : q.firstError = q.failures.head?
  stopped_iff : q.stopped = true ↔ q.failures ≠ []
  drained : q.stopped = true → waiting c q = []
  succeeded : q.stopped = false → ∀ call ∈ q.calls, ∀ error, call.phase ≠ .failed error
  ended : ∀ result, q.settled = some result → q.active = 0 ∧ Settles c q result

/-- Taking what waits keeps the invariant, while the promise is open. -/
theorem Sound.takes {taken : List α} (h : Sound c q) (hopen : q.settled = none)
    (htakes : Takes c q q' taken) (hroom : taken.length ≤ c.limit - q.active) : Sound c q' where
  active_eq := by
    rw [htakes.active_eq, htakes.calls_eq, List.countP_append, h.active_eq, List.countP_map]
    congr 1
    exact (List.countP_eq_length.mpr fun _ _ => rfl).symm
  active_le := by
    have hactive := h.active_le
    rw [htakes.active_eq]
    omega
  pending_le := htakes.pending_le.trans h.pending_le
  cursor_le := htakes.cursor_le h.cursor_le
  started_perm := by
    have hnone : (taken.map fun item => (⟨item, .taken⟩ : Call α ε)).filter Call.begun = [] := by
      rw [List.filter_eq_nil_iff]
      intro call hcall
      obtain ⟨item, -, rfl⟩ := List.mem_map.mp hcall
      exact Bool.false_ne_true
    rw [htakes.started_eq, htakes.calls_eq, List.filter_append, hnone, List.append_nil]
    exact h.started_perm
  conserved := by
    intro hgoing
    have hsplit := h.conserved (htakes.stopped_eq ▸ hgoing)
    rw [htakes.waiting_eq] at hsplit
    rw [htakes.accepted_eq, items, htakes.calls_eq]
    simpa [items, Function.comp_def] using hsplit
  taken_subperm := by
    rw [htakes.accepted_eq]
    cases hstopped : q.stopped with
    | false =>
      have hsplit := h.conserved hstopped
      rw [htakes.waiting_eq, ← List.append_assoc] at hsplit
      have hitems : items q' = items q ++ taken := by
        simp [items, htakes.calls_eq, Function.comp_def]
      rw [hitems]
      exact (List.sublist_append_left _ _).subperm.trans hsplit.subperm
    | true =>
      -- nothing waits, so nothing was taken
      have hwaiting := htakes.waiting_eq
      rw [h.drained hstopped] at hwaiting
      have hnone : taken = [] := (List.append_eq_nil_iff.mp hwaiting.symm).1
      have hitems : items q' = items q := by simp [items, htakes.calls_eq, hnone]
      exact hitems ▸ h.taken_subperm
  firstError_eq := by rw [htakes.firstError_eq, htakes.failures_eq, h.firstError_eq]
  stopped_iff := by rw [htakes.stopped_eq, htakes.failures_eq, h.stopped_iff]
  drained := by
    intro hstopped
    have hwaiting := htakes.waiting_eq
    rw [h.drained (htakes.stopped_eq ▸ hstopped)] at hwaiting
    exact (List.append_eq_nil_iff.mp hwaiting.symm).2
  succeeded := by
    intro hgoing call hcall error
    rw [htakes.calls_eq, List.mem_append] at hcall
    cases hcall with
    | inl hold => exact h.succeeded (htakes.stopped_eq ▸ hgoing) call hold error
    | inr hnew =>
      obtain ⟨item, -, rfl⟩ := List.mem_map.mp hnew
      intro hphase
      cases hphase
  ended := by
    intro result hsettled
    rw [htakes.settled_eq, hopen] at hsettled
    cases hsettled

/-! ## Settling -/

theorem settleIfDone_eq (q : Queue α ε) :
    settleIfDone c q = { q with settled := (settleIfDone c q).settled } := by
  have hsettle : ∀ result : Except ε Unit,
      settle result q = { q with settled := (settle result q).settled } := by
    intro result
    rw [settle]
    split <;> rfl
  rw [settleIfDone]
  split
  · rfl
  · split
    · split
      · exact hsettle _
      · rfl
    · split
      · rfl
      · exact hsettle _

variable {result : Except ε Unit}

theorem settleIfDone_of_settled (h : q.settled = some result) : settleIfDone c q = q := by
  have hsettle : ∀ other : Except ε Unit, settle other q = q := by
    intro other
    rw [settle, h]
  rw [settleIfDone]
  simp only [hsettle]
  split
  · rfl
  · split
    · split <;> rfl
    · split <;> rfl

/-- The right settlement of a queue that runs nothing keeps the invariant. -/
theorem Sound.settle (h : Sound c q) (hactive : q.active = 0)
    (hresult : Settles c q result) : Sound c (settle result q) := by
  rw [Server.DynamicQueue.settle]
  split
  · exact h
  · refine { h with ended := ?_ }
    intro other hother
    obtain rfl : result = other := by simpa using hother
    exact ⟨hactive, hresult⟩

theorem Sound.settleIfDone (h : Sound c q) : Sound c (settleIfDone c q) := by
  rw [Server.DynamicQueue.settleIfDone]
  split
  · exact h
  · rename_i hactive
    have hidle : q.active = 0 := by omega
    split
    · split
      · rename_i error herror
        refine h.settle hidle ?_
        rw [Settles, ← h.firstError_eq, herror]
      · exact h
    · rename_i hgoing
      split
      · exact h
      · rename_i hwork
        refine h.settle hidle ⟨?_, hasWork_eq_false_iff.mp (by simpa using hwork)⟩
        by_contra hfailures
        exact hgoing (h.stopped_iff.mpr hfailures)

/-- With nothing running, a queue that stopped or has nothing to take settles. -/
theorem settleIfDone_settles (h : Sound c q) (hactive : q.active = 0)
    (hdone : q.stopped = true ∨ waiting c q = []) :
    (Server.DynamicQueue.settleIfDone c q).settled.isSome = true := by
  have hsettle : ∀ result : Except ε Unit,
      (Server.DynamicQueue.settle result q).settled.isSome = true := by
    intro result
    rw [Server.DynamicQueue.settle]
    split
    · rename_i hsettled
      rw [hsettled]
      rfl
    · rfl
  rw [Server.DynamicQueue.settleIfDone, if_neg (by omega)]
  split
  · rename_i hstopped
    split
    · exact hsettle _
    · rename_i hnone
      -- a stopped queue has its first error
      rw [h.firstError_eq, List.head?_eq_none_iff] at hnone
      exact absurd hnone (h.stopped_iff.mp hstopped)
  · rename_i hgoing
    have hwaiting := hdone.resolve_left hgoing
    rw [if_neg (by rw [hasWork_eq_false_iff.mpr hwaiting]; exact Bool.false_ne_true)]
    exact hsettle _

/-! ## `schedule` -/

/-- What `schedule` does: it takes some of what waits, and may settle. -/
theorem schedule_takes (q : Queue α ε) :
    ∃ taken between, Takes c q between taken ∧ taken.length ≤ c.limit - q.active ∧
      schedule c q = Server.DynamicQueue.settleIfDone c between ∧
      (taken = [] ∨ q.stopped = false) ∧
      (q.stopped = false → q.yieldScheduled = false →
        taken.length = c.limit - q.active ∨ waiting c between = []) := by
  rw [schedule]
  split
  · rename_i hheld
    refine ⟨[], q, .refl q, Nat.zero_le _, rfl, .inl rfl, ?_⟩
    intro hstopped hyield
    simp [hstopped, hyield] at hheld
  · rename_i hfree
    simp only [Bool.or_eq_true, not_or, Bool.not_eq_true] at hfree
    obtain ⟨taken, htakes, hroom, hfull⟩ := takeWhileRoom_takes (c := c) (c.limit - q.active) q
    exact ⟨taken, _, htakes, hroom, rfl, .inr hfree.1, fun _ _ => hfull⟩

theorem schedule_of_settled (h : Sound c q)
    (hsettled : q.settled = some result) : schedule c q = q := by
  rw [schedule]
  split
  · exact settleIfDone_of_settled hsettled
  · rename_i hfree
    simp only [Bool.or_eq_true, not_or, Bool.not_eq_true] at hfree
    have hnone : waiting c q = [] := by
      have hended := (h.ended result hsettled).2
      cases result with
      | error error =>
        have hfailures : q.failures ≠ [] := by
          intro hempty
          rw [Settles, hempty] at hended
          cases hended
        rw [h.stopped_iff.mpr hfailures] at hfree
        exact absurd hfree.1 Bool.noConfusion
      | ok _ => exact hended.2
    have htake : ∀ room, takeWhileRoom c room q = q := by
      intro room
      cases room with
      | zero => rfl
      | succ room => rw [takeWhileRoom, hasWork_eq_false_iff.mpr hnone]; rfl
    rw [htake]
    exact settleIfDone_of_settled hsettled

theorem Sound.schedule (h : Sound c q) : Sound c (schedule c q) := by
  cases hsettled : q.settled with
  | some result =>
    rw [schedule_of_settled h hsettled]
    exact h
  | none =>
    obtain ⟨taken, between, htakes, hroom, heq, -⟩ := schedule_takes (c := c) q
    rw [heq]
    exact (h.takes hsettled htakes hroom).settleIfDone

/-- Some event is due, or the promise has settled. -/
def Awake (q : Queue α ε) : Prop :=
  q.active = 0 → q.yieldScheduled = false → q.settled.isSome = true

/-- After `schedule` a queue that runs nothing and waits for no turn has settled. -/
theorem awake_schedule (h : Sound c q) : Awake (Server.DynamicQueue.schedule c q) := by
  intro hactive hyield
  cases hsettled : q.settled with
  | some result =>
    rw [schedule_of_settled h hsettled, hsettled]
    rfl
  | none =>
    obtain ⟨taken, between, htakes, hroom, heq, -, hfull⟩ := schedule_takes (c := c) q
    rw [heq, settleIfDone_eq] at hactive hyield
    rw [heq]
    refine settleIfDone_settles (h.takes hsettled htakes hroom) hactive ?_
    cases hstopped : between.stopped with
    | true => exact .inl rfl
    | false =>
      -- the loop did not run into the limit, which is positive
      have hlimit := c.limit_pos
      have hnone := htakes.active_eq
      simp only at hactive hyield
      cases hfull (htakes.stopped_eq ▸ hstopped) (htakes.yieldScheduled_eq ▸ hyield) with
      | inl hlength => omega
      | inr hwaiting => exact .inr hwaiting

/-! ## `tryEnqueue` -/

theorem Sound.push {item : α} (h : Sound c q) (hopen : q.settled = none)
    (hgoing : q.stopped = false) (hroom : pendingLength q < c.maxQueued) :
    Sound c { q with pending := q.pending ++ [item], accepted := q.accepted ++ [item] } := by
  have hcursor := h.cursor_le
  have hwaiting : waiting c
      { q with pending := q.pending ++ [item], accepted := q.accepted ++ [item] } =
      q.pending.drop q.pendingCursor ++ [item] ++ c.initialItems.drop q.initialCursor := by
    rw [waiting, List.drop_append_of_le_length hcursor]
  have hmore : (c.initialItems ++ q.accepted).Sublist
      (c.initialItems ++ (q.accepted ++ [item])) := by
    rw [← List.append_assoc]
    exact List.sublist_append_left _ _
  refine { h with
    pending_le := ?_, cursor_le := ?_, conserved := ?_, taken_subperm := ?_, drained := ?_
    ended := ?_ }
  · simp only [pendingLength, List.length_append, List.length_singleton] at hroom ⊢
    omega
  · simp only [List.length_append, List.length_singleton]
    omega
  · intro _
    rw [hwaiting]
    have hsplit := h.conserved hgoing
    rw [waiting] at hsplit
    have hmiddle : (items q ++ (q.pending.drop q.pendingCursor ++ [item] ++
        c.initialItems.drop q.initialCursor)).Perm
        ((items q ++ (q.pending.drop q.pendingCursor ++ c.initialItems.drop q.initialCursor)) ++
          [item]) := by
      simp only [List.append_assoc]
      exact ((List.perm_append_comm).append_left _).append_left _
    refine hmiddle.trans ?_
    rw [← List.append_assoc c.initialItems]
    exact hsplit.append_right _
  · exact h.taken_subperm.trans hmore.subperm
  · intro hstopped
    exact absurd (hgoing.symm.trans hstopped) Bool.noConfusion
  · intro result hsettled
    exact absurd (hopen.symm.trans hsettled) (by simp)

theorem Sound.tryEnqueue {item : α} (h : Sound c q) (hopen : q.settled = none) :
    Sound c (tryEnqueue c item q).2 := by
  rw [Server.DynamicQueue.tryEnqueue]
  split
  · exact h
  · rename_i haccept
    simp only [Bool.or_eq_true, decide_eq_true_eq, not_or, Bool.not_eq_true, not_le] at haccept
    exact (h.push hopen haccept.1 haccept.2).schedule

theorem awake_tryEnqueue {item : α} (h : Sound c q) (hopen : q.settled = none) (hawake : Awake q) :
    Awake (Server.DynamicQueue.tryEnqueue c item q).2 := by
  rw [Server.DynamicQueue.tryEnqueue]
  split
  · exact hawake
  · rename_i haccept
    simp only [Bool.or_eq_true, decide_eq_true_eq, not_or, Bool.not_eq_true, not_le] at haccept
    exact awake_schedule (h.push hopen haccept.1 haccept.2)

/-! ## One event -/

/-- A call that has not settled is counted, and the promise is open. -/
theorem Sound.open {call : Nat} {made : Call α ε} (h : Sound c q)
    (hcall : q.calls[call]? = some made) (hunsettled : made.unsettled = true) :
    0 < q.active ∧ q.settled = none := by
  have hpos : 0 < q.active := by
    rw [h.active_eq, List.countP_pos_iff]
    exact ⟨made, List.mem_of_getElem? hcall, hunsettled⟩
  refine ⟨hpos, ?_⟩
  cases hsettled : q.settled with
  | none => rfl
  | some result =>
    have hidle := (h.ended result hsettled).1
    omega

theorem items_setPhase (call : Nat) (phase : Phase ε) (q : Queue α ε) :
    items (setPhase call phase q) = items q := by
  have hview : ∀ made : Call α ε, ({ made with phase := phase } : Call α ε).item = made.item :=
    fun _ => rfl
  exact map_modify_of_eq hview q.calls call

/-- A scheduled call begins: the worker is invoked with its item. -/
theorem Sound.begin {call : Nat} {item : α} (h : Sound c q)
    (hcall : q.calls[call]? = some ⟨item, .taken⟩) :
    Sound c (setPhase call .running { q with started := q.started ++ [item] }) := by
  refine { h with
    active_eq := ?_, started_perm := ?_, conserved := ?_, taken_subperm := ?_, succeeded := ?_ }
  · have hcount := countP_modify (p := Call.unsettled)
      (f := fun made : Call α ε => { made with phase := .running }) hcall
    simp only [Call.unsettled, if_true] at hcount
    simp only [setPhase, h.active_eq]
    omega
  · have hfilter := filter_modify_cons_perm (p := Call.begun)
      (f := fun made : Call α ε => { made with phase := .running }) hcall rfl rfl
    refine (List.perm_append_comm.trans ?_).trans (hfilter.map Call.item).symm
    exact h.started_perm.cons item
  · intro hgoing
    rw [items_setPhase]
    exact h.conserved hgoing
  · rw [items_setPhase]
    exact h.taken_subperm
  · intro hgoing made hmade error
    cases mem_modify hmade with
    | inl hold => exact h.succeeded hgoing made hold error
    | inr hnew =>
      obtain ⟨old, -, rfl⟩ := hnew
      intro hphase
      cases hphase

/-- A failure after the first is counted and changes nothing else. -/
theorem recordOutcome_of_stopped {error : ε} (h : q.stopped = true) :
    recordOutcome c (some error) q = { q with failures := q.failures ++ [error] } :=
  if_pos h

/-- The first failure stops the intake and empties the queue. -/
theorem recordOutcome_first {error : ε} (h : q.stopped = false) :
    recordOutcome c (some error) q =
      { q with
        failures := q.failures ++ [error], stopped := true, firstError := some error, pending := []
        pendingCursor := 0, initialCursor := c.initialItems.length } :=
  if_neg (by simp [h])

/-- A worker's promise settles, and its outcome is recorded. -/
theorem Sound.recordOutcome {call : Nat} {item : α} (h : Sound c q)
    (hcall : q.calls[call]? = some ⟨item, .running⟩) (error : Option ε) :
    Sound c (recordOutcome c error
      { setPhase call (.ofOutcome error) q with active := q.active - 1 }) := by
  obtain ⟨hpos, hopen⟩ := h.open hcall rfl
  have hactive : q.active - 1 =
      (setPhase call (.ofOutcome error) q).calls.countP Call.unsettled := by
    have hcount := countP_modify (p := Call.unsettled)
      (f := fun made : Call α ε => { made with phase := .ofOutcome error }) hcall
    have hafter : Call.unsettled (⟨item, .ofOutcome error⟩ : Call α ε) = false := by
      cases error <;> rfl
    simp only [hafter, Bool.false_eq_true, if_false] at hcount
    simp only [Call.unsettled, if_true] at hcount
    rw [h.active_eq, setPhase]
    simp only
    omega
  have hle : q.active - 1 ≤ c.limit := (Nat.sub_le _ _).trans h.active_le
  have hstarted : q.started.Perm
      (((setPhase call (.ofOutcome error) q).calls.filter Call.begun).map Call.item) := by
    have hfilter := map_filter_modify_of_eq (p := Call.begun) (g := Call.item)
      (f := fun made : Call α ε => { made with phase := .ofOutcome error }) hcall
      (by cases error <;> rfl) rfl
    rw [setPhase, hfilter]
    exact h.started_perm
  have hitems := items_setPhase call (.ofOutcome error) q
  have hended : ∀ {q' : Queue α ε} result, q'.settled = q.settled →
      q'.settled = some result → q'.active = 0 ∧ Settles c q' result := by
    intro q' result hsame hsettled
    rw [hsame, hopen] at hsettled
    cases hsettled
  cases error with
  | none =>
    refine { h with
      active_eq := hactive, active_le := hle, started_perm := hstarted
      conserved := fun hgoing => hitems ▸ h.conserved hgoing
      taken_subperm := hitems ▸ h.taken_subperm, succeeded := ?_
      ended := fun result => hended result rfl }
    intro hgoing made hmade error
    cases mem_modify hmade with
    | inl hold => exact h.succeeded hgoing made hold error
    | inr hnew =>
      obtain ⟨old, -, rfl⟩ := hnew
      intro hphase
      cases hphase
  | some error =>
    cases hstopped : q.stopped with
    | true =>
      rw [recordOutcome_of_stopped]
      swap
      · exact hstopped
      refine { h with
        active_eq := hactive, active_le := hle, started_perm := hstarted
        conserved := fun hgoing => absurd (hstopped.symm.trans hgoing) Bool.noConfusion
        taken_subperm := hitems ▸ h.taken_subperm, firstError_eq := ?_, stopped_iff := ?_
        succeeded := fun hgoing => absurd (hstopped.symm.trans hgoing) Bool.noConfusion
        ended := fun result => hended result rfl }
      · have hfailures := h.stopped_iff.mp hstopped
        show q.firstError = (q.failures ++ [error]).head?
        rw [List.head?_append_of_ne_nil _ hfailures, h.firstError_eq]
      · exact iff_of_true hstopped (by simp)
    | false =>
      have hnone : q.failures = [] := by
        by_contra hfailures
        rw [h.stopped_iff.mpr hfailures] at hstopped
        cases hstopped
      rw [recordOutcome_first]
      swap
      · exact hstopped
      have hdrained : ∀ q' : Queue α ε, q'.pending = [] →
          q'.initialCursor = c.initialItems.length → waiting c q' = [] := by
        intro q' hpending hcursor
        rw [waiting, hpending, hcursor, List.drop_nil, List.drop_length]
        rfl
      refine { h with
        active_eq := hactive, active_le := hle, started_perm := hstarted
        pending_le := Nat.zero_le _, cursor_le := le_rfl
        conserved := fun hgoing => Bool.noConfusion hgoing
        taken_subperm := hitems ▸ h.taken_subperm, firstError_eq := ?_
        stopped_iff := iff_of_true rfl (by simp)
        drained := fun _ => hdrained _ rfl rfl
        succeeded := fun hgoing => Bool.noConfusion hgoing
        ended := fun result => hended result rfl }
      show some error = (q.failures ++ [error]).head?
      rw [hnone]
      rfl

theorem Sound.counters (h : Sound c q) (count : Nat) (scheduled : Bool) :
    Sound c { q with completionsSinceYield := count, yieldScheduled := scheduled } :=
  { h with }

/-- What `afterWork` does once the outcome is recorded: a deferred turn, or `schedule`. -/
theorem afterWork_eq (error : Option ε) (q : Queue α ε) :
    ∃ recorded, recorded = recordOutcome c error { q with active := q.active - 1 } ∧
      (afterWork c error q = Server.DynamicQueue.settleIfDone c
          { recorded with completionsSinceYield := 0, yieldScheduled := true } ∨
        afterWork c error q = Server.DynamicQueue.settleIfDone c (Server.DynamicQueue.schedule c
          { recorded with completionsSinceYield := recorded.completionsSinceYield + 1 })) := by
  refine ⟨_, rfl, ?_⟩
  rw [afterWork]
  simp only
  split
  · exact .inl rfl
  · exact .inr rfl

theorem settleIfDone_awake (h : Awake q) : Awake (Server.DynamicQueue.settleIfDone c q) := by
  intro hactive hyield
  rw [settleIfDone_eq] at hactive hyield
  have hsettled := h hactive hyield
  obtain ⟨result, hresult⟩ := Option.isSome_iff_exists.mp hsettled
  rw [settleIfDone_of_settled hresult]
  exact hsettled

/-- **One event.** The invariant holds after it, and something is due or the promise settled. -/
theorem sound_step (h : Sound c q) (hawake : Awake q) (event : Event α ε) :
    Sound c (step c q event) ∧ Awake (step c q event) := by
  cases event with
  | begin call =>
    simp only [step]
    split
    · rename_i item hcall
      exact ⟨h.begin hcall, hawake⟩
    · exact ⟨h, hawake⟩
  | offer call item =>
    simp only [step]
    split
    · rename_i other hcall
      obtain ⟨-, hopen⟩ := h.open hcall rfl
      exact ⟨h.tryEnqueue hopen, awake_tryEnqueue h hopen hawake⟩
    · exact ⟨h, hawake⟩
  | finish call error =>
    simp only [step]
    split
    · rename_i item hcall
      have hrecorded := h.recordOutcome hcall error
      obtain ⟨recorded, heq, hafter⟩ :=
        afterWork_eq (c := c) error (setPhase call (.ofOutcome error) q)
      rw [show Server.DynamicQueue.recordOutcome c error
        { setPhase call (.ofOutcome error) q with active := q.active - 1 } = recorded
        from heq.symm] at hrecorded
      cases hafter with
      | inl hdeferred =>
        rw [hdeferred]
        refine ⟨(hrecorded.counters _ _).settleIfDone, settleIfDone_awake ?_⟩
        intro _ hyield
        cases hyield
      | inr hscheduled =>
        rw [hscheduled]
        have hready := hrecorded.counters (recorded.completionsSinceYield + 1) recorded.yieldScheduled
        exact ⟨hready.schedule.settleIfDone, settleIfDone_awake (awake_schedule hready)⟩
    · exact ⟨h, hawake⟩
  | immediate =>
    simp only [step]
    split
    · have hready := h.counters q.completionsSinceYield false
      exact ⟨hready.schedule, awake_schedule hready⟩
    · exact ⟨h, hawake⟩

/-! ## Every run -/

theorem sound_start : Sound c (processDynamicQueue c : Queue α ε) ∧
    Awake (processDynamicQueue c : Queue α ε) := by
  have hempty : Sound c ({} : Queue α ε) := by
    refine ⟨rfl, Nat.zero_le _, Nat.zero_le _, le_rfl, .refl _, ?_, ?_, rfl, ?_, ?_, ?_, ?_⟩
    · intro _
      simp [items, waiting]
    · exact (List.nil_sublist _).subperm
    · simp
    · intro hstopped
      cases hstopped
    · intro _ call hcall
      cases hcall
    · intro result hsettled
      cases hsettled
  rw [processDynamicQueue]
  split
  · rename_i hnone
    rw [List.isEmpty_iff] at hnone
    refine ⟨{ hempty with ended := ?_ }, fun _ _ => rfl⟩
    intro result hsettled
    obtain rfl : Except.ok () = result := by simpa using hsettled
    exact ⟨rfl, rfl, by simp [waiting, hnone]⟩
  · exact ⟨hempty.schedule, awake_schedule hempty⟩

/-- **Every state of every run is sound.** -/
theorem sound_run (c : Config α) (events : List (Event α ε)) :
    Sound c (run (step c) (processDynamicQueue c) events) ∧
      Awake (run (step c) (processDynamicQueue c) events) :=
  inv_run (I := fun q => Sound c q ∧ Awake q)
    (fun _ event h => sound_step h.1 h.2 event) sound_start events

/-! ## After the first failure, and after the settlement -/

/-- Once stopped, the queue takes nothing and accepts nothing. -/
structure Frozen (q q' : Queue α ε) : Prop where
  items_eq : items q' = items q
  accepted_eq : q'.accepted = q.accepted
  stopped : q'.stopped = true

theorem Frozen.settleIfDone (h : Frozen q q') :
    Frozen q (Server.DynamicQueue.settleIfDone c q') := by
  rw [settleIfDone_eq]
  exact ⟨h.items_eq, h.accepted_eq, h.stopped⟩

theorem Frozen.schedule (h : Frozen q q') : Frozen q (Server.DynamicQueue.schedule c q') := by
  rw [Server.DynamicQueue.schedule, if_pos (by rw [h.stopped]; rfl)]
  exact h.settleIfDone

theorem frozen_step (h : q.stopped = true) (event : Event α ε) : Frozen q (step c q event) := by
  have hrefl : Frozen q q := ⟨rfl, rfl, h⟩
  cases event with
  | begin call =>
    simp only [step]
    split
    · exact ⟨items_setPhase call .running _, rfl, h⟩
    · exact hrefl
  | offer call item =>
    simp only [step]
    split
    · rw [Server.DynamicQueue.tryEnqueue, if_pos (by rw [h]; rfl)]
      exact hrefl
    · exact hrefl
  | finish call error =>
    simp only [step]
    split
    · obtain ⟨recorded, heq, hafter⟩ :=
        afterWork_eq (c := c) error (setPhase call (.ofOutcome error) q)
      have hrecorded : Frozen q recorded := by
        cases error with
        | none =>
          rw [heq]
          exact ⟨items_setPhase call .completed q, rfl, h⟩
        | some error =>
          rw [heq, recordOutcome_of_stopped]
          swap
          · exact h
          exact ⟨items_setPhase call (.failed error) q, rfl, h⟩
      have hready : ∀ count scheduled, Frozen q
          { recorded with completionsSinceYield := count, yieldScheduled := scheduled } :=
        fun _ _ => ⟨hrecorded.items_eq, hrecorded.accepted_eq, hrecorded.stopped⟩
      cases hafter with
      | inl hdeferred =>
        rw [hdeferred]
        exact (hready 0 true).settleIfDone
      | inr hscheduled =>
        rw [hscheduled]
        exact (hready _ recorded.yieldScheduled).schedule.settleIfDone
    · exact hrefl
  | immediate =>
    simp only [step]
    split
    · have hready : Frozen q { q with yieldScheduled := false } := ⟨rfl, rfl, h⟩
      exact hready.schedule
    · exact hrefl

/-- **After the first failure** no further event takes or accepts an item. -/
theorem frozen_run (h : q.stopped = true) (later : List (Event α ε)) :
    Frozen q (run (step c) q later) := by
  refine inv_run (I := Frozen q) ?_ ⟨rfl, rfl, h⟩ later
  intro q' event hq'
  have hstep := frozen_step (c := c) hq'.stopped event
  exact ⟨hstep.items_eq.trans hq'.items_eq, hstep.accepted_eq.trans hq'.accepted_eq, hstep.stopped⟩

/-- With the promise settled an event can only be the deferred turn, which does nothing. -/
theorem step_of_settled (h : Sound c q) (hsettled : q.settled = some result) (event : Event α ε) :
    (step c q event).settled = some result ∧ (step c q event).calls = q.calls ∧
      (step c q event).started = q.started := by
  have hnone : ∀ (call : Nat) (made : Call α ε), q.calls[call]? = some made →
      made.unsettled = false := by
    intro call made hcall
    cases hunsettled : made.unsettled with
    | false => rfl
    | true => exact absurd (hsettled.symm.trans (h.open hcall hunsettled).2) (by simp)
  cases event with
  | begin call =>
    simp only [step]
    split
    · rename_i item hcall
      exact absurd (hnone call _ hcall) Bool.noConfusion
    · exact ⟨hsettled, rfl, rfl⟩
  | offer call item =>
    simp only [step]
    split
    · rename_i other hcall
      exact absurd (hnone call _ hcall) Bool.noConfusion
    · exact ⟨hsettled, rfl, rfl⟩
  | finish call error =>
    simp only [step]
    split
    · rename_i item hcall
      exact absurd (hnone call _ hcall) Bool.noConfusion
    · exact ⟨hsettled, rfl, rfl⟩
  | immediate =>
    simp only [step]
    split
    · have hready := h.counters q.completionsSinceYield false
      rw [schedule_of_settled hready hsettled]
      exact ⟨hsettled, rfl, rfl⟩
    · exact ⟨hsettled, rfl, rfl⟩

/-- **The settlement is the last thing that happens.** -/
theorem run_of_settled (h : Sound c q) (hawake : Awake q)
    (hsettled : q.settled = some result) (later : List (Event α ε)) :
    (run (step c) q later).settled = some result ∧ (run (step c) q later).calls = q.calls ∧
      (run (step c) q later).started = q.started := by
  have hrun := @inv_run _ _ (step c)
    (fun q' => (Sound c q' ∧ Awake q') ∧ q'.settled = some result ∧ q'.calls = q.calls ∧
      q'.started = q.started)
    q
    (fun q' event hq' => by
      have hstep := step_of_settled hq'.1.1 hq'.2.1 event
      exact ⟨sound_step hq'.1.1 hq'.1.2 event, hstep.1, hstep.2.1.trans hq'.2.2.1,
        hstep.2.2.trans hq'.2.2.2⟩)
    ⟨⟨h, hawake⟩, hsettled, rfl, rfl⟩ later
  exact hrun.2

/-! ## How many events a run has -/

/-- What a call still has before it: to begin, and to settle with a deferred turn after it. -/
def weight (call : Call α ε) : Nat :=
  match call.phase with
  | .taken => 3
  | .running => 2
  | .completed | .failed _ => 0

/-- What the queue still has before it. -/
def measure (c : Config α) (q : Queue α ε) : Nat :=
  4 * (waiting c q).length + (q.calls.map weight).sum + q.yieldScheduled.toNat

/-- The event is one that happens, and no offer. -/
def happens (q : Queue α ε) : Event α ε → Bool
  | .begin call => (q.calls[call]?.map weight) = some 3
  | .offer _ _ => false
  | .finish call _ => (q.calls[call]?.map weight) = some 2
  | .immediate => q.yieldScheduled

@[simp] theorem measure_settleIfDone (q : Queue α ε) :
    measure c (Server.DynamicQueue.settleIfDone c q) = measure c q := by
  rw [settleIfDone_eq]
  rfl

theorem measure_schedule (q : Queue α ε) :
    measure c (Server.DynamicQueue.schedule c q) ≤ measure c q := by
  obtain ⟨taken, between, htakes, -, heq, -⟩ := schedule_takes (c := c) q
  have hweights : ((taken.map fun item => (⟨item, .taken⟩ : Call α ε)).map weight).sum =
      3 * taken.length := by
    rw [List.map_map]
    have hconst : (weight ∘ fun item => (⟨item, .taken⟩ : Call α ε)) = fun _ => 3 := rfl
    simp [hconst, Nat.mul_comm]
  rw [heq, measure_settleIfDone, measure, measure, htakes.waiting_eq, htakes.calls_eq,
    htakes.yieldScheduled_eq, List.map_append, List.sum_append, hweights, List.length_append]
  omega

@[simp] theorem accepted_settleIfDone (q : Queue α ε) :
    (Server.DynamicQueue.settleIfDone c q).accepted = q.accepted := by
  rw [settleIfDone_eq]

@[simp] theorem accepted_schedule (q : Queue α ε) :
    (Server.DynamicQueue.schedule c q).accepted = q.accepted := by
  obtain ⟨taken, between, htakes, -, heq, -⟩ := schedule_takes (c := c) q
  rw [heq, accepted_settleIfDone]
  exact htakes.accepted_eq

@[simp] theorem accepted_recordOutcome (error : Option ε) (q : Queue α ε) :
    (recordOutcome c error q).accepted = q.accepted := by
  cases error with
  | none => rfl
  | some error =>
    cases hstopped : q.stopped with
    | true => rw [recordOutcome_of_stopped hstopped]
    | false => rw [recordOutcome_first hstopped]

theorem measure_recordOutcome (error : Option ε) (q : Queue α ε) :
    measure c (recordOutcome c error q) ≤ measure c q := by
  cases error with
  | none => exact le_rfl
  | some error =>
    cases hstopped : q.stopped with
    | true =>
      rw [recordOutcome_of_stopped hstopped]
      exact le_rfl
    | false =>
      rw [recordOutcome_first hstopped]
      simp only [measure, waiting, List.drop_nil, List.drop_length, List.append_nil,
        List.length_nil]
      omega

/-- **Every event that happens is paid for**, by an item given or accepted. -/
theorem measure_step (q : Queue α ε) (event : Event α ε) :
    measure c (step c q event) + (happens q event).toNat + 4 * q.accepted.length ≤
      measure c q + 4 * (step c q event).accepted.length := by
  cases event with
  | begin call =>
    simp only [step, happens]
    split
    · rename_i item hcall
      have hsum := sum_map_modify (g := weight)
        (f := fun made : Call α ε => { made with phase := .running }) hcall
      simp only [weight] at hsum
      simp only [hcall, Option.map_some, weight, decide_true, Bool.toNat_true]
      simp only [measure, setPhase, waiting]
      omega
    · rename_i hother
      have hnot : ¬ (q.calls[call]?.map weight) = some 3 := by
        intro hweight
        obtain ⟨made, hcall, hthree⟩ := Option.map_eq_some_iff.mp hweight
        obtain ⟨item, phase⟩ := made
        cases phase with
        | taken => exact hother item hcall
        | running => cases hthree
        | completed => cases hthree
        | failed error => cases hthree
      simp [hnot]
  | offer call item =>
    simp only [step, happens]
    split
    · rw [Server.DynamicQueue.tryEnqueue]
      split
      · simp
      · have hsched := measure_schedule (c := c)
          { q with pending := q.pending ++ [item], accepted := q.accepted ++ [item] }
        simp only [accepted_schedule]
        simp only [measure, waiting, List.length_append, List.length_drop, List.length_singleton,
          Bool.toNat_false] at hsched ⊢
        omega
    · simp
  | finish call error =>
    simp only [step, happens]
    split
    · rename_i item hcall
      have hsum := sum_map_modify (g := weight)
        (f := fun made : Call α ε => { made with phase := .ofOutcome error }) hcall
      have hdone : weight (⟨item, .ofOutcome error⟩ : Call α ε) = 0 := by
        cases error <;> rfl
      simp only [hdone] at hsum
      simp only [weight] at hsum
      obtain ⟨recorded, heq, hafter⟩ :=
        afterWork_eq (c := c) error (setPhase call (.ofOutcome error) q)
      have haccepted : recorded.accepted = q.accepted := by
        rw [heq, accepted_recordOutcome]
        rfl
      have hrecorded : measure c recorded + 2 ≤ measure c q := by
        have hle := measure_recordOutcome (c := c) error
          { setPhase call (.ofOutcome error) q with active := q.active - 1 }
        rw [heq]
        refine (Nat.add_le_add_right hle 2).trans ?_
        simp only [measure, setPhase, waiting]
        omega
      simp only [hcall, Option.map_some, weight, decide_true, Bool.toNat_true]
      -- the settled call pays for the event and for a deferred turn
      cases hafter with
      | inl hdeferred =>
        rw [hdeferred, measure_settleIfDone, accepted_settleIfDone]
        simp only [haccepted]
        simp only [measure, waiting, Bool.toNat_true] at hrecorded ⊢
        omega
      | inr hscheduled =>
        have hsched := measure_schedule (c := c)
          { recorded with completionsSinceYield := recorded.completionsSinceYield + 1 }
        have hcounter : measure c
            { recorded with completionsSinceYield := recorded.completionsSinceYield + 1 } =
            measure c recorded := rfl
        rw [hscheduled, measure_settleIfDone, accepted_settleIfDone, accepted_schedule]
        show _ ≤ _ + 4 * recorded.accepted.length
        have hlength := congrArg List.length haccepted
        omega
    · rename_i hother
      have hnot : ¬ (q.calls[call]?.map weight) = some 2 := by
        intro hweight
        obtain ⟨made, hcall, htwo⟩ := Option.map_eq_some_iff.mp hweight
        obtain ⟨item, phase⟩ := made
        cases phase with
        | taken => cases htwo
        | running => exact hother item hcall
        | completed => cases htwo
        | failed error => cases htwo
      simp [hnot]
  | immediate =>
    simp only [step, happens]
    split
    · rename_i hyield
      have hsched := measure_schedule (c := c) { q with yieldScheduled := false }
      rw [accepted_schedule, hyield]
      simp only [measure, waiting, hyield, Bool.toNat_true, Bool.toNat_false] at hsched ⊢
      omega
    · rename_i hyield
      simp [hyield]

/-- **A run is no longer than its items allow**: at most four events for each item that was
    given or accepted, offers apart. -/
theorem measure_run (c : Config α) (events : List (Event α ε)) :
    countAlong (step c) happens (processDynamicQueue c) events ≤
      4 * (c.initialItems.length +
        (run (step c) (processDynamicQueue c) events).accepted.length) := by
  have hstart : measure c (processDynamicQueue c : Queue α ε) ≤ 4 * c.initialItems.length := by
    have hempty : measure c ({} : Queue α ε) = 4 * c.initialItems.length := by
      simp [measure, waiting]
    rw [processDynamicQueue]
    split
    · simp [measure, waiting]
    · exact (measure_schedule _).trans hempty.le
  have hrun := @inv_history _ _ (step c) (processDynamicQueue c)
    (fun events q => measure c q +
      countAlong (step c) happens (processDynamicQueue c) events ≤
        4 * c.initialItems.length + 4 * q.accepted.length)
    (by simpa [countAlong] using hstart.trans (Nat.le_add_right _ _))
    (fun events event hevents => by
      have hstep := measure_step (c := c) (run (step c) (processDynamicQueue c) events) event
      rw [countAlong_concat]
      omega)
    events
  omega

/-! ## The contract -/

/-- The items whose worker was invoked, in any state of any run, come from the items given and
    accepted, each at most once. -/
theorem started_subperm (h : Sound c q) : q.started.Subperm (c.initialItems ++ q.accepted) := by
  have hbegun : ((q.calls.filter Call.begun).map Call.item).Subperm (items q) :=
    (List.filter_sublist.map Call.item).subperm
  exact h.started_perm.subperm.trans (hbegun.trans h.taken_subperm)

/-- **`processDynamicQueue`.** For every list of initial items, every choice of offers and every
    order of events: no item is started more often than it was given or accepted; the limits
    hold; after the first failure nothing more is taken or accepted; a settlement is the last
    thing that happens, with no worker call left, with the first error or with every item
    started once and completed; and a run is finite and can only end settled. -/
theorem processDynamicQueue_runs (c : Config α) (events : List (Event α ε)) :
    let q := run (step c) (processDynamicQueue c) events
    q.started.Subperm (c.initialItems ++ q.accepted) ∧
      q.calls.countP Call.unsettled ≤ c.limit ∧ pendingLength q ≤ c.maxQueued ∧
      (q.failures ≠ [] → ∀ later, items (run (step c) q later) = items q ∧
        (run (step c) q later).accepted = q.accepted) ∧
      (∀ result, q.settled = some result →
        (∀ later, (run (step c) q later).settled = some result ∧
          (run (step c) q later).calls = q.calls ∧
          (run (step c) q later).started = q.started) ∧
        (∀ call ∈ q.calls, call.unsettled = false) ∧
        (∀ error, result = .error error → q.failures.head? = some error) ∧
        (result = .ok () → q.failures = [] ∧ q.started.Perm (c.initialItems ++ q.accepted) ∧
          ∀ call ∈ q.calls, call.phase = .completed)) ∧
      ((∀ call ∈ q.calls, call.unsettled = false) → q.yieldScheduled = false →
        q.settled.isSome = true) ∧
      countAlong (step c) happens (processDynamicQueue c) events ≤
        4 * (c.initialItems.length + q.accepted.length) := by
  intro q
  obtain ⟨hsound, hawake⟩ := sound_run c events
  have hactive : q.active = 0 ↔ ∀ call ∈ q.calls, call.unsettled = false := by
    rw [hsound.active_eq, List.countP_eq_zero]
    simp only [Bool.not_eq_true]
    exact Iff.rfl
  refine ⟨started_subperm hsound, hsound.active_eq ▸ hsound.active_le, hsound.pending_le, ?_, ?_,
    fun hidle => hawake (hactive.mpr hidle), measure_run c events⟩
  · intro hfailed later
    have hfrozen := frozen_run (c := c) (hsound.stopped_iff.mpr hfailed) later
    exact ⟨hfrozen.items_eq, hfrozen.accepted_eq⟩
  · intro result hsettled
    obtain ⟨hidle, hresult⟩ := hsound.ended result hsettled
    have hcalls := hactive.mp hidle
    refine ⟨run_of_settled hsound hawake hsettled, hcalls, ?_, ?_⟩
    · rintro error rfl
      exact hresult
    · rintro rfl
      obtain ⟨hnone, hwaiting⟩ := hresult
      have hgoing : q.stopped = false := by
        cases hstopped : q.stopped with
        | false => rfl
        | true => exact absurd hnone (hsound.stopped_iff.mp hstopped)
      -- with nothing unsettled every call has begun
      have hbegun : q.calls.filter Call.begun = q.calls := by
        rw [List.filter_eq_self]
        intro call hcall
        have hdone := hcalls call hcall
        revert hdone
        rw [Call.unsettled, Call.begun]
        cases call.phase <;> simp
      have hperm := hsound.conserved hgoing
      rw [hwaiting, List.append_nil] at hperm
      have hstarted := hsound.started_perm
      rw [hbegun] at hstarted
      refine ⟨hnone, hstarted.trans hperm, ?_⟩
      intro call hcall
      have hdone := hcalls call hcall
      have hnofail := hsound.succeeded hgoing call hcall
      rw [Call.unsettled] at hdone
      cases hphase : call.phase with
      | taken => rw [hphase] at hdone; cases hdone
      | running => rw [hphase] at hdone; cases hdone
      | completed => rfl
      | failed error => exact absurd hphase (hnofail error)

/-- Two workers run and a third item waits. The first one completes, so the third item is taken
    and its call scheduled; the second one's failure is recorded before that call begins. The
    worker is then invoked with the third item although the queue has stopped. -/
theorem start_after_failure :
    let c : Config Nat := ⟨[0, 1, 2], 2, 2, by decide, by decide⟩
    let q : Queue Nat Unit :=
      run (step c) (processDynamicQueue c) [.begin 0, .begin 1, .finish 0 none, .finish 1 (some ())]
    q.failures = [()] ∧ q.started = [0, 1] ∧ (run (step c) q [.begin 2]).started = [0, 1, 2] := by
  decide +kernel

end Bobbit.Spec.DynamicQueue
