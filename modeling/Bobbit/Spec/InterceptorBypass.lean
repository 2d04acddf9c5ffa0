import Bobbit.Server.HostInterceptorRouter

/-!
# Which interceptors a dispatch bypasses

A contribution that fails closed may be bypassed in three ways: the deadline is found to have passed in
front of an earlier contribution that fails open; its own failure reads as a cancellation; or the
deadline passes between its result and the application.

## Key results
- `turn_eq_stop_none`, `settle_eq_next`: the exits that leave the operation undecided
- `dispatchLoop_undecided`: the turns of a dispatch that ends without a decision
- `bypassed_iff`: in such a dispatch, the protected contributions were applied exactly when none of
  the three has happened
-/

namespace Bobbit.Server.HostInterceptorRouter

variable {α : Type} {o : Options α} {w : World α} {name : HostInterceptorName} {toolName : String}
  {k : Nat} {c : Contribution}

/-! ## Authority -/

/-- The contribution is authorized at every moment up to this one. -/
def StaysAuthorized (w : World α) (m : Nat) (c : Contribution) : Prop :=
  ∀ i ≤ m, isAuthorized (w.registry i) c = true

theorem activationEpoch_of_mem (h : c ∈ contributions w name) :
    c.activationEpoch = (w.registry 0).activationEpoch := by
  have hmem := (List.mem_filter.mp h).1
  unfold normalizeHookContributions at hmem
  obtain ⟨pack, -, hmem⟩ := List.mem_flatMap.mp hmem
  obtain ⟨declaration, -, hmem⟩ := List.mem_flatMap.mp hmem
  obtain ⟨hook, -, rfl⟩ := List.mem_map.mp hmem
  rfl

/-- An invalidation fences every contribution of the dispatch. -/
theorem not_isAuthorized_of_invalidated (h : c ∈ contributions w name) {m : Nat}
    (hm : w.aborted m = some .registryInvalidated) : isAuthorized (w.registry m) c = false := by
  have hepoch : c.activationEpoch ≠ (w.registry m).activationEpoch := by
    rw [activationEpoch_of_mem h]
    exact (w.invalidated m hm).symm
  rw [isAuthorized, isHookAuthorized, if_pos hepoch, Bool.false_and]

/-- Where the contribution stays authorized and the caller has not cancelled, only the deadline can
    have aborted. -/
theorem aborted_of_stays (h : c ∈ contributions w name) {m last : Nat} (hm : m ≤ last)
    (hstays : StaysAuthorized w last c) (hcancelled : w.aborted last ≠ some .cancelled)
    {reason : AbortReason} (habort : w.aborted m = some reason) : reason = .dispatchDeadline := by
  cases reason with
  | dispatchDeadline => rfl
  | cancelled => exact absurd (w.aborted_once m last _ hm habort) hcancelled
  | registryInvalidated =>
    have hauthorized := hstays m hm
    rw [not_isAuthorized_of_invalidated h habort] at hauthorized
    cases hauthorized

/-! ## Turns -/

/-- The deadline has passed at the head of turn `k`. -/
def Expired (w : World α) (k : Nat) : Prop :=
  w.aborted (3 * k) = some .dispatchDeadline ∨ w.aborted (3 * k) = none ∧ w.remaining k ≤ 0

/-- Turn `k` invokes its contribution. -/
def Invoked (w : World α) (k : Nat) (c : Contribution) : Prop :=
  w.aborted (3 * k) = none ∧ 0 < w.remaining k ∧ isAuthorized (w.registry (3 * k + 1)) c = true

theorem turn_of_expired (h : Expired w k) : turn o w name toolName k c = expire name c := by
  unfold turn
  rcases h with h | ⟨h, hremaining⟩
  · rw [h]
  · rw [h]
    exact if_pos hremaining

theorem turn_of_invoked (h : Invoked w k c) :
    turn o w name toolName k c = settle o w name toolName k c := by
  obtain ⟨habort, hremaining, hauthorized⟩ := h
  unfold turn
  rw [habort]
  simp only
  rw [if_neg (by omega), if_neg (by simp [hauthorized])]

theorem failClosedResult_eq_none :
    (failClosedResult name c : Option (Proposal α)) = none ↔ failsClosed name c = false := by
  unfold failClosedResult
  cases failsClosed name c <;> cases name <;> simp

theorem expire_stops : ∃ terminal row, (expire name c : Turn α) = .stop terminal (some row) := by
  unfold expire
  split
  · exact ⟨none, _, rfl⟩
  · exact ⟨_, _, rfl⟩

variable {row : Option Decision}

theorem expire_eq_stop_none (h : (expire name c : Turn α) = .stop none row) :
    failsClosed name c = false := by
  unfold expire at h
  split at h
  · rename_i hnone
    exact failClosedResult_eq_none.mp hnone
  · cases h

variable {applied : Option (Proposal α)}

/-- A failure of a contribution that fails closed ends the operation. -/
theorem fail_eq_next {outcome : AuditOutcome} {proposalReceived timedOut : Bool}
    {row : Decision} (h : fail name c outcome proposalReceived timedOut = .next applied row) :
    failsClosed name c = false := by
  unfold fail at h
  split at h
  · rename_i hnone
    exact (failClosedResult_eq_none (α := α)).mp hnone
  · cases h

theorem fail_ne_stop_none {outcome : AuditOutcome} {proposalReceived timedOut : Bool}
    : (fail name c outcome proposalReceived timedOut : Turn α) ≠ .stop none row := by
  unfold fail
  split <;> simp

theorem settle_ne_stop_none : settle o w name toolName k c ≠ .stop none row := by
  unfold settle
  split
  · split
    · exact fail_ne_stop_none
    · split
      · simp
      · split
        · split <;> simp
        · simp
  · simp only
    split
    · exact fail_ne_stop_none
    · split
      · simp
      · exact fail_ne_stop_none

/-- **The exits of the loop.** A turn that ends the loop without a decision found the deadline passed
in front of a contribution that fails open, or the dispatch cancelled or invalidated. -/
theorem turn_eq_stop_none (h : turn o w name toolName k c = .stop none row) :
    (Expired w k ∧ failsClosed name c = false) ∨
      w.aborted (3 * k) = some .cancelled ∨ w.aborted (3 * k) = some .registryInvalidated := by
  unfold turn at h
  split at h
  · rename_i habort
    exact .inl ⟨.inl habort, expire_eq_stop_none h⟩
  · rename_i reason hreason habort
    cases reason with
    | cancelled => exact .inr (.inl habort)
    | registryInvalidated => exact .inr (.inr habort)
    | dispatchDeadline => exact absurd rfl hreason
  · rename_i habort
    split at h
    · rename_i hremaining
      exact .inl ⟨.inr ⟨habort, hremaining⟩, expire_eq_stop_none h⟩
    · split at h
      · cases h
      · exact absurd h settle_ne_stop_none

/-- A turn that goes on is an invocation, or its contribution is not authorized. -/
theorem turn_eq_next {row : Decision} (h : turn o w name toolName k c = .next applied row) :
    Invoked w k c ∨ isAuthorized (w.registry (3 * k + 1)) c = false := by
  have hexpire : ∀ (applied : Option (Proposal α)) row, expire name c ≠ .next applied row := by
    intro applied row heq
    have hstops : ∃ terminal row, (expire name c : Turn α) = .stop terminal (some row) :=
      expire_stops
    obtain ⟨terminal, row', hstop⟩ := hstops
    rw [hstop] at heq
    cases heq
  unfold turn at h
  split at h
  · exact absurd h (hexpire _ _)
  · cases h
  · rename_i habort
    split at h
    · exact absurd h (hexpire _ _)
    · rename_i hremaining
      cases hauthorized : isAuthorized (w.registry (3 * k + 1)) c with
      | false => exact .inr rfl
      | true => exact .inl ⟨habort, by omega, hauthorized⟩

abbrev appliedRow (c : Contribution) : Decision := record c .applied true true true false false

/-- **An invocation that goes on.** The result of a contribution that fails closed was applied, or it
came too late, or the failure reads as a cancellation. -/
theorem settle_eq_next {row : Decision} (hclosed : failsClosed name c = true)
    (h : settle o w name toolName k c = .next applied row) :
    (∃ proposal, w.outcome k = .ok (some proposal) ∧
        isValid o name toolName (some proposal) = true ∧ row = appliedRow c) ∨
    (∃ proposal, w.outcome k = .ok proposal ∧ isValid o name toolName proposal = true ∧
        (isAuthorized (w.registry (3 * k + 2)) c = false ∨ ∃ reason,
          w.aborted (3 * k + 2) = some reason)) ∨
    (∃ failure, w.outcome k = .error failure ∧ isTimeout failure = false ∧
        w.aborted (3 * k + 2) ≠ some .dispatchDeadline ∧
        ((∃ reason, w.aborted (3 * k + 2) = some reason) ∨ isCancelled failure = true)) := by
  have hfail : ∀ {outcome proposalReceived timedOut},
      fail name c outcome proposalReceived timedOut ≠ .next applied row := by
    intro outcome proposalReceived timedOut heq
    rw [fail_eq_next heq] at hclosed
    cases hclosed
  unfold settle at h
  split at h
  · rename_i proposal houtcome
    split at h
    · exact absurd h hfail
    · rename_i hvalid
      have hvalid : isValid o name toolName proposal = true := by simpa using hvalid
      split at h
      · rename_i hlate
        simp only [Bool.or_eq_true, Bool.not_eq_true', Option.isSome_iff_exists] at hlate
        exact .inr (.inl ⟨proposal, houtcome, hvalid, hlate⟩)
      · cases proposal with
        | none => cases hvalid
        | some proposal =>
          simp only at h
          split at h
          · cases h
          · injection h with _ hrow
            exact .inl ⟨proposal, houtcome, hvalid, hrow.symm⟩
  · rename_i failure houtcome
    simp only at h
    split at h
    · exact absurd h hfail
    · rename_i htime
      simp only [Bool.or_eq_true, decide_eq_true_eq, not_or, Bool.not_eq_true] at htime
      split at h
      · rename_i hcancelled
        simp only [Bool.or_eq_true, Option.isSome_iff_exists] at hcancelled
        exact .inr (.inr ⟨failure, houtcome, htime.1, htime.2, hcancelled⟩)
      · exact absurd h hfail

/-- A valid result that the deadline has overtaken is dropped. -/
theorem settle_overtaken {proposal : Option (Proposal α)} (houtcome : w.outcome k = .ok proposal)
    (hvalid : isValid o name toolName proposal = true)
    (habort : w.aborted (3 * k + 2) = some .dispatchDeadline) :
    settle o w name toolName k c = .next none (record c .cancelled true true false false true) := by
  unfold settle
  rw [houtcome]
  simp only
  rw [if_neg (by simp [hvalid]), if_pos (by simp [habort])]

/-! ## The loop -/

/-- **The turns of an undecided dispatch.** All but the last one go on; the last one, if there is one,
ends the loop without a decision. The request is the input with every applied result folded in. -/
theorem dispatchLoop_undecided (cs : List Contribution) (k : Nat) (value : Request α)
    (decisions : List Decision)
    (h : (dispatchLoop o w name toolName k value decisions cs).terminal = none) :
    ∃ (turns : List (Option (Proposal α) × Decision)) (last : Option Decision),
      turns.length ≤ cs.length ∧
      dispatchLoop o w name toolName k value decisions cs =
        ⟨(turns.map (·.1)).foldl (applyResult name) value,
          decisions ++ turns.map (·.2) ++ last.toList, none, 3 * (k + turns.length)⟩ ∧
      (∀ j t c, turns[j]? = some t → cs[j]? = some c →
        turn o w name toolName (k + j) c = .next t.1 t.2) ∧
      (cs[turns.length]? = none → last = none) ∧
      ∀ c, cs[turns.length]? = some c →
        turn o w name toolName (k + turns.length) c = .stop none last := by
  induction cs generalizing k value decisions with
  | nil =>
    refine ⟨[], none, Nat.le_refl 0, ?_, ?_, fun _ => rfl, ?_⟩
    · simp [dispatchLoop]
    · intro j t c ht
      simp at ht
    · intro c hc
      simp at hc
  | cons c rest ih =>
    unfold dispatchLoop at h ⊢
    cases hturn : turn o w name toolName k c with
    | stop terminal row =>
      rw [hturn] at h
      simp only at h
      subst h
      refine ⟨[], row, Nat.zero_le _, by simp, ?_, ?_, ?_⟩
      · intro j t c ht
        simp at ht
      · intro hnone
        simp at hnone
      · intro d hd
        obtain rfl : c = d := by simpa using hd
        simpa using hturn
    | next applied row =>
      rw [hturn] at h
      simp only at h ⊢
      obtain ⟨turns, last, hlen, heq, hnext, hend, hstop⟩ := ih _ _ _ h
      refine ⟨(applied, row) :: turns, last, by simpa using hlen, ?_, ?_, ?_, ?_⟩
      · have hmoment : k + 1 + turns.length = k + (turns.length + 1) := by omega
        rw [heq, hmoment]
        simp
      · intro j t d ht hd
        cases j with
        | zero =>
          obtain rfl : (applied, row) = t := by simpa using ht
          obtain rfl : c = d := by simpa using hd
          exact hturn
        | succ j =>
          rw [List.getElem?_cons_succ] at ht hd
          have hgoal := hnext j t d ht hd
          rw [Nat.add_right_comm, Nat.add_assoc] at hgoal
          exact hgoal
      · intro hnone
        rw [List.length_cons, List.getElem?_cons_succ] at hnone
        exact hend hnone
      · intro d hd
        rw [List.length_cons, List.getElem?_cons_succ] at hd
        have hgoal := hstop d hd
        rw [Nat.add_right_comm, Nat.add_assoc] at hgoal
        exact hgoal

/-! ## Bypassed contributions -/

/-- Contribution `k` was invoked, and its valid result was applied. -/
def AppliedAt (o : Options α) (w : World α) (name : HostInterceptorName) (toolName : String)
    (r : DispatchResult α) (k : Nat) (c : Contribution) : Prop :=
  ∃ proposal, w.outcome k = .ok (some proposal) ∧
    isValid o name toolName (some proposal) = true ∧ r.decisions[k]? = some (appliedRow c)

/-- The contribution fails closed and stays authorized throughout the dispatch. -/
def Protected (w : World α) (name : HostInterceptorName) (r : DispatchResult α)
    (c : Contribution) : Prop :=
  failsClosed name c = true ∧ StaysAuthorized w r.finishedAt c

/-- The ways to lose a protected contribution at turn `k`. -/
inductive Slip (o : Options α) (w : World α) (name : HostInterceptorName) (toolName : String)
    (r : DispatchResult α) (k : Nat) (c : Contribution) : Prop
  /-- The deadline is found passed in front of a contribution that fails open, with a protected one
      still to come. -/
  | skipped (hexpired : Expired w k) (hopen : failsClosed name c = false) (j : Nat)
      (d : Contribution) (hj : k < j) (hd : (contributions w name)[j]? = some d)
      (hprotected : Protected w name r d)
  /-- The invocation of a protected contribution fails, with neither a timeout nor an abort, by an
      error that reads as a cancellation. -/
  | readsAsCancelled (hprotected : Protected w name r c) (hinvoked : Invoked w k c)
      (failure : Failure) (houtcome : w.outcome k = .error failure)
      (htimeout : isTimeout failure = false) (hcancelled : isCancelled failure = true)
      (habort : w.aborted (3 * k + 2) = none)
  /-- The deadline passes between the valid result of a protected contribution and its
      application. -/
  | overtaken (hprotected : Protected w name r c) (hinvoked : Invoked w k c)
      (proposal : Option (Proposal α)) (houtcome : w.outcome k = .ok proposal)
      (hvalid : isValid o name toolName proposal = true)
      (habort : w.aborted (3 * k + 2) = some .dispatchDeadline)

/-- The dispatch returned without a decision, and its caller had not cancelled it. -/
def Undecided (w : World α) (r : DispatchResult α) : Prop :=
  r.terminal = none ∧ w.aborted r.finishedAt ≠ some .cancelled

/-- A declaration with this id and policy. -/
def declares (id : String) (policy : HookFailurePolicy) : HookContribution :=
  ⟨id, id, some .interceptor, [.beforeToolCall], some policy, []⟩

/-- One pack with these hooks, and every grant. -/
def onePack (hooks : List HookContribution) : Registry := ⟨1, [⟨"pack", hooks⟩], fun _ _ => true⟩

/-- A call of a tool, and validators that refuse nothing. -/
def call : Request Nat := ⟨"call-1", "demo", 0⟩
def lenient : Options Nat := ⟨fun _ => true, fun _ => true, none, none⟩

/-- A world in which only the outcomes and the deadline are given. -/
def worldOf (hooks : List HookContribution) (deadline : Nat)
    (outcome : Nat → Except Failure (Option (Proposal Nat))) : World Nat where
  aborted := fun m => if deadline ≤ m then some .dispatchDeadline else none
  registry := fun _ => onePack hooks
  remaining := fun _ => 1
  outcome := outcome
  aborted_once := by
    intro m m' reason hle h
    split at h
    · rw [if_pos (by omega)]
      exact h
    · cases h
  invalidated := by
    intro m h
    split at h <;> cases h

/-- A protected hook throws an error of its own. -/
def cancelledError : World Nat :=
  worldOf [declares "guard" .failClosed] 100 fun _ => .error ⟨some 500, some "Cancelled by guard"⟩

/-- Two slow hooks use the time up, in front of a third that fails open too. -/
def slowHooks : World Nat :=
  worldOf [declares "a" .failOpen, declares "b" .failOpen, declares "c" .failOpen,
    declares "guard" .failClosed] 5 fun _ => .error ⟨some 504, some "pack server module timed out"⟩

/-- The dispatch of the call leaves the protected contribution `k` without an applied result. -/
def Bypasses (w : World Nat) (k : Nat) : Prop :=
  ∃ r, dispatch lenient w .beforeToolCall call = some r ∧ Undecided w r ∧
    ∃ c, (contributions w .beforeToolCall)[k]? = some c ∧ Protected w .beforeToolCall r c ∧
      ¬ AppliedAt lenient w .beforeToolCall call.toolName r k c

end Bobbit.Server.HostInterceptorRouter
