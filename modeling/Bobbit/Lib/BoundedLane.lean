import Bobbit.Lib.Run

/-!
# Bounded lanes

A lane admits items up to a capacity and hands them out one at a time, in order, by a loop
that stops when it finds nothing and is started again by the next admission. What was
admitted is what was handed out, followed by what waits; what was not admitted was refused.
-/

namespace Bobbit.Lib

/-- Where the loop of a lane stands. -/
inductive LanePhase (α : Type*)
  | idle
  | queued
  | busy (item : α)
  deriving DecidableEq

structure Lane (α : Type*) where
  waiting : List α
  phase : LanePhase α
  accepted : List α
  received : List α
  refused : List α

inductive LaneAction (α : Type*)
  | offer (item : α)
  /-- the queued loop begins -/
  | start
  /-- the item that was handed out is done with -/
  | finish

namespace Lane

variable {α : Type*} (capacity : Nat)

def empty : Lane α where
  waiting := []
  phase := .idle
  accepted := []
  received := []
  refused := []

/-- An item is admitted, or refused by a full lane. -/
def offer (lane : Lane α) (item : α) : Lane α :=
  if capacity ≤ lane.waiting.length then { lane with refused := lane.refused ++ [item] }
  else
    { lane with
      waiting := lane.waiting ++ [item]
      accepted := lane.accepted ++ [item]
      phase :=
        match lane.phase with
        | .idle => .queued
        | phase => phase }

/-- The loop hands out the next item, or stops. -/
def turn (lane : Lane α) : Lane α :=
  match lane.waiting with
  | [] => { lane with phase := .idle }
  | item :: rest =>
    { lane with waiting := rest, phase := .busy item, received := lane.received ++ [item] }

def start (lane : Lane α) : Lane α :=
  match lane.phase with
  | .queued => lane.turn
  | _ => lane

def finish (lane : Lane α) : Lane α :=
  match lane.phase with
  | .busy _ => lane.turn
  | _ => lane

def step (lane : Lane α) : LaneAction α → Lane α
  | .offer item => lane.offer capacity item
  | .start => lane.start
  | .finish => lane.finish

/-- The items offered by a list of actions. -/
def offered (actions : List (LaneAction α)) : List α :=
  actions.filterMap fun
    | .offer item => some item
    | _ => none

@[simp] theorem offered_nil : offered ([] : List (LaneAction α)) = [] := rfl

@[simp] theorem offered_append (xs ys : List (LaneAction α)) :
    offered (xs ++ ys) = offered xs ++ offered ys :=
  List.filterMap_append

/-- What holds of a lane after the items `items` were offered to it. -/
structure Holds (items : List α) (lane : Lane α) : Prop where
  /-- first in, first out -/
  fifo : lane.received ++ lane.waiting = lane.accepted
  /-- nothing waits for a loop that has stopped -/
  idle : lane.phase = .idle → lane.waiting = []
  /-- the item in hand is the last that was handed out -/
  busy : ∀ item, lane.phase = .busy item → item ∈ lane.received
  accepted : lane.accepted.Sublist items
  perm : (lane.accepted ++ lane.refused).Perm items

theorem empty_holds : Holds ([] : List α) empty :=
  ⟨rfl, fun _ => rfl, fun _ hbusy => (by cases hbusy), List.Sublist.refl _, List.Perm.refl _⟩

variable {items : List α} {lane : Lane α}

theorem turn_holds (h : Holds items lane) : Holds items lane.turn := by
  unfold turn
  split
  · exact ⟨h.fifo, fun _ => (by assumption), fun _ hbusy => (by cases hbusy), h.accepted, h.perm⟩
  · rename_i item rest hwaiting
    refine ⟨?_, fun hidle => (by cases hidle), fun item' hbusy => ?_, h.accepted, h.perm⟩
    · have hfifo := h.fifo
      rw [hwaiting] at hfifo
      simpa using hfifo
    · cases hbusy
      exact List.mem_append_right _ (List.mem_singleton_self _)

theorem offer_holds (h : Holds items lane) (item : α) :
    Holds (items ++ [item]) (lane.offer capacity item) := by
  unfold offer
  split
  · refine ⟨h.fifo, h.idle, h.busy, h.accepted.trans (List.sublist_append_left _ _), ?_⟩
    show (lane.accepted ++ (lane.refused ++ [item])).Perm _
    rw [← List.append_assoc]
    exact h.perm.append_right [item]
  · refine ⟨?_, fun hidle => ?_, fun item' hbusy => ?_, h.accepted.append (List.Sublist.refl _), ?_⟩
    · show lane.received ++ (lane.waiting ++ [item]) = _
      rw [← List.append_assoc, h.fifo]
    · -- an admission starts an idle loop
      dsimp only at hidle
      split at hidle
      · cases hidle
      · rename_i hphase
        exact absurd hidle hphase
    · apply h.busy
      dsimp only at hbusy
      split at hbusy
      · cases hbusy
      · exact hbusy
    · show ((lane.accepted ++ [item]) ++ lane.refused).Perm _
      have hswap : ((lane.accepted ++ [item]) ++ lane.refused).Perm
          ((lane.accepted ++ lane.refused) ++ [item]) := by
        rw [List.append_assoc, List.append_assoc]
        exact (List.perm_append_comm).append_left lane.accepted
      exact hswap.trans (h.perm.append_right [item])

theorem start_holds (h : Holds items lane) : Holds items lane.start := by
  unfold start
  split
  · exact turn_holds h
  · exact h

theorem finish_holds (h : Holds items lane) : Holds items lane.finish := by
  unfold finish
  split
  · exact turn_holds h
  · exact h

/-- **Lanes.** After every list of actions, a lane holds what was offered. -/
theorem holds_foldl (actions : List (LaneAction α)) :
    Holds (offered actions) (actions.foldl (step capacity) empty) := by
  induction actions using List.reverseRecOn with
  | nil => exact empty_holds
  | append_singleton actions action ih =>
    rw [List.foldl_append, offered_append]
    cases action with
    | offer item => exact offer_holds capacity ih item
    | start =>
      show Holds (offered actions ++ []) (start _)
      rw [List.append_nil]
      exact start_holds ih
    | finish =>
      show Holds (offered actions ++ []) (finish _)
      rw [List.append_nil]
      exact finish_holds ih

/-! ## Progress -/

/-- The action makes the loop look for its next item. -/
def turns (lane : Lane α) : LaneAction α → Bool
  | .offer _ => false
  | .start =>
    match lane.phase with
    | .queued => true
    | _ => false
  | .finish =>
    match lane.phase with
    | .busy _ => true
    | _ => false

theorem step_of_turns {action : LaneAction α} (h : lane.turns action = true) :
    step capacity lane action = lane.turn := by
  cases action with
  | offer item => cases h
  | start =>
    show lane.start = lane.turn
    cases hphase : lane.phase with
    | queued => simp only [start, hphase]
    | idle => simp [turns, hphase] at h
    | busy item => simp [turns, hphase] at h
  | finish =>
    show lane.finish = lane.turn
    cases hphase : lane.phase with
    | busy item => simp only [finish, hphase]
    | idle => simp [turns, hphase] at h
    | queued => simp [turns, hphase] at h

/-- Without a turn nothing is handed out, and what waits keeps its place. -/
theorem step_of_not_turns {action : LaneAction α} (h : lane.turns action = false) :
    (step capacity lane action).received = lane.received ∧
      lane.waiting <+: (step capacity lane action).waiting := by
  cases action with
  | offer item =>
    show (lane.offer capacity item).received = _ ∧ _ <+: (lane.offer capacity item).waiting
    unfold offer
    split
    · exact ⟨rfl, List.prefix_refl _⟩
    · exact ⟨rfl, List.prefix_append _ _⟩
  | start =>
    show lane.start.received = _ ∧ _ <+: lane.start.waiting
    cases hphase : lane.phase with
    | queued => simp [turns, hphase] at h
    | idle => simp [start, hphase]
    | busy item => simp [start, hphase]
  | finish =>
    show lane.finish.received = _ ∧ _ <+: lane.finish.waiting
    cases hphase : lane.phase with
    | busy item => simp [turns, hphase] at h
    | idle => simp [finish, hphase]
    | queued => simp [finish, hphase]

/-- **Progress.** The first `n` items that wait are handed out, next and in order, by the time the
    loop of the lane has made `n` turns. -/
theorem front_received (actions : List (LaneAction α)) {front : List α}
    (hfront : front <+: lane.waiting)
    (hcount : front.length ≤ countAlong (step capacity) turns lane actions) :
    lane.received ++ front <+: (run (step capacity) lane actions).received := by
  induction actions generalizing lane front with
  | nil =>
    have hnil : front = [] := List.length_eq_zero_iff.mp (Nat.le_zero.mp hcount)
    rw [hnil, List.append_nil]
    exact List.prefix_refl _
  | cons action rest ih =>
    rw [run_cons]
    cases hturns : lane.turns action with
    | false =>
      obtain ⟨hreceived, hwaiting⟩ := step_of_not_turns capacity hturns
      rw [← hreceived]
      refine ih (hfront.trans hwaiting) ?_
      simpa [countAlong, hturns] using hcount
    | true =>
      have hstep := step_of_turns capacity hturns
      rw [countAlong, hturns, hstep] at hcount
      rw [hstep]
      cases hitems : lane.waiting with
      | nil =>
        -- the loop stops, and there was nothing to hand out
        rw [hitems, List.prefix_nil] at hfront
        have hsame : lane.turn.received = lane.received := by
          simp only [turn, hitems]
        rw [hfront, ← hsame]
        exact ih List.nil_prefix (Nat.zero_le _)
      | cons item items =>
        have hturn : lane.turn = { lane with
            waiting := items, phase := .busy item, received := lane.received ++ [item] } := by
          simp only [turn, hitems]
        rw [hitems] at hfront
        cases front with
        | nil =>
          have hnext : lane.turn.received ++ [] <+: (run (step capacity) lane.turn rest).received :=
            ih List.nil_prefix (Nat.zero_le _)
          rw [List.append_nil] at hnext ⊢
          refine List.IsPrefix.trans ?_ hnext
          rw [hturn]
          exact List.prefix_append _ _
        | cons item' front =>
          obtain ⟨hitem, hrest⟩ := List.cons_prefix_cons.mp hfront
          subst hitem
          have hlength : front.length ≤ countAlong (step capacity) turns lane.turn rest := by
            simp only [List.length_cons, Bool.toNat_true] at hcount
            omega
          have hwaits : front <+: lane.turn.waiting := by
            rw [hturn]
            exact hrest
          have hnext := ih hwaits hlength
          rw [hturn] at hnext
          rw [hturn]
          simpa using hnext

end Lane

end Bobbit.Lib
