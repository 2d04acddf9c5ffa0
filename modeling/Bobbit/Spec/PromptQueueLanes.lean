import Bobbit.Spec.PromptQueueRows
import Mathlib

/-!
# The lanes of the prompt queue

The counter of a lane stays above every valid sequence in it, so a sequence it gives out
is new, while a row that brings a sequence along keeps it.

Key results:
- `lanes_ordered`: unless a row brings along a sequence of its lane, sequences in a
  lane are distinct, a new row comes after every earlier one, and the lane is
  dequeued by sequence, in visible order after a resequencing reorder
- `restored_sequences_collide`: restored rows that share a sequence
-/

namespace Bobbit.Server

open Lib

namespace PromptQueue

/-- The valid sequences of a lane, in queue order. -/
def laneSequences (s : PromptQueue) (lane : DeliveryTargetTurn) : List Nat :=
  s.queue.filterMap (·.laneSequence lane)

/-- The sequence that a row brings along is that of a queued row of its lane. -/
def Collides (s : PromptQueue) (sequence : Field Nat) (row : QueuedMessage) : Prop :=
  ∃ lane n, row.targetTurn = some lane ∧ validSequence sequence.toOption = some n ∧
    n ∈ s.laneSequences lane

/-- A restored row is queued already or does not collide. -/
def Apart (s : PromptQueue) (row : RawMessage × String) : Prop :=
  restoredId row.1 row.2 ∉ s.ids →
    ¬ s.Collides row.1.sequence (s.normalizeQueuedMessage row.1 row.2).1

def NoCollision (s : PromptQueue) : Event → Prop
  | .enqueue text opts uuid now | .enqueueAtFront text opts uuid now =>
    createdId opts uuid ∉ s.ids →
      ¬ s.Collides opts.sequence (s.createMessage text opts uuid now).1
  | .enqueueExisting message uuid | .enqueueExistingAtFront message uuid
  | .restoreAtFront message uuid => s.Apart (message, uuid)
  | .retarget _ restoredRows => Along admitRow Apart s restoredRows
  | _ => True

/-- A restored row brings a sequence of its own. -/
def RowBrings (record : RawMessage × String) (row : QueuedMessage) : Prop :=
  restoredId record.1 record.2 = row.id ∧ (validSequence record.1.sequence.toOption).isSome = true

/-- A row comes with a sequence of its own. -/
def Brings (event : Event) (row : QueuedMessage) : Prop :=
  match event with
  | .enqueue _ opts uuid _ | .enqueueAtFront _ opts uuid _ =>
    createdId opts uuid = row.id ∧ (validSequence opts.sequence.toOption).isSome = true
  | .enqueueExisting message uuid | .enqueueExistingAtFront message uuid
  | .restoreAtFront message uuid => RowBrings (message, uuid) row
  | .retarget _ restoredRows => ∃ record ∈ restoredRows, RowBrings record row
  | _ => False

/-- Between two states a row gets into a lane. -/
def EntersLane (s s' : PromptQueue) (lane : DeliveryTargetTurn) (row : QueuedMessage) : Prop :=
  row ∈ s'.queue ∧ row.targetTurn = some lane ∧
    ∀ old ∈ s.queue, old.id = row.id → old.targetTurn ≠ some lane

/-- A row that gets into a lane without a sequence of its own comes after all rows that
    an earlier state had there. -/
def ComesAfter (past s s' : PromptQueue) (brings : QueuedMessage → Prop) : Prop :=
  ∀ lane row, EntersLane s s' lane row → ¬ brings row →
    ∃ n, row.sequence = some n ∧ ∀ m ∈ past.laneSequences lane, m < n

/-- A row is released before another: its sequence is smaller, or the other has none. -/
def ReleasedBefore (row other : QueuedMessage) : Prop :=
  ∀ m, validSequence other.sequence = some m → ∃ n, validSequence row.sequence = some n ∧ n < m

/-- How lanes are dequeued and reordered: by sequence, which only a reorder with
    resequencing reassigns. Front insertion leaves the rows in the queue as they are. -/
def LaneOrder (s : PromptQueue) (event : Event) : Prop :=
  let s' := step s event
  match event with
  | .dequeueForTarget target =>
    match (s.dequeueForTarget target).1 with
    | none => ∀ row ∈ s.queue, row.targetTurn ≠ some target
    | some row => row.targetTurn = some target ∧
        ∀ other ∈ s'.queue, other.targetTurn = some target → ReleasedBefore row other
  | .reorderByIds _ true => ∀ lane,
      (s'.laneSequences lane).Pairwise (· < ·) ∧
        (s'.laneSequences lane).Perm (s.laneSequences lane)
  | .reorderByIds _ false => s'.queue.Perm s.queue
  | .enqueueExistingAtFront .. | .enqueueAtFront .. | .restoreAtFront .. => s.queue ⊆ s'.queue
  | _ => True

/-! ## The counters -/

/-- Counters go up, and not beyond the first unsafe integer. -/
structure Advances (s s' : PromptQueue) : Prop where
  mono : ∀ lane, s.nextSequence lane ≤ s'.nextSequence lane
  bounded : ∀ lane, s'.nextSequence lane ≤ 2 ^ 53

variable {s s' : PromptQueue}

theorem Advances.trans {s'' : PromptQueue} (h : Advances s s') (h' : Advances s' s'') :
    Advances s s'' :=
  ⟨fun lane => (h.mono lane).trans (h'.mono lane), h'.bounded⟩

theorem validSequence_eq_some {sequence : Option Nat} {n : Nat} :
    validSequence sequence = some n ↔ sequence = some n ∧ n ≤ maxSafeInteger := by
  simp [validSequence, Option.filter_eq_some_iff]

variable {row : QueuedMessage} {lane : DeliveryTargetTurn}

theorem laneSequence_eq_some {n : Nat} : row.laneSequence lane = some n ↔
      row.targetTurn = some lane ∧ row.sequence = some n ∧ n ≤ maxSafeInteger := by
  unfold QueuedMessage.laneSequence
  split
  · rename_i h
    simp [h, validSequence_eq_some]
  · rename_i h
    simp [h]

section Counters

variable {s : PromptQueue} (hs : ∀ lane, s.nextSequence lane ≤ 2 ^ 53)
include hs

variable (target : DeliveryTargetTurn)

theorem advances_allocate : Advances s (s.allocateSequence target).2 := by
  constructor
  · intro lane
    simp only [allocateSequence, numberSucc]
    split
    · rename_i h
      have := hs target
      rw [h]
      omega
    · exact le_rfl
  · intro lane
    simp only [allocateSequence, numberSucc]
    split
    · omega
    · exact hs lane

omit hs in
/-- A valid sequence that was given out is below the counter. -/
theorem lt_allocate (h : s.nextSequence target ≤ maxSafeInteger) :
    s.nextSequence target < (s.allocateSequence target).2.nextSequence target := by
  simp only [allocateSequence, numberSucc, maxSafeInteger] at *
  simp only [if_true]
  omega

theorem advances_observe (row : QueuedMessage) : Advances s (s.observeSequence row) := by
  constructor
  · intro lane
    simp only [observeSequence]
    split
    · exact le_max_left _ _
    · exact le_rfl
  · intro lane
    simp only [observeSequence]
    split
    · rename_i n hn
      have hle := (laneSequence_eq_some.mp hn).2.2
      have := hs lane
      simp only [maxSafeInteger] at hle
      omega
    · exact hs lane

omit hs in
theorem lt_observe {row : QueuedMessage} {lane : DeliveryTargetTurn} {n : Nat}
    (h : row.laneSequence lane = some n) : n < (s.observeSequence row).nextSequence lane := by
  simp only [observeSequence, h]
  omega

theorem advances_sequenceFor (sequence : Field Nat) :
    Advances s (s.sequenceFor target sequence).2 := by
  unfold sequenceFor
  split
  · exact ⟨fun _ => le_rfl, hs⟩
  · exact advances_allocate hs target

omit hs in
theorem sequenceFor_fst (sequence : Field Nat) : (s.sequenceFor target sequence).1 =
      (validSequence sequence.toOption).getD (s.nextSequence target) := by
  unfold sequenceFor
  split <;> simp_all [allocateSequence]

theorem advances_createMessage (text : JsString) (opts : PromptQueueEnqueueOptions)
    (uuid : String) (now : Nat) : Advances s (s.createMessage text opts uuid now).2 := by
  unfold createMessage
  dsimp only
  split
  · have h := advances_sequenceFor hs (opts.targetTurn.getD (opts.kind.getD
      (kindOf (opts.isSteered.getD (opts.kind = some .steer)))).lane) opts.sequence
    exact h.trans (advances_observe h.bounded _)
  · dsimp only
    exact advances_observe hs _

theorem advances_normalize (message : RawMessage) (uuid : String) :
    Advances s (s.normalizeQueuedMessage message uuid).2 := by
  unfold normalizeQueuedMessage
  split
  · exact advances_sequenceFor hs _ _
  · exact ⟨fun _ => le_rfl, hs⟩

end Counters

/-! ## Admissions -/

/-- A row comes into the queue, under the sequence it brings along or the next one. -/
structure Admission (s s' : PromptQueue) (row : QueuedMessage) (brought : Option Nat) : Prop where
  perm : s'.queue.Perm (row :: s.queue)
  advances : Advances s s'
  below : ∀ lane n, row.laneSequence lane = some n → n < s'.nextSequence lane
  sequence : ∀ lane, row.targetTurn = some lane →
    row.sequence = some (brought.getD (s.nextSequence lane)) ∧ row.kind.isSome = true

section Admissions

variable {s : PromptQueue} (hs : ∀ lane, s.nextSequence lane ≤ 2 ^ 53)
include hs

theorem admission_create (text : JsString) (opts : PromptQueueEnqueueOptions) (uuid : String)
    (now : Nat) {queue : List QueuedMessage}
    (hqueue : queue.Perm ((s.createMessage text opts uuid now).1 :: s.queue)) :
    Admission s { (s.createMessage text opts uuid now).2 with queue := queue }
      (s.createMessage text opts uuid now).1 (validSequence opts.sequence.toOption) := by
  have hadv := advances_createMessage hs text opts uuid now
  refine ⟨hqueue, ⟨hadv.mono, hadv.bounded⟩, ?_, ?_⟩
  · intro lane n
    unfold createMessage
    dsimp only
    split
    · exact lt_observe
    · exact lt_observe
  · intro lane hlane
    unfold createMessage at hlane ⊢
    dsimp only at hlane ⊢
    split at hlane
    · rename_i h
      simp only [h, if_true, sequenceFor_fst]
      simp only [Option.some.injEq] at hlane
      rw [hlane]
      exact ⟨rfl, rfl⟩
    · cases hlane

theorem admission_normalize (message : RawMessage) (uuid : String) {queue : List QueuedMessage}
    (hqueue : queue.Perm ((s.normalizeQueuedMessage message uuid).1 :: s.queue)) :
    Admission s
      { (s.normalizeQueuedMessage message uuid).2.observeSequence
          (s.normalizeQueuedMessage message uuid).1 with queue := queue }
      (s.normalizeQueuedMessage message uuid).1 (validSequence message.sequence.toOption) := by
  have hnorm := advances_normalize hs message uuid
  have hadv := hnorm.trans (advances_observe hnorm.bounded
    (s.normalizeQueuedMessage message uuid).1)
  refine ⟨hqueue, ⟨hadv.mono, hadv.bounded⟩, fun lane n => lt_observe, ?_⟩
  intro lane hlane
  unfold normalizeQueuedMessage at hlane ⊢
  split at hlane
  · rename_i h
    simp only [h, if_true, sequenceFor_fst]
    simp only [Option.some.injEq] at hlane
    rw [hlane]
    exact ⟨rfl, rfl⟩
  · cases hlane

omit hs in
theorem enqueueExisting_cases (message : RawMessage) {uuid : String}
    (hs : ∀ lane, s.nextSequence lane ≤ 2 ^ 53) (hfresh : uuid ∉ s.ids) :
    s.enqueueExisting message uuid = s ∨ restoredId message uuid ∉ s.ids ∧
      Admission s (s.enqueueExisting message uuid) (s.normalizeQueuedMessage message uuid).1
        (validSequence message.sequence.toOption) := by
  unfold enqueueExisting
  cases hfind : s.findExisting message with
  | some row => exact .inl rfl
  | none =>
    refine .inr ⟨(findExisting_eq_none message hfresh).mp hfind, ?_⟩
    simpa using admission_normalize hs message uuid (List.perm_append_singleton _ s.queue)

end Admissions

/-- The state after a row came in at the front, or nothing. -/
theorem enqueueExistingAtFront_cases (message : RawMessage) {uuid : String}
    (hs : ∀ lane, s.nextSequence lane ≤ 2 ^ 53) (hfresh : uuid ∉ s.ids) :
    s.enqueueExistingAtFront message uuid = s ∨ restoredId message uuid ∉ s.ids ∧
      Admission s (s.enqueueExistingAtFront message uuid)
        (s.normalizeQueuedMessage message uuid).1 (validSequence message.sequence.toOption) := by
  unfold enqueueExistingAtFront
  cases hfind : s.findExisting message with
  | some row => exact .inl rfl
  | none =>
    refine .inr ⟨(findExisting_eq_none message hfresh).mp hfind, ?_⟩
    simpa using admission_normalize hs message uuid (List.Perm.refl _)

variable {brought : Option Nat}

theorem Admission.reorder (h : Admission s s' row brought) : Admission s s'.reorder row brought :=
  ⟨s'.reorder_queue_perm.trans h.perm, ⟨h.advances.mono, h.advances.bounded⟩, h.below, h.sequence⟩

/-- A message that is enqueued has its id queued already, or comes in. -/
theorem enqueue_cases (hs : ∀ lane, s.nextSequence lane ≤ 2 ^ 53)
    (text : JsString) (opts : PromptQueueEnqueueOptions) (uuid : String) (now : Nat) :
    (Advances s (s.enqueue text opts uuid now) ∧
        (s.enqueue text opts uuid now).queue = s.queue) ∨
      createdId opts uuid ∉ s.ids ∧ Admission s (s.enqueue text opts uuid now)
        (s.createMessage text opts uuid now).1 (validSequence opts.sequence.toOption) := by
  unfold enqueue
  dsimp only
  rw [find_createMessage, createMessage_id]
  split
  · exact .inl ⟨advances_createMessage hs text opts uuid now, createMessage_queue ..⟩
  · rename_i hfind
    refine .inr ⟨(s.find_eq_none_iff _).mp hfind, ?_⟩
    have hadmission := admission_create hs text opts uuid now (List.perm_append_singleton _ s.queue)
    split
    · simpa using hadmission.reorder
    · simpa using hadmission

theorem enqueueAtFront_cases (hs : ∀ lane, s.nextSequence lane ≤ 2 ^ 53)
    (text : JsString) (opts : PromptQueueEnqueueOptions) (uuid : String) (now : Nat) :
    (Advances s (s.enqueueAtFront text opts uuid now) ∧
        (s.enqueueAtFront text opts uuid now).queue = s.queue) ∨
      createdId opts uuid ∉ s.ids ∧ Admission s (s.enqueueAtFront text opts uuid now)
        (s.createMessage text opts uuid now).1 (validSequence opts.sequence.toOption) := by
  unfold enqueueAtFront
  dsimp only
  rw [find_createMessage, createMessage_id]
  split
  · exact .inl ⟨advances_createMessage hs text opts uuid now, createMessage_queue ..⟩
  · rename_i hfind
    refine .inr ⟨(s.find_eq_none_iff _).mp hfind, ?_⟩
    simpa using (admission_create hs text opts uuid now (List.Perm.refl _)).reorder

/-! ## The invariant -/

/-- The counters are above the valid sequences of their lanes, and every row of a lane has
    a kind. -/
structure CounterInv (s : PromptQueue) : Prop where
  bounded : ∀ lane, s.nextSequence lane ≤ 2 ^ 53
  below : ∀ lane, ∀ n ∈ s.laneSequences lane, n < s.nextSequence lane
  kinded : ∀ row ∈ s.queue, row.targetTurn.isSome = true → row.kind.isSome = true

/-- Lanes are in order: valid sequences are distinct and below the counter. -/
structure LaneInv (s : PromptQueue) : Prop where
  bounded : ∀ lane, s.nextSequence lane ≤ 2 ^ 53
  below : ∀ lane, ∀ n ∈ s.laneSequences lane, n < s.nextSequence lane
  distinct : ∀ lane, (s.laneSequences lane).Nodup
  kinded : ∀ row ∈ s.queue, row.targetTurn.isSome = true → row.kind.isSome = true

theorem LaneInv.counter (h : LaneInv s) : CounterInv s :=
  ⟨h.bounded, h.below, h.kinded⟩

theorem CounterInv.laneInv (h : CounterInv s)
    (hdistinct : ∀ lane, (s.laneSequences lane).Nodup) : LaneInv s :=
  ⟨h.bounded, h.below, hdistinct, h.kinded⟩

/-- Rows that leave, or swap their sequences, stay below the counters. -/
theorem CounterInv.of_lanes (h : CounterInv s) (hadv : Advances s s')
    (hsub : ∀ lane, s'.laneSequences lane ⊆ s.laneSequences lane)
    (hkind : ∀ row ∈ s'.queue, row.targetTurn.isSome = true → row.kind.isSome = true) :
    CounterInv s' where
  bounded := hadv.bounded
  below lane n hn := (h.below lane n (hsub lane hn)).trans_le (hadv.mono lane)
  kinded := hkind

theorem CounterInv.of_subset (h : CounterInv s) (hadv : Advances s s')
    (hsub : s'.queue ⊆ s.queue) : CounterInv s' :=
  h.of_lanes hadv (fun _ => List.filterMap_subset _ hsub) fun row hrow => h.kinded row (hsub hrow)

/-- What is new in a lane after an admission is the sequence of the row. -/
theorem Admission.laneSequences (h : Admission s s' row brought) (lane : DeliveryTargetTurn) :
    (s'.laneSequences lane).Perm ((row.laneSequence lane).toList ++ s.laneSequences lane) := by
  refine (h.perm.filterMap _).trans ?_
  rw [List.filterMap_cons]
  cases row.laneSequence lane <;> exact List.Perm.refl _

theorem CounterInv.admission
    (h : CounterInv s) (hadmission : Admission s s' row brought) : CounterInv s' := by
  refine ⟨hadmission.advances.bounded, fun lane n hn => ?_, fun other hother => ?_⟩
  · rcases List.mem_append.mp ((hadmission.laneSequences lane).subset hn) with hrow | hold
    · exact hadmission.below lane n (Option.mem_toList.mp hrow)
    · exact (h.below lane n hold).trans_le (hadmission.advances.mono lane)
  · rcases List.mem_cons.mp (hadmission.perm.subset hother) with rfl | hother
    · intro hlane
      obtain ⟨lane, hlane⟩ := Option.isSome_iff_exists.mp hlane
      exact (hadmission.sequence lane hlane).2
    · exact h.kinded other hother

/-- Rows that leave, or swap their sequences, keep the lanes in order. -/
theorem LaneInv.of_subperm (h : LaneInv s) (hadv : Advances s s')
    (hsub : ∀ lane, (s'.laneSequences lane).Subperm (s.laneSequences lane))
    (hkind : ∀ row ∈ s'.queue, row.targetTurn.isSome = true → row.kind.isSome = true) :
    LaneInv s' := by
  refine (h.counter.of_lanes hadv (fun lane => (hsub lane).subset) hkind).laneInv fun lane => ?_
  obtain ⟨rows, hperm, hsublist⟩ := hsub lane
  exact hperm.nodup_iff.mp ((h.distinct lane).sublist hsublist)

theorem LaneInv.of_subset (h : LaneInv s) (hadv : Advances s s')
    (hsub : s'.queue.Subperm s.queue) : LaneInv s' := by
  refine h.of_subperm hadv (fun lane => ?_) fun row hrow => h.kinded row (hsub.subset hrow)
  obtain ⟨rows, hperm, hsublist⟩ := hsub
  exact ⟨rows.filterMap (·.laneSequence lane), hperm.filterMap _, hsublist.filterMap _⟩

theorem LaneInv.admission (h : LaneInv s) (hadmission : Admission s s' row brought)
    (hapart : ∀ lane n, row.targetTurn = some lane → brought = some n →
      n ∉ s.laneSequences lane) : LaneInv s' := by
  refine (h.counter.admission hadmission).laneInv fun lane => ?_
  rw [(hadmission.laneSequences lane).nodup_iff]
  cases hrow : row.laneSequence lane with
  | none => exact h.distinct lane
  | some n =>
    refine List.nodup_cons.mpr ⟨fun hn => ?_, h.distinct lane⟩
    obtain ⟨hlane, hseq, -⟩ := laneSequence_eq_some.mp hrow
    rw [(hadmission.sequence lane hlane).1] at hseq
    cases hbrought : brought with
    | some m =>
      rw [hbrought] at hseq
      cases hseq
      exact hapart lane _ hlane hbrought hn
    | none =>
      rw [hbrought] at hseq
      cases hseq
      exact absurd (h.below lane _ hn) (lt_irrefl _)

/-! ## Steering -/

variable {queue : List QueuedMessage}

theorem replaceRow_perm {id : String} {msg : QueuedMessage} (row : QueuedMessage)
    (hfind : queue.find? (·.id = id) = some msg) :
    ∃ rest, queue.Perm (msg :: rest) ∧ (replaceRow id row queue).Perm (row :: rest) := by
  induction queue with
  | nil => cases hfind
  | cons first others ih =>
    simp only [List.find?_cons, replaceRow] at hfind ⊢
    split
    · rename_i hfirst
      simp only [hfirst, decide_true, Option.some.injEq] at hfind
      rw [hfind]
      exact ⟨others, .refl _, .refl _⟩
    · rename_i hfirst
      simp only [hfirst, decide_false] at hfind
      obtain ⟨rest, hperm, hreplaced⟩ := ih hfind
      exact ⟨first :: rest, (hperm.cons first).trans (.swap ..),
        (hreplaced.cons first).trans (.swap ..)⟩

/-- Steering takes a row out and lets it come into the continuation lane, or keeps the
    lanes as they are. -/
theorem steer_cases (hs : ∀ lane, s.nextSequence lane ≤ 2 ^ 53) (messageId : String) :
    s.steer messageId = s ∨ ∃ msg rest, s.queue.Perm (msg :: rest) ∧
      ((∃ row, Admission { s with queue := rest } (s.steer messageId) row none) ∨
        ((s.steer messageId).nextSequence = s.nextSequence ∧
          (s.steer messageId).queue.Perm ({ msg with isSteered := true } :: rest))) := by
  unfold steer
  split
  · exact .inl rfl
  · rename_i msg hfind
    split
    · exact .inl rfl
    · split
      · obtain ⟨rest, hperm, hreplaced⟩ := replaceRow_perm ({ msg with
          isSteered := true
          kind := some .steer
          targetTurn := some .continuation
          sequence := some (s.allocateSequence .continuation).1 }) hfind
        have hadv := advances_allocate hs .continuation
        refine .inr ⟨msg, rest, hperm, .inl ⟨_, Admission.reorder
          ⟨hreplaced, ⟨hadv.mono, hadv.bounded⟩, ?_, ?_⟩⟩⟩
        · intro lane n hn
          obtain ⟨hlane, hseq, hle⟩ := laneSequence_eq_some.mp hn
          cases hlane
          cases hseq
          exact lt_allocate _ hle
        · intro lane hlane
          cases hlane
          exact ⟨rfl, rfl⟩
      · obtain ⟨rest, hperm, hreplaced⟩ :=
          replaceRow_perm ({ msg with isSteered := true }) hfind
        exact .inr ⟨msg, rest, hperm, .inr ⟨rfl, (reorder_queue_perm _).trans hreplaced⟩⟩

/-- A steered row keeps its lane or comes into the other. -/
theorem counterInv_steer (h : CounterInv s) (messageId : String) :
    CounterInv (s.steer messageId) := by
  rcases steer_cases h.bounded messageId with heq | ⟨msg, rest, hperm, ⟨row, hadmission⟩ | ⟨hnext, hkeep⟩⟩
  · rw [heq]
    exact h
  · have hrest : CounterInv { s with queue := rest } :=
      h.of_subset ⟨fun _ => le_rfl, h.bounded⟩ fun other hother =>
        hperm.symm.subset (List.mem_cons_of_mem _ hother)
    exact hrest.admission hadmission
  · refine h.of_lanes ⟨fun lane => by rw [hnext], fun lane => by rw [hnext]; exact h.bounded lane⟩
      (fun lane => ?_) fun row hrow => ?_
    · exact ((hkeep.filterMap _).trans (hperm.filterMap (·.laneSequence lane)).symm).subset
    · rcases List.mem_cons.mp (hkeep.subset hrow) with rfl | hrow
      · exact h.kinded msg (hperm.symm.subset List.mem_cons_self)
      · exact h.kinded row (hperm.symm.subset (List.mem_cons_of_mem _ hrow))

theorem laneInv_steer (h : LaneInv s) (messageId : String) : LaneInv (s.steer messageId) := by
  refine (counterInv_steer h.counter messageId).laneInv fun lane => ?_
  rcases steer_cases h.bounded messageId with heq | ⟨msg, rest, hperm, ⟨row, hadmission⟩ | ⟨hnext, hkeep⟩⟩
  · rw [heq]
    exact h.distinct lane
  · have hrest : LaneInv { s with queue := rest } :=
      h.of_subset ⟨fun _ => le_rfl, h.bounded⟩
        ((List.sublist_cons_self msg rest).subperm.trans hperm.symm.subperm)
    exact (hrest.admission hadmission (by simp)).distinct lane
  · exact ((hkeep.filterMap _).trans (hperm.filterMap (·.laneSequence lane)).symm).nodup_iff.mpr
      (h.distinct lane)

/-! ## Reordering -/

theorem assignSlots_same {slots : List Nat}
    (hlen : slots.length = (queue.filterMap (·.laneSequence lane)).length)
    (hvalid : ∀ n ∈ slots, n ≤ maxSafeInteger) :
    (assignSlots lane queue slots).filterMap (·.laneSequence lane) = slots := by
  induction queue generalizing slots with
  | nil => simpa [assignSlots, eq_comm] using hlen
  | cons row rest ih =>
    simp only [assignSlots]
    cases hrow : row.laneSequence lane with
    | none =>
      simp only [List.filterMap_cons, hrow] at hlen
      simpa [hrow] using ih hlen hvalid
    | some n =>
      simp only [List.filterMap_cons, hrow, List.length_cons] at hlen
      cases slots with
      | nil => cases hlen
      | cons slot slots =>
        have hslot : ({ row with sequence := some slot } : QueuedMessage).laneSequence lane =
            some slot :=
          laneSequence_eq_some.mpr ⟨(laneSequence_eq_some.mp hrow).1, rfl,
            hvalid slot List.mem_cons_self⟩
        have hrest := ih (Nat.succ.inj hlen) fun n hn => hvalid n (List.mem_cons_of_mem _ hn)
        simp [hslot, hrest]

theorem assignSlots_other {other : DeliveryTargetTurn} (hne : other ≠ lane)
    (queue : List QueuedMessage) (slots : List Nat) :
    (assignSlots lane queue slots).filterMap (·.laneSequence other) =
      queue.filterMap (·.laneSequence other) := by
  induction queue generalizing slots with
  | nil => rfl
  | cons row rest ih =>
    simp only [assignSlots]
    split
    · rename_i hrow
      obtain ⟨n, hn⟩ := Option.isSome_iff_exists.mp hrow
      have hlane := (laneSequence_eq_some.mp hn).1
      have hnone : ∀ sequence, ({ row with sequence := sequence } : QueuedMessage).laneSequence
          other = none := by
        intro sequence
        simp [QueuedMessage.laneSequence, hlane, Ne.symm hne]
      have hrow' : row.laneSequence other = none := hnone row.sequence
      cases slots with
      | nil => simp only [List.filterMap_cons, hrow', ih]
      | cons slot slots => simp only [List.filterMap_cons, hnone (some slot), hrow', ih]
    · simp only [List.filterMap_cons, ih]

theorem resequenceLane_same (lane : DeliveryTargetTurn) (queue : List QueuedMessage) :
    (resequenceLane lane queue).filterMap (·.laneSequence lane) =
      (queue.filterMap (·.laneSequence lane)).mergeSort (· ≤ ·) := by
  refine assignSlots_same (List.length_mergeSort _) fun n hn => ?_
  obtain ⟨row, -, hrow⟩ := List.mem_filterMap.mp ((List.mergeSort_perm _ _).subset hn)
  exact (laneSequence_eq_some.mp hrow).2.2

theorem resequenceLane_other {other : DeliveryTargetTurn} (hne : other ≠ lane)
    (queue : List QueuedMessage) :
    (resequenceLane lane queue).filterMap (·.laneSequence other) =
      queue.filterMap (·.laneSequence other) := assignSlots_other hne queue _

/-- With resequencing, the sequences of a lane are sorted along the new order. -/
theorem laneSequences_resequenced (queue : List QueuedMessage) (lane : DeliveryTargetTurn) :
    (resequenceLane .nextTurn (resequenceLane .continuation queue)).filterMap
        (·.laneSequence lane) =
      (queue.filterMap (·.laneSequence lane)).mergeSort (· ≤ ·) := by
  cases lane with
  | continuation => rw [resequenceLane_other (by decide), resequenceLane_same]
  | nextTurn => rw [resequenceLane_same, resequenceLane_other (by decide)]

variable {messageIds : List String} {resequence : Bool}

/-- A reorder without repeated ids permutes the sequences of each lane. -/
theorem laneSequences_reorderByIds (hids : s.ids.Nodup)
    (hrepeat : (messageIds.filter (· ∈ s.ids)).Nodup) (lane : DeliveryTargetTurn) :
    ((s.reorderByIds messageIds resequence).laneSequences lane).Perm (s.laneSequences lane) := by
  have hperm := (listed_perm hids hrepeat).filterMap (·.laneSequence lane)
  unfold laneSequences
  rw [reorderByIds_queue]
  cases resequence with
  | true =>
    simp only [if_true, laneSequences_resequenced]
    exact (List.mergeSort_perm _ _).trans hperm
  | false => exact hperm

theorem unsequenced_eq {other : QueuedMessage} (h : unsequenced row = unsequenced other) :
    row.id = other.id ∧ row.targetTurn = other.targetTurn ∧ row.kind = other.kind := by
  simp only [unsequenced, QueuedMessage.mk.injEq] at h
  tauto

theorem counterInv_reorderByIds
    (h : CounterInv s) (hids : s.ids.Nodup) (hrepeat : (messageIds.filter (· ∈ s.ids)).Nodup) :
    CounterInv (s.reorderByIds messageIds resequence) := by
  refine h.of_lanes ⟨fun _ => le_rfl, h.bounded⟩
    (fun lane => (laneSequences_reorderByIds hids hrepeat lane).subset) fun row hrow => ?_
  have hrows : ((s.reorderByIds messageIds resequence).queue.map unsequenced).Perm
      (s.queue.map unsequenced) := by
    rw [reorderByIds_unsequenced]
    exact (listed_perm hids hrepeat).map _
  obtain ⟨old, hold, heq⟩ := List.mem_map.mp (hrows.subset (List.mem_map_of_mem hrow))
  obtain ⟨-, hlane, hkind⟩ := unsequenced_eq heq
  rw [← hkind, ← hlane]
  exact h.kinded old hold

theorem laneInv_reorderByIds
    (h : LaneInv s) (hids : s.ids.Nodup) (hrepeat : (messageIds.filter (· ∈ s.ids)).Nodup) :
    LaneInv (s.reorderByIds messageIds resequence) :=
  (counterInv_reorderByIds h.counter hids hrepeat).laneInv fun lane =>
    (laneSequences_reorderByIds hids hrepeat lane).nodup_iff.mpr (h.distinct lane)

/-- With resequencing, the lane is in the visible order. -/
theorem sorted_reorderByIds (h : LaneInv s)
    (hids : s.ids.Nodup) (hrepeat : (messageIds.filter (· ∈ s.ids)).Nodup)
    (lane : DeliveryTargetTurn) :
    ((s.reorderByIds messageIds true).laneSequences lane).Pairwise (· < ·) := by
  have hnodup : ((s.reorderByIds messageIds true).laneSequences lane).Nodup :=
    (laneSequences_reorderByIds hids hrepeat lane).nodup_iff.mpr (h.distinct lane)
  have hsorted : ((s.reorderByIds messageIds true).laneSequences lane).Pairwise (· ≤ ·) := by
    unfold laneSequences
    rw [reorderByIds_queue]
    simp only [if_true, laneSequences_resequenced]
    exact List.pairwise_mergeSort' (· ≤ ·) _
  exact (hsorted.and hnodup).imp fun hle => lt_of_le_of_ne hle.1 hle.2

/-! ## Retargeting -/

/-- The sequences that are allocated increase from the counter on. -/
theorem allocateRows_sequences (hs : ∀ lane, s.nextSequence lane ≤ 2 ^ 53)
    (rows : List QueuedMessage) :
    Advances s (s.allocateRows rows).2 ∧
      (∀ row ∈ (s.allocateRows rows).1, ∃ n ≥ s.nextSequence .nextTurn, row.sequence = some n) ∧
        (∀ n ∈ (s.allocateRows rows).1.filterMap (·.laneSequence .nextTurn),
          s.nextSequence .nextTurn ≤ n ∧ n < (s.allocateRows rows).2.nextSequence .nextTurn) ∧
          ((s.allocateRows rows).1.filterMap (·.laneSequence .nextTurn)).Nodup := by
  induction rows generalizing s with
  | nil => exact ⟨⟨fun _ => le_rfl, hs⟩, by simp [allocateRows]⟩
  | cons row rest ih =>
    have hone := advances_allocate hs .nextTurn
    obtain ⟨hadv, hrows, hrange, hnodup⟩ := ih hone.bounded
    have hmono := hone.mono .nextTurn
    refine ⟨hone.trans hadv, ?_, ?_, ?_⟩
    · intro other hother
      rcases List.mem_cons.mp hother with rfl | hother
      · exact ⟨_, le_rfl, rfl⟩
      · obtain ⟨n, hn, hseq⟩ := hrows other hother
        exact ⟨n, hmono.trans hn, hseq⟩
    · intro n hn
      obtain ⟨other, hother, hlane⟩ := List.mem_filterMap.mp hn
      rcases List.mem_cons.mp hother with rfl | hother
      · obtain ⟨-, hseq, hle⟩ := laneSequence_eq_some.mp hlane
        cases hseq
        exact ⟨le_rfl, (lt_allocate _ hle).trans_le (hadv.mono _)⟩
      · obtain ⟨hlow, hhigh⟩ := hrange n (List.mem_filterMap.mpr ⟨other, hother, hlane⟩)
        exact ⟨hmono.trans hlow, hhigh⟩
    · simp only [allocateRows, List.filterMap_cons]
      cases hlane : ({ row with sequence := some (s.allocateSequence .nextTurn).1 } :
          QueuedMessage).laneSequence .nextTurn with
      | none => exact hnodup
      | some n =>
        refine List.nodup_cons.mpr ⟨fun hn => ?_, hnodup⟩
        obtain ⟨-, hseq, hle⟩ := laneSequence_eq_some.mp hlane
        cases hseq
        have hlt := lt_allocate (s := s) .nextTurn hle
        have hlow := (hrange _ hn).1
        exact absurd (hlt.trans_le hlow) (lt_irrefl _)

/-- Move a continuation to the next turn. -/
def retargeted (reason : JsString) (row : QueuedMessage) : QueuedMessage :=
  if isRetargetable row then
    { row with targetTurn := some .nextTurn, deliveryReason := some reason }
  else row

theorem retargeted_kind (reason : JsString) (row : QueuedMessage) :
    (retargeted reason row).kind = row.kind := by
  unfold retargeted
  split <;> rfl

variable {reason : JsString}

/-- A row that is not in the next turn after retargeting was not changed. -/
theorem retargeted_of_not_nextTurn
    (h : (retargeted reason row).targetTurn ≠ some .nextTurn) : retargeted reason row = row := by
  unfold retargeted at h ⊢
  split
  · rename_i hrow
    simp only [hrow, if_true, ne_eq, not_true_eq_false] at h
  · rfl

/-- A row that carries delivery metadata and is not in the next-turn lane. -/
theorem not_inNextTurn (hkind : row.targetTurn.isSome = true → row.kind.isSome = true) :
    inNextTurn row = false ↔ row.targetTurn ≠ some .nextTurn := by
  unfold inNextTurn
  cases hlane : row.targetTurn with
  | none => simp
  | some lane => simp [hkind (by rw [hlane]; rfl)]

theorem filter_map_sublist {α : Type} {f : α → α} {p : α → Bool} {l : List α}
    (h : ∀ x ∈ l, p (f x) = true → f x = x) : ((l.map f).filter p).Sublist l := by
  induction l with
  | nil => exact List.nil_sublist _
  | cons x rest ih =>
    have hrest := ih fun y hy => h y (List.mem_cons_of_mem _ hy)
    rw [List.map_cons, List.filter_cons]
    split
    · rename_i hx
      rw [h x List.mem_cons_self hx]
      exact hrest.cons_cons x
    · exact hrest.cons x

/-- Where the rows of a retargeted queue come from: they were given a new sequence of the
    next-turn lane, or were there before and are not in that lane. -/
theorem retarget_cases (reason : JsString) (h : CounterInv s)
    (hany : s.queue.all (! isRetargetable ·) = false) :
    ∃ rows rest, (s.retargetContinuationToNextTurn reason []).queue.Perm (rows ++ rest) ∧
      Advances s (s.retargetContinuationToNextTurn reason []) ∧
      (∀ row ∈ rows, row.targetTurn = some .nextTurn ∧ row.kind.isSome = true ∧
        ∃ n ≥ s.nextSequence .nextTurn, row.sequence = some n) ∧
      (∀ n ∈ rows.filterMap (·.laneSequence .nextTurn), s.nextSequence .nextTurn ≤ n ∧
        n < (s.retargetContinuationToNextTurn reason []).nextSequence .nextTurn) ∧
      (rows.filterMap (·.laneSequence .nextTurn)).Nodup ∧
      rest.Sublist s.queue ∧ ∀ row ∈ rest, row.targetTurn ≠ some .nextTurn := by
  have hkinded : ∀ row ∈ s.queue, (retargeted reason row).targetTurn.isSome = true →
      (retargeted reason row).kind.isSome = true := by
    intro row hrow hlane
    rw [retargeted_kind]
    refine h.kinded row hrow ?_
    unfold retargeted at hlane
    split at hlane
    · rename_i hret
      simp only [isRetargetable, Bool.and_eq_true, decide_eq_true_eq] at hret
      simp [hret.1]
    · exact hlane
  generalize hlaneRows : ((s.queue.map (retargeted reason)).filter inNextTurn).mergeSort
    (·.createdAt ≤ ·.createdAt) = laneRows
  have hmem : ∀ row ∈ laneRows, inNextTurn row = true := by
    intro row hrow
    rw [← hlaneRows] at hrow
    exact (List.mem_filter.mp ((List.mergeSort_perm _ _).subset hrow)).2
  obtain ⟨-, hrows⟩ := s.allocateRows_spec laneRows
  obtain ⟨hadv, hsequence, hrange, hnodup⟩ := allocateRows_sequences h.bounded laneRows
  have hlen : (s.allocateRows laneRows).1.length =
      ((s.queue.map (retargeted reason)).filter inNextTurn).length := by
    have hlen := congrArg List.length hrows
    rwa [List.length_map, List.length_map, ← hlaneRows, List.length_mergeSort, hlaneRows] at hlen
  have hstate : s.retargetContinuationToNextTurn reason [] =
      { (s.allocateRows laneRows).2 with
        queue := fillNextTurn (s.queue.map (retargeted reason)) (s.allocateRows laneRows).1 } := by
    unfold retargetContinuationToNextTurn
    simp only [List.foldl_nil, hany, Bool.false_eq_true, if_false]
    rw [← hlaneRows]
    rfl
  refine ⟨(s.allocateRows laneRows).1, (s.queue.map (retargeted reason)).filter (! inNextTurn ·),
    ?_, ?_, ?_, ?_, hnodup, filter_map_sublist ?_, ?_⟩
  · rw [hstate]
    exact fillNextTurn_perm _ _ hlen
  · rw [hstate]
    exact ⟨hadv.mono, hadv.bounded⟩
  · intro row hrow
    obtain ⟨old, hold, heq⟩ : ∃ old ∈ laneRows, unsequenced old = unsequenced row := by
      rw [← List.mem_map, ← hrows]
      exact List.mem_map_of_mem hrow
    obtain ⟨-, hlane, hkind⟩ := unsequenced_eq heq
    have hin := hmem old hold
    simp only [inNextTurn, Bool.and_eq_true, decide_eq_true_eq] at hin
    exact ⟨hlane ▸ hin.1, hkind ▸ hin.2, hsequence row hrow⟩
  · rw [hstate]
    exact hrange
  · intro row hrow hout
    rw [Bool.not_eq_true'] at hout
    exact retargeted_of_not_nextTurn ((not_inNextTurn (hkinded row hrow)).mp hout)
  · intro row hrow
    obtain ⟨hrow, hout⟩ := List.mem_filter.mp hrow
    obtain ⟨old, hold, rfl⟩ := List.mem_map.mp hrow
    rw [Bool.not_eq_true'] at hout
    exact (not_inNextTurn (hkinded old hold)).mp hout

theorem filterMap_laneSequence_nil {rows : List QueuedMessage}
    (h : ∀ row ∈ rows, row.targetTurn ≠ some lane) :
    rows.filterMap (·.laneSequence lane) = [] := by
  rw [List.filterMap_eq_nil_iff]
  intro row hrow
  simp [QueuedMessage.laneSequence, h row hrow]

/-- The lanes after retargeting: the next turn has the sequences that were given out, the
    continuation what is left of it. -/
theorem laneSequences_retargeted (h : CounterInv s)
    (hany : s.queue.all (! isRetargetable ·) = false) :
    (∃ fresh, ((s.retargetContinuationToNextTurn reason []).laneSequences .nextTurn).Perm fresh ∧
      fresh.Nodup ∧ ∀ n ∈ fresh,
        n < (s.retargetContinuationToNextTurn reason []).nextSequence .nextTurn) ∧
      ∃ left, ((s.retargetContinuationToNextTurn reason []).laneSequences .continuation).Perm left ∧
        left.Sublist (s.laneSequences .continuation) := by
  obtain ⟨rows, rest, hperm, hadv, hrows, hrange, hnodup, hsub, hrest⟩ :=
    retarget_cases reason h hany
  have hlane : ∀ lane, ((s.retargetContinuationToNextTurn reason []).laneSequences lane).Perm
      (rows.filterMap (·.laneSequence lane) ++ rest.filterMap (·.laneSequence lane)) := by
    intro lane
    rw [← List.filterMap_append]
    exact hperm.filterMap _
  have hnext := hlane .nextTurn
  rw [filterMap_laneSequence_nil hrest, List.append_nil] at hnext
  have hcontinuation := hlane .continuation
  rw [filterMap_laneSequence_nil fun row hrow => by rw [(hrows row hrow).1]; decide,
    List.nil_append] at hcontinuation
  exact ⟨⟨_, hnext, hnodup, fun n hn => (hrange n hn).2⟩, _, hcontinuation, hsub.filterMap _⟩

theorem counterInv_retargeted (h : CounterInv s) (hany : s.queue.all (! isRetargetable ·) = false) :
    CounterInv (s.retargetContinuationToNextTurn reason []) := by
  obtain ⟨rows, rest, hperm, hadv, hrows, -, -, hsub, -⟩ := retarget_cases reason h hany
  obtain ⟨⟨fresh, hfresh, -, hbelow⟩, left, hleft, hold⟩ := laneSequences_retargeted h hany
  refine ⟨hadv.bounded, fun lane n hn => ?_, fun row hrow => ?_⟩
  · cases lane with
    | nextTurn => exact hbelow n (hfresh.subset hn)
    | continuation =>
      exact (h.below _ n (hold.subset (hleft.subset hn))).trans_le (hadv.mono _)
  · rcases List.mem_append.mp (hperm.subset hrow) with hrow | hrow
    · exact fun _ => (hrows row hrow).2.1
    · exact h.kinded row (hsub.subset hrow)

theorem laneInv_retargeted (h : LaneInv s) (hany : s.queue.all (! isRetargetable ·) = false) :
    LaneInv (s.retargetContinuationToNextTurn reason []) := by
  obtain ⟨⟨fresh, hfresh, hnodup, -⟩, left, hleft, hold⟩ := laneSequences_retargeted h.counter hany
  refine (counterInv_retargeted h.counter hany).laneInv fun lane => ?_
  cases lane with
  | nextTurn => exact hfresh.nodup_iff.mpr hnodup
  | continuation => exact hleft.nodup_iff.mpr ((h.distinct _).sublist hold)

/-! ## Every operation -/

theorem LaneInv.admit_apart {sequence : Field Nat}
    (h : LaneInv s) (hadmission : Admission s s' row (validSequence sequence.toOption))
    (hapart : ¬ s.Collides sequence row) : LaneInv s' :=
  h.admission hadmission fun lane n hlane hn hmem => hapart ⟨lane, n, hlane, hn, hmem⟩

theorem LaneInv.of_queue_eq (h : LaneInv s) (hadv : Advances s s')
    (hqueue : s'.queue = s.queue) : LaneInv s' :=
  h.of_subset hadv (by rw [hqueue])

theorem laneInv_admitRow (row : RawMessage × String) (h : LaneInv s)
    (hfresh : row.2 ∉ s.ids) (hapart : Apart s row) : LaneInv (admitRow s row) := by
  rcases enqueueExisting_cases row.1 h.bounded hfresh with heq | ⟨hnew, hadmission⟩
  · unfold admitRow
    rw [heq]
    exact h
  · exact h.admit_apart hadmission (hapart hnew)

variable {restoredRows : List (RawMessage × String)}

theorem laneInv_admitRows
    (h : LaneInv s) (hfresh : Along admitRow (fun s row => row.2 ∉ s.ids) s restoredRows)
    (hapart : Along admitRow Apart s restoredRows) : LaneInv (run admitRow s restoredRows) :=
  (always_of_along (fun s row h (hg : row.2 ∉ s.ids ∧ Apart s row) =>
    laneInv_admitRow row h hg.1 hg.2) h (along_and hfresh hapart)).last

/-- A record of the constructor is skipped, or comes in. -/
theorem restore_cases (hs : ∀ lane, s.nextSequence lane ≤ 2 ^ 53) (record : RawMessage × String) :
    (Advances s (s.restore record) ∧ (s.restore record).queue = s.queue) ∨
      restoredId record.1 record.2 ∉ s.ids ∧ Admission s (s.restore record)
        (s.normalizeQueuedMessage record.1 record.2).1
        (validSequence record.1.sequence.toOption) := by
  unfold restore
  dsimp only
  split
  · exact .inl ⟨advances_normalize hs record.1 record.2, normalizeQueuedMessage_queue ..⟩
  · rename_i hnew
    refine .inr ⟨by simpa [ids] using hnew, ?_⟩
    simpa using admission_normalize hs record.1 record.2 (List.perm_append_singleton _ s.queue)

theorem laneInv_restore {record : RawMessage × String} (h : LaneInv s)
    (hapart : Apart s record) : LaneInv (s.restore record) := by
  rcases restore_cases h.bounded record with ⟨hadv, hqueue⟩ | ⟨hnew, hadmission⟩
  · exact h.of_queue_eq hadv hqueue
  · exact h.admit_apart hadmission (hapart hnew)

theorem laneInv_empty : LaneInv empty where
  bounded _ := by simp [empty]
  below _ n hn := by simp [laneSequences, empty] at hn
  distinct _ := by simp [laneSequences, empty]
  kinded row hrow := by simp [empty] at hrow

theorem laneInv_new {initial : List (RawMessage × String)}
    (hapart : Along restore Apart empty initial) : LaneInv (new initial) :=
  (always_of_along (fun _ _ h hg => laneInv_restore h hg) laneInv_empty hapart).last

/-- What a run assumes: new UUIDs, no repeated id in a reorder, no collision. -/
def Orderly (s : PromptQueue) (event : Event) : Prop :=
  FreshUuids s event ∧ NoRepeats s event ∧ NoCollision s event

/-- Operations that leave rows out keep the lanes in order. -/
theorem laneInv_sublist (h : LaneInv s)
    (hsub : queue.Sublist s.queue) : LaneInv { s with queue := queue } :=
  h.of_subset ⟨fun _ => le_rfl, h.bounded⟩ hsub.subperm

theorem dequeueForTarget_sublist (s : PromptQueue) (target : DeliveryTargetTurn) :
    ∃ queue, (s.dequeueForTarget target).2 = { s with queue := queue } ∧
      queue.Sublist s.queue := by
  unfold dequeueForTarget
  split
  · exact ⟨s.queue, rfl, List.Sublist.refl _⟩
  · exact ⟨_, rfl, List.eraseIdx_sublist ..⟩

theorem retarget_eq (s : PromptQueue) (reason : JsString)
    (restoredRows : List (RawMessage × String)) :
    s.retargetContinuationToNextTurn reason restoredRows =
      (run admitRow s restoredRows).retargetContinuationToNextTurn reason [] := rfl

theorem laneInv_retarget (h : LaneInv s) (reason : JsString) :
    LaneInv (s.retargetContinuationToNextTurn reason []) := by
  cases hany : s.queue.all (! isRetargetable ·) with
  | true =>
    unfold retargetContinuationToNextTurn
    simp only [List.foldl_nil, hany, if_true]
    exact h
  | false => exact laneInv_retargeted h hany

variable {event : Event}

theorem laneInv_step (h : LaneInv s) (hids : s.ids.Nodup)
    (hg : Orderly s event) : LaneInv (step s event) := by
  obtain ⟨hfresh, hrepeat, hcollision⟩ := hg
  cases event with
  | enqueue text opts uuid now =>
    rcases enqueue_cases h.bounded text opts uuid now with ⟨hadv, hqueue⟩ | ⟨hnew, hadmission⟩
    · exact h.of_queue_eq hadv hqueue
    · exact h.admit_apart hadmission (hcollision hnew)
  | enqueueAtFront text opts uuid now =>
    rcases enqueueAtFront_cases h.bounded text opts uuid now with ⟨hadv, hqueue⟩ | ⟨hnew, hadmission⟩
    · exact h.of_queue_eq hadv hqueue
    · exact h.admit_apart hadmission (hcollision hnew)
  | enqueueExisting message uuid => exact laneInv_admitRow (message, uuid) h hfresh hcollision
  | enqueueExistingAtFront message uuid =>
    rcases enqueueExistingAtFront_cases message h.bounded hfresh with heq | ⟨hnew, hadmission⟩
    · rw [show step s (.enqueueExistingAtFront message uuid) = s from heq]
      exact h
    · exact h.admit_apart hadmission (hcollision hnew)
  | restoreAtFront message uuid =>
    rcases enqueueExistingAtFront_cases message h.bounded hfresh with heq | ⟨hnew, hadmission⟩
    · rw [show step s (.restoreAtFront message uuid) = s.reorder from congrArg PromptQueue.reorder heq]
      exact h.of_subset ⟨fun _ => le_rfl, h.bounded⟩ s.reorder_queue_perm.subperm
    · exact h.admit_apart hadmission.reorder (hcollision hnew)
  | steer messageId => exact laneInv_steer h messageId
  | remove messageId => exact laneInv_sublist h List.eraseP_sublist
  | dequeue => exact laneInv_sublist h (List.tail_sublist _)
  | dequeueForTarget target =>
    obtain ⟨queue, heq, hsub⟩ := s.dequeueForTarget_sublist target
    rw [show step s (.dequeueForTarget target) = _ from heq]
    exact laneInv_sublist h hsub
  | dequeueAllSteered => exact laneInv_sublist h (List.dropWhile_sublist _)
  | reorderByIds messageIds resequence => exact laneInv_reorderByIds h hids hrepeat
  | retarget reason restoredRows =>
    rw [show step s (.retarget reason restoredRows) = _ from s.retarget_eq reason restoredRows]
    exact laneInv_retarget (laneInv_admitRows h hfresh hcollision) reason

/-! ## The counters in every run -/

theorem CounterInv.of_queue_eq (h : CounterInv s) (hadv : Advances s s')
    (hqueue : s'.queue = s.queue) : CounterInv s' :=
  h.of_subset hadv (by rw [hqueue]; exact List.Subset.refl _)

theorem counterInv_admitRow (row : RawMessage × String) (h : CounterInv s)
    (hfresh : row.2 ∉ s.ids) : CounterInv (admitRow s row) := by
  rcases enqueueExisting_cases row.1 h.bounded hfresh with heq | ⟨-, hadmission⟩
  · unfold admitRow
    rw [heq]
    exact h
  · exact h.admission hadmission

theorem counterInv_admitRows
    (h : CounterInv s) (hfresh : Along admitRow (fun s row => row.2 ∉ s.ids) s restoredRows) :
    CounterInv (run admitRow s restoredRows) :=
  (always_of_along (fun _ row h hg => counterInv_admitRow row h hg) h hfresh).last

theorem counterInv_restore (record : RawMessage × String) (h : CounterInv s) :
    CounterInv (s.restore record) := by
  rcases restore_cases h.bounded record with ⟨hadv, hqueue⟩ | ⟨-, hadmission⟩
  · exact h.of_queue_eq hadv hqueue
  · exact h.admission hadmission

theorem counterInv_new (initial : List (RawMessage × String)) : CounterInv (new initial) := by
  have hfold : ∀ s : PromptQueue, CounterInv s → CounterInv (initial.foldl restore s) := by
    induction initial with
    | nil => exact fun s hs => hs
    | cons record rest ih => exact fun s hs => ih _ (counterInv_restore record hs)
  exact hfold empty laneInv_empty.counter

theorem counterInv_retarget (h : CounterInv s) (reason : JsString) :
    CounterInv (s.retargetContinuationToNextTurn reason []) := by
  cases hany : s.queue.all (! isRetargetable ·) with
  | true =>
    unfold retargetContinuationToNextTurn
    simp only [List.foldl_nil, hany, if_true]
    exact h
  | false => exact counterInv_retargeted h hany

theorem counterInv_sublist (h : CounterInv s)
    (hsub : queue.Sublist s.queue) : CounterInv { s with queue := queue } :=
  h.of_subset ⟨fun _ => le_rfl, h.bounded⟩ hsub.subset

/-- Every operation keeps the counters above the sequences of their lanes, whatever
    sequences rows bring along. -/
theorem counterInv_step (h : CounterInv s) (hids : s.ids.Nodup)
    (hfresh : FreshUuids s event) (hrepeat : NoRepeats s event) : CounterInv (step s event) := by
  cases event with
  | enqueue text opts uuid now =>
    rcases enqueue_cases h.bounded text opts uuid now with ⟨hadv, hqueue⟩ | ⟨-, hadmission⟩
    · exact h.of_queue_eq hadv hqueue
    · exact h.admission hadmission
  | enqueueAtFront text opts uuid now =>
    rcases enqueueAtFront_cases h.bounded text opts uuid now with ⟨hadv, hqueue⟩ | ⟨-, hadmission⟩
    · exact h.of_queue_eq hadv hqueue
    · exact h.admission hadmission
  | enqueueExisting message uuid => exact counterInv_admitRow (message, uuid) h hfresh
  | enqueueExistingAtFront message uuid =>
    rcases enqueueExistingAtFront_cases message h.bounded hfresh with heq | ⟨-, hadmission⟩
    · rw [show step s (.enqueueExistingAtFront message uuid) = s from heq]
      exact h
    · exact h.admission hadmission
  | restoreAtFront message uuid =>
    rcases enqueueExistingAtFront_cases message h.bounded hfresh with heq | ⟨-, hadmission⟩
    · rw [show step s (.restoreAtFront message uuid) = s.reorder from congrArg PromptQueue.reorder heq]
      exact h.of_subset ⟨fun _ => le_rfl, h.bounded⟩ s.reorder_queue_perm.subset
    · exact h.admission hadmission.reorder
  | steer messageId => exact counterInv_steer h messageId
  | remove messageId => exact counterInv_sublist h List.eraseP_sublist
  | dequeue => exact counterInv_sublist h (List.tail_sublist _)
  | dequeueForTarget target =>
    obtain ⟨queue, heq, hsub⟩ := s.dequeueForTarget_sublist target
    rw [show step s (.dequeueForTarget target) = _ from heq]
    exact counterInv_sublist h hsub
  | dequeueAllSteered => exact counterInv_sublist h (List.dropWhile_sublist _)
  | reorderByIds messageIds resequence => exact counterInv_reorderByIds h hids hrepeat
  | retarget reason restoredRows =>
    rw [show step s (.retarget reason restoredRows) = _ from s.retarget_eq reason restoredRows]
    exact counterInv_retarget (counterInv_admitRows h hfresh) reason

/-! ## Where rows come from -/

/-- Every row was there before, or comes with a sequence of its own, or gets one that the
    counter gives out. -/
def Origin (s s' : PromptQueue) (brings : QueuedMessage → Prop) : Prop :=
  Advances s s' ∧ ∀ row ∈ s'.queue, row ∈ s.queue ∨ brings row ∨
    ∀ lane, row.targetTurn = some lane → ∃ n ≥ s.nextSequence lane, row.sequence = some n

theorem Origin.of_subset {brings : QueuedMessage → Prop}
    (hadv : Advances s s') (hsub : s'.queue ⊆ s.queue) : Origin s s' brings :=
  ⟨hadv, fun _ hrow => .inl (hsub hrow)⟩

theorem Origin.trans {s'' : PromptQueue} {brings : QueuedMessage → Prop}
    (h : Origin s s' brings) (h' : Origin s' s'' brings) : Origin s s'' brings := by
  refine ⟨h.1.trans h'.1, fun row hrow => ?_⟩
  rcases h'.2 row hrow with hold | hbrings | hnew
  · exact h.2 row hold
  · exact .inr (.inl hbrings)
  · refine .inr (.inr fun lane hlane => ?_)
    obtain ⟨n, hn, hseq⟩ := hnew lane hlane
    exact ⟨n, (h.1.mono lane).trans hn, hseq⟩

theorem Origin.mono {brings brings' : QueuedMessage → Prop}
    (h : Origin s s' brings) (himp : ∀ row, brings row → brings' row) : Origin s s' brings' :=
  ⟨h.1, fun row hrow => (h.2 row hrow).imp_right (Or.imp_left (himp row))⟩

/-- The row that comes in brings its sequence or gets the next one. -/
theorem Admission.origin {brings : QueuedMessage → Prop} (h : Admission s s' row brought)
    (hbrings : brought.isSome = true → brings row) : Origin s s' brings := by
  refine ⟨h.advances, fun other hother => ?_⟩
  rcases List.mem_cons.mp (h.perm.subset hother) with rfl | hold
  · cases hbrought : brought with
    | some n => exact .inr (.inl (hbrings (by rw [hbrought]; rfl)))
    | none =>
      refine .inr (.inr fun lane hlane => ⟨s.nextSequence lane, le_rfl, ?_⟩)
      rw [(h.sequence lane hlane).1, hbrought]
      rfl
  · exact .inl hold

theorem origin_admitRow (row : RawMessage × String)
    (hs : ∀ lane, s.nextSequence lane ≤ 2 ^ 53) (hfresh : row.2 ∉ s.ids) :
    Origin s (admitRow s row) (RowBrings row) := by
  rcases enqueueExisting_cases row.1 hs hfresh with heq | ⟨-, hadmission⟩
  · unfold admitRow
    rw [heq]
    exact .of_subset ⟨fun _ => le_rfl, hs⟩ (List.Subset.refl _)
  · exact hadmission.origin fun hsome => ⟨(normalizeQueuedMessage_id ..).symm, hsome⟩

theorem origin_admitRows (hs : ∀ lane, s.nextSequence lane ≤ 2 ^ 53)
    (hfresh : Along admitRow (fun s row => row.2 ∉ s.ids) s restoredRows) :
    Origin s (run admitRow s restoredRows) (fun row => ∃ record ∈ restoredRows, RowBrings record row) := by
  induction restoredRows generalizing s with
  | nil => exact .of_subset ⟨fun _ => le_rfl, hs⟩ (List.Subset.refl _)
  | cons record rest ih =>
    have hone := origin_admitRow record hs hfresh.1
    refine (hone.mono fun row hrow => ⟨record, List.mem_cons_self, hrow⟩).trans
      ((ih hone.1.bounded hfresh.2).mono ?_)
    rintro row ⟨other, hother, hrow⟩
    exact ⟨other, List.mem_cons_of_mem _ hother, hrow⟩

theorem origin_retarget (h : LaneInv s) (reason : JsString) (brings : QueuedMessage → Prop) :
    Origin s (s.retargetContinuationToNextTurn reason []) brings := by
  cases hany : s.queue.all (! isRetargetable ·) with
  | true =>
    unfold retargetContinuationToNextTurn
    simp only [List.foldl_nil, hany, if_true]
    exact .of_subset ⟨fun _ => le_rfl, h.bounded⟩ (List.Subset.refl _)
  | false =>
    obtain ⟨rows, rest, hperm, hadv, hrows, -, -, hsub, -⟩ :=
      retarget_cases reason h.counter hany
    refine ⟨hadv, fun row hrow => ?_⟩
    rcases List.mem_append.mp (hperm.subset hrow) with hrow | hrow
    · refine .inr (.inr fun lane hlane => ?_)
      rw [(hrows row hrow).1] at hlane
      cases hlane
      exact (hrows row hrow).2.2
    · exact .inl (hsub.subset hrow)

/-- A row that gets into a lane without a sequence of its own gets one from the counter. -/
def FromCounter (s s' : PromptQueue) (brings : QueuedMessage → Prop) : Prop :=
  Advances s s' ∧ ∀ lane row, EntersLane s s' lane row → ¬ brings row →
    ∃ n ≥ s.nextSequence lane, row.sequence = some n

theorem Origin.fromCounter {brings : QueuedMessage → Prop}
    (h : Origin s s' brings) : FromCounter s s' brings := by
  refine ⟨h.1, ?_⟩
  rintro lane row ⟨hrow, hlane, hnew⟩ hbrings
  rcases h.2 row hrow with hold | hbrought | hcounter
  · exact absurd hlane (hnew row hold rfl)
  · exact absurd hbrought hbrings
  · exact hcounter lane hlane

theorem fromCounter_steer (h : LaneInv s) (messageId : String)
    (brings : QueuedMessage → Prop) : FromCounter s (s.steer messageId) brings := by
  rcases steer_cases h.bounded messageId with heq | ⟨msg, rest, hperm, ⟨row, hadmission⟩ | ⟨hnext, hkeep⟩⟩
  · rw [heq]
    exact Origin.fromCounter (.of_subset ⟨fun _ => le_rfl, h.bounded⟩ (List.Subset.refl _))
  · have horigin : Origin { s with queue := rest } (s.steer messageId) brings :=
      hadmission.origin (by simp)
    refine ⟨⟨horigin.1.mono, horigin.1.bounded⟩, ?_⟩
    rintro lane other ⟨hother, hlane, hnew⟩ hbrings
    refine horigin.fromCounter.2 lane other ⟨hother, hlane, fun old hold => ?_⟩ hbrings
    exact hnew old (hperm.symm.subset (List.mem_cons_of_mem _ hold))
  · refine ⟨⟨fun lane => by rw [hnext], fun lane => by rw [hnext]; exact h.bounded lane⟩, ?_⟩
    rintro lane other ⟨hother, hlane, hnew⟩ -
    rcases List.mem_cons.mp (hkeep.subset hother) with rfl | hold
    · exact absurd hlane (hnew msg (hperm.symm.subset List.mem_cons_self) rfl)
    · exact absurd hlane (hnew other (hperm.symm.subset (List.mem_cons_of_mem _ hold)) rfl)

theorem fromCounter_reorderByIds
    (h : LaneInv s) (hids : s.ids.Nodup) (hrepeat : (messageIds.filter (· ∈ s.ids)).Nodup)
    (brings : QueuedMessage → Prop) :
    FromCounter s (s.reorderByIds messageIds resequence) brings := by
  refine ⟨⟨fun _ => le_rfl, h.bounded⟩, ?_⟩
  rintro lane row ⟨hrow, hlane, hnew⟩ -
  have hrows : ((s.reorderByIds messageIds resequence).queue.map unsequenced).Perm
      (s.queue.map unsequenced) := by
    rw [reorderByIds_unsequenced]
    exact (listed_perm hids hrepeat).map _
  obtain ⟨old, hold, heq⟩ := List.mem_map.mp (hrows.subset (List.mem_map_of_mem hrow))
  obtain ⟨hid, hturn, -⟩ := unsequenced_eq heq
  exact absurd (hturn.trans hlane) (hnew old hold hid)

/-- Every operation gives new rows of a lane sequences from its counter. -/
theorem fromCounter_step (h : LaneInv s) (hids : s.ids.Nodup)
    (hg : Orderly s event) : FromCounter s (step s event) (Brings event) := by
  have hkeep : ∀ queue : List QueuedMessage, queue.Sublist s.queue →
      FromCounter s { s with queue := queue } (Brings event) := fun queue hsub =>
    Origin.fromCounter (.of_subset ⟨fun _ => le_rfl, h.bounded⟩ hsub.subset)
  obtain ⟨hfresh, hrepeat, hcollision⟩ := hg
  cases event with
  | enqueue text opts uuid now =>
    rcases enqueue_cases h.bounded text opts uuid now with ⟨hadv, hqueue⟩ | ⟨-, hadmission⟩
    · exact (Origin.of_subset hadv (by rw [hqueue]; exact List.Subset.refl _)).fromCounter
    · exact (hadmission.origin fun hsome => ⟨(createMessage_id ..).symm, hsome⟩).fromCounter
  | enqueueAtFront text opts uuid now =>
    rcases enqueueAtFront_cases h.bounded text opts uuid now with ⟨hadv, hqueue⟩ | ⟨-, hadmission⟩
    · exact (Origin.of_subset hadv (by rw [hqueue]; exact List.Subset.refl _)).fromCounter
    · exact (hadmission.origin fun hsome => ⟨(createMessage_id ..).symm, hsome⟩).fromCounter
  | enqueueExisting message uuid =>
    exact (origin_admitRow (message, uuid) h.bounded hfresh).fromCounter
  | enqueueExistingAtFront message uuid =>
    rcases enqueueExistingAtFront_cases message h.bounded hfresh with heq | ⟨-, hadmission⟩
    · rw [show step s (.enqueueExistingAtFront message uuid) = s from heq]
      exact hkeep _ (List.Sublist.refl _)
    · exact (hadmission.origin fun hsome => ⟨(normalizeQueuedMessage_id ..).symm, hsome⟩).fromCounter
  | restoreAtFront message uuid =>
    rcases enqueueExistingAtFront_cases message h.bounded hfresh with heq | ⟨-, hadmission⟩
    · rw [show step s (.restoreAtFront message uuid) = s.reorder from congrArg PromptQueue.reorder heq]
      exact Origin.fromCounter (.of_subset ⟨fun _ => le_rfl, h.bounded⟩ s.reorder_queue_perm.subset)
    · exact (hadmission.reorder.origin fun hsome => ⟨(normalizeQueuedMessage_id ..).symm, hsome⟩).fromCounter
  | steer messageId => exact fromCounter_steer h messageId _
  | remove messageId => exact hkeep _ List.eraseP_sublist
  | dequeue => exact hkeep _ (List.tail_sublist _)
  | dequeueForTarget target =>
    obtain ⟨queue, heq, hsub⟩ := s.dequeueForTarget_sublist target
    rw [show step s (.dequeueForTarget target) = _ from heq]
    exact hkeep queue hsub
  | dequeueAllSteered => exact hkeep _ (List.dropWhile_sublist _)
  | reorderByIds messageIds resequence => exact fromCounter_reorderByIds h hids hrepeat _
  | retarget reason restoredRows =>
    rw [show step s (.retarget reason restoredRows) = _ from s.retarget_eq reason restoredRows]
    have hrows := origin_admitRows h.bounded hfresh
    exact (hrows.trans (origin_retarget (laneInv_admitRows h hfresh hcollision) reason _)).fromCounter

/-! ## Dequeuing -/

theorem releasedBefore_of_least {target : DeliveryTargetTurn}
    {rest : List QueuedMessage} (h : LaneInv s)
    (hperm : s.queue.Perm (row :: rest)) (hrow : row.targetTurn = some target)
    (hleast : ∀ other ∈ s.queue, other.targetTurn = some target →
      sequenceLt (validSequence other.sequence) (validSequence row.sequence) = false) :
    ∀ other ∈ rest, other.targetTurn = some target → ReleasedBefore row other := by
  intro other hother hlane m hm
  have hle := hleast other (hperm.symm.subset (List.mem_cons_of_mem _ hother)) hlane
  rw [hm] at hle
  cases hseq : validSequence row.sequence with
  | none =>
    rw [hseq] at hle
    cases hle
  | some n =>
    rw [hseq] at hle
    simp only [sequenceLt, decide_eq_false_iff_not, not_lt] at hle
    -- the sequences of the lane are distinct, so the least is smaller than every other
    have hnodup := h.distinct target
    unfold laneSequences at hnodup
    rw [(hperm.filterMap (·.laneSequence target)).nodup_iff, List.filterMap_cons,
      show row.laneSequence target = some n by simp [QueuedMessage.laneSequence, hrow, hseq]]
      at hnodup
    have hmem : m ∈ rest.filterMap (·.laneSequence target) :=
      List.mem_filterMap.mpr ⟨other, hother, by simp [QueuedMessage.laneSequence, hlane, hm]⟩
    have hne : n ≠ m := fun heq => (List.nodup_cons.mp hnodup).1 (heq ▸ hmem)
    exact ⟨n, rfl, lt_of_le_of_ne hle hne⟩

theorem laneOrder_step (h : LaneInv s) (hids : s.ids.Nodup)
    (hg : Orderly s event) : LaneOrder s event := by
  obtain ⟨hfresh, hrepeat, -⟩ := hg
  have hadmissionted : ∀ {s' : PromptQueue} {row : QueuedMessage} {brought : Option Nat},
      Admission s s' row brought → s.queue ⊆ s'.queue := fun hadmission row hrow =>
    hadmission.perm.symm.subset (List.mem_cons_of_mem _ hrow)
  cases event with
  | dequeueForTarget target =>
    have hspec := s.dequeueForTarget_spec target
    simp only [LaneOrder]
    cases hrow : (s.dequeueForTarget target).1 with
    | none =>
      rw [hrow] at hspec
      exact hspec.1
    | some row =>
      rw [hrow] at hspec
      exact ⟨hspec.2.1, releasedBefore_of_least h hspec.1 hspec.2.1 hspec.2.2⟩
  | reorderByIds messageIds resequence =>
    cases resequence with
    | true =>
      exact fun lane => ⟨sorted_reorderByIds h hids hrepeat lane,
        laneSequences_reorderByIds hids hrepeat lane⟩
    | false =>
      change (s.reorderByIds messageIds false).queue.Perm s.queue
      rw [reorderByIds_queue]
      exact listed_perm hids hrepeat
  | enqueueAtFront text opts uuid now =>
    rcases enqueueAtFront_cases h.bounded text opts uuid now with ⟨-, hqueue⟩ | ⟨-, hadmission⟩
    · exact fun row hrow => hqueue ▸ hrow
    · exact hadmissionted hadmission
  | enqueueExistingAtFront message uuid =>
    rcases enqueueExistingAtFront_cases message h.bounded hfresh with heq | ⟨-, hadmission⟩
    · simp only [LaneOrder, step, heq]
      exact List.Subset.refl _
    · exact hadmissionted hadmission
  | restoreAtFront message uuid =>
    rcases enqueueExistingAtFront_cases message h.bounded hfresh with heq | ⟨-, hadmission⟩
    · simp only [LaneOrder, step, restoreAtFront, heq]
      exact s.reorder_queue_perm.symm.subset
    · exact hadmissionted hadmission.reorder
  | _ => trivial

/-! ## Runs -/

/-- What runs keep: distinct ids and lanes in order. -/
def QueueInv (s : PromptQueue) : Prop := s.ids.Nodup ∧ LaneInv s

theorem queueInv_step (h : QueueInv s) (hg : Orderly s event) : QueueInv (step s event) :=
  ⟨(rows_change h.1 hg.1 hg.2.1).nodup h.1, laneInv_step h.2 h.1 hg⟩

theorem advances_run {events : List Event} (h : QueueInv s)
    (hrun : Along step Orderly s events) : Advances s (run step s events) := by
  induction events generalizing s with
  | nil => exact ⟨fun _ => le_rfl, h.2.bounded⟩
  | cons event rest ih =>
    exact (fromCounter_step h.2 h.1 hrun.1).1.trans (ih (queueInv_step h hrun.1) hrun.2)

/-- The counter is above what an earlier state had in the lane. -/
theorem FromCounter.comesAfter {past : PromptQueue} {brings : QueuedMessage → Prop}
    (h : FromCounter s s' brings)
    (hpast : ∀ lane, ∀ m ∈ past.laneSequences lane, m < s.nextSequence lane) :
    ComesAfter past s s' brings := by
  intro lane row henters hbrings
  obtain ⟨n, hn, hseq⟩ := h.2 lane row henters hbrings
  exact ⟨n, hseq, fun m hm => (hpast lane m hm).trans_le hn⟩

/-- **Lanes are in order.** Take a persisted queue and a run of operations in which no
    restored or enqueued row brings along a sequence that a queued row of its lane has,
    and no reorder repeats a queued id. Then the valid sequences of a lane are always
    distinct. A row that gets into a lane without a sequence of its own comes after every
    row the lane ever had, in the constructor and later. A lane is dequeued by sequence,
    which a reorder with resequencing makes the visible order. -/
theorem lanes_ordered (initial : List (RawMessage × String)) (events : List Event)
    (hinitial : Along restore Apart empty initial)
    (hrun : Along step Orderly (new initial) events) :
    Always step (fun s => ∀ lane, (s.laneSequences lane).Nodup) (new initial) events ∧
      Along step LaneOrder (new initial) events ∧
      (∀ read record rest, initial = read ++ record :: rest →
        ComesAfter (new read) (new read) (new (read ++ [record])) (RowBrings record)) ∧
      ∀ earlier between event rest, events = earlier ++ between ++ event :: rest →
        ComesAfter (run step (new initial) earlier) (run step (new initial) (earlier ++ between))
          (run step (new initial) (earlier ++ between ++ [event])) (Brings event) := by
  have hstart : QueueInv (new initial) := ⟨nodup_new initial, laneInv_new hinitial⟩
  have hstep : ∀ s event, QueueInv s → Orderly s event → QueueInv (step s event) :=
    fun s event h hg => queueInv_step h hg
  refine ⟨?_, ?_, ?_, ?_⟩
  · exact (always_of_along hstep hstart hrun).mono fun s h lane => h.2.distinct lane
  · exact along_of_along hstep (fun s event h hg => laneOrder_step h.2 h.1 hg) hstart hrun
  · rintro read record rest rfl
    obtain ⟨hread, hrecord, -⟩ := along_append hinitial
    have hinv : LaneInv (new read) := laneInv_new hread
    rw [show new (read ++ [record]) = (new read).restore record from List.foldl_append]
    refine FromCounter.comesAfter ?_ hinv.below
    rcases restore_cases hinv.bounded record with ⟨hadv, hqueue⟩ | ⟨-, hadmission⟩
    · exact (Origin.of_subset hadv (by rw [hqueue]; exact List.Subset.refl _)).fromCounter
    · exact (hadmission.origin fun hsome => ⟨(normalizeQueuedMessage_id ..).symm, hsome⟩).fromCounter
  · rintro earlier between event rest rfl
    obtain ⟨hbefore, hevent, -⟩ := along_append hrun
    obtain ⟨hearlier, hbetween⟩ := along_append hbefore
    have hpast : QueueInv (run step (new initial) earlier) :=
      (always_of_along hstep hstart hearlier).last
    have hnow : QueueInv (run step (new initial) (earlier ++ between)) :=
      (always_of_along hstep hstart hbefore).last
    have hadv : Advances (run step (new initial) earlier)
        (run step (new initial) (earlier ++ between)) := by
      rw [run_append]
      exact advances_run hpast hbetween
    rw [run_append step _ (earlier ++ between)]
    refine (fromCounter_step hnow.2 hnow.1 hevent).comesAfter fun lane m hm => ?_
    exact (hpast.2.below lane m hm).trans_le (hadv.mono lane)

def persistedSteer (id : String) (sequence : Field Nat) : RawMessage where
  id := .valid id
  text := []
  displayText := .absent
  isSteered := true
  createdAt := 0
  kind := .valid .steer
  targetTurn := .absent
  sequence := sequence
  deliveryState := .absent
  deliveryReason := .absent
  deliveryError := .absent
  source := .absent
  verifierOwned := false
  author := .absent
  goalDispatchGuardId := .absent
  payload := ⟨[], [], none, false, false, none⟩

/-- A queue with one continuation, and a prompt that is steered after it. -/
theorem lanes_ordered_steer :
    let initial := [(persistedSteer "a" (.valid 4), "")]
    let events : List Event :=
      [.enqueue [] { plainOptions with kind := some .prompt } "b" 0, .steer "b",
        .reorderByIds ["b", "a"] true, .dequeueForTarget .continuation]
    Always step (fun s => ∀ lane, (s.laneSequences lane).Nodup) (new initial) events := by
  have hcollide : ∀ (s : PromptQueue) (row : QueuedMessage), ¬ s.Collides .absent row := by
    rintro s row ⟨lane, n, -, hn, -⟩
    cases hn
  refine (lanes_ordered [(persistedSteer "a" (.valid 4), "")]
    [.enqueue [] { plainOptions with kind := some .prompt } "b" 0, .steer "b",
      .reorderByIds ["b", "a"] true, .dequeueForTarget .continuation]
    ⟨?_, trivial⟩ ⟨⟨trivial, trivial, fun _ => hcollide _ _⟩, ⟨trivial, trivial, trivial⟩,
      ⟨trivial, ?_, trivial⟩, ⟨trivial, trivial, trivial⟩, trivial⟩).1
  · rintro - ⟨lane, n, -, -, hn⟩
    simp [laneSequences, empty] at hn
  · simp only [NoRepeats]
    decide

/-- Restored continuations keep the sequence they share; and one without a sequence gets
    the first number, which a later one brings along. -/
theorem restored_sequences_collide :
    ¬ (∀ initial lane, ((new initial).laneSequences lane).Nodup) ∧
      ((new [(persistedSteer "a" (.valid 1), ""), (persistedSteer "b" (.valid 1), "")]).laneSequences
          .continuation = [1, 1]) ∧
        (new [(persistedSteer "a" .absent, ""), (persistedSteer "b" (.valid 1), "")]).laneSequences
          .continuation = [1, 1] := by
  refine ⟨fun h => ?_, by decide, by decide⟩
  exact absurd (h [(persistedSteer "a" (.valid 1), ""), (persistedSteer "b" (.valid 1), "")]
    .continuation) (by decide)

end PromptQueue

end Bobbit.Server
