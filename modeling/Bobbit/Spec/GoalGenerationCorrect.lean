import Bobbit.Server.GoalStore

/-!
# What the generation of the goal store identifies

A poller that sees the generation it already knows keeps the goals it has. Every mutation
takes the counter up, and so does a rollback that finds the counter moved; a rollback that
finds it where its own mutation has left it takes it back, and the next mutation uses the
number a second time.

## Key results

- `step_moves`: a step that does not take the counter back either takes it up or leaves
  both the counter and the goals alone
- `generation_identifies`: along runs of such steps the generation identifies the goals
- `generation_reused`: a failed creation and a put give two contents one number
-/

namespace Bobbit.Server.GoalStore

open Lib

/-- The goal that a rejected call rolls back as a whole, and its object. -/
def rollbackTarget : StrictCall → Option (String × Nat)
  | .put id goal _ => some (id, goal)
  | .update id existing .. => some (id, existing)
  | .archive id existing .. => some (id, existing)
  | .fence .. | .compensation .. => none

def nextRejected (s : GoalStore) : Option Waiting :=
  match s.jobs with
  | .settle waiting true :: _ => some waiting
  | _ => none

/-- The call finds its goal and the counter as its own mutation has left them. -/
def TakesBack (s : GoalStore) (waiting : Waiting) : Prop :=
  ∃ target ∈ rollbackTarget waiting.call,
    s.Unchanged waiting target.1 target.2 ∧ s.generation = waiting.mutationGeneration

instance (s : GoalStore) (waiting : Waiting) : Decidable (s.TakesBack waiting) :=
  decidable_of_iff (∃ target ∈ (rollbackTarget waiting.call).toList,
      s.Unchanged waiting target.1 target.2 ∧ s.generation = waiting.mutationGeneration) (by
    simp [TakesBack])

/-- No rejected call takes the counter back. -/
def KeepsCounter (s : GoalStore) (event : Event) : Prop :=
  event = .runJob → ∀ waiting ∈ s.nextRejected, ¬ s.TakesBack waiting

instance (s : GoalStore) (event : Event) : Decidable (s.KeepsCounter event) :=
  decidable_of_iff (event = .runJob → ∀ waiting ∈ s.nextRejected.toList, ¬ s.TakesBack waiting) (by
    simp [KeepsCounter])

/-- What a poller relies on: the counter with the goals. -/
abbrev MovesGoals (s s' : GoalStore) : Prop := Moves getGeneration getAll s s'

section Steps

variable {s : GoalStore}

theorem movesGoals_up {s' : GoalStore} (h : s'.generation = s.generation + 1) : MovesGoals s s' := by
  apply Or.inl
  show s.generation < s'.generation
  omega

/-- A step that changes neither the counter nor the objects nor the map. -/
theorem movesGoals_same {s' : GoalStore} (hgeneration : s'.generation = s.generation)
    (hobjects : s'.objects = s.objects) (hgoals : s'.goals = s.goals) : MovesGoals s s' :=
  .inr ⟨hgeneration, by unfold getAll; rw [hobjects, hgoals]⟩

theorem hold_generation (object : Nat) (goal : GoalRecord) :
    (s.hold object goal).1.generation = s.generation := by
  unfold hold
  split <;> rfl

theorem put_moves (object : Nat) (goal : GoalRecord) : MovesGoals s (s.put object goal) := by
  apply movesGoals_up
  show (s.hold object goal).1.generation + 1 = _
  rw [hold_generation]

theorem putStrict_moves (object : Nat) (goal : GoalRecord) :
    MovesGoals s (s.putStrict object goal) := by
  apply movesGoals_up
  show (hold { s with calls := s.calls + 1 } object goal).1.generation + 1 = _
  rw [hold_generation]

variable (id : String)

theorem archive_moves (now : Int) : MovesGoals s (s.archive id now).1 := by
  unfold archive
  split
  · exact .refl s
  · split
    · exact .refl s
    · split
      · exact .refl s
      · exact movesGoals_up rfl

theorem archiveStrictOnce_moves (number : Nat) (id : String) (now : Int) :
    MovesGoals s (s.archiveStrictOnce number id now) := by
  unfold archiveStrictOnce
  split
  · exact movesGoals_same rfl rfl rfl
  · split
    · exact movesGoals_same rfl rfl rfl
    · split
      · exact movesGoals_same rfl rfl rfl
      · exact movesGoals_up rfl

theorem archiveStrict_moves (now : Int) : MovesGoals s (s.archiveStrict id now) := by
  unfold archiveStrict
  split
  · exact .refl s
  · exact (movesGoals_same rfl rfl rfl).trans (archiveStrictOnce_moves _ id now)

theorem update_moves (updates : JsMap String GoalValue) (now : Int) :
    MovesGoals s (s.update id updates now).1 := by
  unfold update
  split
  · exact .refl s
  · split
    · exact .refl s
    · exact .refl s
    · split
      · exact .refl s
      · exact movesGoals_up rfl

theorem updateStrict_moves (updates : JsMap String GoalValue) (now : Int) :
    MovesGoals s (s.updateStrict id updates now).1 := by
  unfold updateStrict
  split
  · exact .refl s
  · split
    · exact .refl s
    · exact .refl s
    · simp only
      split
      · exact movesGoals_same rfl rfl rfl
      · exact movesGoals_up rfl

theorem clearSchedulerRecovery_moves (now : Int) :
    MovesGoals s (s.clearSchedulerRecovery id now).1 := by
  unfold clearSchedulerRecovery
  split
  · exact .refl s
  · split
    · exact .refl s
    · split
      · exact .refl s
      · exact movesGoals_up rfl

theorem settled_moves (waiting : Waiting) : MovesGoals s (s.settled waiting) := by
  unfold settled
  split <;> exact movesGoals_same rfl rfl rfl

/-- A whole-record rollback that finds the counter moved. -/
theorem rolledBack_moves {s' : GoalStore} {waiting : Waiting}
    (hsame : s'.generation = s.generation) (hmoved : s.generation ≠ waiting.mutationGeneration) :
    MovesGoals s (s'.rolledBack waiting id) := by
  apply movesGoals_up
  unfold rolledBack
  rw [hsame]
  exact if_neg hmoved

theorem compensate_moves (waiting : Waiting) (id : String) (isArchive : Bool)
    (undo : GoalRecord → GoalRecord) : MovesGoals s (s.compensate waiting id isArchive undo) := by
  unfold compensate
  cases s.goals.get? id with
  | none => exact movesGoals_same rfl rfl rfl
  | some current => exact movesGoals_up rfl

theorem rejected_moves {waiting : Waiting} (hkeeps : ¬ s.TakesBack waiting) :
    MovesGoals s (s.rejected waiting) := by
  have hmoved : ∀ id object, rollbackTarget waiting.call = some (id, object) →
      s.Unchanged waiting id object → s.generation ≠ waiting.mutationGeneration :=
    fun id object htarget hunchanged heq => hkeeps ⟨(id, object), htarget, hunchanged, heq⟩
  unfold rejected
  split
  · rename_i id goal previous hcall
    split
    · rename_i hunchanged
      apply rolledBack_moves
      · unfold putBack
        split <;> rfl
      · exact hmoved id goal (by rw [hcall]; rfl) hunchanged
    · exact .refl s
  · rename_i id existing previous owned hcall
    split
    · rename_i hunchanged
      exact rolledBack_moves id rfl (hmoved id existing (by rw [hcall]; rfl) hunchanged)
    · exact compensate_moves ..
  · rename_i id existing previous revision hcall
    split
    · rename_i hunchanged
      have hrolled : MovesGoals s ((s.modify existing (·.restore previous)).rolledBack waiting id) :=
        rolledBack_moves id rfl (hmoved id existing (by rw [hcall]; rfl) hunchanged)
      exact hrolled.trans (settled_moves waiting)
    · exact compensate_moves ..
  · exact settled_moves waiting
  · exact settled_moves waiting

theorem runJob_moves (hkeeps : ∀ waiting ∈ s.nextRejected, ¬ s.TakesBack waiting) :
    MovesGoals s s.runJob := by
  unfold runJob
  cases hjobs : s.jobs with
  | nil => exact .refl s
  | cons job rest =>
    have hpopped : MovesGoals s { s with jobs := rest } := movesGoals_same rfl rfl rfl
    cases job with
    | settle waiting fails =>
      cases fails with
      | true =>
        have hnot : ¬ s.TakesBack waiting := hkeeps waiting (by simp [nextRejected, hjobs])
        exact hpopped.trans (rejected_moves hnot)
      | false => exact hpopped.trans (settled_moves waiting)
    | clear id operation =>
      apply hpopped.trans
      show MovesGoals _ (clear _ id operation)
      unfold clear
      split
      · exact movesGoals_same rfl rfl rfl
      · exact .refl _

/-- **One step.** A step that does not take the counter back takes it up or changes nothing
    that can be read. -/
theorem step_moves (event : Event) (hkeeps : s.KeepsCounter event) :
    MovesGoals s (s.step event) := by
  cases event with
  | put object goal => exact put_moves object goal
  | putStrict object goal => exact putStrict_moves object goal
  | remove id => exact movesGoals_up rfl
  | archive id now => exact archive_moves id now
  | archiveStrict id now => exact archiveStrict_moves id now
  | update id updates now => exact update_moves id updates now
  | updateStrict id updates now => exact updateStrict_moves id updates now
  | clearSchedulerRecovery id now => exact clearSchedulerRecovery_moves id now
  | bumpGeneration => exact movesGoals_up rfl
  | drain fails => exact movesGoals_same rfl rfl rfl
  | runJob => exact runJob_moves (hkeeps rfl)

end Steps

/-- The generation after some of the events identifies the goals that can be read then. -/
def GenerationIdentifies (goals : List GoalRecord) (events : List Event) : Prop :=
  ∀ i j, (run step (loaded goals) (events.take i)).getGeneration =
      (run step (loaded goals) (events.take j)).getGeneration →
    (run step (loaded goals) (events.take i)).getAll =
      (run step (loaded goals) (events.take j)).getAll

/-- **The generation identifies the content.** Two moments of a run with one generation have
    the same goals, when no rejected call takes the counter back. -/
theorem generation_identifies (goals : List GoalRecord) (events : List Event)
    (hkeeps : Along step KeepsCounter (loaded goals) events) :
    GenerationIdentifies goals events := by
  intro i j hsame
  exact view_eq_of_clock_eq getGeneration getAll (fun s event h => step_moves event h) hkeeps hsame

/-- A strict update fails after another goal has moved the counter. -/
def movedCounter : List Event :=
  [.putStrict 0 ⟨"a", [("title", .str "A"), ("updatedAt", .num 1)]⟩, .drain false, .runJob,
    .updateStrict "a" [("title", .str "B")] 2, .put 1 ⟨"b", [("updatedAt", .num 3)]⟩, .drain true,
    .runJob]

theorem generation_identifies_moved : GenerationIdentifies [] movedCounter :=
  generation_identifies [] movedCounter (by decide)

/-- A creation fails, then another goal is put. -/
def failedCreation : List Event :=
  [.putStrict 0 ⟨"a", [("updatedAt", .num 1)]⟩, .drain true, .runJob,
    .put 1 ⟨"b", [("updatedAt", .num 2)]⟩]

/-- The goal that was never created and the one put after it are read under one number. -/
theorem generation_reused : ¬ GenerationIdentifies [] failedCreation := by
  intro h
  exact absurd (h 1 4 (by decide)) (by decide)

end Bobbit.Server.GoalStore
