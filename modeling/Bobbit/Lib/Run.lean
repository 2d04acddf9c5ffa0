import Mathlib

/-!
# Runs of a deterministic transition function

A system is a transition function `step : σ → α → σ`: the label names what
happens next (a call, a callback, a crash) and carries everything the
environment chooses. A run is a list of labels.

`Along guard` says that every step of a run meets a condition on the state
before it, `Always P` that every state the run visits satisfies `P`.
`inv_run`, `inv_history` and `always_of_along` are the induction rules, and `always_iff_along` is
the exact form: when a step that misses the guard breaks `P` at once, the runs
whose steps all meet the guard are precisely the runs that stay inside `P`.
-/

namespace Bobbit.Lib

variable {σ α : Type*} (step : σ → α → σ)

def run (s : σ) (labels : List α) : σ := labels.foldl step s

/-- Every step of the run meets `guard` in the state it is taken from. -/
def Along (guard : σ → α → Prop) : σ → List α → Prop
  | _, [] => True
  | s, a :: rest => guard s a ∧ Along guard (step s a) rest

instance decidableAlong (guard : σ → α → Prop) [∀ s a, Decidable (guard s a)] (s : σ) :
    (labels : List α) → Decidable (Along step guard s labels)
  | [] => inferInstanceAs (Decidable True)
  | a :: rest =>
    have := decidableAlong guard (step s a) rest
    inferInstanceAs (Decidable (_ ∧ _))

/-- Every state the run visits, the first and the last included, satisfies `P`. -/
def Always (P : σ → Prop) : σ → List α → Prop
  | s, [] => P s
  | s, a :: rest => P s ∧ Always P (step s a) rest

@[simp] theorem run_nil (s : σ) : run step s [] = s := rfl

@[simp] theorem run_cons (s : σ) (a : α) (rest : List α) :
    run step s (a :: rest) = run step (step s a) rest := rfl

theorem run_append (s : σ) (xs ys : List α) :
    run step s (xs ++ ys) = run step (run step s xs) ys := by
  simp [run, List.foldl_append]

variable {step} {guard : σ → α → Prop} {I P : σ → Prop}

variable {s : σ} {labels : List α}

theorem Always.last (h : Always step P s labels) : P (run step s labels) := by
  induction labels generalizing s with
  | nil => exact h
  | cons a rest ih => exact ih h.2

theorem Always.first (h : Always step P s labels) : P s := by
  cases labels with
  | nil => exact h
  | cons a rest => exact h.1

theorem Always.mono {Q : σ → Prop} (hPQ : ∀ s, P s → Q s)
    (h : Always step P s labels) : Always step Q s labels := by
  induction labels generalizing s with
  | nil => exact hPQ s h
  | cons a rest ih => exact ⟨hPQ s h.1, ih h.2⟩

/-- **Guarded invariance.** An invariant kept by every step that meets the guard
    holds in every state of a run whose steps all meet it. -/
theorem always_of_along (hstep : ∀ s a, I s → guard s a → I (step s a))
    (h0 : I s) (hrun : Along step guard s labels) : Always step I s labels := by
  induction labels generalizing s with
  | nil => exact h0
  | cons a rest ih => exact ⟨h0, ih (hstep s a h0 hrun.1) hrun.2⟩

/-- Under a guarded invariant, the guard can be traded for what it implies. -/
theorem along_of_along {goal : σ → α → Prop} (hstep : ∀ s a, I s → guard s a → I (step s a))
    (hgoal : ∀ s a, I s → guard s a → goal s a) (h0 : I s)
    (hrun : Along step guard s labels) : Along step goal s labels := by
  induction labels generalizing s with
  | nil => trivial
  | cons a rest ih =>
    exact ⟨hgoal s a h0 hrun.1, ih (hstep s a h0 hrun.1) hrun.2⟩

theorem along_of_forall (h : ∀ s a, guard s a) (s : σ) (labels : List α) :
    Along step guard s labels := by
  induction labels generalizing s with
  | nil => trivial
  | cons a rest ih => exact ⟨h s a, ih (step s a)⟩

/-- A run whose labels all meet a condition of their own. -/
theorem along_of_mem {goal : α → Prop} (h : ∀ a ∈ labels, goal a) (s : σ) :
    Along step (fun _ a => goal a) s labels := by
  induction labels generalizing s with
  | nil => trivial
  | cons a rest ih =>
    exact ⟨h a List.mem_cons_self, ih (fun b hb => h b (List.mem_cons_of_mem a hb)) (step s a)⟩

theorem along_append {xs ys : List α} (h : Along step guard s (xs ++ ys)) :
    Along step guard s xs ∧ Along step guard (run step s xs) ys := by
  induction xs generalizing s with
  | nil => exact ⟨trivial, h⟩
  | cons x rest ih => exact ⟨⟨h.1, (ih h.2).1⟩, (ih h.2).2⟩

theorem along_and {goal : σ → α → Prop}
    (hguard : Along step guard s labels) (hgoal : Along step goal s labels) :
    Along step (fun s a => guard s a ∧ goal s a) s labels := by
  induction labels generalizing s with
  | nil => trivial
  | cons a rest ih => exact ⟨⟨hguard.1, hgoal.1⟩, ih hguard.2 hgoal.2⟩

theorem inv_run (hstep : ∀ s a, I s → I (step s a)) (h0 : I s) (labels : List α) :
    I (run step s labels) := by
  induction labels generalizing s with
  | nil => exact h0
  | cons a rest ih => exact ih (hstep s a h0)

theorem run_concat (s : σ) (labels : List α) (a : α) :
    run step s (labels ++ [a]) = step (run step s labels) a := by
  rw [run_append]
  rfl

/-- **Invariants with a history.** What holds of the empty run, and of a run with one more
    label when it holds of the run, holds of every run. -/
theorem inv_history {H : List α → σ → Prop} (h0 : H [] s)
    (hstep : ∀ labels a, H labels (run step s labels) →
      H (labels ++ [a]) (step (run step s labels) a)) (labels : List α) :
    H labels (run step s labels) := by
  induction labels using List.reverseRecOn with
  | nil => exact h0
  | append_singleton labels a ih =>
    rw [run_concat]
    exact hstep labels a ih

/-- The number of steps of a run with some property. -/
def countAlong (step : σ → α → σ) (p : σ → α → Bool) : σ → List α → Nat
  | _, [] => 0
  | s, a :: rest => (p s a).toNat + countAlong step p (step s a) rest

theorem countAlong_concat (p : σ → α → Bool) (s : σ) (labels : List α) (a : α) :
    countAlong step p s (labels ++ [a]) =
      countAlong step p s labels + (p (run step s labels) a).toNat := by
  induction labels generalizing s with
  | nil => exact Nat.add_comm _ _
  | cons b rest ih =>
    show (p s b).toNat + countAlong step p (step s b) (rest ++ [a]) = _
    rw [ih, countAlong, run_cons]
    omega

/-! ## Clocks -/

/-- A step leaves both the clock and the view alone, or takes the clock up. -/
def Moves {β : Type*} (clock : σ → Int) (view : σ → β) (s s' : σ) : Prop :=
  clock s < clock s' ∨ clock s' = clock s ∧ view s' = view s

theorem Moves.refl {β : Type*} {clock : σ → Int} {view : σ → β} (s : σ) : Moves clock view s s :=
  .inr ⟨rfl, rfl⟩

theorem Moves.trans {β : Type*} {clock : σ → Int} {view : σ → β} {t u : σ}
    (hst : Moves clock view s t) (htu : Moves clock view t u) : Moves clock view s u := by
  unfold Moves at *
  cases hst with
  | inl hst =>
    cases htu with
    | inl htu => exact .inl (by omega)
    | inr htu => exact .inl (by omega)
  | inr hst =>
    cases htu with
    | inl htu => exact .inl (by omega)
    | inr htu => exact .inr ⟨htu.1.trans hst.1, htu.2.trans hst.2⟩

/-- **Clocks.** Where no step changes the view without taking the clock up, two moments of a
    run with one clock value have one view. -/
theorem view_eq_of_clock_eq {β : Type*} (clock : σ → Int) (view : σ → β)
    (hstep : ∀ s a, guard s a → Moves clock view s (step s a))
    (hrun : Along step guard s labels) {i j : Nat}
    (hclock : clock (run step s (labels.take i)) = clock (run step s (labels.take j))) :
    view (run step s (labels.take i)) = view (run step s (labels.take j)) := by
  have hmoves : ∀ {s : σ} {labels : List α}, Along step guard s labels →
      Moves clock view s (run step s labels) := by
    intro s labels hrun
    induction labels generalizing s with
    | nil => exact .refl s
    | cons a rest ih => exact (hstep s a hrun.1).trans (ih hrun.2)
  -- the later of the two moments is reached from the earlier one
  have hlater : ∀ {i j : Nat}, i ≤ j →
      Moves clock view (run step s (labels.take i)) (run step s (labels.take j)) := by
    intro i j hij
    have hsplit : labels.take j = labels.take i ++ (labels.take j).drop i := by
      have htake : (labels.take j).take i = labels.take i := by
        rw [List.take_take, Nat.min_eq_left hij]
      rw [← htake, List.take_append_drop]
    have hprefix : Along step guard s (labels.take j) := by
      rw [← List.take_append_drop j labels] at hrun
      exact (along_append hrun).1
    rw [hsplit] at hprefix ⊢
    rw [run_append]
    exact hmoves (along_append hprefix).2
  cases Nat.le_total i j with
  | inl hij =>
    cases hlater hij with
    | inl hless => omega
    | inr hsame => exact hsame.2.symm
  | inr hji =>
    cases hlater hji with
    | inl hless => omega
    | inr hsame => exact hsame.2

/-- **Exact guard.** Under an assumption on the environment the runs inside `P` are
    the runs whose steps all meet the guard, when the guard keeps an invariant that
    implies `P` and missing it breaks `P` at once. -/
theorem always_iff_along {env : σ → α → Prop}
    (hstep : ∀ s a, I s → env s a → guard s a → I (step s a)) (hP : ∀ s, I s → P s)
    (hbad : ∀ s a, I s → env s a → ¬ guard s a → ¬ P (step s a)) (h0 : I s)
    (henv : Along step env s labels) : Always step P s labels ↔ Along step guard s labels := by
  induction labels generalizing s with
  | nil => exact ⟨fun _ => trivial, fun _ => hP s h0⟩
  | cons a rest ih =>
    constructor
    · intro hrun
      have hg : guard s a := by
        by_contra hg
        exact hbad s a h0 henv.1 hg hrun.2.first
      exact ⟨hg, (ih (hstep s a h0 henv.1 hg) henv.2).mp hrun.2⟩
    · intro hrun
      exact ⟨hP s h0, (ih (hstep s a h0 henv.1 hrun.1) henv.2).mpr hrun.2⟩

/-- **Exact steps.** Where each step meets the goal exactly when it meets the guard, and a step
    that does keeps the invariant, the runs that meet the one are those that meet the other. -/
theorem along_iff_along {env goal : σ → α → Prop}
    (hstep : ∀ s a, I s → env s a → guard s a → I (step s a))
    (hiff : ∀ s a, I s → env s a → (goal s a ↔ guard s a)) (h0 : I s)
    (henv : Along step env s labels) : Along step goal s labels ↔ Along step guard s labels := by
  induction labels generalizing s with
  | nil => exact Iff.rfl
  | cons a rest ih =>
    constructor
    · intro hrun
      have hguard := (hiff s a h0 henv.1).mp hrun.1
      exact ⟨hguard, (ih (hstep s a h0 henv.1 hguard) henv.2).mp hrun.2⟩
    · intro hrun
      exact ⟨(hiff s a h0 henv.1).mpr hrun.1, (ih (hstep s a h0 henv.1 hrun.1) henv.2).mpr hrun.2⟩

end Bobbit.Lib
