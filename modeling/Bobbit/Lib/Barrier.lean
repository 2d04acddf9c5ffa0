import Mathlib
import Bobbit.Lib.Run

/-!
# Durability barriers

A writer brings the rows of a store to durable storage in steps of its own. A
barrier is a request to be told when everything that was waiting has been written;
barriers are known by their number.

`BarrierKept` says what a barrier promises, over every continuation of the run from
the state right after its request. `BarrierKept.of_invariant` is the rule to prove
it: an invariant that ties the barrier to what the writer still has to write.
-/

namespace Bobbit.Lib

variable {σ α κ ν : Type*}

/-- A writer, as seen by those who wait for it. -/
structure Writer (σ α κ ν : Type*) where
  step : σ → α → σ
  /-- the rows of the store -/
  rows : σ → κ → ν
  durable : σ → κ → ν
  /-- the next write takes the key along -/
  dirty : σ → κ → Prop
  /-- the barrier is not settled -/
  pending : σ → Nat → Prop
  resolves : σ → α → Nat → Prop
  rejects : σ → α → Nat → Prop
  /-- the step is the failure of a write that the barrier waits for -/
  fails : σ → α → Nat → Prop
  /-- a write is in flight or about to start -/
  draining : σ → Prop

/-- What a barrier promises about some keys, from the state right after its request:
    when it is resolved each key is durable as it was at one moment since then; when
    the write fails it is rejected, nothing has changed in storage and each key is
    still to be written; it is settled in no other way, and it is settled when the
    writer is idle. -/
structure BarrierKept (W : Writer σ α κ ν) (s : σ) (keys : κ → Prop) (barrier : Nat) : Prop where
  resolved : ∀ labels a, W.resolves (run W.step s labels) a barrier →
    ∃ since, since <+: labels ∧ ∀ key, keys key →
      W.durable (run W.step s (labels ++ [a])) key = W.rows (run W.step s since) key
  failed : ∀ labels a, W.pending (run W.step s labels) barrier →
    W.fails (run W.step s labels) a barrier → W.rejects (run W.step s labels) a barrier
  rejected : ∀ labels a, W.rejects (run W.step s labels) a barrier →
    W.durable (run W.step s (labels ++ [a])) = W.durable (run W.step s labels) ∧
      ∀ key, keys key → W.dirty (run W.step s (labels ++ [a])) key
  settled : ∀ labels a, W.pending (run W.step s labels) barrier →
    W.pending (run W.step s (labels ++ [a])) barrier ∨
      W.resolves (run W.step s labels) a barrier ∨ W.rejects (run W.step s labels) a barrier
  idle : ∀ labels, ¬ W.draining (run W.step s labels) → ¬ W.pending (run W.step s labels) barrier

/-- **The rule for barriers.** `I` may speak of `seen`, what the rows of the keys were
    at some moments since the request. -/
theorem BarrierKept.of_invariant {W : Writer σ α κ ν} {s : σ} {keys : κ → Prop} {barrier : Nat}
    (I : ((κ → ν) → Prop) → σ → Prop)
    (mono : ∀ {seen seen' : (κ → ν) → Prop} {s}, (∀ rows, seen rows → seen' rows) →
      I seen s → I seen' s)
    (start : I (· = W.rows s) s)
    (step : ∀ seen s a, seen (W.rows s) → I seen s → I seen (W.step s a))
    (resolved : ∀ seen s a, seen (W.rows s) → I seen s → W.resolves s a barrier →
      ∃ rows, seen rows ∧ ∀ key, keys key → W.durable (W.step s a) key = rows key)
    (failed : ∀ seen s a, I seen s → W.pending s barrier → W.fails s a barrier →
      W.rejects s a barrier)
    (rejected : ∀ seen s a, I seen s → W.rejects s a barrier →
      W.durable (W.step s a) = W.durable s ∧ ∀ key, keys key → W.dirty (W.step s a) key)
    (settled : ∀ seen s a, I seen s → W.pending s barrier →
      W.pending (W.step s a) barrier ∨ W.resolves s a barrier ∨ W.rejects s a barrier)
    (idle : ∀ seen s, I seen s → ¬ W.draining s → ¬ W.pending s barrier) :
    BarrierKept W s keys barrier := by
  have hinv : ∀ labels, I (fun rows => ∃ since, since <+: labels ∧ rows = W.rows (run W.step s since))
      (run W.step s labels) := by
    intro labels
    induction labels using List.reverseRecOn with
    | nil => exact mono (fun rows hrows => ⟨[], List.prefix_refl _, hrows⟩) start
    | append_singleton labels a ih =>
      rw [run_append]
      refine mono ?_ (step _ _ a ⟨labels, List.prefix_refl _, rfl⟩ ih)
      rintro rows ⟨since, hprefix, hrows⟩
      exact ⟨since, hprefix.trans (List.prefix_append _ _), hrows⟩
  have hnext : ∀ labels a, run W.step s (labels ++ [a]) = W.step (run W.step s labels) a := by
    intro labels a
    rw [run_append]
    rfl
  exact {
    resolved := fun labels a h => by
      obtain ⟨rows, ⟨since, hprefix, rfl⟩, hdurable⟩ :=
        resolved _ _ a ⟨labels, List.prefix_refl _, rfl⟩ (hinv labels) h
      exact ⟨since, hprefix, hnext labels a ▸ hdurable⟩
    failed := fun labels a => failed _ _ a (hinv labels)
    rejected := fun labels a h => hnext labels a ▸ rejected _ _ a (hinv labels) h
    settled := fun labels a h => hnext labels a ▸ settled _ _ a (hinv labels) h
    idle := fun labels => idle _ _ (hinv labels) }

end Bobbit.Lib
