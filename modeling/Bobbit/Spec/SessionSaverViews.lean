import Bobbit.Server.SessionSaver

/-!
# What a session saver writes

The operations of the saver come in two kinds. The requests (`saveNow`, the timer, the
barriers, the mutations) leave what is being written and what has been published alone:
`SameWrites`. The drain moves a payload from memory to the file, and the published
generation to the payload's: one lemma for each of its steps.

## Key results

* `Bounded` — no payload is of a later generation than the rows in memory.
* `Reached` — a generation that `publishedGeneration` has reached, or will with the next turn.
-/

namespace Bobbit.Server.SessionSaver

variable {σ : Type} {s s' s'' : SessionSaver σ}

/-! ## Requests -/

/-- What is being written, and what has been published, is the same. -/
structure SameWrites (s s' : SessionSaver σ) : Prop where
  payload : s'.payload? = s.payload?
  renamed : ∀ g, s'.asyncSaveInFlight = some (.renamed g) ↔ s.asyncSaveInFlight = some (.renamed g)
  published : s'.publishedGeneration = s.publishedGeneration

theorem SameWrites.refl (s : SessionSaver σ) : SameWrites s s := ⟨rfl, fun _ => .rfl, rfl⟩

theorem SameWrites.trans (h : SameWrites s s') (h' : SameWrites s' s'') : SameWrites s s'' :=
  ⟨h'.payload.trans h.payload, fun g => (h'.renamed g).trans (h.renamed g),
    h'.published.trans h.published⟩

theorem requestAsyncSave_sameWrites (s : SessionSaver σ) : SameWrites s s.requestAsyncSave := by
  unfold requestAsyncSave
  split
  · exact ⟨rfl, fun _ => .rfl, rfl⟩
  · rename_i hidle
    -- an idle saver has nothing in flight, and an admitted drain has no payload yet
    have hnone : s.asyncSaveInFlight = none := by simpa using hidle
    exact ⟨by simp [payload?, hnone], fun g => by simp [hnone], rfl⟩

theorem clearTimer_sameWrites (s : SessionSaver σ) : SameWrites s s.clearTimer :=
  ⟨rfl, fun _ => .rfl, rfl⟩

theorem save_sameWrites (s : SessionSaver σ) : SameWrites s s.save := ⟨rfl, fun _ => .rfl, rfl⟩

theorem mutate_sameWrites (s : SessionSaver σ) (sessions : σ) : SameWrites s (s.mutate sessions) :=
  ⟨rfl, fun _ => .rfl, rfl⟩

theorem saveNow_sameWrites (s : SessionSaver σ) : SameWrites s s.saveNow :=
  (clearTimer_sameWrites s).trans (requestAsyncSave_sameWrites _)

theorem timerFired_sameWrites (s : SessionSaver σ) : SameWrites s s.timerFired := by
  unfold timerFired
  split
  · exact saveNow_sameWrites s
  · exact .refl s

theorem persistThroughGeneration_sameWrites (s : SessionSaver σ) (g : Nat) :
    SameWrites s (s.persistThroughGeneration g).1 := by
  unfold persistThroughGeneration
  split
  · exact .refl s
  · split
    · exact .refl s
    · exact requestAsyncSave_sameWrites s

theorem persistResumed_sameWrites (s : SessionSaver σ) (g failureSequence : Nat) :
    SameWrites s (s.persistResumed g failureSequence).1 := by
  unfold persistResumed
  split
  · exact .refl s
  · split
    · exact .refl s
    · exact persistThroughGeneration_sameWrites s g

/-! ## Rows and generations -/

/-- The rows in memory, and their generation, are the same. -/
structure SameRows (s s' : SessionSaver σ) : Prop where
  sessions : s'.sessions = s.sessions
  generation : s'.generation = s.generation

theorem SameRows.refl (s : SessionSaver σ) : SameRows s s := ⟨rfl, rfl⟩

theorem SameRows.trans (h : SameRows s s') (h' : SameRows s' s'') : SameRows s s'' :=
  ⟨h'.sessions.trans h.sessions, h'.generation.trans h.generation⟩

theorem requestAsyncSave_sameRows (s : SessionSaver σ) : SameRows s s.requestAsyncSave := by
  unfold requestAsyncSave
  split <;> exact ⟨rfl, rfl⟩

theorem clearTimer_sameRows (s : SessionSaver σ) : SameRows s s.clearTimer := ⟨rfl, rfl⟩

theorem save_sameRows (s : SessionSaver σ) : SameRows s s.save := ⟨rfl, rfl⟩

theorem saveNow_sameRows (s : SessionSaver σ) : SameRows s s.saveNow :=
  (clearTimer_sameRows s).trans (requestAsyncSave_sameRows _)

theorem timerFired_sameRows (s : SessionSaver σ) : SameRows s s.timerFired := by
  unfold timerFired
  split
  · exact saveNow_sameRows s
  · exact .refl s

theorem persistThroughGeneration_sameRows (s : SessionSaver σ) (g : Nat) :
    SameRows s (s.persistThroughGeneration g).1 := by
  unfold persistThroughGeneration
  split
  · exact .refl s
  · split
    · exact .refl s
    · exact requestAsyncSave_sameRows s

theorem persistResumed_sameRows (s : SessionSaver σ) (g failureSequence : Nat) :
    SameRows s (s.persistResumed g failureSequence).1 := by
  unfold persistResumed
  split
  · exact .refl s
  · split
    · exact .refl s
    · exact persistThroughGeneration_sameRows s g

theorem serialize_sameRows (s : SessionSaver σ) : SameRows s s.serialize := by
  unfold serialize
  split <;> exact ⟨rfl, rfl⟩

theorem rename_sameRows (s : SessionSaver σ) : SameRows s s.rename := by
  unfold rename
  split <;> exact ⟨rfl, rfl⟩

theorem drained_sameRows (s : SessionSaver σ) : SameRows s s.drained := by
  unfold drained
  split
  · dsimp only
    split <;> exact ⟨rfl, rfl⟩
  · exact ⟨rfl, rfl⟩

theorem failed_sameRows (s : SessionSaver σ) : SameRows s s.failed := by
  unfold failed
  split <;> exact ⟨rfl, rfl⟩

/-! ## Failures -/

theorem requestAsyncSave_failures (s : SessionSaver σ) :
    s.requestAsyncSave.persistenceFailureSequence = s.persistenceFailureSequence := by
  unfold requestAsyncSave
  split <;> rfl

theorem saveNow_failures (s : SessionSaver σ) :
    s.saveNow.persistenceFailureSequence = s.persistenceFailureSequence :=
  requestAsyncSave_failures s.clearTimer

theorem timerFired_failures (s : SessionSaver σ) :
    s.timerFired.persistenceFailureSequence = s.persistenceFailureSequence := by
  unfold timerFired
  split
  · exact saveNow_failures s
  · rfl

theorem persistThroughGeneration_failures (s : SessionSaver σ) (g : Nat) :
    (s.persistThroughGeneration g).1.persistenceFailureSequence = s.persistenceFailureSequence := by
  unfold persistThroughGeneration
  split
  · rfl
  · split
    · rfl
    · exact requestAsyncSave_failures s

theorem persistResumed_failures (s : SessionSaver σ) (g failureSequence : Nat) :
    (s.persistResumed g failureSequence).1.persistenceFailureSequence =
      s.persistenceFailureSequence := by
  unfold persistResumed
  split
  · rfl
  · split
    · rfl
    · exact persistThroughGeneration_failures s g

theorem drained_failures (s : SessionSaver σ) :
    s.drained.persistenceFailureSequence = s.persistenceFailureSequence := by
  unfold drained
  split
  · dsimp only
    split <;> rfl
  · rfl

variable {g : Nat}

theorem persistResumed_rejected {failureSequence : Nat}
    (h : (s.persistResumed g failureSequence).2 = .rejected) :
    s.publishedGeneration < g ∧ s.persistenceFailureSequence ≠ failureSequence := by
  unfold persistResumed at h
  split at h
  · cases h
  · split at h
    · exact ⟨by omega, by assumption⟩
    · unfold persistThroughGeneration at h
      split at h
      · cases h
      · split at h <;> cases h

/-- A barrier that returns stands at a published generation. -/
theorem persistThroughGeneration_persisted
    (h : (s.persistThroughGeneration g).2 = .persisted) : g ≤ s.publishedGeneration := by
  unfold persistThroughGeneration at h
  split at h
  · assumption
  · split at h <;> cases h

theorem persistResumed_persisted {failureSequence : Nat}
    (h : (s.persistResumed g failureSequence).2 = .persisted) : g ≤ s.publishedGeneration := by
  unfold persistResumed at h
  split at h
  · assumption
  · split at h
    · cases h
    · exact persistThroughGeneration_persisted h

/-! ## The drain -/

theorem payload?_eq_some {payload : σ} :
    s.payload? = some (g, payload) ↔ s.asyncSaveInFlight = some (.writing g payload) := by
  unfold payload?
  split
  · rename_i g' payload' hwriting
    rw [hwriting, Option.some.injEq, Prod.mk.injEq, Option.some.injEq, SessionDrain.writing.injEq]
  · rename_i hwriting
    constructor
    · intro h
      cases h
    · intro h
      exact absurd h (hwriting g payload)

/-- A generation is published, or was renamed and is about to be. -/
def Reached (s : SessionSaver σ) (g : Nat) : Prop :=
  g ≤ s.publishedGeneration ∨ ∃ g', s.asyncSaveInFlight = some (.renamed g') ∧ g ≤ g'

theorem SameWrites.reached (h : SameWrites s s') : s'.Reached g ↔ s.Reached g := by
  simp only [Reached, h.renamed, h.published]

/-- What is being written, or has been published, is not ahead of memory. -/
structure Bounded (s : SessionSaver σ) : Prop where
  payload : ∀ g payload, s.payload? = some (g, payload) → g ≤ s.generation
  reached : ∀ g, s.Reached g → g ≤ s.generation

theorem loaded_bounded (sessions : σ) : Bounded (loaded sessions) where
  payload := by
    intro g payload h
    simp [payload?, loaded] at h
  reached := by
    intro g h
    simpa [Reached, loaded] using h

theorem SameWrites.bounded (h : SameWrites s s') (hgen : s.generation ≤ s'.generation)
    (hs : Bounded s) : Bounded s' where
  payload := by
    intro g payload hpayload
    exact (hs.payload g payload (h.payload ▸ hpayload)).trans hgen
  reached := by
    intro g hreached
    exact (hs.reached g (h.reached.mp hreached)).trans hgen

/-- The payload after `JSON.stringify` is the rows of the moment. -/
theorem payload?_serialize {payload : σ} (h : s.serialize.payload? = some (g, payload)) :
    s.payload? = some (g, payload) ∨ g = s.generation ∧ payload = s.sessions := by
  unfold serialize at h
  split at h
  · simp only [payload?, Option.some.injEq, Prod.mk.injEq] at h
    exact .inr ⟨h.1.symm, h.2.symm⟩
  · exact .inl h

theorem serialize_reached : s.serialize.Reached g ↔ s.Reached g := by
  unfold serialize
  split
  · rename_i hadmitted
    simp [Reached, hadmitted]
  · exact .rfl

theorem payload?_rename : s.rename.payload? = none := by
  unfold rename
  split
  · simp [payload?]
  · rename_i hwriting
    unfold payload?
    split
    · rename_i g payload h
      exact absurd h (hwriting g payload)
    · rfl

theorem rename_reached (h : s.rename.Reached g) :
    s.Reached g ∨ ∃ g' payload, s.payload? = some (g', payload) ∧ g ≤ g' := by
  unfold rename at h
  split at h
  · rename_i g' payload hwriting
    cases h with
    | inl hpublished => exact .inl (.inl hpublished)
    | inr hrenamed =>
      obtain ⟨g'', hsome, hle⟩ := hrenamed
      simp only [Option.some.injEq, SessionDrain.renamed.injEq] at hsome
      exact .inr ⟨g', payload, payload?_eq_some.mpr hwriting, hsome ▸ hle⟩
  · exact .inl h

theorem payload?_drained {payload : σ} (h : s.drained.payload? = some (g, payload)) :
    s.payload? = some (g, payload) := by
  unfold drained at h
  split at h
  · dsimp only at h
    split at h <;> simp [payload?] at h
  · exact h

theorem drained_reached (h : s.drained.Reached g) : s.Reached g := by
  unfold drained at h
  split at h
  · rename_i g' hrenamed
    have hle : g ≤ max s.publishedGeneration g' := by
      dsimp only at h
      split at h
      · cases h with
        | inl hle => exact hle
        | inr hnone => simp at hnone
      · cases h with
        | inl hle => exact hle
        | inr hnone => simp at hnone
    by_cases hpublished : g ≤ s.publishedGeneration
    · exact .inl hpublished
    · exact .inr ⟨g', hrenamed, by omega⟩
  · exact h

theorem publishedGeneration_drained : s.publishedGeneration ≤ s.drained.publishedGeneration := by
  unfold drained
  split
  · dsimp only
    split <;> exact Nat.le_max_left _ _
  · exact le_rfl

theorem payload?_failed : s.failed.payload? = none := by
  unfold failed
  split
  · simp [payload?]
  · simp [payload?]
  · rename_i hadmitted hwriting
    unfold payload?
    split
    · rename_i g payload h
      exact absurd h (hwriting g payload)
    · rfl

theorem failed_reached (h : s.failed.Reached g) : s.Reached g := by
  unfold failed at h
  split at h
  · cases h with
    | inl hpublished => exact .inl hpublished
    | inr hnone => simp at hnone
  · cases h with
    | inl hpublished => exact .inl hpublished
    | inr hnone => simp at hnone
  · exact h

theorem publishedGeneration_failed (s : SessionSaver σ) :
    s.failed.publishedGeneration = s.publishedGeneration := by
  unfold failed
  split <;> rfl

theorem serialize_bounded (hs : Bounded s) : Bounded s.serialize where
  payload := by
    intro g payload h
    rw [(serialize_sameRows s).generation]
    cases payload?_serialize h with
    | inl hbefore => exact hs.payload g payload hbefore
    | inr hnow => exact hnow.1.le
  reached := by
    intro g h
    rw [(serialize_sameRows s).generation]
    exact hs.reached g (serialize_reached.mp h)

theorem rename_bounded (hs : Bounded s) : Bounded s.rename where
  payload := by
    intro g payload h
    rw [payload?_rename] at h
    cases h
  reached := by
    intro g h
    rw [(rename_sameRows s).generation]
    cases rename_reached h with
    | inl hbefore => exact hs.reached g hbefore
    | inr hwritten =>
      obtain ⟨g', payload, hpayload, hle⟩ := hwritten
      exact hle.trans (hs.payload g' payload hpayload)

theorem drained_bounded (hs : Bounded s) : Bounded s.drained where
  payload := by
    intro g payload h
    rw [(drained_sameRows s).generation]
    exact hs.payload g payload (payload?_drained h)
  reached := by
    intro g h
    rw [(drained_sameRows s).generation]
    exact hs.reached g (drained_reached h)

theorem failed_bounded (hs : Bounded s) : Bounded s.failed where
  payload := by
    intro g payload h
    rw [payload?_failed] at h
    cases h
  reached := by
    intro g h
    rw [(failed_sameRows s).generation]
    exact hs.reached g (failed_reached h)

end Bobbit.Server.SessionSaver
