import Bobbit.Lib.Run
import Bobbit.Server.SessionStore
import Bobbit.Spec.SessionSaverViews

/-!
# Session archiving

A call of `archiveAsync` on a row owns an attempt, joins one, or has nothing to archive.
`Evolves` is what every step of the store does to what the calls rely on: rows change,
payloads move to the file, and a step that may bring a row back is in the log of restores.
From it the invariant: an archive that nothing has brought back since is in every payload
of its generation or a later one, for as long as the row is there.

## Key results

* `step_inv` — every step keeps the invariant.
* `archiveAsync_correct` — acknowledged once for each transition, and only when durable.
-/

namespace Bobbit.Server.SessionStore

open Lib SessionSaver

variable {κ : Type} [DecidableEq κ] {s s' s'' : SessionStore κ} {id : κ}

/-! ## Rows -/

variable {sessions : JsMap κ SessionRow}

theorem isArchived_of_not_isLive (hlive : isLive sessions id = false)
    (hsome : (JsMap.get? sessions id).isSome) : isArchived sessions id = true := by
  unfold isLive at hlive
  unfold isArchived
  obtain ⟨row, hrow⟩ := Option.isSome_iff_exists.mp hsome
  rw [hrow] at hlive ⊢
  simpa using hlive

/-- What mutations other than the restores do to rows: none comes up, and none comes back. -/
def Fades (sessions sessions' : JsMap κ SessionRow) (id : κ) : Prop :=
  (isLive sessions id = false → isLive sessions' id = false) ∧
    ((JsMap.get? sessions' id).isSome → (JsMap.get? sessions id).isSome)

theorem Fades.refl (sessions : JsMap κ SessionRow) : Fades sessions sessions id := ⟨fun h => h, fun h => h⟩

theorem fades_erase (sessions : JsMap κ SessionRow) (key : κ) :
    Fades sessions (JsMap.erase sessions key) id := by
  unfold Fades isLive
  rw [JsMap.get?_erase]
  split
  · simp
  · exact ⟨fun h => h, fun h => h⟩

theorem fades_set_of_ne {key : κ} {row : SessionRow} (h : id ≠ key) :
    Fades sessions (JsMap.set sessions key row) id := by
  unfold Fades isLive
  rw [JsMap.get?_set, if_neg h]
  exact ⟨fun h => h, fun h => h⟩

/-- A row that is assigned in the place of another, and archived if that one was. -/
theorem fades_set {key : κ} {existing row : SessionRow}
    (hget : JsMap.get? sessions key = some existing)
    (harchived : existing.archived = true → row.archived = true) :
    Fades sessions (JsMap.set sessions key row) id := by
  by_cases h : id = key
  · subst h
    unfold Fades isLive
    rw [JsMap.get?_set, if_pos rfl, hget]
    simpa using harchived
  · exact fades_set_of_ne h

/-! ## Kept archives -/

/-- The archive of a generation is in memory, and with the row it is in every payload and, once
    the generation is reached, in a published file. -/
def Kept (s : SessionStore κ) (id : κ) (generation : Nat) : Prop :=
  isLive s.saver.sessions id = false ∧
    ((JsMap.get? s.saver.sessions id).isSome →
      (∀ g payload, s.saver.payload? = some (g, payload) → generation ≤ g →
        isArchived payload id = true) ∧
      (s.saver.Reached generation → ∃ file ∈ s.published, isArchived file id = true))

/-- No two transitions have one generation, and none has a later one than the rows. -/
def Recorded (s : SessionStore κ) : Prop :=
  s.transitions.Nodup ∧ ∀ t ∈ s.transitions, t.2 ≤ s.saver.generation

/-- What every step does to what the calls rely on. -/
structure Evolves (s s' : SessionStore κ) : Prop where
  bounded : Bounded s.saver → Bounded s'.saver
  recorded : Recorded s → Recorded s'
  generation : s.saver.generation ≤ s'.saver.generation
  published_le : s.saver.publishedGeneration ≤ s'.saver.publishedGeneration
  published : ∀ file ∈ s.published, file ∈ s'.published
  transitions : ∀ t ∈ s.transitions, t ∈ s'.transitions
  restores : ∃ extra, s'.restores = s.restores ++ extra ∧ ∀ id, id ∉ extra →
    (isLive s.saver.sessions id = false → isLive s'.saver.sessions id = false) ∧
      ∀ g, Kept s id g → Kept s' id g

theorem Evolves.refl (s : SessionStore κ) : Evolves s s where
  bounded := fun h => h
  recorded := fun h => h
  generation := le_rfl
  published_le := le_rfl
  published := fun _ h => h
  transitions := fun _ h => h
  restores := ⟨[], by simp, fun _ _ => ⟨fun h => h, fun _ h => h⟩⟩

/-- Where a step leaves the row and its writes alone, the archive stays kept. -/
theorem Kept.of_fades {generation : Nat} (hkept : Kept s id generation)
    (hwrites : s.saver.SameWrites s'.saver) (hpublished : s'.published = s.published)
    (hfades : Fades s.saver.sessions s'.saver.sessions id) : Kept s' id generation := by
  refine ⟨hfades.1 hkept.1, fun hpresent => ?_⟩
  obtain ⟨hpayload, hfile⟩ := hkept.2 (hfades.2 hpresent)
  constructor
  · intro g payload h
    exact hpayload g payload (hwrites.payload ▸ h)
  · intro hreached
    rw [hpublished]
    exact hfile (hwrites.reached.mp hreached)

theorem mutate_recorded (hs : Recorded s) : Recorded (s.mutate id sessions) := by
  obtain ⟨hnodup, hle⟩ := hs
  have hlater : ∀ t ∈ s.transitions, t.2 ≤ s.saver.generation + 1 := by
    intro t ht
    have hlast := hle t ht
    omega
  unfold mutate
  split
  · constructor
    · -- the new transition has a generation that none had before
      rw [List.nodup_append]
      refine ⟨hnodup, List.nodup_singleton _, ?_⟩
      intro t ht u hu heq
      have hlast : t.2 ≤ s.saver.generation := hle t ht
      rw [heq, List.mem_singleton.mp hu] at hlast
      dsimp only at hlast
      omega
    · intro t ht
      cases List.mem_append.mp ht with
      | inl hbefore => exact hlater t hbefore
      | inr hnew =>
        rw [List.mem_singleton.mp hnew]
        exact le_rfl
  · exact ⟨hnodup, hlater⟩

theorem mutate_transitions : ∀ t ∈ s.transitions, t ∈ (s.mutate id sessions).transitions := by
  intro t ht
  unfold mutate
  split
  · exact List.mem_append_left _ ht
  · exact ht

/-- A mutation of one row, with whatever requests a save after it. -/
theorem evolves_of_mutate {key : κ} {extra : List κ}
    (hwrites : (s.mutate key sessions).saver.SameWrites s'.saver)
    (hrows : (s.mutate key sessions).saver.SameRows s'.saver)
    (hpublished : s'.published = s.published)
    (htransitions : s'.transitions = (s.mutate key sessions).transitions)
    (hrestores : s'.restores = s.restores ++ extra)
    (hfades : ∀ id, id ∉ extra → Fades s.saver.sessions sessions id) : Evolves s s' := by
  have hwrites : s.saver.SameWrites s'.saver := (mutate_sameWrites s.saver sessions).trans hwrites
  have hgen : s'.saver.generation = s.saver.generation + 1 := hrows.generation
  have hsessions : s'.saver.sessions = sessions := hrows.sessions
  refine ⟨hwrites.bounded (by omega), fun hs => ?_, by omega, hwrites.published.ge,
    fun file h => hpublished ▸ h, fun t ht => htransitions ▸ mutate_transitions t ht, extra,
    hrestores, fun id hid => ?_⟩
  · have hrecorded : Recorded (s.mutate key sessions) := mutate_recorded hs
    unfold Recorded
    rw [htransitions, hrows.generation]
    exact hrecorded
  · have hfades : Fades s.saver.sessions s'.saver.sessions id := hsessions ▸ hfades id hid
    exact ⟨hfades.1, fun g hkept => hkept.of_fades hwrites hpublished hfades⟩

/-- A step that only asks for a save, or only moves calls on. -/
theorem evolves_of_requests (hwrites : s.saver.SameWrites s'.saver)
    (hrows : s.saver.SameRows s'.saver) (hpublished : s'.published = s.published)
    (htransitions : s'.transitions = s.transitions) (hrestores : s'.restores = s.restores) :
    Evolves s s' := by
  refine ⟨hwrites.bounded hrows.generation.ge, fun hs => ?_, hrows.generation.ge,
    hwrites.published.ge, fun file h => hpublished ▸ h, fun t ht => htransitions ▸ ht, [],
    by rw [hrestores, List.append_nil], fun id _ => ?_⟩
  · unfold Recorded
    rw [htransitions, hrows.generation]
    exact hs
  · have hfades : Fades s.saver.sessions s'.saver.sessions id := hrows.sessions ▸ Fades.refl _
    exact ⟨hfades.1, fun g hkept => hkept.of_fades hwrites hpublished hfades⟩

/-! ## The steps of the rows -/

theorem put_evolves (s : SessionStore κ) (key : κ) (session : SessionRow) :
    Evolves s (s.put key session) := by
  have hrestores : (s.put key session).restores = s.restores ++ [key] := rfl
  refine evolves_of_mutate (saveNow_sameWrites _) (saveNow_sameRows _) rfl rfl hrestores ?_
  intro id hid
  exact fades_set_of_ne (by simpa using hid)

theorem remove_evolves (s : SessionStore κ) (key : κ) : Evolves s (s.remove key) :=
  evolves_of_mutate (saveNow_sameWrites _) (saveNow_sameRows _) rfl rfl (List.append_nil _).symm
    fun _ _ => fades_erase _ key

theorem purgeAsync_evolves (s : SessionStore κ) (key : κ) : Evolves s (s.purgeAsync key) := by
  unfold purgeAsync
  split
  · exact evolves_of_mutate
      ((clearTimer_sameWrites _).trans (persistThroughGeneration_sameWrites _ _))
      ((clearTimer_sameRows _).trans (persistThroughGeneration_sameRows _ _)) rfl rfl
      (List.append_nil _).symm fun _ _ => fades_erase _ key
  · exact .refl s

theorem archive_evolves (s : SessionStore κ) (key : κ) (now : Int) : Evolves s (s.archive key now) := by
  unfold archive
  split
  · exact .refl s
  · rename_i existing hget
    split
    · exact .refl s
    · exact evolves_of_mutate (saveNow_sameWrites _) (saveNow_sameRows _) rfl rfl
        (List.append_nil _).symm fun _ _ => fades_set hget fun _ => rfl

theorem update_evolves (s : SessionStore κ) (key : κ) (archived : Option Bool)
    (archivedAt : Option (Option Int)) (critical : Bool) :
    Evolves s (s.update key archived archivedAt critical) := by
  unfold update
  split
  · exact .refl s
  · rename_i existing hget
    by_cases hclears : archived = some false
    · -- the flag is cleared: the row is back
      subst hclears
      simp only [if_pos, Option.isSome_some, Bool.true_or]
      have hfades : ∀ id, id ∉ [key] → Fades s.saver.sessions (JsMap.set s.saver.sessions key
          { existing with archived := false, archivedAt := archivedAt.getD existing.archivedAt }) id :=
        fun id hid => fades_set_of_ne (by simpa using hid)
      exact evolves_of_mutate (saveNow_sameWrites _) (saveNow_sameRows _) rfl rfl rfl hfades
    · have hkeeps : existing.archived = true → archived.getD existing.archived = true := by
        intro harchived
        cases archived with
        | none => exact harchived
        | some flag => simpa using hclears
      simp only [if_neg hclears]
      split
      · exact evolves_of_mutate (saveNow_sameWrites _) (saveNow_sameRows _) rfl rfl
          (List.append_nil _).symm fun _ _ => fades_set hget hkeeps
      · exact evolves_of_mutate (save_sameWrites _) (save_sameRows _) rfl rfl
          (List.append_nil _).symm fun _ _ => fades_set hget hkeeps

/-! ## The steps of the drain -/

/-- A step of the drain keeps the rows, and the log of restores. -/
theorem evolves_of_drain (hbounded : Bounded s.saver → Bounded s'.saver)
    (hrows : s.saver.SameRows s'.saver)
    (hle : s.saver.publishedGeneration ≤ s'.saver.publishedGeneration)
    (hpublished : ∀ file ∈ s.published, file ∈ s'.published)
    (htransitions : s'.transitions = s.transitions) (hrestores : s'.restores = s.restores)
    (hkept : ∀ id g, Kept s id g → (JsMap.get? s.saver.sessions id).isSome →
      (∀ g' payload, s'.saver.payload? = some (g', payload) → g ≤ g' →
        isArchived payload id = true) ∧
      (s'.saver.Reached g → ∃ file ∈ s'.published, isArchived file id = true)) :
    Evolves s s' := by
  refine ⟨hbounded, fun hs => ?_, hrows.generation.ge, hle, hpublished,
    fun t ht => htransitions ▸ ht, [], by rw [hrestores, List.append_nil], fun id _ => ?_⟩
  · unfold Recorded
    rw [htransitions, hrows.generation]
    exact hs
  · unfold Kept
    rw [hrows.sessions]
    exact ⟨fun h => h, fun g h => ⟨h.1, hkept id g h⟩⟩

theorem serialize_evolves (s : SessionStore κ) :
    Evolves s { s with saver := s.saver.serialize } := by
  refine evolves_of_drain serialize_bounded (serialize_sameRows _) ?_ (fun _ h => h) rfl rfl ?_
  · unfold serialize
    split <;> exact le_rfl
  · intro id g hkept hsome
    refine ⟨fun g' payload h hle => ?_, fun h => (hkept.2 hsome).2 (serialize_reached.mp h)⟩
    cases payload?_serialize h with
    | inl hbefore => exact (hkept.2 hsome).1 g' payload hbefore hle
    | inr hnow =>
      -- the payload is the rows in memory, where the row is archived
      rw [hnow.2]
      exact isArchived_of_not_isLive hkept.1 hsome

theorem rename_evolves (s : SessionStore κ) : Evolves s s.rename := by
  refine evolves_of_drain rename_bounded (rename_sameRows _) ?_
    (fun _ h => List.mem_append_left _ h) rfl rfl ?_
  · show _ ≤ s.saver.rename.publishedGeneration
    unfold SessionSaver.rename
    split <;> exact le_rfl
  · intro id g hkept hsome
    obtain ⟨hpayload, hfile⟩ := hkept.2 hsome
    refine ⟨fun g' payload h => ?_, fun h => ?_⟩
    · have hnone : s.saver.rename.payload? = some (g', payload) := h
      rw [payload?_rename] at hnone
      cases hnone
    · cases rename_reached h with
      | inl hbefore =>
        obtain ⟨file, hmem, harchived⟩ := hfile hbefore
        exact ⟨file, List.mem_append_left _ hmem, harchived⟩
      | inr hwritten =>
        -- the file is the payload that was being written
        obtain ⟨g', payload, hsome, hle⟩ := hwritten
        exact ⟨payload, by simp [rename, hsome], hpayload g' payload hsome hle⟩

theorem drained_evolves (s : SessionStore κ) : Evolves s { s with saver := s.saver.drained } := by
  refine evolves_of_drain drained_bounded (drained_sameRows _) publishedGeneration_drained
    (fun _ h => h) rfl rfl ?_
  intro id g hkept hsome
  exact ⟨fun g' payload h => (hkept.2 hsome).1 g' payload (payload?_drained h),
    fun h => (hkept.2 hsome).2 (drained_reached h)⟩

theorem failed_evolves (s : SessionStore κ) : Evolves s { s with saver := s.saver.failed } := by
  refine evolves_of_drain failed_bounded (failed_sameRows _) ?_ (fun _ h => h) rfl rfl ?_
  · show _ ≤ s.saver.failed.publishedGeneration
    unfold SessionSaver.failed
    split <;> exact le_rfl
  · intro id g hkept hsome
    refine ⟨fun g' payload h => ?_, fun h => (hkept.2 hsome).2 (failed_reached h)⟩
    have hnone : s.saver.failed.payload? = some (g', payload) := h
    rw [payload?_failed] at hnone
    cases hnone

/-! ## Calls -/

/-- What a call returns, once its last await is over. -/
def outcomeOf : ArchivePhase → Option (Option Bool)
  | .returned outcome | .settled outcome => some outcome
  | _ => none

/-- The call has acknowledged its archive. -/
def Acknowledged (call : ArchiveCall κ) : Prop := outcomeOf call.phase = some (some true)

/-- Nothing has brought the row of `id` back since. -/
def Undisturbed (s : SessionStore κ) (id : κ) (began : Nat) : Prop := id ∉ s.restores.drop began

/-- A transition of `id` is recorded, and its archive kept until something brings the row back. -/
structure Archives (s : SessionStore κ) (id : κ) (p : PendingArchive) : Prop where
  generation : p.generation ≤ s.saver.generation
  transition : (id, p.generation) ∈ s.transitions
  began : p.began ≤ s.restores.length
  kept : Undisturbed s id p.began → Kept s id p.generation

structure CallHolds (s : SessionStore κ) (call : ArchiveCall κ) : Prop where
  began : call.began ≤ s.restores.length
  notLive : Undisturbed s call.id call.began → isLive s.saver.sessions call.id = false
  pending : ∀ p, call.pending = some p → p.began = call.began ∧ Archives s call.id p
  persisted : call.phase = .persisted →
    ∀ p, call.pending = some p → p.generation ≤ s.saver.publishedGeneration
  acknowledged : Acknowledged call → call.pending.isSome ∧
    (Undisturbed s call.id call.began → ∃ file ∈ s.published, isArchived file call.id = true)

structure Consistent (s : SessionStore κ) : Prop where
  bounded : Bounded s.saver
  recorded : Recorded s
  pendings : ∀ id p, JsMap.get? s.pendingArchives id = some p → Archives s id p
  calls : ∀ (n : Nat) call, s.calls[n]? = some call → CallHolds s call
  attempts : ∀ id n, JsMap.get? s.archiveAttempts id = some n →
    ∃ call, s.calls[n]? = some call ∧ call.id = id
  /-- one acknowledgement for one transition -/
  once : ∀ (n m : Nat) call call' p p', s.calls[n]? = some call → s.calls[m]? = some call' →
    Acknowledged call → Acknowledged call' → call.id = call'.id →
    call.pending = some p → call'.pending = some p' → p.generation = p'.generation → n = m
  /-- none yet for a transition that is pending -/
  fresh : ∀ id p, JsMap.get? s.pendingArchives id = some p →
    ∀ (n : Nat) call p', s.calls[n]? = some call → Acknowledged call → call.id = id →
      call.pending = some p' → p'.generation ≠ p.generation

theorem Evolves.undisturbed (h : Evolves s s') {began : Nat} (hle : began ≤ s.restores.length)
    (hnow : Undisturbed s' id began) :
    Undisturbed s id began ∧ (isLive s.saver.sessions id = false → isLive s'.saver.sessions id = false) ∧
      ∀ g, Kept s id g → Kept s' id g := by
  obtain ⟨extra, hrestores, hextra⟩ := h.restores
  unfold Undisturbed at hnow ⊢
  rw [hrestores, List.drop_append_of_le_length hle, List.mem_append, not_or] at hnow
  exact ⟨hnow.1, hextra id hnow.2⟩

theorem Evolves.restores_le (h : Evolves s s') : s.restores.length ≤ s'.restores.length := by
  obtain ⟨extra, hrestores, -⟩ := h.restores
  rw [hrestores, List.length_append]
  omega

variable {p : PendingArchive}

theorem Archives.evolve (hp : Archives s id p) (h : Evolves s s') : Archives s' id p where
  generation := hp.generation.trans h.generation
  transition := h.transitions _ hp.transition
  began := hp.began.trans h.restores_le
  kept := by
    intro hnow
    obtain ⟨hbefore, -, hkept⟩ := h.undisturbed hp.began hnow
    exact hkept _ (hp.kept hbefore)

variable {call : ArchiveCall κ}

theorem CallHolds.evolve (hc : CallHolds s call) (h : Evolves s s') : CallHolds s' call where
  began := hc.began.trans h.restores_le
  notLive := by
    intro hnow
    obtain ⟨hbefore, hlive, -⟩ := h.undisturbed hc.began hnow
    exact hlive (hc.notLive hbefore)
  pending := by
    intro p hp
    exact ⟨(hc.pending p hp).1, (hc.pending p hp).2.evolve h⟩
  persisted := by
    intro hphase p hp
    exact (hc.persisted hphase p hp).trans h.published_le
  acknowledged := by
    intro hack
    refine ⟨(hc.acknowledged hack).1, fun hnow => ?_⟩
    obtain ⟨file, hmem, harchived⟩ := (hc.acknowledged hack).2 (h.undisturbed hc.began hnow).1
    exact ⟨file, h.published file hmem, harchived⟩

/-- A step that leaves the calls alone keeps the invariant. -/
theorem Consistent.evolve (hs : Consistent s) (h : Evolves s s') (hcalls : s'.calls = s.calls)
    (hpendings : s'.pendingArchives = s.pendingArchives)
    (hattempts : ∀ id n, JsMap.get? s'.archiveAttempts id = some n →
      ∃ call, s.calls[n]? = some call ∧ call.id = id) : Consistent s' where
  bounded := h.bounded hs.bounded
  recorded := h.recorded hs.recorded
  pendings := by
    intro id p hp
    exact (hs.pendings id p (hpendings ▸ hp)).evolve h
  calls := by
    intro n call hn
    exact (hs.calls n call (hcalls ▸ hn)).evolve h
  attempts := by
    rw [hcalls]
    exact hattempts
  once := by
    rw [hcalls]
    exact hs.once
  fresh := by
    rw [hpendings, hcalls]
    exact hs.fresh

/-! ### A call goes on -/

omit [DecidableEq κ] in
theorem getElem?_setPhase (n m : Nat) (phase : ArchivePhase) :
    (s.setPhase n phase).calls[m]? =
      if n = m then (s.calls[m]?).map fun call => { call with phase := phase } else s.calls[m]? := by
  unfold setPhase
  rw [List.getElem?_modify]
  split
  · rfl
  · simp

theorem setPhase_evolves (n : Nat) (phase : ArchivePhase) : Evolves s (s.setPhase n phase) :=
  evolves_of_requests (.refl _) (.refl _) rfl rfl rfl

variable {n : Nat}

/-- Another phase that acknowledges nothing new keeps the invariant. -/
theorem Consistent.setPhase {phase : ArchivePhase} (hs : Consistent s)
    (hn : s.calls[n]? = some call)
    (hpersisted : phase = .persisted →
      ∀ p, call.pending = some p → p.generation ≤ s.saver.publishedGeneration)
    (hack : outcomeOf phase = some (some true) → Acknowledged call) : Consistent (s.setPhase n phase) := by
  -- a call of the new state is one of the old, with another phase for the `n`th
  have hcalls : ∀ (m : Nat) call', (s.setPhase n phase).calls[m]? = some call' →
      ∃ old, s.calls[m]? = some old ∧ call'.id = old.id ∧ call'.pending = old.pending ∧
        (Acknowledged call' → Acknowledged old) ∧ CallHolds s call' := by
    intro m call' hm
    rw [getElem?_setPhase] at hm
    split at hm
    · rename_i heq
      subst heq
      rw [hn, Option.map_some, Option.some.injEq] at hm
      subst hm
      have hc := hs.calls n call hn
      exact ⟨call, hn, rfl, rfl, hack,
        ⟨hc.began, hc.notLive, hc.pending, hpersisted, fun h => hc.acknowledged (hack h)⟩⟩
    · exact ⟨call', hm, rfl, rfl, fun h => h, hs.calls m call' hm⟩
  have h : Evolves s (s.setPhase n phase) := setPhase_evolves n phase
  refine ⟨h.bounded hs.bounded, h.recorded hs.recorded,
    fun id p hp => (hs.pendings id p hp).evolve h, fun m call' hm => ?_, fun id m hm => ?_,
    fun m m' c c' p p' hm hm' ha ha' hid hp hp' heq => ?_, fun id p hp m c p' hm ha hid hp' => ?_⟩
  · obtain ⟨old, -, -, -, -, hc⟩ := hcalls m call' hm
    exact hc.evolve h
  · obtain ⟨old, hold, hid⟩ := hs.attempts id m hm
    rw [getElem?_setPhase]
    split
    · rw [hold]
      exact ⟨_, rfl, hid⟩
    · exact ⟨old, hold, hid⟩
  · obtain ⟨old, hold, holdid, hpending, hacked, -⟩ := hcalls m c hm
    obtain ⟨old', hold', holdid', hpending', hacked', -⟩ := hcalls m' c' hm'
    exact hs.once m m' old old' p p' hold hold' (hacked ha) (hacked' ha')
      (holdid ▸ holdid' ▸ hid) (hpending ▸ hp) (hpending' ▸ hp') heq
  · obtain ⟨old, hold, holdid, hpending, hacked, -⟩ := hcalls m c hm
    exact hs.fresh id p hp m old p' hold (hacked ha) (holdid ▸ hid) (hpending ▸ hp')

theorem Consistent.addCall (hs : Consistent s) (hcall : CallHolds s call)
    (hack : ¬ Acknowledged call) : Consistent (s.addCall call) := by
  have hcalls : ∀ (m : Nat) call', (s.addCall call).calls[m]? = some call' →
      s.calls[m]? = some call' ∨ call' = call := by
    intro m call' hm
    show _ ∨ _
    unfold SessionStore.addCall at hm
    dsimp only at hm
    rw [List.getElem?_append] at hm
    split at hm
    · exact .inl hm
    · rw [List.getElem?_singleton] at hm
      split at hm
      · exact .inr (Option.some.inj hm).symm
      · cases hm
  have hold : ∀ (m : Nat) call', (s.addCall call).calls[m]? = some call' → Acknowledged call' →
      s.calls[m]? = some call' := by
    intro m call' hm ha
    cases hcalls m call' hm with
    | inl h => exact h
    | inr h => exact absurd (h ▸ ha) hack
  have h : Evolves s (s.addCall call) :=
    evolves_of_requests (.refl _) (.refl _) rfl rfl rfl
  refine ⟨h.bounded hs.bounded, h.recorded hs.recorded,
    fun id p hp => (hs.pendings id p hp).evolve h, fun m call' hm => ?_, fun id m hm => ?_,
    fun m m' c c' p p' hm hm' ha ha' => hs.once m m' c c' p p' (hold m c hm ha) (hold m' c' hm' ha')
      ha ha',
    fun id p hp m c p' hm ha => hs.fresh id p hp m c p' (hold m c hm ha) ha⟩
  · cases hcalls m call' hm with
    | inl hbefore => exact (hs.calls m call' hbefore).evolve h
    | inr hnew => exact hnew ▸ hcall.evolve h
  · obtain ⟨old, hm, hid⟩ := hs.attempts id m hm
    refine ⟨old, ?_, hid⟩
    show (s.calls ++ [call])[m]? = some old
    rw [List.getElem?_append_left (List.getElem?_eq_some_iff.mp hm).1]
    exact hm

/-! ### A call starts -/

theorem archiveNothing_consistent (hs : Consistent s) (hlive : isLive s.saver.sessions id = false) :
    Consistent (s.archiveNothing id) := by
  have hack : outcomeOf (if s.saver.asyncSaveInFlight.isSome then
      ArchivePhase.draining s.saver.drains else .returned (some false)) ≠ some (some true) := by
    split <;> simp [outcomeOf]
  refine hs.addCall ⟨le_rfl, fun _ => hlive, fun p hp => ?_, fun hphase => ?_, fun h => ?_⟩ hack
  · cases hp
  · dsimp only at hphase
    split at hphase <;> cases hphase
  · exact absurd h hack

theorem joinAttempt_consistent (hs : Consistent s)
    (hn : JsMap.get? s.archiveAttempts id = some n) : Consistent (s.joinAttempt id n) := by
  obtain ⟨owner, howner, hid⟩ := hs.attempts id n hn
  have hbegan : ((s.calls[n]?).map ArchiveCall.began).getD s.restores.length = owner.began := by
    rw [howner]
    rfl
  have hc := hs.calls n owner howner
  -- the row is as the owner of the attempt has it
  refine hs.addCall ⟨?_, ?_, fun p hp => ?_, fun hphase => ?_, fun h => ?_⟩ (by simp [Acknowledged, outcomeOf])
  · exact hbegan.le.trans hc.began
  · intro hnow
    unfold Undisturbed at hnow
    rw [hbegan] at hnow
    exact hid ▸ hc.notLive (hid ▸ hnow)
  · cases hp
  · cases hphase
  · simp [Acknowledged, outcomeOf] at h

theorem persistPhase_ne_acknowledged (b : SessionSaver.Barrier) :
    outcomeOf (persistPhase b) ≠ some (some true) := by
  cases b <;> simp [persistPhase, outcomeOf]

theorem persistPhase_eq_persisted {b : SessionSaver.Barrier} (h : persistPhase b = .persisted) :
    b = .persisted := by
  cases b <;> simp [persistPhase] at h ⊢

theorem startAttempt_consistent (hs : Consistent s) (hp : Archives s id p) :
    Consistent (s.startAttempt id p) := by
  have hwrites : s.saver.SameWrites (s.saver.clearTimer.persistThroughGeneration p.generation).1 :=
    (clearTimer_sameWrites _).trans (persistThroughGeneration_sameWrites _ _)
  have hrows : s.saver.SameRows (s.saver.clearTimer.persistThroughGeneration p.generation).1 :=
    (clearTimer_sameRows _).trans (persistThroughGeneration_sameRows _ _)
  have h : Evolves s
      { s with saver := (s.saver.clearTimer.persistThroughGeneration p.generation).1 } :=
    evolves_of_requests hwrites hrows rfl rfl rfl
  have hp := hp.evolve h
  have hack := persistPhase_ne_acknowledged
    (s.saver.clearTimer.persistThroughGeneration p.generation).2
  have hcall : CallHolds
      { s with saver := (s.saver.clearTimer.persistThroughGeneration p.generation).1 }
      { id := id
        pending := some p
        failureSequence := s.saver.persistenceFailureSequence
        began := p.began
        phase := persistPhase (s.saver.clearTimer.persistThroughGeneration p.generation).2 } := by
    refine ⟨hp.began, fun hnow => (hp.kept hnow).1, fun p' heq => ?_, fun hphase p' heq => ?_,
      fun h => absurd h hack⟩
    · exact ⟨by rw [Option.some.inj heq], Option.some.inj heq ▸ hp⟩
    · have hreached := persistThroughGeneration_persisted (persistPhase_eq_persisted hphase)
      rw [← Option.some.inj heq]
      exact hreached.trans hwrites.published.ge
  have hadded := (hs.evolve h rfl rfl hs.attempts).addCall hcall hack
  -- the attempt is entered once its call is there
  refine hadded.evolve (evolves_of_requests (.refl _) (.refl _) rfl rfl rfl) rfl rfl ?_
  intro id' n hn
  replace hn : JsMap.get? (JsMap.set s.archiveAttempts id s.calls.length) id' = some n := hn
  rw [JsMap.get?_set] at hn
  split at hn
  · rename_i heq
    rw [Option.some.injEq] at hn
    subst heq hn
    exact ⟨_, List.getElem?_concat_length, rfl⟩
  · exact hadded.attempts id' n hn

/-- The mutation of an archive, and its pending record. -/
theorem pend_consistent (hs : Consistent s) {existing : SessionRow} {now : Int}
    (hget : JsMap.get? s.saver.sessions id = some existing) (harchived : existing.archived = false)
    (hgeneration : p.generation = s.saver.generation + 1)
    (hbegan : p.began = s.restores.length) (hs' : s' = { s.mutate id
      (JsMap.set s.saver.sessions id (archivedRow existing now)) with
      pendingArchives := JsMap.set s.pendingArchives id p }) :
    Consistent s' ∧ Archives s' id p := by
  have h : Evolves s s' := by
    rw [hs']
    exact evolves_of_mutate (.refl _) (.refl _) rfl rfl (List.append_nil _).symm
      fun _ _ => fades_set hget fun _ => rfl
  have hsaver : s'.saver = s.saver.mutate
      (JsMap.set s.saver.sessions id (archivedRow existing now)) := by
    rw [hs']
    rfl
  have hrow : JsMap.get? s'.saver.sessions id = some (archivedRow existing now) := by
    rw [hsaver]
    exact (JsMap.get?_set _ _ _ _).trans (if_pos rfl)
  have hpendings : s'.pendingArchives = JsMap.set s.pendingArchives id p := by rw [hs']
  have hcalls : s'.calls = s.calls := by
    rw [hs']
    rfl
  have hp : Archives s' id p := by
    refine ⟨?_, ?_, ?_, fun _ => ⟨?_, fun _ => ⟨fun g payload hpayload hle => ?_, fun hreached => ?_⟩⟩⟩
    · rw [hgeneration, hsaver]
      exact le_rfl
    · -- the row was live, and is archived now
      have hlive : isLive s.saver.sessions id = true := by simp [isLive, hget, harchived]
      have hnow : isArchived (JsMap.set s.saver.sessions id (archivedRow existing now)) id = true := by
        rw [hsaver] at hrow
        replace hrow : JsMap.get? (JsMap.set s.saver.sessions id (archivedRow existing now)) id =
          some (archivedRow existing now) := hrow
        unfold isArchived
        rw [hrow]
        rfl
      rw [hs', hgeneration]
      simp [mutate, hlive, hnow]
    · rw [hbegan]
      exact h.restores_le
    · simp [isLive, hrow, archivedRow]
    · -- no payload has the new generation yet
      rw [hsaver] at hpayload
      have hlast := hs.bounded.payload g payload hpayload
      omega
    · rw [hsaver] at hreached
      have hlast := hs.bounded.reached p.generation hreached
      omega
  refine ⟨⟨h.bounded hs.bounded, h.recorded hs.recorded, fun id' p' hp' => ?_,
    fun n call hn => (hs.calls n call (hcalls ▸ hn)).evolve h, ?_, ?_,
    fun id' p' hp' n call q hn ha hid hq => ?_⟩, hp⟩
  · rw [hpendings, JsMap.get?_set] at hp'
    split at hp'
    · rename_i heq
      rw [heq, ← Option.some.inj hp']
      exact hp
    · exact (hs.pendings id' p' hp').evolve h
  · rw [hcalls, hs']
    exact hs.attempts
  · rw [hcalls]
    exact hs.once
  · rw [hcalls] at hn
    rw [hpendings, JsMap.get?_set] at hp'
    split at hp'
    · -- every acknowledged transition is an earlier one
      have hlast := ((hs.calls n call hn).pending q hq).2.generation
      rw [← Option.some.inj hp', hgeneration]
      omega
    · exact hs.fresh id' p' hp' n call q hn ha hid hq

theorem archiveAsync_consistent (hs : Consistent s) (now : Int) :
    Consistent (s.archiveAsync id now) := by
  unfold archiveAsync
  split
  · rename_i hget
    exact archiveNothing_consistent hs (by simp [isLive, hget])
  · rename_i existing hget
    split
    · rename_i n hn
      exact joinAttempt_consistent hs hn
    · split
      · rename_i p hp
        exact startAttempt_consistent hs (hs.pendings id p hp)
      · split
        · rename_i harchived
          exact archiveNothing_consistent hs (by simp [isLive, hget, harchived])
        · rename_i harchived
          obtain ⟨hpended, hp⟩ := pend_consistent hs hget (by simpa using harchived)
            (p := ⟨s.saver.generation + 1, existing.ref, now, s.restores.length⟩) rfl rfl rfl
          exact startAttempt_consistent hpended hp

/-! ### An attempt ends -/

/-- The pending record is dropped, and its transition acknowledged or not. -/
theorem acknowledge_consistent (hs : Consistent s)
    (hn : s.calls[n]? = some call) (hp : call.pending = some p)
    (hpending : JsMap.get? s.pendingArchives call.id = some p) {acknowledged : Bool}
    (hfile : acknowledged = true → Undisturbed s call.id call.began →
      ∃ file ∈ s.published, isArchived file call.id = true) :
    Consistent ({ s with pendingArchives := JsMap.erase s.pendingArchives call.id }.setPhase n
      (.returned (some acknowledged))) := by
  have hc := hs.calls n call hn
  have h : Evolves s ({ s with
      pendingArchives := JsMap.erase s.pendingArchives call.id }.setPhase n
      (.returned (some acknowledged))) :=
    evolves_of_requests (.refl _) (.refl _) rfl rfl rfl
  have hpendings : ∀ id' p', JsMap.get? (JsMap.erase s.pendingArchives call.id) id' = some p' →
      id' ≠ call.id ∧ JsMap.get? s.pendingArchives id' = some p' := by
    intro id' p' hp'
    rw [JsMap.get?_erase] at hp'
    split at hp'
    · cases hp'
    · rename_i hne
      exact ⟨hne, hp'⟩
  have hcalls : ∀ (m : Nat) call', (s.setPhase n (.returned (some acknowledged))).calls[m]? = some call' →
      m = n ∧ call' = { call with phase := .returned (some acknowledged) } ∨
        m ≠ n ∧ s.calls[m]? = some call' := by
    intro m call' hm
    rw [getElem?_setPhase] at hm
    split at hm
    · rename_i heq
      subst heq
      rw [hn, Option.map_some, Option.some.injEq] at hm
      exact .inl ⟨rfl, hm.symm⟩
    · rename_i hne
      exact .inr ⟨fun heq => hne heq.symm, hm⟩
  refine ⟨h.bounded hs.bounded, h.recorded hs.recorded,
    fun id' p' hp' => (hs.pendings id' p' (hpendings id' p' hp').2).evolve h,
    fun m call' hm => ?_, fun id' m hm => ?_,
    fun m m' c c' q q' hm hm' ha ha' hid hq hq' heq => ?_,
    fun id' p' hp' m c q hm ha hid hq => ?_⟩
  · cases hcalls m call' hm with
    | inl hself =>
      obtain ⟨-, rfl⟩ := hself
      have hholds : CallHolds s { call with phase := .returned (some acknowledged) } := by
        refine ⟨hc.began, hc.notLive, hc.pending, fun hphase => ?_, fun ha => ?_⟩
        · cases hphase
        · refine ⟨by simp [hp], hfile ?_⟩
          simpa [Acknowledged, outcomeOf] using ha
      exact hholds.evolve h
    | inr hother => exact (hs.calls m call' hother.2).evolve h
  · obtain ⟨old, hold, hid⟩ := hs.attempts id' m hm
    show ∃ call', (s.setPhase n (.returned (some acknowledged))).calls[m]? = some call' ∧ _
    rw [getElem?_setPhase]
    split
    · rw [hold]
      exact ⟨_, rfl, hid⟩
    · exact ⟨old, hold, hid⟩
  · -- no other call has acknowledged this transition: its record was still pending
    cases hcalls m c hm with
    | inl hself =>
      cases hcalls m' c' hm' with
      | inl hself' => exact hself.1.trans hself'.1.symm
      | inr hother' =>
        obtain ⟨-, rfl⟩ := hself
        have hqp : q = p := Option.some.inj (hq.symm.trans hp)
        exact absurd (hqp ▸ heq.symm)
          (hs.fresh call.id p hpending m' c' q' hother'.2 ha' hid.symm hq')
    | inr hother =>
      cases hcalls m' c' hm' with
      | inl hself' =>
        obtain ⟨-, rfl⟩ := hself'
        have hqp : q' = p := Option.some.inj (hq'.symm.trans hp)
        exact absurd (hqp ▸ heq) (hs.fresh call.id p hpending m c q hother.2 ha hid hq)
      | inr hother' => exact hs.once m m' c c' q q' hother.2 hother'.2 ha ha' hid hq hq' heq
  · obtain ⟨hne, hp'⟩ := hpendings id' p' hp'
    cases hcalls m c hm with
    | inl hself =>
      obtain ⟨-, rfl⟩ := hself
      exact absurd hid.symm hne
    | inr hother => exact hs.fresh id' p' hp' m c q hother.2 ha hid hq

/-- An attempt whose tests pass finds its row in a published file. -/
theorem published_of_acknowledges (hs : Consistent s)
    (hn : s.calls[n]? = some call) (hphase : call.phase = .persisted)
    (hp : call.pending = some p) (hack : s.acknowledges call.id p = true)
    (hnow : Undisturbed s call.id call.began) :
    ∃ file ∈ s.published, isArchived file call.id = true := by
  have hc := hs.calls n call hn
  obtain ⟨hbegan, harchives⟩ := hc.pending p hp
  have hpresent : (JsMap.get? s.saver.sessions call.id).isSome := by
    unfold acknowledges at hack
    split at hack
    · cases hack
    · rename_i current hget
      rw [hget]
      rfl
  exact ((harchives.kept (hbegan ▸ hnow)).2 hpresent).2 (.inl (hc.persisted hphase p hp))

theorem finishAttempt_consistent (hs : Consistent s)
    (hn : s.calls[n]? = some call) (hphase : call.phase = .persisted)
    (hp : call.pending = some p) : Consistent (s.finishAttempt n call.id p) := by
  unfold finishAttempt
  split
  · rename_i hpending
    exact acknowledge_consistent hs hn hp hpending (published_of_acknowledges hs hn hphase hp)
  · exact hs.setPhase hn (fun h => by cases h) (by simp [outcomeOf])

theorem resume_consistent (hs : Consistent s) (n : Nat) : Consistent (s.resume n) := by
  unfold resume
  split
  · exact hs
  · rename_i call hn
    split
    · rename_i drain p hphase hp
      split
      · have hwrites := persistResumed_sameWrites s.saver p.generation call.failureSequence
        have hrows := persistResumed_sameRows s.saver p.generation call.failureSequence
        have h : Evolves s { s with
            saver := (s.saver.persistResumed p.generation call.failureSequence).1 } :=
          evolves_of_requests hwrites hrows rfl rfl rfl
        refine (hs.evolve h rfl rfl hs.attempts).setPhase hn (fun hpersisted p' hp' => ?_)
          (fun hack => absurd hack (persistPhase_ne_acknowledged _))
        have hreached := persistResumed_persisted (persistPhase_eq_persisted hpersisted)
        rw [Option.some.inj (hp'.symm.trans hp)]
        exact hreached.trans hwrites.published.ge
      · exact hs
    · rename_i p hphase hp
      exact finishAttempt_consistent hs hn hphase hp
    · rename_i attempt hphase
      split
      · rename_i outcome _
        exact hs.setPhase hn (fun h => by cases h) (by cases outcome <;> simp [outcomeOf])
      · rename_i outcome _
        exact hs.setPhase hn (fun h => by cases h) (by cases outcome <;> simp [outcomeOf])
      · exact hs
    · split
      · exact hs.setPhase hn (fun h => by cases h) (by simp [outcomeOf])
      · exact hs
    · exact hs

theorem settle_consistent (hs : Consistent s) (n : Nat) : Consistent (s.settle n) := by
  unfold settle
  split
  · exact hs
  · rename_i call hn
    split
    · rename_i outcome hphase
      have hsettled : Consistent { s with
          archiveAttempts :=
            if JsMap.get? s.archiveAttempts call.id = some n then
              JsMap.erase s.archiveAttempts call.id
            else s.archiveAttempts } := by
        refine hs.evolve (evolves_of_requests (.refl _) (.refl _) rfl rfl rfl) rfl rfl ?_
        intro id' m hm
        dsimp only at hm
        split at hm
        · rw [JsMap.get?_erase] at hm
          split at hm
          · cases hm
          · exact hs.attempts id' m hm
        · exact hs.attempts id' m hm
      refine hsettled.setPhase hn (fun h => by cases h) (fun hack => ?_)
      simpa [Acknowledged, hphase, outcomeOf] using hack
    · exact hs

/-! ## Every run -/

/-- The calls, and what they have entered in the store, are the same. -/
def SameCalls (s s' : SessionStore κ) : Prop :=
  s'.calls = s.calls ∧ s'.pendingArchives = s.pendingArchives ∧
    s'.archiveAttempts = s.archiveAttempts

theorem purgeAsync_sameCalls (s : SessionStore κ) (key : κ) : SameCalls s (s.purgeAsync key) := by
  unfold purgeAsync
  split <;> exact ⟨rfl, rfl, rfl⟩

theorem archive_sameCalls (s : SessionStore κ) (key : κ) (now : Int) :
    SameCalls s (s.archive key now) := by
  unfold archive
  split
  · exact ⟨rfl, rfl, rfl⟩
  · split <;> exact ⟨rfl, rfl, rfl⟩

theorem update_sameCalls (s : SessionStore κ) (key : κ) (archived : Option Bool)
    (archivedAt : Option (Option Int)) (critical : Bool) :
    SameCalls s (s.update key archived archivedAt critical) := by
  unfold update
  split
  · exact ⟨rfl, rfl, rfl⟩
  · dsimp only
    split <;> split <;> exact ⟨rfl, rfl, rfl⟩

/-- A step that leaves the calls alone keeps the invariant. -/
theorem Consistent.evolve_of_sameCalls (hs : Consistent s) (h : Evolves s s')
    (hsame : SameCalls s s') : Consistent s' := by
  obtain ⟨hcalls, hpendings, hattempts⟩ := hsame
  exact hs.evolve h hcalls hpendings (hattempts ▸ hs.attempts)

/-- **One step.** Every step keeps the invariant. -/
theorem step_consistent (hs : Consistent s) (event : Event κ) : Consistent (s.step event) := by
  -- the steps that leave the calls alone evolve what the calls rely on
  cases event with
  | put key session => exact hs.evolve (put_evolves s key session) rfl rfl hs.attempts
  | remove key => exact hs.evolve (remove_evolves s key) rfl rfl hs.attempts
  | purge key =>
    show Consistent (s.purge key)
    unfold purge
    split
    · exact hs.evolve (remove_evolves s key) rfl rfl hs.attempts
    · exact hs
  | purgeAsync key =>
    exact hs.evolve_of_sameCalls (purgeAsync_evolves s key) (purgeAsync_sameCalls s key)
  | update key archived archivedAt critical =>
    exact hs.evolve_of_sameCalls (update_evolves s key archived archivedAt critical)
      (update_sameCalls s key archived archivedAt critical)
  | archive key now =>
    exact hs.evolve_of_sameCalls (archive_evolves s key now) (archive_sameCalls s key now)
  | archiveAsync key now => exact archiveAsync_consistent hs now
  | clearTimer =>
    exact hs.evolve (evolves_of_requests (clearTimer_sameWrites _) (clearTimer_sameRows _) rfl rfl rfl)
      rfl rfl hs.attempts
  | barrier targetGeneration =>
    exact hs.evolve (evolves_of_requests (persistThroughGeneration_sameWrites _ _)
      (persistThroughGeneration_sameRows _ _) rfl rfl rfl) rfl rfl hs.attempts
  | timerFired =>
    exact hs.evolve (evolves_of_requests (timerFired_sameWrites _) (timerFired_sameRows _) rfl rfl rfl)
      rfl rfl hs.attempts
  | serialize => exact hs.evolve (serialize_evolves s) rfl rfl hs.attempts
  | rename => exact hs.evolve (rename_evolves s) rfl rfl hs.attempts
  | drained => exact hs.evolve (drained_evolves s) rfl rfl hs.attempts
  | failed => exact hs.evolve (failed_evolves s) rfl rfl hs.attempts
  | resume n => exact resume_consistent hs n
  | settle n => exact settle_consistent hs n

theorem loaded_consistent (rows : JsMap κ SessionRow) : Consistent (loaded rows) where
  bounded := loaded_bounded rows
  recorded := by simp [Recorded, loaded]
  pendings := by
    intro id p hp
    cases hp
  calls := by
    intro n call hn
    simp [loaded] at hn
  attempts := by
    intro id n hn
    cases hn
  once := by
    intro n m call call' p p' hn
    simp [loaded] at hn
  fresh := by
    intro id p hp
    cases hp

/-- A call that is about to settle, and what it settles with. -/
def Settles (s : SessionStore κ) (n : Nat) (call : ArchiveCall κ) (result : Bool) : Prop :=
  s.calls[n]? = some call ∧ call.phase = .returned (some result)

/-- The row is archived or gone, and if the call settles with `true` a published file has it
    archived. -/
def Archived (s : SessionStore κ) (id : κ) (result : Bool) : Prop :=
  isLive s.saver.sessions id = false ∧
    (result = true → ∃ file ∈ s.published, isArchived file id = true)

/-- Every call that has acknowledged an archive is the only one for one transition of its row. -/
def OncePerTransition (s : SessionStore κ) : Prop :=
  s.transitions.Nodup ∧
    ∀ (n : Nat) call, s.calls[n]? = some call → Acknowledged call →
      ∃ p, call.pending = some p ∧ (call.id, p.generation) ∈ s.transitions ∧
        ∀ (m : Nat) call' p', s.calls[m]? = some call' → Acknowledged call' →
          call'.id = call.id → call'.pending = some p' → p'.generation = p.generation → m = n

theorem Consistent.oncePerTransition (hs : Consistent s) : OncePerTransition s := by
  refine ⟨hs.recorded.1, fun n call hn hack => ?_⟩
  have hc := hs.calls n call hn
  obtain ⟨p, hp⟩ := Option.isSome_iff_exists.mp (hc.acknowledged hack).1
  refine ⟨p, hp, (hc.pending p hp).2.transition, ?_⟩
  intro m call' p' hm hack' hid hp' hgeneration
  exact hs.once m n call' call p' p hm hn hack' hack hid hp' hp hgeneration

theorem Consistent.archived (hs : Consistent s) {result : Bool}
    (h : Settles s n call result) (hnow : Undisturbed s call.id call.began) :
    Archived s call.id result := by
  obtain ⟨hn, hphase⟩ := h
  have hc := hs.calls n call hn
  refine ⟨hc.notLive hnow, fun htrue => (hc.acknowledged ?_).2 hnow⟩
  rw [Acknowledged, hphase, htrue]
  rfl

end Bobbit.Server.SessionStore
