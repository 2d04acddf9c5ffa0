import Bobbit.Lib.List
import Bobbit.Lib.Run
import Bobbit.Server.BgProcessManager

/-!
# Kill escalation of background processes

A kill sends SIGTERM and arms a timer that sends SIGKILL. `stopTimers` clears the timer of the
last kill with all the others, and a process whose pid is pending gets neither. So escalation is
kept exactly along the runs that kill only processes with a pid, and dismiss or clean up a
running process only when an earlier kill has its own timer, or when its status file has the end.

## Key results

* `stopTimers_spec`, `terminalize_spec`, `checkStatus_spec`, `requested_spec` — what each part
  of an operation does to its instance, and that it leaves the others alone.
* `escalation_kept_iff` — the exact condition along runs.
* `dismissed_not_killed` — a forced dismissal of a running process.
-/

namespace Bobbit.Server.BgProcessManager

open Lib

variable {s s' : BgProcessManager} {i : Nat} {bg : BgProcess}

/-- A SIGKILL was sent to the process group of an instance, or a timer that sends one is armed. -/
def Covered (s : BgProcessManager) (i : Nat) : Prop :=
  (i, .kill) ∈ s.signals ∨ ∃ timer ∈ s.armed, timer.2 = i

/-- Every instance whose kill was requested is covered, until it is known to have ended. -/
def EscalationKept (s : BgProcessManager) : Prop :=
  ∀ (i : Nat) bg, s.heap[i]? = some bg → bg.killRequested = true → bg.status = .running →
    Covered s i

/-- The status file has an exit code. -/
def hasCode (probe : Probe) : Bool :=
  match probe.status with
  | .code _ => true
  | _ => false

/-- A forced end of a running process finds its exit code, or an earlier kill. -/
def EndCovered (s : BgProcessManager) (i : Nat) (probe : Probe) : Prop :=
  ∀ bg ∈ s.heap[i]?, bg.status = .running → bg.killRequested = true ∨ hasCode probe = true

/-- A kill finds a pid or an exit code; a forced dismissal and a cleanup find an exit code or an
    earlier kill. -/
def KillsCovered (s : BgProcessManager) : Event → Prop
  | .kill sessionId id probe =>
    ∀ i ∈ s.lookup sessionId id, ∀ bg ∈ s.heap[i]?, bg.status = .running →
      0 < bg.processPid ∨ hasCode probe = true
  | .dismiss sessionId id force probe =>
    force = true → ∀ i ∈ s.lookup sessionId id, EndCovered s i probe
  | .cleanup sessionId probe =>
    ∀ map ∈ JsMap.get? s.processes sessionId, ∀ entry ∈ map, EndCovered s entry.2 (probe entry.1)
  | _ => True

instance (s : BgProcessManager) (i : Nat) : Decidable (Covered s i) :=
  inferInstanceAs (Decidable (_ ∨ ∃ timer ∈ s.armed, timer.2 = i))

instance (s : BgProcessManager) (i : Nat) (probe : Probe) : Decidable (EndCovered s i probe) :=
  inferInstanceAs (Decidable (∀ bg ∈ s.heap[i]?, _ → _))

instance (s : BgProcessManager) : (event : Event) → Decidable (KillsCovered s event)
  | .kill _ _ _ => inferInstanceAs (Decidable (∀ i ∈ s.lookup _ _, ∀ bg ∈ s.heap[i]?, _ → _))
  | .dismiss _ _ _ _ => inferInstanceAs (Decidable (_ → ∀ i ∈ s.lookup _ _, _))
  | .cleanup _ _ => inferInstanceAs (Decidable (∀ map ∈ JsMap.get? s.processes _, _))
  | .create _ _ _ _ | .childError _ | .childExit _ _ _ | .chunk _ | .poll _ _ | .pidTimer _ _
  | .escalation _ | .restoreSession _ | .restoreNext _ _ _ | .restoreResume _ _ _ =>
    inferInstanceAs (Decidable True)

/-! ## What every state keeps -/

/-- The timers belong to their instances, and an instance without a kill or without a pid has
    none. -/
structure Sound (s : BgProcessManager) : Prop where
  fresh : ∀ timer ∈ s.armed, timer.1 < s.handles
  distinct : ∀ timer ∈ s.armed, ∀ timer' ∈ s.armed, timer.1 = timer'.1 → timer = timer'
  own : ∀ (i : Nat) bg h, s.heap[i]? = some bg → bg.killEscalate = some h →
    h < s.handles ∧ ∀ timer ∈ s.armed, timer.1 = h → timer.2 = i
  known : ∀ i, Covered s i → i < s.heap.length
  quiet : ∀ (i : Nat) bg, s.heap[i]? = some bg →
    bg.killRequested = false ∨ bg.processPid = 0 → ¬ Covered s i
  keyed : ∀ sessionId id i, s.lookup sessionId id = some i →
    ∃ bg, s.heap[i]? = some bg ∧ bg.sessionId = sessionId ∧ bg.id = id
  nodup : ∀ sessionId map, JsMap.get? s.processes sessionId = some map → (JsMap.keys map).Nodup

/-- Two states that differ in rows, the store and the restores only. -/
structure SameLife (s s' : BgProcessManager) : Prop where
  heap : s'.heap = s.heap
  armed : s'.armed = s.armed
  handles : s'.handles = s.handles
  signals : s'.signals = s.signals
  processes : s'.processes = s.processes

theorem SameLife.covered (h : SameLife s s') (i : Nat) : Covered s' i ↔ Covered s i := by
  unfold Covered
  rw [h.armed, h.signals]

theorem SameLife.sound (h : SameLife s s') (hs : Sound s) : Sound s' where
  fresh := by
    rw [h.armed, h.handles]
    exact hs.fresh
  distinct := by
    rw [h.armed]
    exact hs.distinct
  own := by
    rw [h.heap, h.armed, h.handles]
    exact hs.own
  known := by
    intro i hi
    rw [h.heap]
    exact hs.known i ((h.covered i).mp hi)
  quiet := by
    intro i bg hi hquiet hcovered
    rw [h.heap] at hi
    exact hs.quiet i bg hi hquiet ((h.covered i).mp hcovered)
  keyed := by
    unfold lookup
    rw [h.processes, h.heap]
    exact hs.keyed
  nodup := by
    rw [h.processes]
    exact hs.nodup

theorem SameLife.kept (h : SameLife s s') (hP : EscalationKept s) : EscalationKept s' := by
  intro i bg hi hrequested hrunning
  rw [h.heap] at hi
  exact (h.covered i).mpr (hP i bg hi hrequested hrunning)

theorem update_sameLife (s : BgProcessManager) (sessionId : String) (id : Nat)
    (f : PersistedBgProcess → PersistedBgProcess) : SameLife s (s.update sessionId id f) := by
  unfold update
  split <;> exact ⟨rfl, rfl, rfl, rfl, rfl⟩

/-- An operation on one instance, seen from the others. -/
structure Elsewhere (i : Nat) (s s' : BgProcessManager) : Prop where
  heap : ∀ j, i ≠ j → s'.heap[j]? = s.heap[j]?
  covered : ∀ j, i ≠ j → (Covered s' j ↔ Covered s j)
  processes : s'.processes = s.processes

theorem Elsewhere.refl (i : Nat) (s : BgProcessManager) : Elsewhere i s s :=
  ⟨fun _ _ => rfl, fun _ _ => Iff.rfl, rfl⟩

theorem Elsewhere.trans {s'' : BgProcessManager} (h : Elsewhere i s s')
    (h' : Elsewhere i s' s'') : Elsewhere i s s'' where
  heap := fun j hj => (h'.heap j hj).trans (h.heap j hj)
  covered := fun j hj => (h'.covered j hj).trans (h.covered j hj)
  processes := h'.processes.trans h.processes

theorem SameLife.elsewhere (h : SameLife s s') (i : Nat) : Elsewhere i s s' :=
  ⟨fun j _ => by rw [h.heap], fun j _ => h.covered j, h.processes⟩

/-! ## One instance -/

/-- A change to an instance that keeps its names, its escalation handle or none, and does not bring
    back a missing kill or pid. -/
structure Mild (bg bg' : BgProcess) : Prop where
  sessionId : bg'.sessionId = bg.sessionId
  id : bg'.id = bg.id
  escalate : bg'.killEscalate = bg.killEscalate ∨ bg'.killEscalate = none
  quiet : bg'.killRequested = false ∨ bg'.processPid = 0 →
    bg.killRequested = false ∨ bg.processPid = 0

theorem onBg_covered (s : BgProcessManager) (i j : Nat) (f : BgProcess → BgProcess) :
    Covered (s.onBg i f) j ↔ Covered s j :=
  Iff.rfl

theorem onBg_elsewhere (s : BgProcessManager) (i : Nat) (f : BgProcess → BgProcess) :
    Elsewhere i s (s.onBg i f) where
  heap := by
    intro j hj
    show (s.heap.modify i f)[j]? = s.heap[j]?
    simp [hj]
  covered := fun j _ => onBg_covered s i j f
  processes := rfl

theorem onBg_sound (hs : Sound s) (hi : s.heap[i]? = some bg) {f : BgProcess → BgProcess}
    (hf : Mild bg (f bg)) : Sound (s.onBg i f) where
  fresh := hs.fresh
  distinct := hs.distinct
  own := by
    intro j c h hj hescalate
    have hset : (s.heap.modify i f)[j]? = some c := hj
    rw [getElem?_modify_of_some hi] at hset
    split at hset
    · rename_i heq
      subst heq
      cases hset
      rcases hf.escalate with hsame | hnone
      · exact hs.own i bg h hi (hsame ▸ hescalate)
      · rw [hnone] at hescalate
        cases hescalate
    · exact hs.own j c h hset hescalate
  known := by
    intro j hj
    show j < (s.heap.modify i f).length
    rw [List.length_modify]
    exact hs.known j hj
  quiet := by
    intro j c hj hquiet
    have hset : (s.heap.modify i f)[j]? = some c := hj
    rw [getElem?_modify_of_some hi] at hset
    split at hset
    · rename_i heq
      subst heq
      cases hset
      exact hs.quiet i bg hi (hf.quiet hquiet)
    · exact hs.quiet j c hset hquiet
  keyed := by
    intro sessionId id j hlookup
    obtain ⟨c, hj, hsession, hid⟩ := hs.keyed sessionId id j hlookup
    show ∃ c, (s.heap.modify i f)[j]? = some c ∧ _
    rw [getElem?_modify_of_some hi]
    split
    · rename_i heq
      subst heq
      rw [hi, Option.some.injEq] at hj
      subst hj
      exact ⟨_, rfl, hf.sessionId.trans hsession, hf.id.trans hid⟩
    · exact ⟨c, hj, hsession, hid⟩
  nodup := hs.nodup

/-! ## Stopped timers -/

/-- Without the handle of an instance, the timers of the others are as they were. -/
theorem clearEscalation_spec (hs : Sound s) (hi : s.heap[i]? = some bg) :
    Sound (s.clearEscalation bg.killEscalate) ∧
      Elsewhere i s (s.clearEscalation bg.killEscalate) ∧
      (s.clearEscalation bg.killEscalate).heap = s.heap ∧
      (Covered (s.clearEscalation bg.killEscalate) i → Covered s i) := by
  unfold clearEscalation
  cases hescalate : bg.killEscalate with
  | none => exact ⟨hs, .refl i s, rfl, id⟩
  | some h =>
    have hown := (hs.own i bg h hi hescalate).2
    have hmem : ∀ timer, timer ∈ s.armed.filter (fun t => t.1 ≠ h) →
        timer ∈ s.armed := fun timer htimer => (List.mem_filter.mp htimer).1
    have hless : ∀ j, Covered { s with armed := s.armed.filter fun t => t.1 ≠ h } j →
        Covered s j := by
      rintro j (hsignal | ⟨timer, htimer, hj⟩)
      · exact .inl hsignal
      · exact .inr ⟨timer, hmem timer htimer, hj⟩
    refine ⟨⟨?_, ?_, ?_, ?_, ?_, hs.keyed, hs.nodup⟩, ⟨fun _ _ => rfl, fun j hj => ?_, rfl⟩, rfl,
      hless i⟩
    · exact fun timer htimer => hs.fresh timer (hmem timer htimer)
    · exact fun t ht t' ht' => hs.distinct t (hmem t ht) t' (hmem t' ht')
    · intro j c h' hj hescalate'
      obtain ⟨hlt, hall⟩ := hs.own j c h' hj hescalate'
      exact ⟨hlt, fun t ht => hall t (hmem t ht)⟩
    · exact fun j hj => hs.known j (hless j hj)
    · exact fun j c hj hquiet hcovered => hs.quiet j c hj hquiet (hless j hcovered)
    · refine ⟨hless j, ?_⟩
      rintro (hsignal | ⟨timer, htimer, heq⟩)
      · exact .inl hsignal
      · refine .inr ⟨timer, List.mem_filter.mpr ⟨htimer, ?_⟩, heq⟩
        simp only [ne_eq, decide_not, Bool.not_eq_true', decide_eq_false_iff_not]
        exact fun hsame => hj ((hown timer htimer hsame).symm.trans heq)

/-- An instance with its timers stopped. -/
def stopped (bg : BgProcess) : BgProcess :=
  { bg with tailers := false, statusTimer := false, killEscalate := none, pidResolveTimer := none }

theorem stopTimers_eq (hi : s.heap[i]? = some bg) :
    s.stopTimers i = (s.clearEscalation bg.killEscalate).onBg i stopped := by
  unfold stopTimers
  rw [hi]
  rfl

theorem stopTimers_spec (hs : Sound s) (hi : s.heap[i]? = some bg) :
    Sound (s.stopTimers i) ∧ Elsewhere i s (s.stopTimers i) ∧
      (s.stopTimers i).heap[i]? = some (stopped bg) ∧
      (Covered (s.stopTimers i) i → Covered s i) := by
  obtain ⟨hsound, helse, hheap, hcovered⟩ := clearEscalation_spec hs hi
  have hi' : (s.clearEscalation bg.killEscalate).heap[i]? = some bg := by rw [hheap, hi]
  rw [stopTimers_eq hi]
  refine ⟨onBg_sound hsound hi' ⟨rfl, rfl, .inr rfl, id⟩, helse.trans (onBg_elsewhere _ i _), ?_,
    hcovered⟩
  show ((s.clearEscalation bg.killEscalate).heap.modify i stopped)[i]? = _
  rw [getElem?_modify_of_some hi', if_pos rfl]

/-! ## Ends -/

/-- An instance that is not running. -/
def Ended (s : BgProcessManager) (i : Nat) : Prop :=
  ∀ bg, s.heap[i]? = some bg → bg.status ≠ .running

theorem statusOf_ne_running (reason : TerminalReason) : statusOf reason ≠ .running := by
  cases reason <;> simp [statusOf]

theorem terminalize_spec (hs : Sound s) (i : Nat) (exitCode : Option Int)
    (reason : TerminalReason) :
    Sound (s.terminalize i exitCode reason) ∧ Elsewhere i s (s.terminalize i exitCode reason) ∧
      Ended (s.terminalize i exitCode reason) i := by
  unfold terminalize
  cases hi : s.heap[i]? with
  | none =>
    refine ⟨hs, .refl i s, fun bg hbg => ?_⟩
    rw [hi] at hbg
    cases hbg
  | some bg =>
    dsimp only
    split
    · -- the fields, then the timers, then the row
      generalize hmarked : (s.onBg i fun bg => { bg with
        status := statusOf reason
        exitCode := exitCode
        terminalReason := some reason
        dockerExitWithoutStatusAt := none }) = marked
      have hmild : Sound marked ∧ Elsewhere i s marked ∧ marked.heap[i]? = some { bg with
          status := statusOf reason
          exitCode := exitCode
          terminalReason := some reason
          dockerExitWithoutStatusAt := none } := by
        rw [← hmarked]
        refine ⟨onBg_sound hs hi ⟨rfl, rfl, .inl rfl, id⟩, onBg_elsewhere s i _, ?_⟩
        show (s.heap.modify i _)[i]? = _
        rw [getElem?_modify_of_some hi, if_pos rfl]
      obtain ⟨hsound, helse, hget⟩ := hmild
      obtain ⟨hsound', helse', hget', _⟩ := stopTimers_spec hsound hget
      have hsame := update_sameLife (marked.stopTimers i) bg.sessionId bg.id fun row => { row with
        status := statusOf reason
        exitCode := exitCode
        terminalReason := some reason
        dockerExitWithoutStatusAt := none }
      have hlife : ∀ t : BgProcessManager, SameLife t { t with exits := t.exits ++ [bg.nonce] } :=
        fun t => ⟨rfl, rfl, rfl, rfl, rfl⟩
      refine ⟨(hlife _).sound (hsame.sound hsound'),
        (helse.trans helse').trans ((hsame.elsewhere i).trans ((hlife _).elsewhere i)), ?_⟩
      intro bg' hbg'
      have hbg' : ((marked.stopTimers i).update bg.sessionId bg.id _).heap[i]? = some bg' := hbg'
      rw [hsame.heap, hget', Option.some.injEq] at hbg'
      subst hbg'
      exact statusOf_ne_running reason
    · rename_i hnot
      refine ⟨hs, .refl i s, fun bg' hbg' => ?_⟩
      rw [hi, Option.some.injEq] at hbg'
      subst hbg'
      exact hnot

theorem checkStatus_spec (hs : Sound s) (i : Nat) (probe : Probe) :
    Sound (s.checkStatus i probe).1 ∧ Elsewhere i s (s.checkStatus i probe).1 ∧
      ((s.checkStatus i probe).1 = s ∨ Ended (s.checkStatus i probe).1 i) := by
  have hend : ∀ exitCode reason, Sound (s.terminalize i exitCode reason) ∧
      Elsewhere i s (s.terminalize i exitCode reason) ∧
      (s.terminalize i exitCode reason = s ∨ Ended (s.terminalize i exitCode reason) i) := by
    intro exitCode reason
    obtain ⟨h, h', h''⟩ := terminalize_spec hs i exitCode reason
    exact ⟨h, h', .inr h''⟩
  have hstay : Sound s ∧ Elsewhere i s s ∧ (s = s ∨ Ended s i) := ⟨hs, .refl i s, .inl rfl⟩
  unfold checkStatus
  split
  · exact hstay
  · split
    · exact hstay
    · split
      · exact hend _ _
      · exact hstay
      · split
        · exact hend _ _
        · split
          · exact hend _ _
          · exact hstay

variable {probe : Probe}

theorem checkStatus_code (hs : Sound s) (i : Nat) (hcode : hasCode probe = true) :
    Ended (s.checkStatus i probe).1 i := by
  unfold checkStatus
  cases hi : s.heap[i]? with
  | none =>
    intro bg hbg
    dsimp only at hbg
    rw [hi] at hbg
    cases hbg
  | some bg =>
    dsimp only
    split
    · rename_i hnot
      intro bg' hbg'
      dsimp only at hbg'
      rw [hi, Option.some.injEq] at hbg'
      subst hbg'
      exact hnot
    · unfold hasCode at hcode
      split at hcode
      · rename_i exitCode hstatus
        simp only [hstatus]
        exact (terminalize_spec hs i _ _).2.2
      · cases hcode

/-- A check right after a kill finds nothing but an exit code. -/
theorem checkStatus_requested (hi : s.heap[i]? = some bg)
    (hrequested : bg.killRequested = true) (hintent : bg.killIntent = some probe.now)
    (hcode : hasCode probe = false) : (s.checkStatus i probe).1 = s := by
  unfold checkStatus
  rw [hi]
  dsimp only
  split
  · rfl
  · unfold hasCode at hcode
    split at hcode
    · cases hcode
    · rename_i hnot
      cases hstatus : probe.status with
      | code exitCode => exact absurd hstatus (hnot exitCode)
      | partialWrite => rfl
      | missing =>
        dsimp only
        rw [if_neg (by simp [hrequested]), if_neg]
        rw [hintent]
        simp [killGraceMs]

/-! ## Kills -/

def killRequestedAt (bg : BgProcess) (now handle : Nat) : BgProcess :=
  { bg with
    killIntent := some now
    killRequested := true
    killEscalate := if 0 < bg.processPid then some handle else bg.killEscalate }

/-- A kill up to its check of the status. -/
def requested (s : BgProcessManager) (i : Nat) (bg : BgProcess) (now : Nat) : BgProcessManager :=
  if 0 < bg.processPid then (s.requestKill i bg now).signalTerm i else s.requestKill i bg now

theorem requestKill_sameLife (s : BgProcessManager) (i : Nat) (bg : BgProcess) (now : Nat) :
    SameLife (s.onBg i fun bg => { bg with killIntent := some now, killRequested := true })
      (s.requestKill i bg now) := by
  unfold requestKill
  dsimp only
  split
  · exact ⟨rfl, rfl, rfl, rfl, rfl⟩
  · exact update_sameLife _ _ _ _

theorem requestKill_spec (hs : Sound s) (hi : s.heap[i]? = some bg) (now : Nat) :
    Sound (s.requestKill i bg now) ∧ Elsewhere i s (s.requestKill i bg now) ∧
      (s.requestKill i bg now).heap[i]? =
        some { bg with killIntent := some now, killRequested := true } ∧
      (s.requestKill i bg now).armed = s.armed ∧
      (s.requestKill i bg now).handles = s.handles ∧
      (s.requestKill i bg now).signals = s.signals := by
  have hsame := requestKill_sameLife s i bg now
  refine ⟨hsame.sound (onBg_sound hs hi ⟨rfl, rfl, .inl rfl, ?_⟩),
    (onBg_elsewhere s i _).trans (hsame.elsewhere i), ?_, hsame.armed, hsame.handles,
    hsame.signals⟩
  · rintro (hnot | hpid)
    · cases hnot
    · exact .inr hpid
  · rw [hsame.heap]
    show (s.heap.modify i _)[i]? = _
    rw [getElem?_modify_of_some hi, if_pos rfl]

/-- A signal with its timer, to an instance whose kill was requested and that has a pid. -/
theorem signalTerm_sound (hs : Sound s) (hi : s.heap[i]? = some bg)
    (hrequested : bg.killRequested = true) (hpid : bg.processPid ≠ 0) :
    Sound (s.signalTerm i) ∧ Elsewhere i s (s.signalTerm i) := by
  have hlt : i < s.heap.length := (List.getElem?_eq_some_iff.mp hi).1
  have hcovered : ∀ j, i ≠ j → (Covered (s.signalTerm i) j ↔ Covered s j) := by
    intro j hj
    show (_ ∈ s.signals ++ _ ∨ ∃ timer ∈ s.armed ++ _, _) ↔ _
    simp only [List.mem_append, List.mem_singleton, Prod.mk.injEq, reduceCtorEq, and_false,
      or_false]
    refine or_congr Iff.rfl ⟨?_, ?_⟩
    · rintro ⟨timer, htimer | rfl, heq⟩
      · exact ⟨timer, htimer, heq⟩
      · exact absurd heq hj
    · rintro ⟨timer, htimer, heq⟩
      exact ⟨timer, .inl htimer, heq⟩
  have hmodify : ∀ (j : Nat) c, (s.signalTerm i).heap[j]? = some c →
      (i = j ∧ c = { bg with killEscalate := some s.handles }) ∨
        (i ≠ j ∧ s.heap[j]? = some c) := by
    intro j c hj
    have hset : (s.heap.modify i _)[j]? = some c := hj
    rw [getElem?_modify_of_some hi] at hset
    split at hset
    · rename_i heq
      exact .inl ⟨heq, (Option.some.inj hset).symm⟩
    · rename_i hne
      exact .inr ⟨hne, hset⟩
  refine ⟨⟨?_, ?_, ?_, ?_, ?_, ?_, hs.nodup⟩, ⟨fun j hj => ?_, hcovered, rfl⟩⟩
  · intro timer htimer
    rcases List.mem_append.mp htimer with htimer | htimer
    · exact Nat.lt_succ_of_lt (hs.fresh timer htimer)
    · rw [List.mem_singleton.mp htimer]
      exact Nat.lt_succ_self _
  · -- the new handle is past the others
    intro t ht t' ht' heq
    rcases List.mem_append.mp ht with ht | ht <;> rcases List.mem_append.mp ht' with ht' | ht'
    · exact hs.distinct t ht t' ht' heq
    · have hfresh := hs.fresh t ht
      rw [List.mem_singleton.mp ht'] at heq
      exact absurd heq (Nat.ne_of_lt hfresh)
    · have hfresh := hs.fresh t' ht'
      rw [List.mem_singleton.mp ht] at heq
      exact absurd heq.symm (Nat.ne_of_lt hfresh)
    · rw [List.mem_singleton.mp ht, List.mem_singleton.mp ht']
  · intro j c h hj hescalate
    rcases hmodify j c hj with ⟨rfl, rfl⟩ | ⟨_, hj⟩
    · cases hescalate
      refine ⟨Nat.lt_succ_self _, fun timer htimer heq => ?_⟩
      rcases List.mem_append.mp htimer with htimer | htimer
      · exact absurd heq (Nat.ne_of_lt (hs.fresh timer htimer))
      · rw [List.mem_singleton.mp htimer]
    · obtain ⟨hlt', hall⟩ := hs.own j c h hj hescalate
      refine ⟨Nat.lt_succ_of_lt hlt', fun timer htimer heq => ?_⟩
      rcases List.mem_append.mp htimer with htimer | htimer
      · exact hall timer htimer heq
      · rw [List.mem_singleton.mp htimer] at heq
        exact absurd heq.symm (Nat.ne_of_lt hlt')
  · intro j hj
    show j < (s.heap.modify i _).length
    rw [List.length_modify]
    by_cases hij : i = j
    · exact hij ▸ hlt
    · exact hs.known j ((hcovered j hij).mp hj)
  · intro j c hj hquiet hcover
    rcases hmodify j c hj with ⟨rfl, rfl⟩ | ⟨hne, hj⟩
    · rcases hquiet with hnot | hzero
      · rw [hrequested] at hnot
        cases hnot
      · exact hpid hzero
    · exact hs.quiet j c hj hquiet ((hcovered j hne).mp hcover)
  · intro sessionId id j hlookup
    obtain ⟨c, hj, hnames⟩ := hs.keyed sessionId id j hlookup
    show ∃ c, (s.heap.modify i _)[j]? = some c ∧ _
    rw [getElem?_modify_of_some hi]
    split
    · rename_i heq
      subst heq
      rw [hi, Option.some.injEq] at hj
      subst hj
      exact ⟨_, rfl, hnames⟩
    · exact ⟨c, hj, hnames⟩
  · show (s.heap.modify i _)[j]? = s.heap[j]?
    simp [hj]

/-- What a requested kill does, before its check of the status. -/
structure Requested (s t : BgProcessManager) (i : Nat) (bg : BgProcess) (now : Nat) : Prop where
  sound : Sound t
  elsewhere : Elsewhere i s t
  heap : t.heap[i]? = some (killRequestedAt bg now s.handles)
  armed : t.armed = s.armed ++ if 0 < bg.processPid then [(s.handles, i)] else []
  signals : (i, .kill) ∈ t.signals ↔ (i, .kill) ∈ s.signals

theorem requested_spec (hs : Sound s) (hi : s.heap[i]? = some bg) (now : Nat) :
    Requested s (s.requested i bg now) i bg now := by
  obtain ⟨hsound, helse, hget, harmed, hhandles, hsignals⟩ := requestKill_spec hs hi now
  unfold requested
  split
  · rename_i hpid
    obtain ⟨hsound', helse'⟩ := signalTerm_sound hsound hget rfl (Nat.pos_iff_ne_zero.mp hpid)
    refine ⟨hsound', helse.trans helse', ?_, ?_, ?_⟩
    · show ((s.requestKill i bg now).heap.modify i _)[i]? = _
      rw [getElem?_modify_of_some hget, if_pos rfl, killRequestedAt, if_pos hpid, hhandles]
    · show (s.requestKill i bg now).armed ++ [((s.requestKill i bg now).handles, i)] = _
      rw [harmed, hhandles, if_pos hpid]
    · show _ ∈ (s.requestKill i bg now).signals ++ _ ↔ _
      rw [hsignals]
      simp
  · rename_i hpid
    refine ⟨hsound, helse, ?_, ?_, ?_⟩
    · rw [hget, killRequestedAt, if_neg hpid]
    · rw [harmed, if_neg hpid, List.append_nil]
    · rw [hsignals]

variable {sessionId : String} {id : Nat}

/-- A kill of a running instance: it is requested, then the status is checked. -/
theorem kill_eq (hlookup : s.lookup sessionId id = some i)
    (hi : s.heap[i]? = some bg) (hrunning : bg.status = .running) (probe : Probe) :
    s.kill sessionId id probe = ((s.requested i bg probe.now).checkStatus i probe).1 := by
  unfold kill requested
  rw [hlookup]
  dsimp only
  rw [hi]
  dsimp only
  rw [if_neg (by simp [hrunning])]

/-- A kill of a running instance finds its exit code, or leaves the request. -/
theorem kill_running (hs : Sound s)
    (hlookup : s.lookup sessionId id = some i) (hi : s.heap[i]? = some bg)
    (hrunning : bg.status = .running) (probe : Probe) :
    Sound (s.kill sessionId id probe) ∧ Elsewhere i s (s.kill sessionId id probe) ∧
      ((hasCode probe = true ∧ Ended (s.kill sessionId id probe) i) ∨
        (hasCode probe = false ∧
          Requested s (s.kill sessionId id probe) i bg probe.now)) := by
  have hrequested := requested_spec hs hi probe.now
  rw [kill_eq hlookup hi hrunning probe]
  cases hcode : hasCode probe with
  | true =>
    obtain ⟨hsound, helse, _⟩ := checkStatus_spec hrequested.sound i probe
    exact ⟨hsound, hrequested.elsewhere.trans helse,
      .inl ⟨rfl, checkStatus_code hrequested.sound i hcode⟩⟩
  | false =>
    rw [checkStatus_requested hrequested.heap rfl rfl hcode]
    exact ⟨hrequested.sound, hrequested.elsewhere, .inr ⟨rfl, hrequested⟩⟩

/-- A kill of a process that is not there, or not running, does nothing. -/
theorem kill_idle
    (h : ∀ (i : Nat) (bg : BgProcess), s.lookup sessionId id = some i → s.heap[i]? = some bg →
      bg.status ≠ .running) :
    s.kill sessionId id probe = s := by
  unfold kill
  cases hlookup : s.lookup sessionId id with
  | none => rfl
  | some i =>
    dsimp only
    cases hi : s.heap[i]? with
    | none => rfl
    | some bg => exact if_pos (h i bg hlookup hi)

/-- The stopped timers of a requested kill are the new one. -/
theorem stopped_covered {t : BgProcessManager} {now : Nat} (hs : Sound s)
    (hi : s.heap[i]? = some bg) (ht : Requested s t i bg now) :
    Covered (t.stopTimers i) i ↔ Covered s i := by
  have hstop := stopTimers_eq ht.heap
  rw [hstop, onBg_covered]
  unfold clearEscalation killRequestedAt
  dsimp only
  by_cases hpid : 0 < bg.processPid
  · rw [if_pos hpid]
    have harmed : (t.armed.filter fun timer => timer.1 ≠ s.handles) = s.armed := by
      rw [ht.armed, if_pos hpid, List.filter_append, List.filter_eq_self.mpr]
      · simp
      · intro timer htimer
        simpa using Nat.ne_of_lt (hs.fresh timer htimer)
    unfold Covered
    dsimp only
    rw [harmed, ht.signals]
  · -- without a pid nothing is armed, before and after
    rw [if_neg hpid]
    have hquiet := hs.quiet i bg hi (.inr (by omega))
    have hcover : Covered t i ↔ Covered s i := by
      unfold Covered
      rw [ht.armed, if_neg hpid, List.append_nil, ht.signals]
    refine ⟨fun h => hcover.mp ?_, fun h => absurd h hquiet⟩
    split at h
    · exact h
    · rcases h with h | ⟨timer, htimer, heq⟩
      · exact .inl h
      · exact .inr ⟨timer, (List.mem_filter.mp htimer).1, heq⟩

/-! ## Forced ends -/

/-- What a dismissal and a cleanup do to an instance: its kill, if it runs, and its timers. -/
def forcedEnd (s : BgProcessManager) (sessionId : String) (id i : Nat) (probe : Probe) :
    BgProcessManager :=
  (match s.heap[i]? with
    | none => s
    | some bg =>
      if bg.status = BgStatus.running then s.kill sessionId id probe else s).stopTimers i

/-- A forced end keeps the escalation of its instance exactly when it is covered before. -/
theorem forcedEnd_spec (hs : Sound s) (hlookup : s.lookup sessionId id = some i) (probe : Probe) :
    Sound (s.forcedEnd sessionId id i probe) ∧
      Elsewhere i s (s.forcedEnd sessionId id i probe) ∧
      (Ended (s.forcedEnd sessionId id i probe) i ∨
        ∃ bg bg' : BgProcess, s.heap[i]? = some bg ∧ bg.status = .running ∧
          hasCode probe = false ∧
          (s.forcedEnd sessionId id i probe).heap[i]? = some bg' ∧ bg'.killRequested = true ∧
          bg'.status = .running ∧
          (Covered (s.forcedEnd sessionId id i probe) i ↔ Covered s i)) := by
  unfold forcedEnd
  obtain ⟨bg, hi, _⟩ := hs.keyed sessionId id i hlookup
  rw [hi]
  dsimp only
  -- the timers of an instance that has ended
  have hended : ∀ t : BgProcessManager, Sound t → Elsewhere i s t → Ended t i →
      Sound (t.stopTimers i) ∧ Elsewhere i s (t.stopTimers i) ∧ Ended (t.stopTimers i) i := by
    intro t hsound helse hend
    cases ht : t.heap[i]? with
    | none =>
      have hsame : t.stopTimers i = t := by
        unfold stopTimers
        rw [ht]
      rw [hsame]
      exact ⟨hsound, helse, hend⟩
    | some c =>
      obtain ⟨hsound', helse', hget, _⟩ := stopTimers_spec hsound ht
      refine ⟨hsound', helse.trans helse', fun c' hc' => ?_⟩
      rw [hget, Option.some.injEq] at hc'
      subst hc'
      exact hend c ht
  split
  · rename_i hrunning
    obtain ⟨hsound, helse, ⟨_, hend⟩ | ⟨hcode, hrequested⟩⟩ :=
      kill_running hs hlookup hi hrunning probe
    · obtain ⟨h, h', h''⟩ := hended _ hsound helse hend
      exact ⟨h, h', .inl h''⟩
    · obtain ⟨hsound', helse', hget, _⟩ := stopTimers_spec hsound hrequested.heap
      refine ⟨hsound', helse.trans helse', .inr ⟨bg, _, rfl, hrunning, hcode, hget, rfl, hrunning,
        stopped_covered hs hi hrequested⟩⟩
  · rename_i hnot
    obtain ⟨h, h', h''⟩ := hended s hs (.refl i s) fun c hc => by
      rw [hi, Option.some.injEq] at hc
      subst hc
      exact hnot
    exact ⟨h, h', .inl h''⟩

/-! ## The other operations -/

/-- An operation on one instance keeps the escalations when it keeps that of the instance. -/
theorem kept_of_elsewhere (hP : EscalationKept s) (helse : Elsewhere i s s')
    (hi : ∀ bg, s'.heap[i]? = some bg → bg.killRequested = true → bg.status = .running →
      Covered s' i) : EscalationKept s' := by
  intro j bg hj hrequested hrunning
  by_cases hij : i = j
  · subst hij
    exact hi bg hj hrequested hrunning
  · rw [helse.heap j hij] at hj
    exact (helse.covered j hij).mpr (hP j bg hj hrequested hrunning)

theorem kept_of_ended (hP : EscalationKept s) (helse : Elsewhere i s s') (hend : Ended s' i) :
    EscalationKept s' :=
  kept_of_elsewhere hP helse fun bg hi _ hrunning => absurd hrunning (hend bg hi)

/-- What an operation without kills keeps. -/
def Keeps (s s' : BgProcessManager) : Prop :=
  (Sound s → Sound s') ∧ (Sound s → EscalationKept s → EscalationKept s')

theorem Keeps.refl (s : BgProcessManager) : Keeps s s := ⟨id, fun _ => id⟩

theorem Keeps.trans {s'' : BgProcessManager} (h : Keeps s s') (h' : Keeps s' s'') :
    Keeps s s'' :=
  ⟨fun hs => h'.1 (h.1 hs), fun hs hP => h'.2 (h.1 hs) (h.2 hs hP)⟩

/-- An operation that keeps the escalations and asks for nothing. -/
theorem Keeps.iff_of {guard : Prop} (h : Keeps s s') (hs : Sound s) (hP : EscalationKept s)
    (hguard : guard) : Sound s' ∧ (EscalationKept s' ↔ guard) :=
  ⟨h.1 hs, iff_of_true (h.2 hs hP) hguard⟩

theorem SameLife.keeps (h : SameLife s s') : Keeps s s' := ⟨h.sound, fun _ => h.kept⟩

theorem terminalize_keeps (s : BgProcessManager) (i : Nat) (exitCode : Option Int)
    (reason : TerminalReason) : Keeps s (s.terminalize i exitCode reason) := by
  refine ⟨fun hs => (terminalize_spec hs i exitCode reason).1, fun hs hP => ?_⟩
  obtain ⟨_, helse, hend⟩ := terminalize_spec hs i exitCode reason
  exact kept_of_ended hP helse hend

theorem checkStatus_keeps (s : BgProcessManager) (i : Nat) (probe : Probe) :
    Keeps s (s.checkStatus i probe).1 := by
  refine ⟨fun hs => (checkStatus_spec hs i probe).1, fun hs hP => ?_⟩
  obtain ⟨_, helse, hsame | hend⟩ := checkStatus_spec hs i probe
  · rw [hsame]
    exact hP
  · exact kept_of_ended hP helse hend

/-- A change that keeps the kill request and the status too. -/
theorem onBg_keeps (hi : s.heap[i]? = some bg) {f : BgProcess → BgProcess} (hf : Mild bg (f bg))
    (hrequested : (f bg).killRequested = bg.killRequested) (hstatus : (f bg).status = bg.status) :
    Keeps s (s.onBg i f) := by
  refine ⟨fun hs => onBg_sound hs hi hf, fun hs hP => ?_⟩
  refine kept_of_elsewhere hP (onBg_elsewhere s i f) fun c hc hkill hrunning => ?_
  have hc : (s.heap.modify i f)[i]? = some c := hc
  rw [getElem?_modify_of_some hi, if_pos rfl, Option.some.injEq] at hc
  subst hc
  rw [hrequested] at hkill
  rw [hstatus] at hrunning
  exact hP i bg hi hkill hrunning

theorem resolvePid_keeps (s : BgProcessManager) (i attempt : Nat) (probe : Probe) :
    Keeps s (s.resolvePid i attempt probe) := by
  unfold resolvePid
  cases hi : s.heap[i]? with
  | none => exact .refl s
  | some bg =>
    dsimp only
    split
    · exact .refl s
    · split
      · rename_i pid hpid
        -- the pid of a pid file is not 0
        have hpos : pid ≠ 0 := by
          unfold pidOf at hpid
          split at hpid
          · cases hpid
          · split at hpid
            · rename_i hgood
              cases hpid
              exact Nat.pos_iff_ne_zero.mp hgood.2
            · cases hpid
        have hmild : Mild bg { bg with processPid := pid } :=
          ⟨rfl, rfl, .inl rfl, fun h => .inl (h.resolve_right hpos)⟩
        exact (onBg_keeps hi hmild rfl rfl).trans (update_sameLife _ _ _ _).keeps
      · split
        · exact .refl s
        · exact onBg_keeps hi ⟨rfl, rfl, .inl rfl, id⟩ rfl rfl

theorem pidTimerFired_keeps (s : BgProcessManager) (i : Nat) (probe : Probe) :
    Keeps s (s.pidTimerFired i probe) := by
  unfold pidTimerFired
  cases hi : s.heap[i]? with
  | none => exact .refl s
  | some bg =>
    dsimp only
    split
    · exact .refl s
    · exact (onBg_keeps hi ⟨rfl, rfl, .inl rfl, id⟩ rfl rfl).trans (resolvePid_keeps _ _ _ _)

theorem childError_keeps (s : BgProcessManager) (i : Nat) : Keeps s (s.childError i) := by
  unfold childError
  split
  · exact terminalize_keeps s i none .spawnFailed
  · exact .refl s

theorem childExit_keeps (s : BgProcessManager) (i : Nat) (failed : Bool) (probe : Probe) :
    Keeps s (s.childExit i failed probe) := by
  have hchecked := checkStatus_keeps s i probe
  unfold childExit
  dsimp only
  split
  · cases hi : (s.checkStatus i probe).1.heap[i]? with
    | none => exact hchecked
    | some bg =>
      dsimp only
      split
      · exact hchecked.trans ((onBg_keeps hi ⟨rfl, rfl, .inl rfl, id⟩ rfl rfl).trans
          (update_sameLife _ _ _ _).keeps)
      · exact hchecked
  · exact .refl s

/-- A timer that fires covers its instance by the signal it sends. -/
theorem escalate_keeps (s : BgProcessManager) (handle : Nat) : Keeps s (s.escalate handle) := by
  unfold escalate
  cases hfind : s.armed.find? (·.1 = handle) with
  | none => exact .refl s
  | some timer =>
    have hmem := List.mem_of_find?_eq_some hfind
    have hhandle : timer.1 = handle := by simpa using List.find?_some hfind
    dsimp only
    -- the other timers stay armed
    have hless : ∀ j, Covered { s with armed := s.armed.filter (·.1 ≠ handle) } j →
        Covered s j := by
      rintro j (hsignal | ⟨t, ht, hj⟩)
      · exact .inl hsignal
      · exact .inr ⟨t, (List.mem_filter.mp ht).1, hj⟩
    have hother : Sound s → ∀ j, timer.2 ≠ j → Covered s j →
        Covered { s with armed := s.armed.filter (·.1 ≠ handle) } j := by
      rintro hs j hj (hsignal | ⟨t, ht, heq⟩)
      · exact .inl hsignal
      · refine .inr ⟨t, List.mem_filter.mpr ⟨ht, ?_⟩, heq⟩
        simp only [ne_eq, decide_not, Bool.not_eq_true', decide_eq_false_iff_not]
        intro hsame
        have hdistinct := hs.distinct t ht timer hmem (hsame.trans hhandle.symm)
        exact hj (by rw [← hdistinct, heq])
    have hfilter : ∀ t ∈ s.armed.filter (fun t => t.1 ≠ handle), t ∈ s.armed :=
      fun t ht => (List.mem_filter.mp ht).1
    have hsound : Sound s → Sound { s with armed := s.armed.filter (·.1 ≠ handle) } := fun hs =>
      ⟨fun t ht => hs.fresh t (hfilter t ht),
        fun t ht t' ht' => hs.distinct t (hfilter t ht) t' (hfilter t' ht'),
        fun j c h hj hescalate => ⟨(hs.own j c h hj hescalate).1,
          fun t ht => (hs.own j c h hj hescalate).2 t (hfilter t ht)⟩,
        fun j hj => hs.known j (hless j hj),
        fun j c hj hquiet hcovered => hs.quiet j c hj hquiet (hless j hcovered), hs.keyed,
        hs.nodup⟩
    cases hi : s.heap[timer.2]? with
    | none =>
      dsimp only
      refine ⟨hsound, fun hs hP => ?_⟩
      have hlt := hs.known timer.2 (.inr ⟨timer, hmem, rfl⟩)
      rw [List.getElem?_eq_getElem hlt] at hi
      cases hi
    | some bg =>
      dsimp only
      split
      · rename_i hrunning
        -- a covered instance has been asked to end, and has a pid
        have hsignals : ∀ j, Covered { s with
            armed := s.armed.filter (·.1 ≠ handle)
            signals := s.signals ++ [(timer.2, .kill)] } j →
            Covered s j := by
          rintro j (hsignal | ⟨t, ht, hj⟩)
          · rcases List.mem_append.mp hsignal with hsignal | hsignal
            · exact .inl hsignal
            · have heq := List.mem_singleton.mp hsignal
              rw [Prod.mk.injEq] at heq
              exact .inr ⟨timer, hmem, heq.1.symm⟩
          · exact .inr ⟨t, hfilter t ht, hj⟩
        refine ⟨fun hs => ?_, fun hs hP => ?_⟩
        · exact ⟨(hsound hs).fresh, (hsound hs).distinct, (hsound hs).own,
            fun j hj => hs.known j (hsignals j hj),
            fun j c hj hquiet hcovered => hs.quiet j c hj hquiet (hsignals j hcovered), hs.keyed,
            hs.nodup⟩
        · intro j c hj hrequested hrunning'
          by_cases hij : timer.2 = j
          · exact .inl (List.mem_append_right _ (by rw [hij]; exact List.mem_singleton_self _))
          · rcases hother hs j hij (hP j c hj hrequested hrunning') with h | h
            · exact .inl (List.mem_append_left _ h)
            · exact .inr h
      · rename_i hnot
        refine ⟨hsound, fun hs hP j c hj hrequested hrunning => ?_⟩
        by_cases hij : timer.2 = j
        · subst hij
          have hj : s.heap[timer.2]? = some c := hj
          rw [hi, Option.some.injEq] at hj
          subst hj
          exact absurd hrunning hnot
        · exact hother hs j hij (hP j c hj hrequested hrunning)

/-! ## Create -/

theorem append_keeps (s : BgProcessManager) {c : BgProcess} (hescalate : c.killEscalate = none)
    (hrequested : c.killRequested = false)
    (hset : s' = { s.setProcess c.sessionId c.id s.heap.length with heap := s.heap ++ [c] }) :
    Keeps s s' := by
  subst hset
  have hcases : ∀ (j : Nat) bg, (s.heap ++ [c])[j]? = some bg →
      s.heap[j]? = some bg ∨ (j = s.heap.length ∧ bg = c) := by
    intro j bg hj
    rw [List.getElem?_append] at hj
    split at hj
    · exact .inl hj
    · obtain ⟨hlt, hbg⟩ := List.getElem?_eq_some_iff.mp hj
      rw [List.getElem_singleton] at hbg
      simp only [List.length_singleton] at hlt
      exact .inr ⟨by omega, hbg.symm⟩
  have hcovered : ∀ j, Covered { s.setProcess c.sessionId c.id s.heap.length with
      heap := s.heap ++ [c] } j ↔ Covered s j := fun j => Iff.rfl
  refine ⟨fun hs => ⟨hs.fresh, hs.distinct, ?_, ?_, ?_, ?_, ?_⟩, fun hs hP => ?_⟩
  · intro j bg h hj hescalate'
    rcases hcases j bg hj with hj | ⟨_, rfl⟩
    · exact hs.own j bg h hj hescalate'
    · rw [hescalate] at hescalate'
      cases hescalate'
  · intro j hj
    show j < (s.heap ++ [c]).length
    rw [List.length_append]
    exact Nat.lt_add_right _ (hs.known j ((hcovered j).mp hj))
  · intro j bg hj hquiet hcover
    rcases hcases j bg hj with hj | ⟨rfl, rfl⟩
    · exact hs.quiet j bg hj hquiet hcover
    · exact absurd (hs.known _ ((hcovered _).mp hcover)) (Nat.lt_irrefl _)
  · intro sessionId id j hlookup
    have hlookup : (s.setProcess c.sessionId c.id s.heap.length).lookup sessionId id = some j :=
      hlookup
    rw [lookup_setProcess] at hlookup
    show ∃ bg, (s.heap ++ [c])[j]? = some bg ∧ _
    split at hlookup
    · rename_i hnames
      cases hlookup
      exact ⟨c, by simp, hnames.1.symm, hnames.2.symm⟩
    · obtain ⟨bg, hj, hnames⟩ := hs.keyed sessionId id j hlookup
      exact ⟨bg, by rw [List.getElem?_append_left (List.getElem?_eq_some_iff.mp hj).1]; exact hj,
        hnames⟩
  · intro sessionId map hget
    have hget : JsMap.get? (JsMap.set s.processes c.sessionId
      (JsMap.set ((JsMap.get? s.processes c.sessionId).getD []) c.id s.heap.length)) sessionId =
        some map := hget
    rw [JsMap.get?_set] at hget
    split at hget
    · cases hget
      apply JsMap.nodup_set
      cases hmap : JsMap.get? s.processes c.sessionId with
      | none => exact List.nodup_nil
      | some map => exact hs.nodup c.sessionId map hmap
    · exact hs.nodup sessionId map hget
  · intro j bg hj hkill hrunning
    rcases hcases j bg hj with hj | ⟨_, rfl⟩
    · exact hP j bg hj hkill hrunning
    · rw [hrequested] at hkill
      cases hkill

theorem create_keeps (s : BgProcessManager) (sessionId : String) (inContainer : Bool)
    (hostPid : Nat) (probe : Probe) : Keeps s (s.create sessionId inContainer hostPid probe) := by
  unfold create
  dsimp only
  have hnew := append_keeps s (c := s.newProcess sessionId inContainer hostPid probe) rfl rfl rfl
  have hrest : ∀ (t : BgProcessManager) next nonces rows store taken,
      SameLife t { t with
        nextId := next
        nonces := nonces
        rows := rows
        store := store
        taken := taken } := fun _ _ _ _ _ _ => ⟨rfl, rfl, rfl, rfl, rfl⟩
  split
  · exact (hnew.trans (hrest _ _ _ _ _ _).keeps).trans (resolvePid_keeps _ _ _ _)
  · exact hnew.trans (hrest _ _ _ _ _ _).keeps

/-! ## Kill, dismiss and cleanup -/

theorem polled_keeps (s : BgProcessManager) (i : Nat) (probe : Probe) :
    Keeps s (s.polled i probe) := by
  unfold polled
  split
  · exact .refl s
  · split
    · exact checkStatus_keeps s i probe
    · exact .refl s

/-- A kill keeps the escalations exactly when it finds a pid or an exit code. -/
theorem kill_kept_iff (hs : Sound s) (hP : EscalationKept s) (sessionId : String) (id : Nat)
    (probe : Probe) :
    Sound (s.kill sessionId id probe) ∧
      (EscalationKept (s.kill sessionId id probe) ↔ KillsCovered s (.kill sessionId id probe)) := by
  by_cases hrunning : ∃ i bg, s.lookup sessionId id = some i ∧ s.heap[i]? = some bg ∧
      bg.status = .running
  · obtain ⟨i, bg, hlookup, hi, hrunning⟩ := hrunning
    obtain ⟨hsound, helse, hkill⟩ := kill_running hs hlookup hi hrunning probe
    refine ⟨hsound, ?_⟩
    have hguard : KillsCovered s (.kill sessionId id probe) ↔
        0 < bg.processPid ∨ hasCode probe = true := by
      refine ⟨fun h => h i hlookup bg hi hrunning, fun h i' hi' bg' hbg' _ => ?_⟩
      rw [Option.mem_def, hlookup, Option.some.injEq] at hi'
      subst hi'
      rw [Option.mem_def, hi, Option.some.injEq] at hbg'
      subst hbg'
      exact h
    rw [hguard]
    rcases hkill with ⟨hcode, hend⟩ | ⟨hcode, hrequested⟩
    · exact ⟨fun _ => .inr hcode, fun _ => kept_of_ended hP helse hend⟩
    · constructor
      · intro hkept
        by_contra hnot
        -- without a pid nothing covers the instance
        have hpid : ¬ 0 < bg.processPid := fun hpid => hnot (.inl hpid)
        have hcovered := hkept i _ hrequested.heap rfl hrunning
        unfold Covered at hcovered
        rw [hrequested.armed, if_neg hpid, List.append_nil, hrequested.signals] at hcovered
        exact hs.quiet i bg hi (.inr (by omega)) hcovered
      · intro hpid
        rw [hcode] at hpid
        have hpid : 0 < bg.processPid := hpid.resolve_right (by simp)
        refine kept_of_elsewhere hP helse fun c hc _ _ => .inr ⟨(s.handles, i), ?_, rfl⟩
        rw [hrequested.armed, if_pos hpid]
        exact List.mem_append_right _ (List.mem_singleton_self _)
  · have hidle : s.kill sessionId id probe = s := kill_idle fun i bg hlookup hi hrun =>
      hrunning ⟨i, bg, hlookup, hi, hrun⟩
    rw [hidle]
    exact ⟨hs, fun _ i hi bg hbg hrun => absurd ⟨i, bg, hi, hbg, hrun⟩ hrunning, fun _ => hP⟩

/-- A forced end keeps the escalations exactly when it finds an exit code or an earlier kill. -/
theorem forcedEnd_kept_iff (hs : Sound s)
    (hlookup : s.lookup sessionId id = some i) (probe : Probe) :
    (∀ bg, (s.forcedEnd sessionId id i probe).heap[i]? = some bg → bg.killRequested = true →
      bg.status = .running → Covered (s.forcedEnd sessionId id i probe) i) →
    EndCovered s i probe := by
  intro hkept bg hbg hrunning
  obtain ⟨_, _, hend | ⟨bg₀, bg', hi, _, hcode, hget, hrequested, hrunning', hcovered⟩⟩ :=
    forcedEnd_spec hs hlookup probe
  · -- only an exit code ends it
    by_contra hnot
    have hcode : hasCode probe = false := by
      cases hcode : hasCode probe with
      | true => exact absurd (.inr hcode) hnot
      | false => rfl
    have hi : s.heap[i]? = some bg := hbg
    have hkill := kill_running hs hlookup hi hrunning probe
    obtain ⟨_, _, ⟨htrue, _⟩ | ⟨_, hreq⟩⟩ := hkill
    · rw [hcode] at htrue
      cases htrue
    · obtain ⟨_, _, hget, _⟩ := stopTimers_spec hreq.sound hreq.heap
      unfold forcedEnd at hend
      rw [hi] at hend
      dsimp only at hend
      rw [if_pos hrunning] at hend
      exact hend _ hget hrunning
  · have hi' : s.heap[i]? = some bg := hbg
    rw [hi, Option.some.injEq] at hi'
    subst hi'
    have hcover := hcovered.mp (hkept bg' hget hrequested hrunning')
    cases hkill : bg₀.killRequested with
    | true => exact .inl rfl
    | false => exact absurd hcover (hs.quiet i bg₀ hi (.inl hkill))

theorem forcedEnd_kept (hs : Sound s) (hP : EscalationKept s)
    (hlookup : s.lookup sessionId id = some i) (hguard : EndCovered s i probe) :
    EscalationKept (s.forcedEnd sessionId id i probe) := by
  obtain ⟨_, helse, hend | ⟨bg, bg', hi, hrunning, hcode, hget, _, _, hcovered⟩⟩ :=
    forcedEnd_spec hs hlookup probe
  · exact kept_of_ended hP helse hend
  · refine kept_of_elsewhere hP helse fun _ _ _ _ => hcovered.mpr ?_
    rcases hguard bg hi hrunning with hkill | hcode'
    · exact hP i bg hi hkill hrunning
    · rw [hcode] at hcode'
      cases hcode'

/-- Two states that differ in the map, by less, the store and the logs of dismissals. -/
structure Forgets (s s' : BgProcessManager) : Prop where
  heap : s'.heap = s.heap
  armed : s'.armed = s.armed
  handles : s'.handles = s.handles
  signals : s'.signals = s.signals
  lookup : ∀ sessionId id i, s'.lookup sessionId id = some i → s.lookup sessionId id = some i
  nodup : Sound s → ∀ sessionId map, JsMap.get? s'.processes sessionId = some map →
    (JsMap.keys map).Nodup

theorem Forgets.keeps (h : Forgets s s') : Keeps s s' := by
  have hcovered : ∀ i, Covered s' i ↔ Covered s i := by
    intro i
    unfold Covered
    rw [h.armed, h.signals]
  refine ⟨fun hs => ⟨?_, ?_, ?_, ?_, ?_, ?_, h.nodup hs⟩, fun hs hP => ?_⟩
  · rw [h.armed, h.handles]
    exact hs.fresh
  · rw [h.armed]
    exact hs.distinct
  · rw [h.heap, h.armed, h.handles]
    exact hs.own
  · intro i hi
    rw [h.heap]
    exact hs.known i ((hcovered i).mp hi)
  · intro i bg hi hquiet hcover
    rw [h.heap] at hi
    exact hs.quiet i bg hi hquiet ((hcovered i).mp hcover)
  · intro sessionId id i hlookup
    rw [h.heap]
    exact hs.keyed sessionId id i (h.lookup sessionId id i hlookup)
  · intro i bg hi hrequested hrunning
    rw [h.heap] at hi
    exact (hcovered i).mpr (hP i bg hi hrequested hrunning)

theorem Forgets.kept_back (h : Forgets s s') (hP : EscalationKept s') : EscalationKept s := by
  intro i bg hi hrequested hrunning
  rw [← h.heap] at hi
  have hcovered := hP i bg hi hrequested hrunning
  unfold Covered at hcovered ⊢
  rw [h.armed, h.signals] at hcovered
  exact hcovered

theorem deleteProcess_forgets (s : BgProcessManager) (sessionId : String) (id : Nat) :
    Forgets s (s.deleteProcess sessionId id) := by
  unfold deleteProcess
  cases hmap : JsMap.get? s.processes sessionId with
  | none => exact ⟨rfl, rfl, rfl, rfl, fun _ _ _ h => h, fun hs => hs.nodup⟩
  | some map =>
    dsimp only
    refine ⟨rfl, rfl, rfl, rfl, fun sessionId' id' i hlookup => ?_, fun hs sessionId' map' hget => ?_⟩
    · unfold lookup at hlookup ⊢
      dsimp only at hlookup
      split at hlookup
      · rw [JsMap.get?_erase] at hlookup
        split at hlookup
        · cases hlookup
        · exact hlookup
      · rw [JsMap.get?_set] at hlookup
        split at hlookup
        · rename_i hsession
          subst hsession
          rw [Option.bind_some, JsMap.get?_erase] at hlookup
          split at hlookup
          · cases hlookup
          · rw [hmap, Option.bind_some]
            exact hlookup
        · exact hlookup
    · dsimp only at hget
      split at hget
      · rw [JsMap.get?_erase] at hget
        split at hget
        · cases hget
        · exact hs.nodup sessionId' map' hget
      · rw [JsMap.get?_set] at hget
        split at hget
        · cases hget
          exact JsMap.nodup_erase (hs.nodup sessionId map hmap) id
        · exact hs.nodup sessionId' map' hget

/-- A forced dismissal of a process that is there, as its parts. -/
theorem dismiss_eq (hlookup : s.lookup sessionId id = some i)
    (hi : s.heap[i]? = some bg) {force : Bool} (hforce : bg.status = .running → force = true)
    (probe : Probe) :
    s.dismiss sessionId id force probe =
      { ((s.forcedEnd sessionId id i probe).deleteProcess sessionId id).remove sessionId id with
        dismissed := ((s.forcedEnd sessionId id i probe).deleteProcess sessionId id).dismissed ++
          [bg.nonce] } := by
  unfold dismiss forcedEnd
  rw [hlookup]
  dsimp only
  rw [hi]
  dsimp only
  rw [if_neg fun h => by rw [hforce h.1] at h; cases h.2]
  rfl

theorem dismiss_kept_iff (hs : Sound s) (hP : EscalationKept s) (sessionId : String) (id : Nat)
    (force : Bool) (probe : Probe) :
    Sound (s.dismiss sessionId id force probe) ∧
      (EscalationKept (s.dismiss sessionId id force probe) ↔
        KillsCovered s (.dismiss sessionId id force probe)) := by
  have hforgets : ∀ t : BgProcessManager, ∀ store dismissed,
      Forgets t { t with store := store, dismissed := dismissed } := fun t _ _ =>
    ⟨rfl, rfl, rfl, rfl, fun _ _ _ h => h, fun hs => hs.nodup⟩
  cases hlookup : s.lookup sessionId id with
  | none =>
    have hguard : KillsCovered s (.dismiss sessionId id force probe) := by
      intro _ i hi
      rw [Option.mem_def, hlookup] at hi
      cases hi
    have hkeeps : Keeps s (s.dismiss sessionId id force probe) := by
      unfold dismiss
      rw [hlookup]
      dsimp only
      split
      · exact .refl s
      · exact (hforgets s _ _).keeps
    exact ⟨hkeeps.1 hs, fun _ => hguard, fun _ => hkeeps.2 hs hP⟩
  | some i =>
    obtain ⟨bg, hi, _⟩ := hs.keyed sessionId id i hlookup
    by_cases hstays : bg.status = .running ∧ force = false
    · have hsame : s.dismiss sessionId id force probe = s := by
        unfold dismiss
        rw [hlookup]
        dsimp only
        rw [hi]
        exact if_pos hstays
      rw [hsame]
      refine ⟨hs, fun _ hforce => ?_, fun _ => hP⟩
      rw [hstays.2] at hforce
      cases hforce
    · have hforce : bg.status = .running → force = true := fun hrun => by
        cases force with
        | true => rfl
        | false => exact absurd ⟨hrun, rfl⟩ hstays
      obtain ⟨hsound, helse, _⟩ := forcedEnd_spec hs hlookup probe
      have hrest : Keeps (s.forcedEnd sessionId id i probe)
          (s.dismiss sessionId id force probe) := by
        rw [dismiss_eq hlookup hi hforce probe]
        exact (deleteProcess_forgets _ sessionId id).keeps.trans (hforgets _ _ _).keeps
      refine ⟨hrest.1 hsound, fun hkept hf i' hi' => ?_, fun hguard => ?_⟩
      · rw [Option.mem_def, hlookup, Option.some.injEq] at hi'
        subst hi'
        refine forcedEnd_kept_iff hs hlookup probe fun c hc hrequested hrun => ?_
        rw [dismiss_eq hlookup hi hforce probe] at hkept
        have hforget := deleteProcess_forgets (s.forcedEnd sessionId id i probe) sessionId id
        have hcover := hkept i c (by
          show ((s.forcedEnd sessionId id i probe).deleteProcess sessionId id).heap[i]? = some c
          rw [hforget.heap]
          exact hc) hrequested hrun
        have hcover : Covered ((s.forcedEnd sessionId id i probe).deleteProcess sessionId id) i :=
          hcover
        unfold Covered at hcover ⊢
        rw [hforget.armed, hforget.signals] at hcover
        exact hcover
      · by_cases hrun : bg.status = .running
        · exact hrest.2 hsound (forcedEnd_kept hs hP hlookup (hguard (hforce hrun) i hlookup))
        · refine hrest.2 hsound (forcedEnd_kept hs hP hlookup fun c hc hrun' => ?_)
          rw [Option.mem_def, hi, Option.some.injEq] at hc
          subst hc
          exact absurd hrun' hrun

/-! ## Cleanup -/

variable {entry : Nat × Nat}

theorem cleanupOne_sameLife (hs : Sound s)
    (hlookup : s.lookup sessionId entry.1 = some entry.2) (probe : Nat → Probe) :
    SameLife (s.forcedEnd sessionId entry.1 entry.2 (probe entry.1))
      (cleanupOne sessionId probe s entry) := by
  obtain ⟨bg, hi, _⟩ := hs.keyed sessionId entry.1 entry.2 hlookup
  unfold cleanupOne forcedEnd
  rw [hi]
  exact ⟨rfl, rfl, rfl, rfl, rfl⟩

/-- Entries of the map of a session, each under a key of its own. -/
structure Entries (s : BgProcessManager) (sessionId : String) (entries : List (Nat × Nat)) :
    Prop where
  lookup : ∀ entry ∈ entries, s.lookup sessionId entry.1 = some entry.2
  nodup : (JsMap.keys entries).Nodup

/-- Different entries have different instances, by the ids these keep. -/
theorem Entries.instances (hs : Sound s)
    {rest : List (Nat × Nat)} (h : Entries s sessionId (entry :: rest)) :
    ∀ entry' ∈ rest, entry.2 ≠ entry'.2 := by
  intro entry' hmem hsame
  obtain ⟨bg, hi, _, hid⟩ := hs.keyed sessionId entry.1 entry.2 (h.lookup entry List.mem_cons_self)
  obtain ⟨bg', hi', _, hid'⟩ :=
    hs.keyed sessionId entry'.1 entry'.2 (h.lookup entry' (List.mem_cons_of_mem _ hmem))
  rw [← hsame, hi, Option.some.injEq] at hi'
  subst hi'
  have hkey : entry'.1 ∈ JsMap.keys rest := List.mem_map.mpr ⟨entry', hmem, rfl⟩
  rw [← hid', hid] at hkey
  exact (List.nodup_cons.mp h.nodup).1 hkey

theorem Entries.rest {rest : List (Nat × Nat)}
    (h : Entries s sessionId (entry :: rest)) (hsame : s'.processes = s.processes) :
    Entries s' sessionId rest where
  lookup := by
    intro entry' hmem
    unfold BgProcessManager.lookup
    rw [hsame]
    exact h.lookup entry' (List.mem_cons_of_mem _ hmem)
  nodup := (List.nodup_cons.mp h.nodup).2

theorem cleanupOne_spec (hs : Sound s)
    (hlookup : s.lookup sessionId entry.1 = some entry.2) (probe : Nat → Probe) :
    Sound (cleanupOne sessionId probe s entry) ∧
      Elsewhere entry.2 s (cleanupOne sessionId probe s entry) := by
  have hsame := cleanupOne_sameLife hs hlookup probe
  obtain ⟨hsound, helse, _⟩ := forcedEnd_spec hs hlookup (probe entry.1)
  exact ⟨hsame.sound hsound, helse.trans (hsame.elsewhere entry.2)⟩

/-- A cleanup leaves the instances of other entries alone. -/
theorem foldl_cleanupOne_spec (hs : Sound s) {entries : List (Nat × Nat)}
    (hentries : Entries s sessionId entries) (probe : Nat → Probe) :
    Sound (entries.foldl (cleanupOne sessionId probe) s) ∧
      (entries.foldl (cleanupOne sessionId probe) s).processes = s.processes ∧
      ∀ i, (∀ entry ∈ entries, entry.2 ≠ i) →
        (entries.foldl (cleanupOne sessionId probe) s).heap[i]? = s.heap[i]? ∧
        (Covered (entries.foldl (cleanupOne sessionId probe) s) i ↔ Covered s i) := by
  induction entries generalizing s with
  | nil => exact ⟨hs, rfl, fun _ _ => ⟨rfl, Iff.rfl⟩⟩
  | cons entry rest ih =>
    obtain ⟨hsound, helse⟩ :=
      cleanupOne_spec hs (hentries.lookup entry List.mem_cons_self) probe
    obtain ⟨hsound', hprocesses, hother⟩ := ih hsound (hentries.rest helse.processes)
    refine ⟨hsound', hprocesses.trans helse.processes, fun i hi => ?_⟩
    obtain ⟨hheap, hcovered⟩ := hother i fun entry' hmem => hi entry' (List.mem_cons_of_mem _ hmem)
    have hne := hi entry List.mem_cons_self
    exact ⟨hheap.trans (helse.heap i hne), hcovered.trans (helse.covered i hne)⟩

/-- The end of one instance is covered or not whatever happens to the others. -/
theorem Elsewhere.endCovered {j : Nat} (h : Elsewhere i s s') (hj : i ≠ j) (probe : Probe) :
    EndCovered s' j probe ↔ EndCovered s j probe := by
  unfold EndCovered
  rw [h.heap j hj]

/-- The processes of a cleanup keep the escalations exactly when each of their ends is covered. -/
theorem foldl_cleanupOne_kept_iff (hs : Sound s) (hP : EscalationKept s)
    {entries : List (Nat × Nat)} (hentries : Entries s sessionId entries)
    (probe : Nat → Probe) :
    EscalationKept (entries.foldl (cleanupOne sessionId probe) s) ↔
      ∀ entry ∈ entries, EndCovered s entry.2 (probe entry.1) := by
  induction entries generalizing s with
  | nil => exact ⟨fun _ _ h => absurd h List.not_mem_nil, fun _ => hP⟩
  | cons entry rest ih =>
    have hlookup := hentries.lookup entry List.mem_cons_self
    have hsame := cleanupOne_sameLife hs hlookup probe
    obtain ⟨hsound, helse⟩ := cleanupOne_spec hs hlookup probe
    have hrest := hentries.rest helse.processes
    have hdiffer := hentries.instances hs
    rw [List.foldl_cons]
    by_cases hend : EndCovered s entry.2 (probe entry.1)
    · rw [ih hsound (hsame.kept (forcedEnd_kept hs hP hlookup hend)) hrest, List.forall_mem_cons]
      constructor
      · intro hall
        exact ⟨hend, fun entry' hmem =>
          (helse.endCovered (hdiffer entry' hmem) _).mp (hall entry' hmem)⟩
      · rintro ⟨_, hall⟩ entry' hmem
        exact (helse.endCovered (hdiffer entry' hmem) _).mpr (hall entry' hmem)
    · -- the other entries do not repair an end that is not covered
      refine iff_of_false (fun hkept => hend ?_) fun hall => hend (hall entry List.mem_cons_self)
      obtain ⟨_, _, hother⟩ := foldl_cleanupOne_spec hsound hrest probe
      obtain ⟨hheap, hcovered⟩ := hother entry.2 fun entry' hmem => (hdiffer entry' hmem).symm
      refine forcedEnd_kept_iff hs hlookup (probe entry.1) fun bg hbg hrequested hrunning => ?_
      rw [← hsame.heap, ← hheap] at hbg
      exact (hsame.covered entry.2).mp (hcovered.mp (hkept entry.2 bg hbg hrequested hrunning))

theorem cleanup_kept_iff (hs : Sound s) (hP : EscalationKept s) (sessionId : String)
    (probe : Nat → Probe) :
    Sound (s.cleanup sessionId probe) ∧
      (EscalationKept (s.cleanup sessionId probe) ↔
        KillsCovered s (.cleanup sessionId probe)) := by
  have hforgets : ∀ t : BgProcessManager, ∀ store, Forgets t { t with
      processes := JsMap.erase t.processes sessionId
      store := store } := by
    intro t store
    refine ⟨rfl, rfl, rfl, rfl, fun sessionId' id i hlookup => ?_, fun ht sessionId' map hget => ?_⟩
    · unfold lookup at hlookup ⊢
      dsimp only at hlookup
      rw [JsMap.get?_erase] at hlookup
      split at hlookup
      · cases hlookup
      · exact hlookup
    · dsimp only at hget
      rw [JsMap.get?_erase] at hget
      split at hget
      · cases hget
      · exact ht.nodup sessionId' map hget
  cases hmap : JsMap.get? s.processes sessionId with
  | none =>
    have hsame : SameLife s (s.cleanup sessionId probe) := by
      unfold cleanup
      rw [hmap]
      exact ⟨rfl, rfl, rfl, rfl, rfl⟩
    refine hsame.keeps.iff_of hs hP fun map hget => ?_
    rw [hmap] at hget
    cases hget
  | some map =>
    have hnodup := hs.nodup sessionId map hmap
    have hentries : Entries s sessionId map := by
      refine ⟨fun entry hmem => ?_, hnodup⟩
      unfold lookup
      rw [hmap, Option.bind_some]
      exact JsMap.get?_of_mem hnodup hmem
    obtain ⟨hsound, _, _⟩ := foldl_cleanupOne_spec hs hentries probe
    have hforget : Forgets (map.foldl (cleanupOne sessionId probe) s)
        (s.cleanup sessionId probe) := by
      unfold cleanup
      rw [hmap]
      exact hforgets _ _
    refine ⟨hforget.keeps.1 hsound, ?_⟩
    have hguard : KillsCovered s (.cleanup sessionId probe) ↔
        ∀ entry ∈ map, EndCovered s entry.2 (probe entry.1) := by
      show (∀ map' ∈ JsMap.get? s.processes sessionId, ∀ entry ∈ map', _) ↔ _
      rw [hmap]
      simp
    rw [hguard, ← foldl_cleanupOne_kept_iff hs hP hentries probe]
    exact ⟨fun hkept => hforget.kept_back hkept, hforget.keeps.2 hsound⟩

/-! ## Runs -/

/-- The events of one gateway process: no session is restored. -/
def WithoutRestore : Event → Prop
  | .restoreSession _ => False
  | .restoreNext _ _ _ => False
  | .restoreResume _ _ _ => False
  | _ => True

/-- A step keeps the escalations exactly when its kills are covered. -/
theorem step_kept_iff (hs : Sound s) (hP : EscalationKept s) {event : Event}
    (hevent : WithoutRestore event) :
    Sound (step s event) ∧ (EscalationKept (step s event) ↔ KillsCovered s event) := by
  cases event with
  | create sessionId inContainer hostPid probe =>
    exact (create_keeps s sessionId inContainer hostPid probe).iff_of hs hP trivial
  | childError i => exact (childError_keeps s i).iff_of hs hP trivial
  | childExit i failed probe => exact (childExit_keeps s i failed probe).iff_of hs hP trivial
  | chunk i => exact (Keeps.refl s).iff_of hs hP trivial
  | poll i probe => exact (polled_keeps s i probe).iff_of hs hP trivial
  | pidTimer i probe => exact (pidTimerFired_keeps s i probe).iff_of hs hP trivial
  | escalation handle => exact (escalate_keeps s handle).iff_of hs hP trivial
  | kill sessionId id probe => exact kill_kept_iff hs hP sessionId id probe
  | dismiss sessionId id force probe => exact dismiss_kept_iff hs hP sessionId id force probe
  | cleanup sessionId probe => exact cleanup_kept_iff hs hP sessionId probe
  | restoreSession sessionId => exact hevent.elim
  | restoreNext r probe again => exact hevent.elim
  | restoreResume r probe again => exact hevent.elim

theorem loaded_sound (rows : List PersistedBgProcess) : Sound (loaded rows) where
  fresh := fun _ h => absurd h List.not_mem_nil
  distinct := fun _ h => absurd h List.not_mem_nil
  own := fun _ _ _ h => by cases h
  known := by
    rintro i (h | ⟨_, h, _⟩) <;> cases h
  quiet := fun _ _ h => by cases h
  keyed := fun _ _ _ h => by cases h
  nodup := fun _ _ h => by cases h

/-- Escalations are kept exactly along the runs whose kills are all covered. -/
theorem escalation_kept_iff (rows : List PersistedBgProcess) (events : List Event)
    (hevents : ∀ event ∈ events, WithoutRestore event) :
    Always step EscalationKept (loaded rows) events ↔
      Along step KillsCovered (loaded rows) events := by
  have henv : Along step (fun _ event => WithoutRestore event) (loaded rows) events :=
    along_of_mem hevents _
  refine always_iff_along (I := fun s => Sound s ∧ EscalationKept s) ?_ (fun s h => h.2) ?_
    ⟨loaded_sound rows, fun _ _ h => by cases h⟩ henv
  · rintro s event ⟨hs, hP⟩ hevent hguard
    obtain ⟨hsound, hiff⟩ := step_kept_iff hs hP hevent
    exact ⟨hsound, hiff.mpr hguard⟩
  · rintro s event ⟨hs, hP⟩ hevent hnot hkept
    exact hnot ((step_kept_iff hs hP hevent).2.mp hkept)

/-- A process on the host with pid 7 is killed, and its timer fires. -/
theorem escalation_kept_iff_hostProcess :
    let probe : Probe := { now := 0, status := .missing, alive := true, pidFile := none }
    Always step EscalationKept (loaded [])
      [.create "s" false 7 probe, .poll 0 probe, .kill "s" 1 probe, .escalation 0] :=
  (escalation_kept_iff [] _ (by simp [WithoutRestore])).mpr (by decide)

/-- A forced dismissal asks a running process to end, then clears the timer that would make it. -/
theorem dismissed_not_killed : ¬ ∀ (rows : List PersistedBgProcess) (events : List Event),
    (∀ event ∈ events, WithoutRestore event) →
      Always step EscalationKept (loaded rows) events := by
  intro h
  let probe : Probe := { now := 0, status := .missing, alive := true, pidFile := none }
  have hrun := h [] [.create "s" false 7 probe, .dismiss "s" 1 true probe] (by simp [WithoutRestore])
  have hcovered := hrun.last 0 _ rfl rfl rfl
  revert hcovered
  decide

end Bobbit.Server.BgProcessManager
