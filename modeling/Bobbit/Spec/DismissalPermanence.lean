import Bobbit.Lib.List
import Bobbit.Lib.Run
import Bobbit.Spec.ChildIndex

/-!
# Dismissed children

A child for which `dismiss` has answered ok should be gone: never again listed, addressable or in a
reminder, whatever restarts follow. A restart reads the rows alone. The dismissal of a child that is
not live leaves its row as it is, so that the child comes back when the row is still that of a child;
when every dismissal ends its child or finds no such row, dismissed children stay gone.

## Key results

- `keepsDismissed_step` — what a step keeps of the dismissed children.
- `dismissal_permanent` — the runs in which dismissed children stay gone.
- `restart_restores` — why the rows matter.
- `dormant_child_returns` — a dormant child that is back after the next restart.
-/

namespace Bobbit.Server.Orchestration

open Lib ChildIndex

/-! ## The property -/

/-- Some dismissal of the child has been answered with ok. -/
def Dismissed (s : System) (childId : String) : Prop :=
  ∃ result ∈ s.answers, result.ok = true ∧ result.sessionId = childId

/-- No owner lists the child, can address it or would be reminded of it. -/
structure Gone (s : System) (childId : String) : Prop where
  listed : ∀ ownerId, ∀ h ∈ s.core.index.list ownerId, h.sessionId ≠ childId
  addressed : ∀ ownerId, ∃ error, requireOwnChild s.core ownerId childId = .error error
  reminded : ∀ filter, ∀ reminder ∈ remindOwnersWithLiveChildren s.core s.view filter,
    ∀ h ∈ reminder.handles, h.sessionId ≠ childId

def PermanentlyDismissed (s : System) : Prop := ∀ childId, Dismissed s childId → Gone s childId

/-! ## The condition -/

/-- No row makes the session a child again. -/
def Unrestorable (s : System) (childId : String) : Prop :=
  ∀ ps ∈ s.view.rows, ps.id = childId → trustedRestorableChild ps = none

/-- No spawn of the session is under way. -/
def NotSpawning (s : System) (childId : String) : Prop :=
  ∀ p ∈ s.spawning, p.childId ≠ some childId

/-- The condition on a step. A dismissal that is answered with ok ends the child or finds no row that
    a restart would read, and no spawn of the child; the ids of dismissed children are not taken
    again, and their rows not rewritten into those of a child. -/
def KeepsDismissed (s : System) : Event → Prop
  | .dismiss ownerId childId =>
    isCurrentlyLive s.view childId = false → Owns s.core s.view ownerId childId →
      Unrestorable s childId ∧ NotSpawning s childId
  | .terminated i outcome =>
    ∀ pending, s.dismissing[i]? = some pending → (∀ message, outcome ≠ .failed message) →
      (outcome = .ended ∨ Unrestorable s pending.childId) ∧ NotSpawning s pending.childId
  | .registerChild handle => ¬ Dismissed s handle.sessionId
  | .spawnCreated _ childId => ¬ Dismissed s childId
  | .putRow row => Dismissed s row.id → trustedRestorableChild row = none
  | _ => True

/-! ## The invariant -/

/-- Nothing that is left of a dismissed child brings it back. -/
structure ForGood (s : System) (childId : String) : Prop where
  absent : ∀ ownerId, ¬ s.core.index.Has ownerId childId
  unrestorable : Unrestorable s childId
  notSpawning : NotSpawning s childId

variable {s : System} {childId : String}

theorem ForGood.gone (h : ForGood s childId) : Gone s childId where
  listed ownerId handle hmem heq := h.absent ownerId ⟨handle, hmem, heq⟩
  addressed ownerId := ⟨_, requireOwnChild_error (h.absent ownerId)⟩
  reminded filter reminder hreminder handle hhandle heq := by
    obtain ⟨entry, hentry, hsome⟩ := List.mem_filterMap.mp hreminder
    dsimp only at hsome
    split at hsome
    · cases hsome
    · rw [Option.some.injEq] at hsome
      subst hsome
      -- the entry of an owner is the list of that owner
      have hget := JsMap.get?_of_mem s.core.index.nodup hentry
      refine h.absent entry.1 ⟨handle, ?_, heq⟩
      rw [ChildIndex.list, hget]
      exact List.mem_of_mem_filter hhandle

/-- Rebuilding an index from some of the rows does not bring the child back. -/
theorem ForGood.absent_rebuildIndex (h : ForGood s childId)
    {rows : List PersistedSessionLike} (hrows : ∀ ps ∈ rows, ps ∈ s.view.rows) (now : Nat)
    (ownerId : String) : ¬ (rebuildIndexFromPersisted rows now).Has ownerId childId := by
  rw [has_rebuildIndex]
  rintro ⟨ps, hps, hid, restored, htrusted, -⟩
  rw [h.unrestorable ps (hrows ps hps) hid] at htrusted
  cases htrusted

theorem not_has_forgetChild (index : ChildIndex) (sessionId ownerId : String) :
    ¬ (index.forgetChild sessionId).Has ownerId sessionId := by
  rw [has_forgetChild]
  rintro ⟨hne, -⟩
  exact hne rfl

/-- A child that is dropped, with neither a row nor a spawn left, stays away. -/
theorem ForGood.dropChild (h : ForGood s childId) (pending : PendingDismiss) (ownerId : String) :
    ¬ (dropChild s.core pending).index.Has ownerId childId := by
  show ¬ (s.core.index.forgetChild pending.childId).Has ownerId childId
  rw [has_forgetChild]
  rintro ⟨-, hhas⟩
  exact h.absent ownerId hhas

theorem unrestorable_archiveRow {rows : List PersistedSessionLike} {id : String}
    (h : childId ≠ id → ∀ ps ∈ rows, ps.id = childId → trustedRestorableChild ps = none) :
    ∀ ps ∈ archiveRow rows id, ps.id = childId → trustedRestorableChild ps = none := by
  intro ps hps hid
  rcases mem_archiveRow hps with ⟨hmem, hne⟩ | ⟨r, -, -, rfl⟩
  · exact h (hid ▸ hne) ps hmem hid
  · exact trustedRestorableChild_archived rfl

/-! ## Steps -/

/-- A spawn under way has the child that was given to it. -/
theorem notSpawning_modify {spawning : List PendingSpawn} {i : Nat} {created : String}
    (h : ∀ p ∈ spawning, p.childId ≠ some childId) (hne : created ≠ childId) :
    ∀ p ∈ spawning.modify i fun p => { p with childId := p.childId.or (some created) },
      p.childId ≠ some childId := by
  intro p hp
  rcases mem_modify hp with hp | ⟨q, hq, rfl⟩
  · exact h p hp
  · have hold := h q (List.mem_of_getElem? hq)
    intro heq
    dsimp only at heq
    cases hchild : q.childId with
    | none =>
      rw [hchild, Option.none_or, Option.some.injEq] at heq
      exact hne heq
    | some old =>
      rw [hchild, Option.some_or] at heq
      exact hold (hchild.trans heq)

theorem dismissed_answer {result : DismissResult} {s' : System}
    (hanswers : s'.answers = s.answers ++ [result]) (h : Dismissed s' childId) :
    Dismissed s childId ∨ result.ok = true ∧ result.sessionId = childId := by
  obtain ⟨r, hr, hok⟩ := h
  rw [hanswers, List.mem_append, List.mem_singleton] at hr
  rcases hr with hr | rfl
  · exact .inl ⟨r, hr, hok⟩
  · exact .inr hok

theorem forGood_dismiss {ownerId dismissed : String}
    (hinv : ∀ childId, Dismissed s childId → ForGood s childId)
    (hguard : KeepsDismissed s (.dismiss ownerId dismissed))
    (h : Dismissed (s.step (.dismiss ownerId dismissed)) childId) :
    ForGood (s.step (.dismiss ownerId dismissed)) childId := by
  unfold System.step at h ⊢
  dsimp only at h ⊢
  rcases dismiss_cases s.core s.view ownerId dismissed with
    ⟨result, hrefused, heq⟩ | ⟨hlive, howns, pending, -, hchild, heq⟩ | ⟨-, pending, -, -, heq⟩
  · rw [heq] at h ⊢
    rcases dismissed_answer rfl h with h | ⟨hok, -⟩
    · exact ⟨(hinv _ h).absent, (hinv _ h).unrestorable, (hinv _ h).notSpawning⟩
    · rw [hrefused] at hok
      cases hok
  · -- the child that is dropped has no row and no spawn left
    obtain ⟨hrows, hspawning⟩ := hguard hlive howns
    rw [heq] at h ⊢
    rcases dismissed_answer rfl h with h | ⟨-, hid⟩
    · exact ⟨(hinv _ h).dropChild pending, (hinv _ h).unrestorable, (hinv _ h).notSpawning⟩
    · have hsame : dismissed = childId := hid
      subst hsame
      refine ⟨fun owner => ?_, hrows, hspawning⟩
      rw [← hchild]
      exact not_has_forgetChild _ _ _
  · rw [heq] at h ⊢
    exact ⟨(hinv _ h).absent, (hinv _ h).unrestorable, (hinv _ h).notSpawning⟩

theorem forGood_terminated {i : Nat} {outcome : TerminateOutcome}
    (hinv : ∀ childId, Dismissed s childId → ForGood s childId)
    (hguard : KeepsDismissed s (.terminated i outcome))
    (h : Dismissed (s.step (.terminated i outcome)) childId) :
    ForGood (s.step (.terminated i outcome)) childId := by
  unfold System.step at h ⊢
  dsimp only at h ⊢
  cases hpending : s.dismissing[i]? with
  | none =>
    rw [hpending] at h
    exact hinv _ h
  | some pending =>
    rw [hpending] at h
    dsimp only at h ⊢
    -- what `terminateSession` does to the rows restores nobody
    have hrows : (∀ ps ∈ s.view.rows, ps.id = childId → trustedRestorableChild ps = none) →
        ∀ ps ∈ (endSession s.view pending.childId outcome).rows, ps.id = childId →
          trustedRestorableChild ps = none := by
      intro hrows
      cases outcome with
      | ended => exact unrestorable_archiveRow fun _ => hrows
      | absent => exact hrows
      | failed message => exact hrows
    rcases finishDismiss_cases s.core pending outcome with
      ⟨message, rfl, hcore, hrefused⟩ | ⟨hreturned, hcore, hid⟩
    · rcases dismissed_answer rfl h with h | ⟨hok, -⟩
      · exact ⟨hcore ▸ (hinv _ h).absent, hrows (hinv _ h).unrestorable, (hinv _ h).notSpawning⟩
      · rw [hrefused] at hok
        cases hok
    · obtain ⟨hended, hspawning⟩ := hguard pending hpending hreturned
      rcases dismissed_answer rfl h with h | ⟨-, hanswer⟩
      · exact ⟨hcore ▸ (hinv _ h).dropChild pending, hrows (hinv _ h).unrestorable,
          (hinv _ h).notSpawning⟩
      · have hsame : pending.childId = childId := hid.symm.trans hanswer
        subst hsame
        refine ⟨fun owner => ?_, ?_, hspawning⟩
        · rw [hcore]
          exact not_has_forgetChild _ _ _
        · rcases hended with rfl | hunrestorable
          · exact unrestorable_archiveRow fun hne => absurd rfl hne
          · exact hrows hunrestorable

theorem keepsDismissed_step (s : System) (event : Event)
    (hinv : ∀ childId, Dismissed s childId → ForGood s childId) (hguard : KeepsDismissed s event) :
    ∀ childId, Dismissed (s.step event) childId → ForGood (s.step event) childId := by
  intro childId h
  cases event with
  | dismiss ownerId dismissed => exact forGood_dismiss hinv hguard h
  | terminated i outcome => exact forGood_terminated hinv hguard h
  | prompt ownerId child => exact hinv _ h
  | steer ownerId child => exact hinv _ h
  | abort ownerId child => exact hinv _ h
  | read ownerId child => exact hinv _ h
  | wait ownerId children => exact hinv _ h
  | spawn opts =>
    unfold System.step at h ⊢
    dsimp only at h ⊢
    split at h
    · have hold := hinv childId h
      refine ⟨hold.absent, hold.unrestorable, fun p hp => ?_⟩
      rw [List.mem_append, List.mem_singleton] at hp
      rcases hp with hp | rfl
      · exact hold.notSpawning p hp
      · exact nofun
    · exact hinv _ h
  | spawnCreated i created =>
    have hold := hinv childId h
    have hne : created ≠ childId := fun heq => hguard (heq ▸ h)
    exact ⟨hold.absent, hold.unrestorable, notSpawning_modify hold.notSpawning hne⟩
  | spawnDone i now =>
    unfold System.step at h ⊢
    dsimp only at h ⊢
    split at h
    · rename_i opts created hspawn
      have hold := hinv childId h
      refine ⟨fun ownerId => ?_, hold.unrestorable,
        fun p hp => hold.notSpawning p (List.mem_of_mem_eraseIdx hp)⟩
      rw [has_addHandle]
      rintro (⟨-, heq⟩ | hhas)
      · exact hold.notSpawning _ (List.mem_of_getElem? hspawn) (congrArg some heq)
      · exact hold.absent ownerId hhas
    · exact hinv _ h
  | spawnFailed i =>
    have hold := hinv childId h
    exact ⟨hold.absent, hold.unrestorable,
      fun p hp => hold.notSpawning p (List.mem_of_mem_eraseIdx hp)⟩
  | registerChild handle =>
    have hold := hinv childId h
    refine ⟨fun ownerId => ?_, hold.unrestorable, hold.notSpawning⟩
    show ¬ (s.core.index.addHandle handle).Has ownerId childId
    rw [has_addHandle]
    rintro (⟨-, heq⟩ | hhas)
    · exact hguard (heq ▸ h)
    · exact hold.absent ownerId hhas
  | forgetChild sessionId =>
    have hold := hinv childId h
    refine ⟨fun ownerId hhas => ?_, hold.unrestorable, hold.notSpawning⟩
    exact hold.absent ownerId (has_forgetChild.mp hhas).2
  | forgetOwner removed =>
    have hold := hinv childId h
    refine ⟨fun ownerId hhas => ?_, hold.unrestorable, hold.notSpawning⟩
    exact hold.absent ownerId (has_forgetOwner.mp hhas).2
  | rebuildIndex keep now =>
    have hold := hinv childId h
    exact ⟨hold.absent_rebuildIndex (fun ps hps => List.mem_of_mem_filter hps) now,
      hold.unrestorable, hold.notSpawning⟩
  | restart keep now =>
    have hold := hinv childId h
    exact ⟨hold.absent_rebuildIndex (fun ps hps => List.mem_of_mem_filter hps) now,
      hold.unrestorable, nofun⟩
  | putRow row =>
    have hold := hinv childId h
    refine ⟨hold.absent, fun ps hps hid => ?_, hold.notSpawning⟩
    rcases Keyed.mem_put hps with rfl | hmem
    · exact hguard (hid ▸ h)
    · exact hold.unrestorable ps hmem hid
  | setSession id session =>
    have hold := hinv childId h
    exact ⟨hold.absent, hold.unrestorable, hold.notSpawning⟩

/-! ## Runs -/

/-- Where every step meets the condition, dismissed children are gone at every moment of the run. -/
theorem dismissal_permanent (events : List Event)
    (h : Along System.step KeepsDismissed .start events) :
    Always System.step PermanentlyDismissed .start events := by
  have hstart : ∀ childId, Dismissed .start childId → ForGood .start childId := by
    rintro childId ⟨result, hresult, -⟩
    cases hresult
  exact (always_of_along keepsDismissed_step hstart h).mono
    fun s hinv childId hdismissed => (hinv childId hdismissed).gone

/-- The condition on the rows cannot be left out: the next restart brings back a dismissed child whose
    row is still that of a child. -/
theorem restart_restores (hdismissed : Dismissed s childId)
    (hrow : ¬ Unrestorable s childId) (now : Nat) :
    ¬ PermanentlyDismissed (s.step (.restart (fun _ => true) now)) := by
  unfold Unrestorable at hrow
  push Not at hrow
  obtain ⟨ps, hps, hid, hsome⟩ := hrow
  obtain ⟨restored, htrusted⟩ := Option.ne_none_iff_exists'.mp hsome
  -- a row that a restart restores is not archived
  have hlive : ps.archived = false := by
    by_contra harchived
    rw [Bool.not_eq_false] at harchived
    exact hsome (trustedRestorableChild_archived harchived)
  have hboot : ps ∈ bootRows s.view fun _ => true :=
    List.mem_filter.mpr ⟨hps, by rw [hlive]; rfl⟩
  have hhas : (rebuildIndexFromPersisted (bootRows s.view fun _ => true) now).Has
      restored.ownerSessionId childId :=
    has_rebuildIndex.mpr ⟨ps, hboot, hid, restored, htrusted, rfl⟩
  obtain ⟨handle, hmem, heq⟩ := hhas
  intro h
  exact (h childId hdismissed).listed restored.ownerSessionId handle hmem heq

/-! ## Two runs -/

section Runs

def ownerRow : PersistedSessionLike where
  id := "owner"
  title := some "Owner"
  delegateOf := none
  instructions := none
  parentSessionId := none
  childKind := none
  archived := false
  teamLeadSessionId := none

def childRow : PersistedSessionLike where
  id := "child"
  title := none
  delegateOf := some "owner"
  instructions := some "Summarise the changes."
  parentSessionId := none
  childKind := some "delegate"
  archived := false
  teamLeadSessionId := none

/-- A child is spawned, runs and is dismissed while it is live; then the gateway restarts. -/
def liveRun : List Event :=
  [.putRow ownerRow, .spawn ⟨"owner", none, none, none, false, false⟩, .spawnCreated 0 "child",
    .putRow childRow, .setSession "child" (some ⟨"idle", none, false⟩), .spawnDone 0 1,
    .dismiss "owner" "child", .terminated 0 .ended, .restart (fun _ => true) 2]

/-- A child is restored by a restart, dismissed before it is started, and the gateway restarts. -/
def dormantRun : List Event :=
  [.putRow ownerRow, .putRow childRow, .restart (fun _ => true) 1, .dismiss "owner" "child",
    .restart (fun _ => true) 2]

/-- The child that was live is gone for good. -/
theorem live_child_stays_away :
    Dismissed (run System.step .start liveRun) "child" ∧
      Always System.step PermanentlyDismissed .start liveRun := by
  have hnone : ∀ (s : System) (childId : String), s.answers = [] → ¬ Dismissed s childId := by
    rintro s childId hanswers ⟨result, hresult, -⟩
    rw [hanswers] at hresult
    cases hresult
  refine ⟨⟨⟨true, .dismissed, "child", "Child session child dismissed.", false⟩, ?_, rfl, rfl⟩,
    dismissal_permanent liveRun ⟨fun h => absurd h (hnone _ _ rfl), trivial, hnone _ _ rfl,
      fun h => absurd h (hnone _ _ rfl), trivial, trivial, fun hlive => ?_, ?_, trivial, trivial⟩⟩
  · exact List.mem_singleton_self _
  · exact absurd hlive (by decide)
  · rintro pending hpending -
    exact ⟨.inl rfl, nofun⟩

/-- The dormant child is listed again after the restart. -/
theorem dormant_child_returns : ¬ Always System.step PermanentlyDismissed .start dormantRun := by
  intro h
  have hdismissed : Dismissed (run System.step .start dormantRun) "child" :=
    ⟨alreadyDismissed "child", List.mem_singleton_self _, rfl, rfl⟩
  obtain ⟨error, herror⟩ := (h.last "child" hdismissed).addressed "owner"
  have hok : (requireOwnChild (run System.step .start dormantRun).core "owner" "child").isOk = true :=
    rfl
  rw [herror] at hok
  cases hok

end Runs

end Bobbit.Server.Orchestration
