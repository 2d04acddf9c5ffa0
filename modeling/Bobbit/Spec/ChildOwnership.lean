import Bobbit.Lib.List
import Bobbit.Lib.Run
import Bobbit.Spec.ChildIndex

/-!
# Ownership of children

The core ends, prompts, steers, aborts and reads a session only for a caller that has it in its
index, whatever the rows say. A dismissal is another matter: that of a session that is not live also
trusts the rows and the memory of earlier dismissals, and then it drops the session from every index.
Where such a dismissal finds the session in nobody's index, and a session joins one owner's index at a
time, no owner takes a child from another one.

## Key results

- `calls_authorized` — calls of the session manager, in any state.
- `exclusive_step` — each child has one owner at most.
- `ownership_isolated` — the runs in which owners are isolated.
- `dismiss_takes` — why the condition on dismissals is there.
- `child_dropped` — a child dropped by a session that is not its owner.
-/

namespace Bobbit.Server.Orchestration

open Lib ChildIndex

/-! ## Calls -/

variable {core : OrchestrationCore} {ownerId childId : String}

theorem ownChildCall_ok {verb : OrchestrationVerb} {call : SessionCall}
    (h : ownChildCall verb core ownerId childId = .ok call) :
    call = ⟨verb, ownerId, childId⟩ ∧ core.index.Has ownerId childId := by
  unfold ownChildCall at h
  cases hcheck : requireOwnChild core ownerId childId with
  | error error =>
    rw [hcheck] at h
    cases h
  | ok handle =>
    rw [hcheck] at h
    cases h
    exact ⟨rfl, requireOwnChild_ok hcheck⟩

theorem steer_ok {view : OrchestrationSessionView} {call : SessionCall}
    (h : steer core view ownerId childId = .ok call) :
    call = ⟨.steer, ownerId, childId⟩ ∧ core.index.Has ownerId childId := by
  unfold steer at h
  cases hcheck : requireOwnChild core ownerId childId with
  | error error =>
    rw [hcheck] at h
    cases h
  | ok handle =>
    rw [hcheck] at h
    change (if _ then _ else _) = _ at h
    split at h
    · cases h
      exact ⟨rfl, requireOwnChild_ok hcheck⟩
    · cases h

theorem mem_toOption {ε α : Type} {result : Except ε α} {a : α} (h : a ∈ result.toOption.toList) :
    result = .ok a := by
  cases result with
  | error e => cases h
  | ok b =>
    rw [List.mem_singleton.mp h]

/-- A spawn prompts the session that it has just created. -/
def Kickoff (s : System) (event : Event) (call : SessionCall) : Prop :=
  ∃ i opts, event = .spawnCreated i call.sessionId ∧ s.spawning[i]? = some ⟨opts, none⟩ ∧
    opts.ownerSessionId = call.callerId

/-- Whatever the rows say, the session manager is called about children of the caller only, or about
    the child that it is spawning. -/
theorem calls_authorized (s : System) (event : Event) :
    ∀ call ∈ s.calls event, s.core.index.Has call.callerId call.sessionId ∨
      call.verb = .kickoff ∧ Kickoff s event call := by
  intro call hcall
  cases event with
  | prompt ownerId childId =>
    obtain ⟨rfl, hhas⟩ := ownChildCall_ok (mem_toOption hcall)
    exact .inl hhas
  | abort ownerId childId =>
    obtain ⟨rfl, hhas⟩ := ownChildCall_ok (mem_toOption hcall)
    exact .inl hhas
  | read ownerId childId =>
    obtain ⟨rfl, hhas⟩ := ownChildCall_ok (mem_toOption hcall)
    exact .inl hhas
  | steer ownerId childId =>
    obtain ⟨rfl, hhas⟩ := steer_ok (mem_toOption hcall)
    exact .inl hhas
  | wait ownerId childIds =>
    change call ∈ ((wait s.core ownerId childIds).toOption).getD [] at hcall
    cases hwait : wait s.core ownerId childIds with
    | error error =>
      rw [hwait] at hcall
      cases hcall
    | ok reads =>
      rw [hwait] at hcall
      obtain ⟨childId, -, hread⟩ := mem_of_mapM_ok hwait hcall
      obtain ⟨rfl, hhas⟩ := ownChildCall_ok hread
      exact .inl hhas
  | dismiss ownerId childId =>
    unfold System.calls at hcall
    dsimp only at hcall
    rcases dismiss_cases s.core s.view ownerId childId with
      ⟨result, -, heq⟩ | ⟨-, -, pending, -, -, heq⟩ | ⟨hhas, pending, howner, hchild, heq⟩
    · rw [heq] at hcall
      cases hcall
    · rw [heq] at hcall
      cases hcall
    · rw [heq] at hcall
      rw [List.mem_singleton.mp hcall, howner, hchild]
      exact .inl hhas
  | spawnCreated i childId =>
    unfold System.calls at hcall
    dsimp only at hcall
    split at hcall
    · rename_i opts hspawn
      split at hcall
      · rw [List.mem_singleton.mp hcall]
        exact .inr ⟨rfl, i, opts, rfl, hspawn, rfl⟩
      · cases hcall
    · cases hcall
  | spawn opts => cases hcall
  | spawnDone i now => cases hcall
  | spawnFailed i => cases hcall
  | registerChild handle => cases hcall
  | terminated i outcome => cases hcall
  | forgetChild sessionId => cases hcall
  | forgetOwner ownerId => cases hcall
  | rebuildIndex keep now => cases hcall
  | restart keep now => cases hcall
  | putRow row => cases hcall
  | setSession id session => cases hcall

/-! ## The property -/

/-- The caller whose dismissal a step is part of. -/
def dismisser (s : System) : Event → Option String
  | .dismiss ownerId _ => some ownerId
  | .terminated i _ => (s.dismissing[i]?).map (·.ownerId)
  | _ => none

/-- The session carries `delegateOf` or a `childKind`. -/
def IsChild (s : System) (sessionId : String) : Prop :=
  (s.view.getPersistedSession sessionId).any isChildRow = true

structure Isolated (s : System) (event : Event) : Prop where
  authorized : ∀ call ∈ s.calls event, s.core.index.Has call.callerId call.sessionId ∨
    call.verb = .kickoff ∧ Kickoff s event call
  others : ∀ caller, dismisser s event = some caller → ∀ ownerId, ownerId ≠ caller →
    (s.step event).core.index.list ownerId = s.core.index.list ownerId
  owners : ∀ i now opts childId, event = .spawnDone i now →
    s.spawning[i]? = some ⟨opts, some childId⟩ → ¬ IsChild s opts.ownerSessionId

/-! ## The condition -/

/-- Nobody else has the child or is dismissing it. -/
def Free (s : System) (ownerId childId : String) : Prop :=
  (∀ other, s.core.index.Has other childId → other = ownerId) ∧
    ∀ d ∈ s.dismissing, d.childId = childId → d.ownerId = ownerId

/-- The condition on a step. A dismissal by record alone, of a session that is not live, finds the
    session in nobody's index. A child joins the index of an owner while no other owner has it or is
    dismissing it. The owner of a spawn under way does not become a child. -/
def KeepsApart (s : System) : Event → Prop
  | .dismiss ownerId childId =>
    ¬ s.core.index.Has ownerId childId → ownedByRecord s.core s.view ownerId childId = true →
      isCurrentlyLive s.view childId = false → ∀ other, ¬ s.core.index.Has other childId
  | .registerChild handle => Free s handle.ownerSessionId handle.sessionId
  | .spawnDone i _ =>
    ∀ opts childId, s.spawning[i]? = some ⟨opts, some childId⟩ → Free s opts.ownerSessionId childId
  | .rebuildIndex keep _ =>
    ∀ ps ∈ s.view.rows, keep ps.id = true → ∀ ownerId, Restores ps ownerId →
      ∀ d ∈ s.dismissing, d.childId = ps.id → d.ownerId = ownerId
  | .putRow row => isChildRow row = true → ∀ p ∈ s.spawning, p.opts.ownerSessionId ≠ row.id
  | _ => True

/-! ## The invariant -/

/-- Each child has one owner, which is the one that dismisses it, and no child spawns. -/
structure Exclusive (s : System) : Prop where
  rows : (s.view.rows.map (·.id)).Nodup
  one : ∀ ownerId other childId, s.core.index.Has ownerId childId →
    s.core.index.Has other childId → ownerId = other
  dismissing : ∀ d ∈ s.dismissing, ∀ ownerId, s.core.index.Has ownerId d.childId →
    ownerId = d.ownerId
  spawning : ∀ p ∈ s.spawning, ¬ IsChild s p.opts.ownerSessionId

theorem ids_archiveRow (rows : List PersistedSessionLike) (id : String) :
    (archiveRow rows id).map (·.id) = rows.map (·.id) := by
  unfold archiveRow
  rw [List.map_map]
  refine List.map_congr_left fun r _ => ?_
  show (if r.id = id then { r with archived := true } else r).id = r.id
  split <;> rfl

variable {s : System}

theorem isChild_iff (hrows : (s.view.rows.map (·.id)).Nodup) {sessionId : String} :
    IsChild s sessionId ↔ ∃ ps ∈ s.view.rows, ps.id = sessionId ∧ isChildRow ps = true := by
  unfold IsChild OrchestrationSessionView.getPersistedSession
  constructor
  · intro h
    obtain ⟨ps, hfind, hchild⟩ := (Option.any_eq_true _ _).mp h
    exact ⟨ps, (Keyed.find?_key_iff hrows).mp hfind |>.1, (Keyed.find?_key_iff hrows).mp hfind |>.2,
      hchild⟩
  · rintro ⟨ps, hps, hid, hchild⟩
    rw [Option.any_eq_true]
    exact ⟨ps, (Keyed.find?_key_iff hrows).mpr ⟨hps, hid⟩, hchild⟩

/-- What a step has to keep: the rows of children, the index, and the calls under way. -/
theorem Exclusive.of {s' : System} (h : Exclusive s) (hrows : (s'.view.rows.map (·.id)).Nodup)
    (hchild : ∀ p ∈ s'.spawning, ∃ q ∈ s.spawning,
      q.opts.ownerSessionId = p.opts.ownerSessionId ∧
        (IsChild s' p.opts.ownerSessionId → IsChild s p.opts.ownerSessionId))
    (hhas : ∀ ownerId childId, s'.core.index.Has ownerId childId → s.core.index.Has ownerId childId)
    (hdismissing : ∀ d ∈ s'.dismissing, d ∈ s.dismissing) : Exclusive s' where
  rows := hrows
  one ownerId other childId howner hother :=
    h.one ownerId other childId (hhas _ _ howner) (hhas _ _ hother)
  dismissing d hd ownerId howner := h.dismissing d (hdismissing d hd) ownerId (hhas _ _ howner)
  spawning p hp hisChild := by
    obtain ⟨q, hq, howner, hback⟩ := hchild p hp
    exact h.spawning q hq (howner ▸ hback hisChild)

/-! ## Steps -/

theorem assertCanSpawn_ok {checked : Unit}
    (h : assertCanSpawn s.view ownerId = .ok checked) : ¬ IsChild s ownerId := by
  unfold assertCanSpawn at h
  split at h
  · cases h
  · assumption

theorem Exclusive.addHandle {s' : System} (h : Exclusive s) {handle : ChildHandle}
    (hfree : Free s handle.ownerSessionId handle.sessionId) (hview : s'.view = s.view)
    (hindex : s'.core.index = s.core.index.addHandle handle)
    (hspawning : ∀ p ∈ s'.spawning, p ∈ s.spawning) (hdismissing : s'.dismissing = s.dismissing) :
    Exclusive s' where
  rows := hview ▸ h.rows
  one ownerId other childId howner hother := by
    rw [hindex, has_addHandle] at howner hother
    rcases howner with ⟨rfl, rfl⟩ | howner
    · rcases hother with ⟨rfl, -⟩ | hother
      · rfl
      · exact (hfree.1 other hother).symm
    · rcases hother with ⟨rfl, rfl⟩ | hother
      · exact hfree.1 ownerId howner
      · exact h.one ownerId other childId howner hother
  dismissing d hd ownerId howner := by
    rw [hdismissing] at hd
    rw [hindex, has_addHandle] at howner
    rcases howner with ⟨rfl, hsame⟩ | howner
    · exact (hfree.2 d hd hsame.symm).symm
    · exact h.dismissing d hd ownerId howner
  spawning p hp := by
    unfold IsChild
    rw [hview]
    exact h.spawning p (hspawning p hp)

theorem Restores.unique {ps : PersistedSessionLike} {other : String}
    (h : Restores ps ownerId) (hother : Restores ps other) : ownerId = other := by
  obtain ⟨restored, htrusted, rfl⟩ := h
  obtain ⟨restored', htrusted', rfl⟩ := hother
  rw [htrusted, Option.some.injEq] at htrusted'
  rw [htrusted']

/-- An index that is rebuilt from rows with different ids has each child once. -/
theorem one_rebuildIndex {rows : List PersistedSessionLike} (hrows : (rows.map (·.id)).Nodup)
    {now : Nat} {other : String} (howner : (rebuildIndexFromPersisted rows now).Has ownerId childId)
    (hother : (rebuildIndexFromPersisted rows now).Has other childId) : ownerId = other := by
  rw [has_rebuildIndex] at howner hother
  obtain ⟨ps, hps, hid, hrestores⟩ := howner
  obtain ⟨ps', hps', hid', hrestores'⟩ := hother
  rw [List.inj_on_of_nodup_map hrows hps hps' (hid.trans hid'.symm)] at hrestores
  exact hrestores.unique hrestores'

theorem nodup_filter_rows {rows : List PersistedSessionLike} (h : (rows.map (·.id)).Nodup)
    (p : PersistedSessionLike → Bool) : ((rows.filter p).map (·.id)).Nodup :=
  h.sublist (List.filter_sublist.map _)

/-- The two parts of a dismissal only take children away. -/
theorem has_of_dropChild {pending : PendingDismiss}
    (h : (dropChild core pending).index.Has ownerId childId) : core.index.Has ownerId childId :=
  (has_forgetChild.mp h).2

theorem exclusive_dismiss (h : Exclusive s) (ownerId childId : String) :
    Exclusive (s.step (.dismiss ownerId childId)) := by
  unfold System.step
  dsimp only
  rcases dismiss_cases s.core s.view ownerId childId with
    ⟨result, -, heq⟩ | ⟨-, -, pending, -, -, heq⟩ | ⟨hhas, pending, howner, hchild, heq⟩
  · rw [heq]
    exact ⟨h.rows, h.one, h.dismissing, h.spawning⟩
  · rw [heq]
    exact h.of h.rows (fun p hp => ⟨p, hp, rfl, id⟩) (fun _ _ => has_of_dropChild) fun _ => id
  · rw [heq]
    refine ⟨h.rows, h.one, fun d hd other hother => ?_, h.spawning⟩
    rw [List.mem_append, List.mem_singleton] at hd
    rcases hd with hd | rfl
    · exact h.dismissing d hd other hother
    · -- the dismissal goes on for the one owner of the child
      rw [howner]
      rw [hchild] at hother
      exact h.one other ownerId childId hother hhas

theorem isChildRow_archived (ps : PersistedSessionLike) :
    isChildRow { ps with archived := true } = isChildRow ps := rfl

theorem exclusive_terminated (h : Exclusive s) (i : Nat) (outcome : TerminateOutcome) :
    Exclusive (s.step (.terminated i outcome)) := by
  unfold System.step
  dsimp only
  cases hpending : s.dismissing[i]? with
  | none => exact h
  | some pending =>
    dsimp only
    have hrows : ((endSession s.view pending.childId outcome).rows.map (·.id)).Nodup := by
      cases outcome with
      | ended =>
        show ((archiveRow s.view.rows pending.childId).map (·.id)).Nodup
        rw [ids_archiveRow]
        exact h.rows
      | absent => exact h.rows
      | failed message => exact h.rows
    -- archiving a row leaves its ownership as it is
    have hback : ∀ ps ∈ (endSession s.view pending.childId outcome).rows,
        ∃ r ∈ s.view.rows, r.id = ps.id ∧ isChildRow r = isChildRow ps := by
      cases outcome with
      | ended =>
        intro ps hps
        rcases mem_archiveRow hps with ⟨hmem, -⟩ | ⟨r, hr, -, rfl⟩
        · exact ⟨ps, hmem, rfl, rfl⟩
        · exact ⟨r, hr, rfl, (isChildRow_archived r).symm⟩
      | absent => exact fun ps hps => ⟨ps, hps, rfl, rfl⟩
      | failed message => exact fun ps hps => ⟨ps, hps, rfl, rfl⟩
    refine h.of hrows (fun p hp => ⟨p, hp, rfl, fun hchild => ?_⟩) (fun owner child hhas => ?_)
      fun d hd => List.mem_of_mem_eraseIdx hd
    · obtain ⟨ps, hps, hid, hrow⟩ := (isChild_iff hrows).mp hchild
      obtain ⟨r, hr, hrid, hsame⟩ := hback ps hps
      exact (isChild_iff h.rows).mpr ⟨r, hr, hrid.trans hid, hsame.trans hrow⟩
    · rcases finishDismiss_cases s.core pending outcome with
        ⟨message, -, hcore, -⟩ | ⟨-, hcore, -⟩
      · exact hcore ▸ hhas
      · exact has_of_dropChild (hcore ▸ hhas)

theorem exclusive_step (s : System) (event : Event) (h : Exclusive s) (hguard : KeepsApart s event) :
    Exclusive (s.step event) := by
  cases event with
  | dismiss ownerId childId => exact exclusive_dismiss h ownerId childId
  | terminated i outcome => exact exclusive_terminated h i outcome
  | prompt ownerId childId => exact h
  | steer ownerId childId => exact h
  | abort ownerId childId => exact h
  | read ownerId childId => exact h
  | wait ownerId childIds => exact h
  | spawn opts =>
    unfold System.step
    dsimp only
    split
    · rename_i checked hcheck
      refine ⟨h.rows, h.one, h.dismissing, fun p hp => ?_⟩
      rw [List.mem_append, List.mem_singleton] at hp
      rcases hp with hp | rfl
      · exact h.spawning p hp
      · exact assertCanSpawn_ok hcheck
    · exact h
  | spawnCreated i childId =>
    refine h.of h.rows (fun p hp => ?_) (fun _ _ => id) fun _ => id
    rw [System.step] at hp
    rcases mem_modify hp with hp | ⟨q, hq, rfl⟩
    · exact ⟨p, hp, rfl, id⟩
    · exact ⟨q, List.mem_of_getElem? hq, rfl, id⟩
  | spawnDone i now =>
    unfold System.step
    dsimp only
    split
    · rename_i opts childId hspawn
      exact @Exclusive.addHandle s _ h (spawnedHandle s.view opts childId now)
        (hguard opts childId hspawn) rfl rfl (fun p hp => List.mem_of_mem_eraseIdx hp) rfl
    · exact h
  | spawnFailed i =>
    exact h.of h.rows (fun p hp => ⟨p, List.mem_of_mem_eraseIdx hp, rfl, id⟩) (fun _ _ => id)
      fun _ => id
  | registerChild handle => exact h.addHandle hguard rfl rfl (fun p hp => hp) rfl
  | forgetChild sessionId =>
    exact h.of h.rows (fun p hp => ⟨p, hp, rfl, id⟩) (fun _ _ hhas => (has_forgetChild.mp hhas).2)
      fun _ => id
  | forgetOwner ownerId =>
    exact h.of h.rows (fun p hp => ⟨p, hp, rfl, id⟩) (fun _ _ hhas => (has_forgetOwner.mp hhas).2)
      fun _ => id
  | rebuildIndex keep now =>
    refine ⟨h.rows, fun ownerId other childId => one_rebuildIndex (nodup_filter_rows h.rows _),
      fun d hd ownerId hhas => ?_, h.spawning⟩
    obtain ⟨ps, hps, hid, hrestores⟩ := has_rebuildIndex.mp hhas
    obtain ⟨hmem, hkeep⟩ := List.mem_filter.mp hps
    exact (hguard ps hmem hkeep ownerId hrestores d hd hid.symm).symm
  | restart keep now =>
    exact ⟨h.rows, fun ownerId other childId => one_rebuildIndex (nodup_filter_rows h.rows _),
      nofun, nofun⟩
  | putRow row =>
    have hrows := Keyed.nodup_put h.rows row
    refine h.of hrows (fun p hp => ⟨p, hp, rfl, fun hchild => ?_⟩) (fun _ _ => id) fun _ => id
    obtain ⟨ps, hps, hid, hrow⟩ := (@isChild_iff (s.step (.putRow row)) hrows _).mp hchild
    rcases Keyed.mem_put hps with rfl | hmem
    · exact absurd hid.symm (hguard hrow p hp)
    · exact (isChild_iff h.rows).mpr ⟨ps, hmem, hid, hrow⟩
  | setSession id session => exact ⟨h.rows, h.one, h.dismissing, h.spawning⟩

/-- An owner that is not the dismisser keeps its children. -/
theorem others_keep {event : Event} (h : Exclusive s) (hguard : KeepsApart s event)
    {caller : String} (hcaller : dismisser s event = some caller) (hne : ownerId ≠ caller) :
    (s.step event).core.index.list ownerId = s.core.index.list ownerId := by
  cases event with
  | dismiss dismisser childId =>
    obtain rfl : dismisser = caller := by simpa [Orchestration.dismisser] using hcaller
    unfold System.step
    dsimp only
    rcases dismiss_cases s.core s.view dismisser childId with
      ⟨result, -, heq⟩ | ⟨hlive, howns, pending, -, hchild, heq⟩ | ⟨-, pending, -, -, heq⟩
    · rw [heq]
    · rw [heq]
      show (s.core.index.forgetChild pending.childId).list ownerId = _
      refine list_forgetChild_of_not_has fun hhas => ?_
      rw [hchild] at hhas
      -- either the caller is the one owner, or nobody has the child
      by_cases hown : s.core.index.Has dismisser childId
      · exact hne (h.one ownerId dismisser childId hhas hown)
      · exact hguard hown (howns.resolve_left hown) hlive ownerId hhas
    · rw [heq]
  | terminated i outcome =>
    obtain ⟨pending, hpending, rfl⟩ := Option.map_eq_some_iff.mp hcaller
    unfold System.step
    dsimp only
    rw [hpending]
    dsimp only
    rcases finishDismiss_cases s.core pending outcome with
      ⟨message, -, hcore, -⟩ | ⟨-, hcore, -⟩
    · rw [hcore]
    · rw [hcore]
      show (s.core.index.forgetChild pending.childId).list ownerId = _
      refine list_forgetChild_of_not_has fun hhas => hne ?_
      exact h.dismissing pending (List.mem_of_getElem? hpending) ownerId hhas
  | spawn opts => cases hcaller
  | spawnCreated i childId => cases hcaller
  | spawnDone i now => cases hcaller
  | spawnFailed i => cases hcaller
  | registerChild handle => cases hcaller
  | prompt owner childId => cases hcaller
  | steer owner childId => cases hcaller
  | abort owner childId => cases hcaller
  | read owner childId => cases hcaller
  | wait owner childIds => cases hcaller
  | forgetChild sessionId => cases hcaller
  | forgetOwner owner => cases hcaller
  | rebuildIndex keep now => cases hcaller
  | restart keep now => cases hcaller
  | putRow row => cases hcaller
  | setSession id session => cases hcaller

theorem isolated_step (s : System) (event : Event) (h : Exclusive s) (hguard : KeepsApart s event) :
    Isolated s event where
  authorized := calls_authorized s event
  others _ hcaller _ hne := others_keep h hguard hcaller hne
  owners _ _ _ _ _ hspawn := h.spawning _ (List.mem_of_getElem? hspawn)

/-! ## Runs -/

/-- Where every step meets the condition, owners are isolated in every step of the run. -/
theorem ownership_isolated (events : List Event) (h : Along System.step KeepsApart .start events) :
    Along System.step Isolated .start events := by
  have hstart : Exclusive .start :=
    ⟨List.nodup_nil, fun _ _ _ hhas => absurd hhas has_empty, nofun, nofun⟩
  exact along_of_along exclusive_step isolated_step hstart h

/-- The condition on dismissals cannot be left out: a dismissal by record alone takes the child from
    every other owner. -/
theorem dismiss_takes {other : String} (hown : ¬ s.core.index.Has ownerId childId)
    (hrecord : ownedByRecord s.core s.view ownerId childId = true)
    (hlive : isCurrentlyLive s.view childId = false) (hother : s.core.index.Has other childId) :
    ¬ Isolated s (.dismiss ownerId childId) := by
  have hne : other ≠ ownerId := fun heq => hown (heq ▸ hother)
  have hdropped : ∃ pending : PendingDismiss, pending.childId = childId ∧
      (s.step (.dismiss ownerId childId)).core = dropChild s.core pending := by
    unfold System.step dismiss
    simp only [hlive, hrecord, Bool.false_eq_true, false_and, if_false, if_true, and_false,
      Bool.true_eq_false]
    exact ⟨_, rfl, rfl⟩
  obtain ⟨pending, hchild, hcore⟩ := hdropped
  intro h
  have hkept := h.others ownerId rfl other hne
  rw [hcore] at hkept
  have hgone : ¬ (dropChild s.core pending).index.Has other childId := fun hhas =>
    (has_forgetChild.mp hhas).1 hchild.symm
  unfold Has at hgone hother
  rw [hkept] at hgone
  exact hgone hother

/-! ## Two runs -/

section Runs

/-- The row of a helper of `lead`, with the parent that was written into it. -/
def helperRow (parentSessionId : Option String) : PersistedSessionLike where
  id := "helper"
  title := none
  delegateOf := some "lead"
  instructions := some "Run the tests."
  parentSessionId := parentSessionId
  childKind := some "delegate"
  archived := false
  teamLeadSessionId := none

/-- `lead` spawns a helper, which starts to run. -/
def spawnRun : List Event :=
  [.spawn ⟨"lead", none, none, none, false, false⟩, .spawnCreated 0 "helper", .putRow (helperRow none),
    .setSession "helper" (some ⟨"idle", none, false⟩), .spawnDone 0 1]

/-- Another session names itself as the parent; while the helper runs, that is of no avail. -/
def liveClaimRun : List Event :=
  spawnRun ++ [.putRow (helperRow (some "other")), .dismiss "other" "helper", .prompt "lead" "helper",
    .dismiss "lead" "helper", .terminated 0 .ended]

/-- The helper ends before the other session claims and dismisses it. -/
def endedClaimRun : List Event :=
  spawnRun ++ [.setSession "helper" none, .putRow (helperRow (some "other")),
    .dismiss "other" "helper"]

/-- The helper that runs is dismissed by its owner alone. -/
theorem live_child_isolated : Along System.step Isolated .start liveClaimRun := by
  refine ownership_isolated liveClaimRun ⟨trivial, trivial, fun _ p hp => ?_, trivial,
    fun opts childId hspawn => ⟨fun other hhas => absurd hhas has_empty, nofun⟩, nofun, ?_, trivial, ?_,
    trivial, trivial⟩
  · rw [List.mem_singleton.mp hp]
    decide
  · intro _ _ hlive
    exact absurd hlive (by decide)
  · intro _ _ hlive
    exact absurd hlive (by decide)

/-- The ended helper is dropped from the index of its owner by the other session. -/
theorem child_dropped : ¬ Along System.step Isolated .start endedClaimRun := by
  intro h
  have hdismiss := (along_append h).2.2.2.1
  have hkept := hdismiss.others "other" rfl "lead" (by decide)
  exact absurd (congrArg List.length hkept) (by decide)

end Runs

end Bobbit.Server.Orchestration
