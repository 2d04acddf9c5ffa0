import Bobbit.Lib.List
import Bobbit.Server.RemoteState

/-!
# Freshness and permits of the remote state coordinator

Key results:

- `remote_state_fresh`: in every run each record has at most one refresh in flight, the
  permits in use are those of the refreshes that have one and have not returned it, each
  is returned once, and a snapshot that is not reported as stale holds what a refresh
  fetched that began after the last invalidation.
-/

namespace Bobbit.Server

open Lib

def RefreshPhase.holds : RefreshPhase → Bool
  | .granted => true
  | .running _ => true
  | _ => false

@[simp] theorem RefreshPhase.holds_queued : queued.holds = false := rfl

@[simp] theorem RefreshPhase.holds_granted : granted.holds = true := rfl

@[simp] theorem RefreshPhase.holds_running (version : Nat) : (running version).holds = true := rfl

/-- A refresh that awaits its fetch. -/
def RefreshPhase.isRunning : RefreshPhase → Bool
  | .running _ => true
  | _ => false

def RefreshPhase.returned : RefreshPhase → Bool
  | .projecting _ => true
  | .finishing => true
  | .done => true
  | _ => false

@[simp] theorem RefreshPhase.returned_queued : queued.returned = false := rfl

@[simp] theorem RefreshPhase.returned_granted : granted.returned = false := rfl

@[simp] theorem RefreshPhase.returned_running (version : Nat) :
    (running version).returned = false := rfl

namespace RemoteStateCoordinator

variable {α : Type} {options : RemoteStateCoordinatorOptions}

/-- The state after a run of entries. -/
def after (options : RemoteStateCoordinatorOptions) (labels : List (RemoteStateLabel α)) :
    RemoteStateCoordinator α :=
  run (fun s label => (s.step options label).1) new labels

/-- Does the entry invalidate the record of a key? -/
def Invalidates (key : String) : RemoteStateLabel α → Prop
  | .invalidate k _ => k = key
  | _ => False

/-- The data was fetched, at some time, by a refresh that began when nothing after its
    start invalidates the record. -/
def Fetched (options : RemoteStateCoordinatorOptions) (labels : List (RemoteStateLabel α))
    (key : String) (data : Option α) (refreshedAt : Int) : Prop :=
  ∃ i began pre mid post version,
    labels = pre ++ .begin i began :: (mid ++ .settle i (.ok data) refreshedAt :: post) ∧
    (after options pre).refreshes[i]? = some ⟨key, .granted⟩ ∧
    (after options (pre ++ .begin i began :: mid)).refreshes[i]? = some ⟨key, .running version⟩ ∧
    ∀ label ∈ mid ++ post, ¬ Invalidates key label

/-- The entry makes a refresh return its permit. -/
def returns (i : Nat) (s : RemoteStateCoordinator α) : RemoteStateLabel α → Bool
  | .settle j _ _ => j = i && (s.refreshOf i).any (·.1.phase.isRunning)
  | _ => false

/-! ## What an entry does -/

/-- The fields that say what is known of the remote state. -/
structure Kept (record record' : RemoteStateRecord α) : Prop where
  lastGood : record'.lastGood = record.lastGood
  refreshedAt : record'.refreshedAt = record.refreshedAt
  invalidated : record'.invalidated = record.invalidated
  invalidationVersion : record'.invalidationVersion = record.invalidationVersion

inductive StepCase (options : RemoteStateCoordinatorOptions) (s s' : RemoteStateCoordinator α)
    (label : RemoteStateLabel α) : Prop
  | same (eq : s' = s) (quiet : ∀ key, Invalidates key label → s.records.get? key = none)
  | registered (key : String) (record : RemoteStateRecord α) (get : s.records.get? key = none)
      (refreshedAt : record.refreshedAt = none) (inFlight : record.inFlight = none)
      (eq : s' = s.setRecord key record) (quiet : ∀ key, ¬ Invalidates key label)
  | kept (key : String) (record record' : RemoteStateRecord α)
      (get : s.records.get? key = some record) (kept : Kept record record')
      (inFlight : record'.inFlight = record.inFlight)
      (eq : s' = s.setRecord key record') (quiet : ∀ key, ¬ Invalidates key label)
  | started (key : String) (record record' : RemoteStateRecord α)
      (get : s.records.get? key = some record) (kept : Kept record record')
      (idle : record.inFlight = none) (inFlight : record'.inFlight = none)
      (eq : s' = s.startRefresh options key record') (quiet : ∀ key, ¬ Invalidates key label)
  | invalidated (key : String) (record record' : RemoteStateRecord α)
      (get : s.records.get? key = some record)
      (invalidated : record'.invalidated = true)
      (version : record'.invalidationVersion = record.invalidationVersion + 1)
      (inFlight : record'.inFlight = record.inFlight)
      (eq : s' = s.setRecord key record') (loud : ∀ k, Invalidates k label ↔ k = key)
  | began (i : Nat) (key : String) (record : RemoteStateRecord α) (now : Int)
      (label : label = .begin i now) (get : s.records.get? key = some record)
      (due : s.refreshes[i]? = some ⟨key, .granted⟩)
      (eq : s' = s.begin i key record now)
  | settled (i : Nat) (key : String) (record : RemoteStateRecord α) (version : Nat)
      (result : Except RemoteStateErrorKind (Option α)) (now : Int) (phase : RefreshPhase)
      (label : label = .settle i result now) (get : s.records.get? key = some record)
      (due : s.refreshes[i]? = some ⟨key, .running version⟩)
      (returned : phase.returned = true) (live : phase ≠ .done)
      (eq : s' = ((s.setRecord key (settledRecord options record version result now)).release).setPhase
        i phase)
  | moved (i : Nat) (key : String) (phase phase' : RefreshPhase)
      (due : s.refreshes[i]? = some ⟨key, phase⟩) (before : phase.returned = true)
      (returned : phase'.returned = true) (live : phase ≠ .done) (live' : phase' ≠ .done)
      (eq : s' = s.setPhase i phase') (quiet : ∀ key, ¬ Invalidates key label)
  | finished (i : Nat) (key : String) (record : RemoteStateRecord α)
      (get : s.records.get? key = some record) (due : s.refreshes[i]? = some ⟨key, .finishing⟩)
      (eq : s' = s.finish i key record) (quiet : ∀ key, ¬ Invalidates key label)

variable {record record' : RemoteStateRecord α}

theorem Kept.trans {record'' : RemoteStateRecord α} (h : Kept record record')
    (h' : Kept record' record'') : Kept record record'' :=
  ⟨h'.lastGood.trans h.lastGood, h'.refreshedAt.trans h.refreshedAt,
    h'.invalidated.trans h.invalidated, h'.invalidationVersion.trans h.invalidationVersion⟩

theorem kept_addAddress (record : RemoteStateRecord α) (address : Option RemoteStateAddress) :
    Kept record (addAddress record address) := by
  cases address <;> exact ⟨rfl, rfl, rfl, rfl⟩

theorem kept_addBinding (record : RemoteStateRecord α) (binding : Option RemoteStateAddress) :
    Kept record (addBinding record binding) := by
  cases binding <;> exact ⟨rfl, rfl, rfl, rfl⟩

@[simp] theorem inFlight_addAddress (record : RemoteStateRecord α)
    (address : Option RemoteStateAddress) :
    (addAddress record address).inFlight = record.inFlight := by
  cases address <;> rfl

@[simp] theorem inFlight_addBinding (record : RemoteStateRecord α)
    (binding : Option RemoteStateAddress) :
    (addBinding record binding).inFlight = record.inFlight := by
  cases binding <;> rfl

/-- Rewriting the record first makes no difference to a refresh that starts. -/
theorem startRefresh_setRecord (s : RemoteStateCoordinator α) (key : String)
    (record record' : RemoteStateRecord α) (hidle : record'.inFlight = none) :
    (s.setRecord key record).startRefresh options key record' =
      s.startRefresh options key record' := by
  unfold startRefresh
  rw [hidle]
  by_cases hfree : s.active < options.limit
  · simp [acquire, setRecord, hfree, JsMap.set_set]
  · simp [acquire, setRecord, hfree, JsMap.set_set]

variable (options) in
/-- A read rewrites the record, or starts a refresh when none is in flight. -/
theorem read_cases (s : RemoteStateCoordinator α) (key : String) (record : RemoteStateRecord α)
    (intent : RemoteStateIntent) (now : Int) (request : RemoteStateReadOptions) :
    (∃ record', Kept record record' ∧ record'.inFlight = record.inFlight ∧
        s.read options key record intent now request = s.setRecord key record') ∨
      ∃ record', Kept record record' ∧ record.inFlight = none ∧ record'.inFlight = none ∧
        s.read options key record intent now request = s.startRefresh options key record' := by
  have hkept := kept_addAddress record request.address
  have hrewrite : ∃ record', Kept record record' ∧ record'.inFlight = record.inFlight ∧
      s.setRecord key (addAddress record request.address) = s.setRecord key record' :=
    ⟨_, hkept, inFlight_addAddress _ _, rfl⟩
  unfold read requestRefresh
  dsimp only
  split
  · exact .inl hrewrite
  split
  · exact .inl hrewrite
  rename_i hidle
  rw [inFlight_addAddress, Bool.not_eq_true, Option.isSome_eq_false_iff, Option.isNone_iff_eq_none]
    at hidle
  split
  · exact .inl hrewrite
  split
  · exact .inl hrewrite
  split
  · exact .inl hrewrite
  right
  have hidle' : (addAddress record request.address).inFlight = none := by
    rw [inFlight_addAddress, hidle]
  split
  · refine ⟨_, ?_, hidle, ?_, startRefresh_setRecord _ _ _ _ ?_⟩
    · exact hkept.trans ⟨rfl, rfl, rfl, rfl⟩
    · exact hidle'
    · exact hidle'
  · exact ⟨_, hkept, hidle, hidle', startRefresh_setRecord _ _ _ _ hidle'⟩

variable {s : RemoteStateCoordinator α} {key : String} {label : RemoteStateLabel α}

theorem read_stepCase
    (get : s.records.get? key = some record) (intent : RemoteStateIntent) (now : Int)
    (request : RemoteStateReadOptions) (quiet : ∀ key, ¬ Invalidates key label) :
    StepCase options s (s.read options key record intent now request) label := by
  cases read_cases options s key record intent now request with
  | inl h =>
    obtain ⟨record', hkept, hinFlight, heq⟩ := h
    exact .kept key record record' get hkept hinFlight heq quiet
  | inr h =>
    obtain ⟨record', hkept, hidle, hidle', heq⟩ := h
    exact .started key record record' get hkept hidle hidle' heq quiet

theorem register_stepCase (s : RemoteStateCoordinator α) (key : String)
    (source : RemoteStateSource) (address binding : Option RemoteStateAddress) :
    StepCase options s (s.register key source address binding)
      (.register key source address binding) := by
  unfold register
  cases get : s.records.get? key with
  | none =>
    have hkept := (kept_addAddress (newRecord (α := α) source) address).trans
      (kept_addBinding _ binding)
    exact .registered key _ get hkept.refreshedAt (by simp [newRecord]) rfl fun _ h => h
  | some existing =>
    dsimp only
    split
    · exact .same rfl fun _ h => h.elim
    · exact .kept key existing _ get ((kept_addAddress _ address).trans (kept_addBinding _ binding))
        (by simp) rfl fun _ h => h

variable (options) in
theorem broadcastFrom_state (s : RemoteStateCoordinator α) (i : Nat) (key : String)
    (record : RemoteStateRecord α) (next : Nat) (now : Int) :
    ∃ phase : RefreshPhase, phase.returned = true ∧ phase ≠ .done ∧
      (s.broadcastFrom options i key record next now).1 = s.setPhase i phase := by
  unfold broadcastFrom
  dsimp only
  generalize (if record.source = .repository then record.repositoryBindings else []) = bindings
  split
  · exact ⟨.projecting next, rfl, by simp, rfl⟩
  · exact ⟨.finishing, rfl, by simp, rfl⟩

variable (options) in
theorem settle_state (s : RemoteStateCoordinator α) (i : Nat) (key : String)
    (record : RemoteStateRecord α) (version : Nat)
    (result : Except RemoteStateErrorKind (Option α)) (now : Int) :
    ∃ phase : RefreshPhase, phase.returned = true ∧ phase ≠ .done ∧
      (s.settle options i key record version result now).1 =
        ((s.setRecord key (settledRecord options record version result now)).release).setPhase i
          phase := by
  unfold settle
  dsimp only
  split
  · exact broadcastFrom_state _ _ i key _ 0 now
  · exact ⟨.finishing, rfl, by simp, rfl⟩

variable {i : Nat} {refresh : RemoteRefresh}

theorem refreshOf_eq_some : s.refreshOf i = some (refresh, record) ↔
      s.refreshes[i]? = some refresh ∧ s.records.get? refresh.key = some record := by
  unfold refreshOf
  cases s.refreshes[i]? with
  | none => simp
  | some found =>
    simp only [Option.map_eq_some_iff, Prod.mk.injEq, Option.some.injEq]
    constructor
    · rintro ⟨_, hget, rfl, rfl⟩
      exact ⟨rfl, hget⟩
    · rintro ⟨rfl, hget⟩
      exact ⟨record, hget, rfl, rfl⟩

variable (options) in
theorem step_cases (s : RemoteStateCoordinator α) (label : RemoteStateLabel α) :
    StepCase options s (s.step options label).1 label := by
  cases label with
  | register key source address binding => exact register_stepCase s key source address binding
  | readSnapshot key request now =>
    simp only [step, readSnapshot]
    cases get : s.records.get? key with
    | none => exact .same rfl fun _ h => h.elim
    | some record => exact read_stepCase get _ now request fun _ h => h
  | ensureFreshRepository key address now =>
    simp only [step, ensureFreshRepository]
    cases get : s.records.get? key with
    | none => exact .same rfl fun _ h => h.elim
    | some record =>
      dsimp only
      split
      · exact .same rfl fun _ h => h.elim
      · exact read_stepCase get _ now _ fun _ h => h
  | refreshSnapshot key request now =>
    simp only [step, refreshSnapshot]
    cases get : s.records.get? key with
    | none => exact .same rfl fun _ h => h.elim
    | some record => exact read_stepCase get _ now request fun _ h => h
  | awaited key cadence now => exact .same rfl fun _ h => h.elim
  | invalidate key allowImmediateRefresh =>
    simp only [step, invalidate]
    cases get : s.records.get? key with
    | none => exact .same rfl fun k h => h ▸ get
    | some record =>
      dsimp only
      refine .invalidated key record _ get ?_ ?_ ?_ rfl fun k => eq_comm
      · rfl
      · rfl
      · rfl
  | begin i now =>
    simp only [step]
    split
    · rename_i key record h
      obtain ⟨due, get⟩ := refreshOf_eq_some.mp h
      exact .began i key record now rfl get due rfl
    · exact .same rfl fun _ h => h.elim
  | settle i result now =>
    simp only [step]
    split
    · rename_i key version record h
      obtain ⟨due, get⟩ := refreshOf_eq_some.mp h
      obtain ⟨phase, hreturned, hlive, heq⟩ := settle_state options s i key record
        version result now
      exact .settled i key record version result now phase rfl get due hreturned hlive heq
    · exact .same rfl fun _ h => h.elim
  | project i data now =>
    simp only [step]
    split
    · rename_i key next record h
      obtain ⟨due, -⟩ := refreshOf_eq_some.mp h
      obtain ⟨phase, hreturned, hlive, heq⟩ := broadcastFrom_state options s i key record
        (next + 1) now
      exact .moved i key (.projecting next) phase due rfl hreturned (by simp) hlive heq fun _ h => h
    · exact .same rfl fun _ h => h.elim
  | finish i =>
    simp only [step]
    split
    · rename_i key record h
      obtain ⟨due, get⟩ := refreshOf_eq_some.mp h
      exact .finished i key record get due rfl fun _ h => h
    · exact .same rfl fun _ h => h.elim

/-! ## Fields after the operations -/

section Fields

variable (s : RemoteStateCoordinator α) (key : String) (record : RemoteStateRecord α) (i : Nat)
  (phase : RefreshPhase)

@[simp] theorem setRecord_get? (k : String) : (s.setRecord key record).records.get? k =
    if k = key then some record else s.records.get? k := JsMap.get?_set _ _ _ _

@[simp] theorem setRecord_active : (s.setRecord key record).active = s.active := rfl

@[simp] theorem setRecord_queued : (s.setRecord key record).queued = s.queued := rfl

@[simp] theorem setRecord_refreshes : (s.setRecord key record).refreshes = s.refreshes := rfl

@[simp] theorem setPhase_records : (s.setPhase i phase).records = s.records := rfl

@[simp] theorem setPhase_active : (s.setPhase i phase).active = s.active := rfl

@[simp] theorem setPhase_queued : (s.setPhase i phase).queued = s.queued := rfl

@[simp] theorem release_records : s.release.records = s.records := by
  unfold release
  split <;> rfl

end Fields

theorem setPhase_getElem? (h : s.refreshes[i]? = some refresh) (phase : RefreshPhase) (j : Nat) :
    (s.setPhase i phase).refreshes[j]? =
      if j = i then some ⟨refresh.key, phase⟩ else s.refreshes[j]? := by
  simp only [setPhase, List.getElem?_modify]
  by_cases hj : j = i
  · simp [hj, h]
  · simp [hj, Ne.symm hj]

variable (options) in
/-- A refresh starts with a permit or at the end of the queue. -/
theorem startRefresh_eq (key : String) (hidle : record.inFlight = none) :
    (s.active < options.limit ∧ s.startRefresh options key record =
      setRecord ⟨s.records, s.active + 1, s.queued, s.refreshes ++ [⟨key, .granted⟩]⟩ key
        { record with inFlight := some s.refreshes.length }) ∨
    (s.startRefresh options key record =
      setRecord ⟨s.records, s.active, s.queued ++ [s.refreshes.length],
        s.refreshes ++ [⟨key, .queued⟩]⟩ key
        { record with inFlight := some s.refreshes.length }) := by
  unfold startRefresh
  rw [hidle]
  by_cases hfree : s.active < options.limit
  · left
    simp [acquire, hfree]
  · right
    simp [acquire, hfree]

/-! ## One refresh in flight -/

/-- The promise that is installed in a record is that of its one refresh that has not ended. -/
structure Owned (s : RemoteStateCoordinator α) : Prop where
  keyed : ∀ i refresh, s.refreshes[i]? = some refresh →
    ∃ record, s.records.get? refresh.key = some record ∧
      (refresh.phase ≠ .done → record.inFlight = some i)
  installed : ∀ key record i, s.records.get? key = some record → record.inFlight = some i →
    ∃ refresh, s.refreshes[i]? = some refresh ∧ refresh.key = key ∧ refresh.phase ≠ .done

theorem Owned.unique (h : Owned s) {j : Nat}
    {refresh' : RemoteRefresh} (hi : s.refreshes[i]? = some refresh)
    (hj : s.refreshes[j]? = some refresh') (hkey : refresh.key = refresh'.key)
    (hlive : refresh.phase ≠ .done) (hlive' : refresh'.phase ≠ .done) : i = j := by
  obtain ⟨record, hget, hinFlight⟩ := h.keyed i refresh hi
  obtain ⟨record', hget', hinFlight'⟩ := h.keyed j refresh' hj
  rw [← hkey, hget, Option.some.injEq] at hget'
  have heq := (hinFlight hlive).symm.trans (hget' ▸ hinFlight' hlive')
  exact Option.some.inj heq

theorem Owned.new : Owned (new : RemoteStateCoordinator α) where
  keyed := fun i refresh h => by simp [RemoteStateCoordinator.new] at h
  installed := fun key record i h => by simp [RemoteStateCoordinator.new] at h

theorem Owned.setRecord (h : Owned s)
    (hinFlight : record'.inFlight = (s.records.get? key).bind (·.inFlight)) :
    Owned (s.setRecord key record') where
  keyed := by
    intro i refresh hi
    obtain ⟨record, hget, hlive⟩ := h.keyed i refresh hi
    rw [setRecord_get?]
    split
    · rename_i hkey
      rw [← hkey, hget] at hinFlight
      exact ⟨record', rfl, fun hphase => hinFlight.trans (hlive hphase)⟩
    · exact ⟨record, hget, hlive⟩
  installed := by
    intro k record i hget hi
    rw [setRecord_get?] at hget
    split at hget
    · rename_i hkey
      cases hget
      rw [hinFlight, Option.bind_eq_some_iff] at hi
      obtain ⟨old, hold, hi⟩ := hi
      exact hkey ▸ h.installed key old i hold hi
    · exact h.installed k record i hget hi

variable {phase : RefreshPhase}

theorem Owned.setPhase (h : Owned s)
    (hi : s.refreshes[i]? = some refresh) (hlive : refresh.phase ≠ .done)
    (hphase : phase ≠ .done) : Owned (s.setPhase i phase) where
  keyed := by
    intro j refresh' hj
    rw [setPhase_getElem? hi] at hj
    split at hj
    · rename_i hji
      cases hj
      obtain ⟨record, hget, hinFlight⟩ := h.keyed i refresh hi
      exact ⟨record, hget, fun _ => hji ▸ hinFlight hlive⟩
    · exact h.keyed j refresh' hj
  installed := by
    intro key record j hget hj
    obtain ⟨refresh', hj', hkey, hlive'⟩ := h.installed key record j hget hj
    rw [setPhase_getElem? hi]
    split
    · rename_i hji
      rw [hji, hi] at hj'
      cases hj'
      exact ⟨_, rfl, hkey, hphase⟩
    · exact ⟨refresh', hj', hkey, hlive'⟩

theorem Owned.finish (h : Owned s)
    (hi : s.refreshes[i]? = some refresh) (hlive : refresh.phase ≠ .done)
    (record : RemoteStateRecord α) : Owned (s.finish i refresh.key record) where
  keyed := by
    intro j refresh' hj
    simp only [RemoteStateCoordinator.finish, setPhase_records, setRecord_get?]
    rw [RemoteStateCoordinator.finish, setPhase_getElem? (s := s.setRecord _ _) hi] at hj
    split at hj
    · cases hj
      exact ⟨_, if_pos rfl, fun hdone => absurd rfl hdone⟩
    · rename_i hji
      obtain ⟨record', hget', hinFlight⟩ := h.keyed j refresh' hj
      by_cases hkey : refresh'.key = refresh.key
      · -- another refresh of the record has ended before
        refine ⟨_, if_pos hkey, fun hdone => absurd (h.unique hj hi hkey hdone hlive) hji⟩
      · exact ⟨record', by rw [if_neg hkey, hget'], hinFlight⟩
  installed := by
    intro key record' j hget' hj
    simp only [RemoteStateCoordinator.finish, setPhase_records, setRecord_get?] at hget'
    split at hget'
    · cases hget'
      cases hj
    · rename_i hkey
      obtain ⟨refresh', hj', hkey', hlive'⟩ := h.installed key record' j hget' hj
      rw [RemoteStateCoordinator.finish, setPhase_getElem? (s := s.setRecord _ _) hi]
      split
      · rename_i hji
        rw [hji, hi] at hj'
        cases hj'
        exact absurd hkey'.symm hkey
      · exact ⟨refresh', hj', hkey', hlive'⟩

theorem Owned.append (h : Owned s) (hget : s.records.get? key = some record)
    (hidle : record.inFlight = none) (active : Int) (queued : List Nat) (hphase : phase ≠ .done) :
    Owned (RemoteStateCoordinator.setRecord ⟨s.records, active, queued, s.refreshes ++ [⟨key, phase⟩]⟩
      key { record' with inFlight := some s.refreshes.length }) where
  keyed := by
    intro i refresh hi
    rw [setRecord_get?]
    simp only [setRecord_refreshes, List.getElem?_append] at hi
    split at hi
    · obtain ⟨old, hold, hlive⟩ := h.keyed i refresh hi
      by_cases hkey : refresh.key = key
      · -- the earlier refreshes of the key have ended
        rw [hkey, hget, Option.some.injEq] at hold
        refine ⟨_, if_pos hkey, fun hdone => ?_⟩
        have := hlive hdone
        rw [← hold, hidle] at this
        cases this
      · exact ⟨old, by rw [if_neg hkey, hold], hlive⟩
    · rename_i hlength
      obtain ⟨hindex, rfl⟩ : i - s.refreshes.length = 0 ∧ ⟨key, phase⟩ = refresh := by
        simpa [List.getElem?_singleton] using hi
      have hi : i = s.refreshes.length := by omega
      exact ⟨_, if_pos rfl, fun _ => by rw [hi]⟩
  installed := by
    intro k old i hold hi
    rw [setRecord_get?] at hold
    simp only [setRecord_refreshes]
    split at hold
    · rename_i hkey
      cases hold
      cases hi
      exact ⟨⟨key, phase⟩, by simp, hkey.symm, hphase⟩
    · obtain ⟨refresh, hrefresh, hkey, hlive⟩ := h.installed k old i hold hi
      have hlt : i < s.refreshes.length := (List.getElem?_eq_some_iff.mp hrefresh).1
      exact ⟨refresh, by rw [List.getElem?_append_left hlt, hrefresh], hkey, hlive⟩

/-! ## Permits -/

/-- The permits in use are those of the refreshes that have one; `owed` of them are on
    their way from one refresh to another. -/
structure Permits (options : RemoteStateCoordinatorOptions) (owed : Int)
    (s : RemoteStateCoordinator α) : Prop where
  queued : ∀ i, i ∈ s.queued ↔ ∃ key, s.refreshes[i]? = some ⟨key, .queued⟩
  nodup : s.queued.Nodup
  active : s.active + owed = (s.refreshes.countP (·.phase.holds) : Nat)
  limit : s.active ≤ options.limit

theorem Permits.new : Permits options 0 (new : RemoteStateCoordinator α) where
  queued := by simp [RemoteStateCoordinator.new]
  nodup := .nil
  active := rfl
  limit := le_trans (by decide : (0 : Int) ≤ 1) (le_max_left 1 _)

variable {owed : Int}

theorem Permits.setPhase {owed' : Int} (h : Permits options owed s)
    (hi : s.refreshes[i]? = some refresh) (hold : refresh.phase ≠ .queued) (hnew : phase ≠ .queued)
    (howed : owed' + (if refresh.phase.holds then 1 else 0) = owed + if phase.holds then 1 else 0) :
    Permits options owed' (s.setPhase i phase) where
  queued := by
    intro j
    rw [setPhase_queued, h.queued j, setPhase_getElem? hi]
    split
    · rename_i hji
      rw [hji, hi]
      constructor
      · rintro ⟨key, heq⟩
        cases heq
        exact absurd rfl hold
      · rintro ⟨key, heq⟩
        cases heq
        exact absurd rfl hnew
    · exact Iff.rfl
  nodup := h.nodup
  active := by
    have hcount := countP_modify (p := fun refresh : RemoteRefresh => refresh.phase.holds)
      (f := fun refresh => { refresh with phase }) hi
    have hactive := h.active
    simp only [RemoteStateCoordinator.setPhase] at hcount ⊢
    split at hcount <;> split at hcount <;> simp_all <;> omega
  limit := h.limit

/-- A permit that is returned goes to the first refresh in the queue, if there is one. -/
theorem Permits.release (h : Permits options 0 s) : Permits options 1 s.release := by
  unfold RemoteStateCoordinator.release
  split
  · rename_i hqueued
    have hactive := h.active
    have hlimit := h.limit
    exact ⟨h.queued, h.nodup, by dsimp only; omega, by dsimp only; omega⟩
  · rename_i next rest hqueued
    obtain ⟨key, hnext⟩ := (h.queued next).mp (by rw [hqueued]; exact List.mem_cons_self)
    have hnodup := h.nodup
    rw [hqueued, List.nodup_cons] at hnodup
    constructor
    · intro j
      rw [setPhase_getElem? (s := { s with queued := rest }) hnext]
      split
      · rename_i hj
        rw [hj]
        constructor
        · exact fun hmem => absurd hmem hnodup.1
        · rintro ⟨key', heq⟩
          cases heq
      · rename_i hj
        rw [← h.queued j, hqueued, List.mem_cons]
        exact ⟨.inr, fun hmem => hmem.resolve_left hj⟩
    · exact hnodup.2
    · have hcount := countP_modify (p := fun refresh : RemoteRefresh => refresh.phase.holds)
        (f := fun refresh => { refresh with phase := .granted }) hnext
      have hactive := h.active
      simp only [RefreshPhase.holds_queued, RefreshPhase.holds_granted] at hcount
      simp only [RemoteStateCoordinator.setPhase]
      simp at hcount
      omega
    · exact h.limit

theorem Permits.mem_queued_append (h : Permits options 0 s)
    (key : String) (phase : RefreshPhase) (i : Nat) :
    (i ∈ s.queued ∨ i = s.refreshes.length ∧ phase = .queued) ↔
      ∃ key', (s.refreshes ++ [⟨key, phase⟩])[i]? = some ⟨key', .queued⟩ := by
  rw [h.queued i]
  by_cases hi : i < s.refreshes.length
  · rw [List.getElem?_append_left hi]
    constructor
    · exact fun hold => hold.resolve_right fun hlast => by omega
    · exact .inl
  · rw [List.getElem?_append_right (by omega), List.getElem?_eq_none (by omega)]
    constructor
    · intro hlast
      obtain ⟨rfl, rfl⟩ := hlast.resolve_left (by simp)
      exact ⟨key, by simp⟩
    · rintro ⟨key', hget⟩
      obtain ⟨hindex, heq⟩ : i - s.refreshes.length = 0 ∧ (⟨key, phase⟩ : RemoteRefresh) =
          ⟨key', .queued⟩ := by simpa [List.getElem?_singleton] using hget
      cases heq
      exact .inr ⟨by omega, rfl⟩

theorem Permits.startRefresh (h : Permits options 0 s) (key : String)
    (hidle : record.inFlight = none) : Permits options 0 (s.startRefresh options key record) := by
  have hactive := h.active
  have hlimit := h.limit
  cases startRefresh_eq options (s := s) key hidle with
  | inl heq =>
    obtain ⟨hfree, heq⟩ := heq
    rw [heq]
    constructor
    · intro i
      simpa using h.mem_queued_append key .granted i
    · exact h.nodup
    · simp only [setRecord_active, setRecord_refreshes, List.countP_append]
      simp only [List.countP_singleton, RefreshPhase.holds_granted, if_true]
      omega
    · simp only [setRecord_active]
      omega
  | inr heq =>
    rw [heq]
    constructor
    · intro i
      simpa using h.mem_queued_append key .queued i
    · have hlast : s.refreshes.length ∉ s.queued := by
        intro hmem
        obtain ⟨key', hget⟩ := (h.queued _).mp hmem
        simp at hget
      exact List.nodup_append.mpr ⟨h.nodup, List.nodup_singleton _, fun a ha b hb hab =>
        hlast (List.mem_singleton.mp hb ▸ hab ▸ ha)⟩
    · simp only [setRecord_active, setRecord_refreshes, List.countP_append]
      simp only [List.countP_singleton, RefreshPhase.holds_queued]
      simp
      omega
    · exact h.limit

theorem Permits.setRecord (h : Permits options owed s)
    (key : String) (record : RemoteStateRecord α) : Permits options owed (s.setRecord key record) :=
  ⟨h.queued, h.nodup, h.active, h.limit⟩

/-- A returned permit changes at most the refresh that gets it. -/
theorem Permits.release_getElem? (h : Permits options owed s) (j : Nat) :
    s.release.refreshes[j]? = s.refreshes[j]? ∨
      ∃ key, s.refreshes[j]? = some ⟨key, .queued⟩ ∧
        s.release.refreshes[j]? = some ⟨key, .granted⟩ := by
  unfold RemoteStateCoordinator.release
  split
  · exact .inl rfl
  · rename_i next rest hqueued
    obtain ⟨key, hnext⟩ := (h.queued next).mp (by rw [hqueued]; exact List.mem_cons_self)
    rw [setPhase_getElem? (s := { s with queued := rest }) hnext]
    split
    · rename_i hj
      exact .inr ⟨key, hj ▸ hnext, rfl⟩
    · exact .inl rfl

theorem Permits.release_of_not_queued (h : Permits options owed s) {j : Nat}
    (hj : s.refreshes[j]? = some refresh) (hphase : refresh.phase ≠ .queued) :
    s.release.refreshes[j]? = some refresh := by
  cases h.release_getElem? j with
  | inl heq => rw [heq, hj]
  | inr hnext =>
    obtain ⟨key, hget, -⟩ := hnext
    rw [hj] at hget
    cases hget
    exact absurd rfl hphase

theorem Owned.release (h : Owned s) (hpermits : Permits options owed s) : Owned s.release := by
  unfold RemoteStateCoordinator.release
  split
  · exact ⟨h.keyed, h.installed⟩
  · rename_i next rest hqueued
    obtain ⟨key, hnext⟩ := (hpermits.queued next).mp (by rw [hqueued]; exact List.mem_cons_self)
    have hrest : Owned { s with queued := rest } := ⟨h.keyed, h.installed⟩
    exact hrest.setPhase hnext (by simp) (by simp)

/-! ## What an entry preserves -/

theorem RefreshPhase.returned_ne_queued (h : phase.returned = true) : phase ≠ .queued := by
  rintro rfl
  cases h

theorem RefreshPhase.holds_of_returned (h : phase.returned = true) : phase.holds = false := by
  cases phase <;> first | rfl | cases h

variable {s' : RemoteStateCoordinator α}

theorem owned_step (h : Owned s)
    (hpermits : Permits options 0 s) (hcase : StepCase options s s' label) : Owned s' := by
  cases hcase with
  | same eq quiet => exact eq ▸ h
  | registered key record get refreshedAt inFlight eq quiet =>
    rw [eq]
    exact h.setRecord (by rw [inFlight, get]; rfl)
  | kept key record record' get kept inFlight eq quiet =>
    rw [eq]
    exact h.setRecord (by rw [inFlight, get]; rfl)
  | started key record record' get kept idle inFlight eq quiet =>
    rw [eq]
    cases startRefresh_eq options (s := s) key inFlight with
    | inl heq =>
      rw [heq.2]
      exact h.append get idle _ _ (by simp)
    | inr heq =>
      rw [heq]
      exact h.append get idle _ _ (by simp)
  | invalidated key record record' get invalidated version inFlight eq loud =>
    rw [eq]
    exact h.setRecord (by rw [inFlight, get]; rfl)
  | began i key record now label get due eq =>
    rw [eq]
    have hrecord : Owned (s.setRecord key { record with lastAttemptAt := some now }) :=
      h.setRecord (by rw [get]; rfl)
    exact hrecord.setPhase due (by simp) (by simp)
  | settled i key record version result now phase label get due returned live eq =>
    rw [eq]
    have hrecord : Owned (s.setRecord key (settledRecord options record version result now)) := by
      apply h.setRecord
      rw [get]
      cases result <;> rfl
    have hpermits' := hpermits.setRecord key (settledRecord options record version result now)
    apply (hrecord.release hpermits').setPhase (hpermits'.release_of_not_queued due (by simp))
    · simp
    · exact live
  | moved i key phase phase' due before returned live live' eq quiet =>
    rw [eq]
    exact h.setPhase due live live'
  | finished i key record get due eq quiet =>
    rw [eq]
    exact h.finish due (by simp) record

theorem permits_step
    (h : Permits options 0 s) (hcase : StepCase options s s' label) : Permits options 0 s' := by
  cases hcase with
  | same eq quiet => exact eq ▸ h
  | registered key record get refreshedAt inFlight eq quiet => exact eq ▸ h.setRecord key record
  | kept key record record' get kept inFlight eq quiet => exact eq ▸ h.setRecord key record'
  | started key record record' get kept idle inFlight eq quiet =>
    rw [eq]
    exact h.startRefresh key inFlight
  | invalidated key record record' get invalidated version inFlight eq loud =>
    exact eq ▸ h.setRecord key record'
  | began i key record now label get due eq =>
    rw [eq]
    exact (h.setRecord key _).setPhase due (by simp) (by simp) (by simp)
  | settled i key record version result now phase label get due returned live eq =>
    rw [eq]
    have hrecord := h.setRecord key (settledRecord options record version result now)
    apply hrecord.release.setPhase (hrecord.release_of_not_queued due (by simp)) (by simp)
      (RefreshPhase.returned_ne_queued returned)
    simp [RefreshPhase.holds_of_returned returned]
  | moved i key phase phase' due before returned live live' eq quiet =>
    rw [eq]
    apply h.setPhase due (RefreshPhase.returned_ne_queued before)
      (RefreshPhase.returned_ne_queued returned)
    simp [RefreshPhase.holds_of_returned before, RefreshPhase.holds_of_returned returned]
  | finished i key record get due eq quiet =>
    rw [eq]
    apply (h.setRecord key _).setPhase due (by simp) (by simp)
    simp [RefreshPhase.holds]

/-! ## The history of a record -/

/-- What an entry does to what is known of the remote state. -/
inductive RecordCase (options : RemoteStateCoordinatorOptions) (s : RemoteStateCoordinator α)
    (label : RemoteStateLabel α) (key : String) (record' : RemoteStateRecord α) : Prop
  | registered (get : s.records.get? key = none) (refreshedAt : record'.refreshedAt = none)
  | kept (record : RemoteStateRecord α) (get : s.records.get? key = some record)
      (kept : Kept record record') (quiet : ¬ Invalidates key label)
  | invalidated (record : RemoteStateRecord α) (get : s.records.get? key = some record)
      (invalidated : record'.invalidated = true)
      (version : record'.invalidationVersion = record.invalidationVersion + 1)
      (loud : Invalidates key label)
  | settled (record : RemoteStateRecord α) (get : s.records.get? key = some record) (i : Nat)
      (version : Nat) (result : Except RemoteStateErrorKind (Option α)) (now : Int)
      (label : label = .settle i result now)
      (due : s.refreshes[i]? = some ⟨key, .running version⟩)
      (eq : record' = settledRecord options record version result now)

theorem recordCase_of_get? (get : s.records.get? key = some record)
    (quiet : ¬ Invalidates key label) : RecordCase options s label key record :=
  .kept record get ⟨rfl, rfl, rfl, rfl⟩ quiet

theorem record_cases (hcase : StepCase options s s' label)
    (hget : s'.records.get? key = some record') : RecordCase options s label key record' := by
  cases hcase with
  | same eq quiet =>
    rw [eq] at hget
    refine recordCase_of_get? hget fun h => ?_
    rw [quiet key h] at hget
    cases hget
  | registered k record get refreshedAt inFlight eq quiet =>
    rw [eq, setRecord_get?] at hget
    split at hget
    · rename_i hkey
      cases hget
      exact .registered (hkey ▸ get) refreshedAt
    · exact recordCase_of_get? hget (quiet key)
  | kept k record record'' get kept inFlight eq quiet =>
    rw [eq, setRecord_get?] at hget
    split at hget
    · rename_i hkey
      cases hget
      exact .kept record (hkey ▸ get) kept (quiet key)
    · exact recordCase_of_get? hget (quiet key)
  | started k record record'' get kept idle inFlight eq quiet =>
    have hrecords : s'.records.get? key = if key = k then
        some { record'' with inFlight := some s.refreshes.length } else s.records.get? key := by
      rw [eq]
      cases startRefresh_eq options (s := s) k inFlight with
      | inl heq => rw [heq.2, setRecord_get?]
      | inr heq => rw [heq, setRecord_get?]
    rw [hrecords] at hget
    split at hget
    · rename_i hkey
      cases hget
      exact .kept record (hkey ▸ get) (kept.trans ⟨rfl, rfl, rfl, rfl⟩) (quiet key)
    · exact recordCase_of_get? hget (quiet key)
  | invalidated k record record'' get invalidated version inFlight eq loud =>
    rw [eq, setRecord_get?] at hget
    split at hget
    · rename_i hkey
      cases hget
      exact .invalidated record (hkey ▸ get) invalidated version ((loud key).mpr hkey)
    · rename_i hkey
      exact recordCase_of_get? hget fun h => hkey ((loud key).mp h)
  | began i k record now label get due eq =>
    rw [eq, begin, setPhase_records, setRecord_get?] at hget
    have quiet : ¬ Invalidates key (.begin i now : RemoteStateLabel α) := fun h => h
    subst label
    split at hget
    · rename_i hkey
      cases hget
      exact .kept record (hkey ▸ get) ⟨rfl, rfl, rfl, rfl⟩ quiet
    · exact recordCase_of_get? hget quiet
  | settled i k record version result now phase label get due returned live eq =>
    rw [eq, setPhase_records, release_records, setRecord_get?] at hget
    split at hget
    · rename_i hkey
      cases hget
      subst hkey
      exact .settled record get i version result now label due rfl
    · subst label
      exact recordCase_of_get? hget fun h => h
  | moved i k phase phase' due before returned live live' eq quiet =>
    rw [eq, setPhase_records] at hget
    exact recordCase_of_get? hget (quiet key)
  | finished i k record get due eq quiet =>
    rw [eq, finish, setPhase_records, setRecord_get?] at hget
    split at hget
    · rename_i hkey
      cases hget
      exact .kept record (hkey ▸ get) ⟨rfl, rfl, rfl, rfl⟩ (quiet key)
    · exact recordCase_of_get? hget (quiet key)

/-! ## The history of a refresh -/

/-- What an entry does to a refresh. -/
inductive PhaseCase (s s' : RemoteStateCoordinator α) (label : RemoteStateLabel α) (j : Nat) : Prop
  | same (eq : s'.refreshes[j]? = s.refreshes[j]?)
  | waits (refresh : RemoteRefresh) (get' : s'.refreshes[j]? = some refresh)
      (before : ∀ refresh, s.refreshes[j]? = some refresh → refresh.phase = .queued)
      (phase : refresh.phase = .queued ∨ refresh.phase = .granted)
  | began (key : String) (record : RemoteStateRecord α) (now : Int) (label : label = .begin j now)
      (get : s.records.get? key = some record) (due : s.refreshes[j]? = some ⟨key, .granted⟩)
      (get' : s'.refreshes[j]? = some ⟨key, .running record.invalidationVersion⟩)
  | settled (key : String) (record : RemoteStateRecord α) (version : Nat) (phase : RefreshPhase)
      (result : Except RemoteStateErrorKind (Option α)) (now : Int)
      (label : label = .settle j result now) (get : s.records.get? key = some record)
      (due : s.refreshes[j]? = some ⟨key, .running version⟩) (returned : phase.returned = true)
      (get' : s'.refreshes[j]? = some ⟨key, phase⟩)
  | moved (key : String) (phase phase' : RefreshPhase) (due : s.refreshes[j]? = some ⟨key, phase⟩)
      (before : phase.returned = true) (returned : phase'.returned = true)
      (get' : s'.refreshes[j]? = some ⟨key, phase'⟩)

theorem startRefresh_phaseCase (hidle : record.inFlight = none) (j : Nat) :
    PhaseCase s (s.startRefresh options key record) label j := by
  have happend : ∀ phase, phase = .queued ∨ phase = .granted →
      (s.startRefresh options key record).refreshes = s.refreshes ++ [⟨key, phase⟩] →
      PhaseCase s (s.startRefresh options key record) label j := by
    intro phase hphase heq
    by_cases hj : j = s.refreshes.length
    · apply PhaseCase.waits ⟨key, phase⟩
      · rw [heq, hj]
        simp
      · intro refresh hget
        rw [hj] at hget
        simp at hget
      · exact hphase
    · apply PhaseCase.same
      rw [heq, List.getElem?_append]
      split
      · rfl
      · rw [List.getElem?_eq_none (by simp; omega), List.getElem?_eq_none (by omega)]
  cases startRefresh_eq options (s := s) key hidle with
  | inl heq => exact happend .granted (.inr rfl) (by rw [heq.2]; rfl)
  | inr heq => exact happend .queued (.inl rfl) (by rw [heq]; rfl)

theorem phase_cases (h : Permits options 0 s) (hcase : StepCase options s s' label) (j : Nat) :
    PhaseCase s s' label j := by
  cases hcase with
  | same eq quiet => exact .same (by rw [eq])
  | registered key record get refreshedAt inFlight eq quiet => exact .same (by rw [eq]; rfl)
  | kept key record record' get kept inFlight eq quiet => exact .same (by rw [eq]; rfl)
  | started key record record' get kept idle inFlight eq quiet =>
    rw [eq]
    exact startRefresh_phaseCase inFlight j
  | invalidated key record record' get invalidated version inFlight eq loud =>
    exact .same (by rw [eq]; rfl)
  | began i key record now label get due eq =>
    have hget := setPhase_getElem? (s := s.setRecord key { record with lastAttemptAt := some now })
      due (.running record.invalidationVersion) j
    by_cases hj : j = i
    · rw [if_pos hj] at hget
      exact .began key record now (hj ▸ label) get (hj ▸ due) (by rw [eq]; exact hget)
    · rw [if_neg hj] at hget
      exact .same (by rw [eq]; exact hget)
  | settled i key record version result now phase label get due returned live eq =>
    have hrecord := h.setRecord key (settledRecord options record version result now)
    have hget := setPhase_getElem? (hrecord.release_of_not_queued due (by simp)) phase j
    by_cases hj : j = i
    · rw [if_pos hj] at hget
      exact .settled key record version phase result now (hj ▸ label) get (hj ▸ due) returned
        (by rw [eq]; exact hget)
    · rw [if_neg hj] at hget
      cases hrecord.release_getElem? j with
      | inl heq => exact .same (by rw [eq, hget, heq]; rfl)
      | inr heq =>
        obtain ⟨k, hqueued, hgranted⟩ := heq
        apply PhaseCase.waits ⟨k, .granted⟩
        · rw [eq, hget, hgranted]
        · intro refresh hrefresh
          cases hqueued.symm.trans hrefresh
          rfl
        · exact .inr rfl
  | moved i key phase phase' due before returned live live' eq quiet =>
    have hget := setPhase_getElem? due phase' j
    by_cases hj : j = i
    · rw [if_pos hj] at hget
      exact .moved key phase phase' (hj ▸ due) before returned (by rw [eq]; exact hget)
    · rw [if_neg hj] at hget
      exact .same (by rw [eq]; exact hget)
  | finished i key record get due eq quiet =>
    have hget := setPhase_getElem? (s := s.setRecord key { record with inFlight := none }) due .done j
    by_cases hj : j = i
    · rw [if_pos hj] at hget
      exact .moved key .finishing .done (hj ▸ due) rfl rfl (by rw [eq]; exact hget)
    · rw [if_neg hj] at hget
      exact .same (by rw [eq]; exact hget)

/-- Has a refresh returned its permit? -/
def hasReturned (s : RemoteStateCoordinator α) (j : Nat) : Bool :=
  s.refreshes[j]?.any (·.phase.returned)

theorem returns_iff {j : Nat} :
    returns j s label = true ↔ ∃ key version record result now, label = .settle j result now ∧
      s.refreshes[j]? = some ⟨key, .running version⟩ ∧ s.records.get? key = some record := by
  constructor
  · intro h
    cases label with
    | settle i result now =>
      simp only [returns, Bool.and_eq_true, decide_eq_true_eq, Option.any_eq_true_iff_get] at h
      obtain ⟨rfl, hsome, h⟩ := h
      obtain ⟨found, hfound⟩ := Option.isSome_iff_exists.mp hsome
      simp only [hfound, Option.get_some] at h
      obtain ⟨⟨key, phase⟩, record⟩ := found
      obtain ⟨due, get⟩ := refreshOf_eq_some.mp hfound
      cases phase with
      | running version => exact ⟨key, version, record, result, now, rfl, due, get⟩
      | _ => cases h
    | _ => cases h
  · rintro ⟨key, version, record, result, now, rfl, due, get⟩
    simp [returns, refreshOf_eq_some.mpr ⟨due, get⟩, RefreshPhase.isRunning]

variable (options) in
/-- A refresh returns its permit in the entry that settles it, and has it no more. -/
theorem hasReturned_step (h : Permits options 0 s) (label : RemoteStateLabel α) (j : Nat) :
    (hasReturned s j).toNat + (returns j s label).toNat =
      (hasReturned (s.step options label).1 j).toNat := by
  unfold hasReturned
  by_cases hreturns : returns j s label = true
  · obtain ⟨key, version, record, result, now, rfl, due, get⟩ := returns_iff.mp hreturns
    have hstep : s.step options (.settle j result now) =
        s.settle options j key record version result now := by
      simp only [step, refreshOf_eq_some.mpr ⟨due, get⟩]
    obtain ⟨phase, hreturned, -, heq⟩ := settle_state options s j key record version
      result now
    have hrecord := h.setRecord key (settledRecord options record version result now)
    have hget := setPhase_getElem? (hrecord.release_of_not_queued due (by simp)) phase j
    rw [if_pos rfl] at hget
    rw [hstep, heq, hget, due, hreturns]
    simp [hreturned]
  · rw [Bool.not_eq_true] at hreturns
    rw [hreturns]
    cases phase_cases h (step_cases options s label) j with
    | same eq => simp [eq]
    | waits refresh get' before phase =>
      have hafter : refresh.phase.returned = false := by
        cases phase with
        | inl hphase => simp [hphase]
        | inr hphase => simp [hphase]
      cases hget : s.refreshes[j]? with
      | none => simp [get', hafter]
      | some old => simp [get', hafter, before old hget]
    | began key record now label get due get' => simp [due, get']
    | settled key record version phase result now label get due returned get' =>
      rw [returns_iff.mpr ⟨key, version, record, result, now, label, due, get⟩] at hreturns
      cases hreturns
    | moved key phase phase' due before returned get' => simp [due, get', before, returned]

/-! ## Runs -/

/-- The refresh began after some part of the run, and only an invalidation after that lets
    the record have another version than the refresh has noted. -/
def Began (options : RemoteStateCoordinatorOptions) (labels : List (RemoteStateLabel α)) (i : Nat)
    (key : String) (noted version : Nat) : Prop :=
  noted ≤ version ∧ ∃ pre now mid, labels = pre ++ .begin i now :: mid ∧
    (after options pre).refreshes[i]? = some ⟨key, .granted⟩ ∧
    (version = noted → ∀ label ∈ mid, ¬ Invalidates key label)

structure History (options : RemoteStateCoordinatorOptions) (labels : List (RemoteStateLabel α))
    (s : RemoteStateCoordinator α) : Prop where
  running : ∀ i key noted record, s.refreshes[i]? = some ⟨key, .running noted⟩ →
    s.records.get? key = some record → Began options labels i key noted record.invalidationVersion
  fresh : ∀ key record t, s.records.get? key = some record → record.invalidated = false →
    record.refreshedAt = some t → Fetched options labels key record.lastGood t

variable {labels : List (RemoteStateLabel α)}

theorem Fetched.concat {data : Option α} {t : Int} (h : Fetched options labels key data t)
    (hquiet : ¬ Invalidates key label) : Fetched options (labels ++ [label]) key data t := by
  obtain ⟨i, began, pre, mid, post, version, rfl, hgranted, hrunning, hquiets⟩ := h
  refine ⟨i, began, pre, mid, post ++ [label], version, by simp, hgranted, hrunning, ?_⟩
  intro label' hlabel'
  rw [← List.append_assoc, List.mem_append, List.mem_singleton] at hlabel'
  cases hlabel' with
  | inl hold => exact hquiets label' hold
  | inr hnew => exact hnew ▸ hquiet

theorem Began.concat {noted version : Nat} (h : Began options labels i key noted version)
    (hquiet : ¬ Invalidates key label) : Began options (labels ++ [label]) i key noted version := by
  obtain ⟨hle, pre, now, mid, rfl, hgranted, hquiets⟩ := h
  refine ⟨hle, pre, now, mid ++ [label], by simp, hgranted, fun heq label' hlabel' => ?_⟩
  rw [List.mem_append, List.mem_singleton] at hlabel'
  cases hlabel' with
  | inl hold => exact hquiets heq label' hold
  | inr hnew => exact hnew ▸ hquiet

/-- An invalidation makes the noted version out of date. -/
theorem Began.concat_invalidated
    {noted version : Nat} (h : Began options labels i key noted version)
    (label : RemoteStateLabel α) : Began options (labels ++ [label]) i key noted (version + 1) := by
  obtain ⟨hle, pre, now, mid, rfl, hgranted, -⟩ := h
  exact ⟨by omega, pre, now, mid ++ [label], by simp, hgranted, fun heq => by omega⟩

theorem after_concat (labels : List (RemoteStateLabel α)) (label : RemoteStateLabel α) :
    after options (labels ++ [label]) = ((after options labels).step options label).1 :=
  run_concat _ _ _

theorem history_step
    (howned : Owned (after options labels)) (hpermits : Permits options 0 (after options labels))
    (h : History options labels (after options labels)) :
    History options (labels ++ [label]) ((after options labels).step options label).1 := by
  have hcase := step_cases options (after options labels) label
  constructor
  · intro i key noted record' hrefresh hget'
    cases phase_cases hpermits hcase i with
    | same eq =>
      rw [eq] at hrefresh
      cases record_cases hcase hget' with
      | registered get refreshedAt =>
        obtain ⟨record, hget, -⟩ := howned.keyed i _ hrefresh
        cases get.symm.trans hget
      | kept record get kept quiet =>
        rw [kept.invalidationVersion]
        exact (h.running i key noted record hrefresh get).concat quiet
      | invalidated record get invalidated version loud =>
        rw [version]
        exact (h.running i key noted record hrefresh get).concat_invalidated label
      | settled record get j version result now label due eq =>
        have hversion : record'.invalidationVersion = record.invalidationVersion := by
          rw [eq]
          cases result <;> rfl
        rw [hversion, label]
        exact (h.running i key noted record hrefresh get).concat fun h => h
    | waits refresh get' before phase =>
      cases get'.symm.trans hrefresh
      cases phase with
      | inl hphase => cases hphase
      | inr hphase => cases hphase
    | began key' record now label get due get' =>
      cases get'.symm.trans hrefresh
      subst label
      have hversion : record'.invalidationVersion = record.invalidationVersion := by
        cases record_cases hcase hget' with
        | registered get'' refreshedAt => cases get''.symm.trans get
        | kept record'' get'' kept quiet =>
          cases get''.symm.trans get
          exact kept.invalidationVersion
        | invalidated record'' get'' invalidated version loud => exact loud.elim
        | settled record'' get'' j version result now label due eq => cases label
      -- the refresh notes the version that the record has now
      refine ⟨le_of_eq hversion.symm, labels, now, [], rfl, due, fun _ label hlabel => ?_⟩
      cases hlabel
    | settled key' record version phase result now label get due returned get' =>
      cases get'.symm.trans hrefresh
      cases returned
    | moved key' phase phase' due before returned get' =>
      cases get'.symm.trans hrefresh
      cases returned
  · intro key record' t hget' hvalid ht
    cases record_cases hcase hget' with
    | registered get refreshedAt => cases refreshedAt.symm.trans ht
    | kept record get kept quiet =>
      rw [kept.lastGood]
      exact (h.fresh key record t get (kept.invalidated ▸ hvalid) (kept.refreshedAt ▸ ht)).concat
        quiet
    | invalidated record get invalidated version loud => cases invalidated.symm.trans hvalid
    | settled record get i version result now label due eq =>
      obtain ⟨-, pre, began, mid, hlabels, hgranted, hquiet⟩ := h.running i key version record due get
      subst eq
      cases result with
      | error kind => cases hvalid
      | ok data =>
        cases ht
        have hversion : record.invalidationVersion = version := by
          simpa [settledRecord] using hvalid
        refine ⟨i, began, pre, mid, [], version, ?_, hgranted, ?_, ?_⟩
        · simp [hlabels, label, settledRecord]
        · rw [← hlabels]
          exact due
        · rw [List.append_nil]
          exact hquiet hversion

structure Reached (options : RemoteStateCoordinatorOptions) (labels : List (RemoteStateLabel α))
    (s : RemoteStateCoordinator α) : Prop where
  owned : Owned s
  permits : Permits options 0 s
  history : History options labels s
  returned : ∀ i, countAlong (fun s label => (s.step options label).1) (returns i) new labels =
    (hasReturned s i).toNat

variable (options) in
theorem reached (labels : List (RemoteStateLabel α)) :
    Reached options labels (after options labels) := by
  unfold after
  apply inv_history
  · refine ⟨.new, .new, ⟨?_, ?_⟩, fun i => rfl⟩
    · intro i key noted record hrefresh
      cases hrefresh
    · intro key record t hget
      cases hget
  · intro labels label h
    have hcase := step_cases options (after options labels) label
    refine ⟨owned_step h.owned h.permits hcase, permits_step h.permits hcase,
      history_step h.owned h.permits h.history, fun i => ?_⟩
    have hcount := h.returned i
    have hstep := hasReturned_step options h.permits label i
    rw [countAlong_concat, hcount]
    exact hstep

/-! ## Reports -/

/-- A report shows the record as the entry leaves it; a projection replaces its data. -/
def Shows (options : RemoteStateCoordinatorOptions) (s : RemoteStateCoordinator α)
    (report : RemoteStateReport α) : Prop :=
  ∃ record now cadence data, s.records.get? report.key = some record ∧
    report.snapshot = { snapshot options record now cadence with data } ∧
    (report.projected = false → data = record.lastGood)

variable {report : RemoteStateReport α}

theorem shows_of_mem_report {now : Int} {cadence : RemoteStateCadence}
    (h : report ∈ s.report options key now cadence) : Shows options s report := by
  unfold RemoteStateCoordinator.report at h
  cases get : s.records.get? key with
  | none =>
    rw [get] at h
    cases h
  | some record =>
    rw [get] at h
    cases List.mem_singleton.mp h
    exact ⟨record, now, cadence, _, get, rfl, fun _ => rfl⟩

theorem shows_of_mem_broadcastFrom {next : Nat} {now : Int} (get : s.records.get? key = some record)
    (h : report ∈ (s.broadcastFrom options i key record next now).2) :
    Shows options (s.broadcastFrom options i key record next now).1 report := by
  obtain ⟨phase, -, -, heq⟩ := broadcastFrom_state options s i key record next now
  have hrecords : (s.broadcastFrom options i key record next now).1.records.get? key = some record := by
    rw [heq, setPhase_records, get]
  unfold broadcastFrom at h
  dsimp only at h
  generalize (if record.source = .repository then record.repositoryBindings else []) = bindings at h
  split at h
  · cases h
  · obtain ⟨entry, -, rfl⟩ := List.mem_map.mp h
    exact ⟨record, now, .active, _, hrecords, rfl, fun _ => rfl⟩

theorem shows_of_mem_step (h : report ∈ (s.step options label).2) :
    Shows options (s.step options label).1 report := by
  cases label with
  | readSnapshot key request now =>
    simp only [step, readSnapshot] at h ⊢
    cases get : s.records.get? key with
    | none =>
      rw [get] at h
      cases h
    | some record =>
      rw [get] at h
      exact shows_of_mem_report h
  | awaited key cadence now => exact shows_of_mem_report h
  | settle i result now =>
    simp only [step] at h ⊢
    split at h
    · rename_i key version record hrefresh
      unfold settle at h ⊢
      dsimp only at h ⊢
      split at h
      · rename_i hbroadcast
        rw [if_pos hbroadcast]
        exact shows_of_mem_broadcastFrom (by simp) h
      · cases h
    · cases h
  | project i data now =>
    simp only [step] at h ⊢
    split at h
    · rename_i key next record hrefresh
      obtain ⟨-, get⟩ := refreshOf_eq_some.mp hrefresh
      obtain ⟨phase, -, -, heq⟩ := broadcastFrom_state options s i key record (next + 1)
        now
      cases List.mem_cons.mp h with
      | inl hfirst =>
        have hrecords : (s.project options i key record next data now).1.records.get? key =
            some record := by
          show (s.broadcastFrom options i key record (next + 1) now).1.records.get? key = some record
          rw [heq, setPhase_records, get]
        cases data with
        | none =>
          subst hfirst
          exact ⟨record, now, .active, _, hrecords, rfl, fun _ => rfl⟩
        | some data =>
          subst hfirst
          refine ⟨record, now, .active, data, hrecords, rfl, ?_⟩
          intro hprojected
          cases hprojected
      | inr hrest => exact shows_of_mem_broadcastFrom get hrest
    · cases h
  | begin i now =>
    simp only [step] at h
    split at h <;> cases h
  | finish i =>
    simp only [step] at h
    split at h <;> cases h
  | _ => cases h

/-- In every run: each record has at most one refresh that has not ended; the permits in
    use are those of the refreshes that have one, and no more than there are; a refresh
    returns its permit once, namely when it is settled; and a snapshot that is not
    reported as stale was fetched by a refresh that began after the last invalidation. -/
theorem remote_state_fresh (options : RemoteStateCoordinatorOptions)
    (labels : List (RemoteStateLabel α)) :
    (∀ (i j : Nat) (refresh refresh' : RemoteRefresh),
      (after options labels).refreshes[i]? = some refresh →
      (after options labels).refreshes[j]? = some refresh' → refresh.key = refresh'.key →
      refresh.phase ≠ .done → refresh'.phase ≠ .done → i = j) ∧
    ((after options labels).active = (after options labels).refreshes.countP (·.phase.holds) ∧
      (after options labels).active ≤ options.limit) ∧
    (∀ i, countAlong (fun s label => (s.step options label).1) (returns i) new labels =
      (hasReturned (after options labels) i).toNat) ∧
    ∀ label, ∀ report ∈ ((after options labels).step options label).2,
      report.snapshot.stale = false → ∃ data t, report.snapshot.refreshedAt = some t ∧
        Fetched options (labels ++ [label]) report.key data t ∧
        (report.projected = false → report.snapshot.data = data) := by
  have h := reached options labels
  refine ⟨fun i j refresh refresh' hi hj => h.owned.unique hi hj, ⟨?_, h.permits.limit⟩,
    h.returned, fun label report hreport hstale => ?_⟩
  · have hactive := h.permits.active
    omega
  · obtain ⟨record, now, cadence, data, hget, hsnapshot, hdata⟩ := shows_of_mem_step hreport
    have hfresh := (reached options (labels ++ [label])).history.fresh report.key record
    rw [after_concat] at hfresh
    rw [hsnapshot] at hstale ⊢
    simp only [snapshot] at hstale ⊢
    cases ht : record.refreshedAt with
    | none =>
      rw [ht] at hstale
      cases hstale
    | some t =>
      rw [ht] at hstale
      have hvalid : record.invalidated = false := (Bool.or_eq_false_iff.mp hstale).1
      exact ⟨record.lastGood, t, rfl, hfresh t hget hvalid ht, hdata⟩

/-- An invalidation while the fetch is under way leaves the snapshot stale. -/
example :
    ((after ⟨none, false, none, none, none, none, none⟩ ([.register "repo" .repository none none,
        .refreshSnapshot "repo" ⟨none, none, none, none, none⟩ 0, .begin 0 0,
        .invalidate "repo" false, .settle 0 (.ok (some 7)) 1] : List (RemoteStateLabel Nat))).records.get?
      "repo").map (fun record => (record.lastGood, record.invalidated)) = some (some 7, true) := by
  rfl

end RemoteStateCoordinator

end Bobbit.Server
