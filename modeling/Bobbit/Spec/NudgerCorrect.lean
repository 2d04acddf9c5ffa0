import Bobbit.Lib.List
import Bobbit.Lib.Run
import Bobbit.Server.InboxNudger

/-!
# Staff wakes

At most one wake of a staff should be under way at a time, and a staff without one should be free to
be woken. The flag of a staff is set with a wake and should be cleared when the wake fails or its turn
begins. It is cleared by any start in the current session, so that an unrelated turn clears it too
early; and by nothing, when the wake waits in a session that is no longer the current one. Where
neither happens, and each delivery that clears the flag has not been accepted, the flag says exactly
whether a wake is under way.

## Key results

- `tracked_step` — the flag follows the wakes.
- `tick_wakes` — what a tick starts.
- `staff_wakes` — the runs in which wakes are neither doubled nor silenced.
- `early_clear_doubles` — why the flag must not be cleared early.
- `doubled_and_silenced` — a wake that is doubled and a staff that is silenced.
-/

namespace Bobbit.Server.Nudger

open Lib

/-! ## The property -/

def WakeStage.preparing : WakeStage → Bool
  | .compacting => true
  | .clearing => true
  | .delivering => true
  | .waiting => false
  | .started => false
  | .over => false

/-- The wake is being prepared or waits for its turn. -/
def WakeStage.isOpen (stage : WakeStage) : Bool := stage.preparing || stage = .waiting

def Wake.openFor (staffId : String) (w : Wake) : Bool := w.staffId = staffId && w.stage.isOpen

def openWakes (s : System) (staffId : String) : Nat := s.wakes.countP (Wake.openFor staffId)

def currentSession (s : System) (staffId : String) : Option String :=
  (s.getStaff staffId).bind (·.currentSessionId)

/-- No wake of the staff is being prepared, and none waits in its current session. -/
structure Resting (s : System) (staffId : String) : Prop where
  preparing : ∀ w ∈ s.wakes, w.staffId = staffId → w.stage.preparing = false
  waiting : ∀ w ∈ s.wakes, w.staffId = staffId → w.stage = .waiting →
    currentSession s staffId ≠ some w.sessionId

/-- A tick has something to wake the staff for. -/
structure Due (s : System) (staff : PersistedStaff) : Prop where
  idle : (s.idleSession staff).isSome = true
  pending : s.listPending staff.id ≠ []

/-- Wakes are neither doubled nor silenced. -/
structure WakesOnce (s : System) : Prop where
  single : ∀ staffId, openWakes s staffId ≤ 1
  unflagged : ∀ staffId, Resting s staffId → s.isNudgePending staffId = false
  woken : ∀ staff ∈ s.staff, Resting s staff.id → Due s staff →
    ∃ w ∈ (s.step .tick).wakes, w.staffId = staff.id ∧ w.stage.preparing = true

/-! ## The condition -/

/-- The staff whose flag a start in the session clears. -/
def clearedBy (s : System) (sessionId : String) : Option String :=
  if (s.getSession sessionId).any fun session => session.staffId.any (· ≠ "") then
    s.staffOfSession sessionId
  else none

/-- The condition on a step. A start that is not that of a wake comes while the staff it counts for
    has no open wake; the start of a wake counts for its staff; a session with a waiting wake stays
    the current one; and a delivery leaves the flag alone exactly when the prompt is accepted, in the
    current session. -/
def KeepsTrack (s : System) : Event → Prop
  | .agentStart sessionId =>
    ∀ staffId, clearedBy s sessionId = some staffId → openWakes s staffId = 0
  | .wakeStart i =>
    ∀ w, s.wakes[i]? = some w → w.stage = .delivering ∨ w.stage = .waiting →
      clearedBy s w.sessionId = some w.staffId
  | .putStaff staff =>
    ∀ w ∈ s.wakes, w.staffId = staff.id → w.stage = .waiting →
      staff.currentSessionId = some w.sessionId
  | .delivered i accepted result =>
    ∀ w, s.wakes[i]? = some w →
      (w.stage = .delivering →
        (accepted = true ↔ releases w.pending result = false) ∧
          (accepted = true → currentSession s w.staffId = some w.sessionId)) ∧
      (w.stage = .started → releases w.pending result = true → openWakes s w.staffId = 0)
  | _ => True

/-! ## The invariant -/

/-- The flag of a staff says whether it has an open wake; a wake waits in the current session. -/
structure Tracked (s : System) : Prop where
  ids : (s.staff.map (·.id)).Nodup
  flag : ∀ staffId, openWakes s staffId = if s.isNudgePending staffId then 1 else 0
  current : ∀ w ∈ s.wakes, w.stage = .waiting → currentSession s w.staffId = some w.sessionId

/-! ### The flag -/

theorem isNudgePending_set (s : System) (id staffId : String) :
    (s.setNudgePending id).isNudgePending staffId =
      if staffId = id then true else s.isNudgePending staffId := by
  unfold System.isNudgePending System.setNudgePending
  dsimp only
  rw [JsMap.get?_set]
  split
  · rfl
  · rfl

theorem isNudgePending_clear (s : System) (id staffId : String) :
    (s.clearNudgePending id).isNudgePending staffId =
      if staffId = id then false else s.isNudgePending staffId := by
  unfold System.isNudgePending System.clearNudgePending
  dsimp only
  rw [JsMap.get?_erase]
  by_cases h : staffId = id <;> simp [h]

theorem agentStart_eq (s : System) (sessionId : String) :
    s.agentStart sessionId =
      match clearedBy s sessionId with
      | some staffId => s.clearNudgePending staffId
      | none => s := by
  unfold System.agentStart clearedBy System.onAgentStart
  split
  · rfl
  · rfl

/-! ### Stages -/

def Wake.count (staffId : String) (w : Wake) : Nat := if w.openFor staffId then 1 else 0

variable {s : System} {i : Nat}

theorem openWakes_setStage {w : Wake} (h : s.wakes[i]? = some w)
    (stage : WakeStage) (staffId : String) :
    openWakes (s.setStage i stage) staffId + w.count staffId =
      openWakes s staffId + Wake.count staffId { w with stage := stage } :=
  countP_modify h

variable {stage : WakeStage}

/-- A wake that goes from one open stage to another one, or from one that is not open. -/
theorem openWakes_setStage_same {w : Wake} (h : s.wakes[i]? = some w)
    (hstage : w.stage.isOpen = stage.isOpen) (staffId : String) :
    openWakes (s.setStage i stage) staffId = openWakes s staffId := by
  have hset := openWakes_setStage h stage staffId
  have hcount : Wake.count staffId { w with stage := stage } = w.count staffId := by
    unfold Wake.count Wake.openFor
    dsimp only
    rw [hstage]
  omega

theorem openWakes_setStage_closed {w : Wake} (h : s.wakes[i]? = some w)
    (hopen : w.stage.isOpen = true) (hclosed : stage.isOpen = false) (staffId : String) :
    openWakes (s.setStage i stage) staffId + (if staffId = w.staffId then 1 else 0) =
      openWakes s staffId := by
  have hset := openWakes_setStage h stage staffId
  have hbefore : w.count staffId = if staffId = w.staffId then 1 else 0 := by
    unfold Wake.count Wake.openFor
    rw [hopen]
    by_cases hid : staffId = w.staffId <;> simp [hid, eq_comm]
  have hafter : Wake.count staffId { w with stage := stage } = 0 := by
    unfold Wake.count Wake.openFor
    dsimp only
    rw [hclosed, Bool.and_false]
    rfl
  omega

theorem mem_setStage {w' : Wake} (h : w' ∈ (s.setStage i stage).wakes) :
    w' ∈ s.wakes ∨ ∃ w, s.wakes[i]? = some w ∧ w' = { w with stage := stage } := by
  unfold System.setStage at h
  exact mem_modify h

/-- A waiting wake after a stage is set is one from before, or the one that now waits. -/
theorem waiting_setStage (h : Tracked s) (hstage : ∀ w, s.wakes[i]? = some w → stage = .waiting →
      currentSession s w.staffId = some w.sessionId) :
    ∀ w' ∈ (s.setStage i stage).wakes, w'.stage = .waiting →
      currentSession s w'.staffId = some w'.sessionId := by
  intro w' hw' hwaiting
  rcases mem_setStage hw' with hold | ⟨w, hw, rfl⟩
  · exact h.current w' hold hwaiting
  · exact hstage w hw hwaiting

/-! ### Parts of a wake -/

/-- A wake that is closed together with the flag of its staff. -/
theorem Tracked.close (h : Tracked s) {w : Wake} (hw : s.wakes[i]? = some w)
    (hopen : w.stage.isOpen = true) (stage : WakeStage) (hclosed : stage.isOpen = false) :
    Tracked ((s.setStage i stage).clearNudgePending w.staffId) := by
  refine ⟨h.ids, fun staffId => ?_, waiting_setStage h fun _ _ hwaiting => ?_⟩
  · have hset := openWakes_setStage_closed hw hopen hclosed staffId
    have hflag := h.flag staffId
    rw [isNudgePending_clear]
    show openWakes (s.setStage i stage) staffId =
      if (if staffId = w.staffId then false else s.isNudgePending staffId) then 1 else 0
    by_cases hid : staffId = w.staffId
    · -- there was this open wake, so the flag was set and the wake was the only one
      rw [if_pos hid] at hset ⊢
      split at hflag <;> simp only [Bool.false_eq_true, if_false] <;> omega
    · rw [if_neg hid] at hset ⊢
      omega
  · rw [hwaiting] at hclosed
    cases hclosed

theorem Tracked.move (h : Tracked s) {w : Wake} (hw : s.wakes[i]? = some w)
    (stage : WakeStage) (hsame : w.stage.isOpen = stage.isOpen)
    (hcurrent : stage = .waiting → currentSession s w.staffId = some w.sessionId) :
    Tracked (s.setStage i stage) := by
  refine ⟨h.ids, fun staffId => ?_, waiting_setStage h fun w' hw' hwaiting => ?_⟩
  · rw [openWakes_setStage_same hw hsame]
    exact h.flag staffId
  · rw [hw, Option.some.injEq] at hw'
    exact hw' ▸ hcurrent hwaiting

theorem Tracked.prompts (h : Tracked s) (prompts : List (String × String)) :
    Tracked { s with prompts := prompts } := ⟨h.ids, h.flag, h.current⟩

/-- A flag that is cleared while its staff has no open wake. -/
theorem Tracked.clear (h : Tracked s) {id : String} (hnone : openWakes s id = 0) :
    Tracked (s.clearNudgePending id) := by
  refine ⟨h.ids, fun staffId => ?_, h.current⟩
  rw [isNudgePending_clear]
  show openWakes s staffId = _
  by_cases hid : staffId = id
  · rw [if_pos hid, hid, hnone]
    rfl
  · rw [if_neg hid]
    exact h.flag staffId

theorem tracked_policyDone (h : Tracked s) (i : Nat) (ok : Bool) : Tracked (s.policyDone i ok) := by
  unfold System.policyDone
  cases hw : s.wakes[i]? with
  | none => exact h
  | some w =>
    dsimp only
    -- either way the policy leaves an open wake or ends it
    have hdone : ∀ goesOn : Bool, w.stage.isOpen = true →
        Tracked (if goesOn then s.deliver i w else s.fail i w) := by
      intro goesOn hopen
      cases goesOn with
      | true => exact (h.move hw .delivering hopen (fun hwaiting => by cases hwaiting)).prompts _
      | false => exact h.close hw hopen .over rfl
    split
    · rename_i hstage
      exact hdone ok (by rw [hstage]; rfl)
    · split
      · rename_i hstage
        exact hdone _ (by rw [hstage]; rfl)
      · exact h

theorem stageAfter_delivering (h : stage = .delivering) :
    System.stageAfter stage true = .waiting := by
  rw [System.stageAfter, if_pos ⟨h, rfl⟩]

theorem stageAfter_refused (stage : WakeStage) : System.stageAfter stage false = .over := by
  rw [System.stageAfter, if_neg]
  rintro ⟨-, haccepted⟩
  cases haccepted

theorem stageAfter_started (h : stage = .started) (accepted : Bool) :
    System.stageAfter stage accepted = .over := by
  rw [System.stageAfter, if_neg]
  rintro ⟨hdelivering, -⟩
  rw [h] at hdelivering
  cases hdelivering

theorem tracked_delivered (h : Tracked s) {accepted : Bool}
    {result : DeliveryResult} (hguard : KeepsTrack s (.delivered i accepted result)) :
    Tracked (s.delivered i accepted result) := by
  unfold System.delivered
  cases hw : s.wakes[i]? with
  | none => exact h
  | some w =>
    obtain ⟨hdelivering, hstarted⟩ := hguard w hw
    dsimp only
    split
    · rename_i hstage
      rcases hstage with hstage | hstage
      · obtain ⟨haccepted, hcurrent⟩ := hdelivering hstage
        have hopen : w.stage.isOpen = true := by
          rw [hstage]
          rfl
        cases accepted with
        | true =>
          -- the prompt is accepted and the flag stays
          rw [haccepted.mp rfl, if_neg Bool.false_ne_true, stageAfter_delivering hstage]
          exact h.move hw .waiting hopen fun _ => hcurrent rfl
        | false =>
          have hreleases : releases w.pending result = true := by
            rw [← Bool.not_eq_false]
            exact fun hkept => Bool.false_ne_true (haccepted.mpr hkept)
          rw [hreleases, if_pos rfl, stageAfter_refused]
          exact h.close hw hopen .over rfl
      · -- the turn has begun already, so the wake counts no more
        rw [stageAfter_started hstage]
        have hmoved := h.move hw .over (by rw [hstage]; rfl)
          (fun hwaiting => by cases hwaiting)
        split
        · rename_i hreleases
          refine hmoved.clear ?_
          rw [openWakes_setStage_same hw (by rw [hstage]; rfl)]
          exact hstarted hstage hreleases
        · exact hmoved
    · exact h

/-! ### Starts -/

theorem tracked_agentStart (h : Tracked s) {sessionId : String}
    (hguard : KeepsTrack s (.agentStart sessionId)) : Tracked (s.agentStart sessionId) := by
  rw [agentStart_eq]
  cases hcleared : clearedBy s sessionId with
  | none => exact h
  | some staffId => exact h.clear (hguard staffId hcleared)

theorem clearedBy_setStage (s : System) (i : Nat) (stage : WakeStage) (sessionId : String) :
    clearedBy (s.setStage i stage) sessionId = clearedBy s sessionId := rfl

theorem tracked_wakeStart (h : Tracked s)
    (hguard : KeepsTrack s (.wakeStart i)) : Tracked (s.wakeStart i) := by
  unfold System.wakeStart
  cases hw : s.wakes[i]? with
  | none => exact h
  | some w =>
    dsimp only
    split
    · rename_i hstage
      rw [agentStart_eq, clearedBy_setStage, hguard w hw (.inl hstage)]
      exact h.close hw (by rw [hstage]; rfl) .started rfl
    · split
      · rename_i hstage
        rw [agentStart_eq, clearedBy_setStage, hguard w hw (.inr hstage)]
        exact h.close hw (by rw [hstage]; rfl) .over rfl
      · exact h

/-! ### Ticks -/

/-- What a check of a staff does: nothing, or a wake for a staff without a flag. -/
theorem tickOne_cases (s : System) (staff : PersistedStaff) :
    s.tickOne staff = s ∨ s.isNudgePending staff.id = false ∧
      ∃ sessionId, s.tickOne staff =
        s.applyPolicyThenNudge staff sessionId (s.listPending staff.id) := by
  unfold System.tickOne
  split
  · exact .inl rfl
  · split
    · exact .inl rfl
    · rename_i hflag
      split
      · exact .inl rfl
      · exact .inr ⟨by simpa using hflag, _, rfl⟩

theorem firstStage_preparing (policy : ContextPolicy) :
    (System.firstStage policy).preparing = true := by
  cases policy <;> rfl

theorem firstStage_open (policy : ContextPolicy) : (System.firstStage policy).isOpen = true := by
  rw [WakeStage.isOpen, firstStage_preparing]
  rfl

variable {staff : PersistedStaff}

theorem tracked_applyPolicyThenNudge (h : Tracked s)
    (hflag : s.isNudgePending staff.id = false) (sessionId : String) (pending : List InboxEntry) :
    Tracked (s.applyPolicyThenNudge staff sessionId pending) := by
  refine ⟨h.ids, fun staffId => ?_, fun w hw hwaiting => ?_⟩
  · have hset : (s.applyPolicyThenNudge staff sessionId pending).isNudgePending staffId =
        if staffId = staff.id then true else s.isNudgePending staffId :=
      isNudgePending_set s staff.id staffId
    have hcount : openWakes (s.applyPolicyThenNudge staff sessionId pending) staffId =
        openWakes s staffId + if staffId = staff.id then 1 else 0 := by
      show (s.wakes ++ [_]).countP (Wake.openFor staffId) = _
      rw [List.countP_append, List.countP_singleton, Wake.openFor, firstStage_open]
      by_cases hid : staffId = staff.id <;> simp [hid, eq_comm, openWakes]
    rw [hset, hcount, h.flag]
    by_cases hid : staffId = staff.id
    · rw [if_pos hid, if_pos hid, hid, hflag]
      rfl
    · rw [if_neg hid, if_neg hid]
      rfl
  · rcases List.mem_append.mp hw with hold | hnew
    · exact h.current w hold hwaiting
    · rw [List.mem_singleton.mp hnew] at hwaiting
      have hstage := firstStage_preparing staff.contextPolicy
      have hsame : System.firstStage staff.contextPolicy = .waiting := hwaiting
      rw [hsame] at hstage
      cases hstage

theorem tracked_tickOne (h : Tracked s) (staff : PersistedStaff) : Tracked (s.tickOne staff) := by
  rcases tickOne_cases s staff with hsame | ⟨hflag, sessionId, heq⟩
  · rw [hsame]
    exact h
  · rw [heq]
    exact tracked_applyPolicyThenNudge h hflag sessionId _

theorem tracked_foldl_tickOne (h : Tracked s) (staff : List PersistedStaff) :
    Tracked (staff.foldl System.tickOne s) := by
  induction staff generalizing s with
  | nil => exact h
  | cons first rest ih => exact ih (tracked_tickOne h first)

/-! ### Staff -/

theorem getStaff_put (s : System) (staff : PersistedStaff) (id : String) :
    (s.step (.putStaff staff)).getStaff id = if id = staff.id then some staff else s.getStaff id :=
  Keyed.find?_put s.staff staff id

theorem tracked_step (s : System) (event : Event) (h : Tracked s) (hguard : KeepsTrack s event) :
    Tracked (s.step event) := by
  cases event with
  | tick => exact tracked_foldl_tickOne h s.staff
  | poke staffId => exact ⟨h.ids, h.flag, h.current⟩
  | enqueue staffId entry => exact ⟨h.ids, h.flag, h.current⟩
  | settle staffId entryId => exact ⟨h.ids, h.flag, h.current⟩
  | setSession id session => exact ⟨h.ids, h.flag, h.current⟩
  | policyDone i ok => exact tracked_policyDone h i ok
  | delivered i accepted result => exact tracked_delivered h hguard
  | agentStart sessionId => exact tracked_agentStart h hguard
  | wakeStart i => exact tracked_wakeStart h hguard
  | microtask =>
    show Tracked s.runMicrotask
    unfold System.runMicrotask
    split
    · exact h
    · rename_i staffId rest _
      have hpopped : Tracked { s with microtasks := rest } := ⟨h.ids, h.flag, h.current⟩
      split
      · exact tracked_tickOne hpopped _
      · exact hpopped
  | putStaff staff =>
    refine ⟨Keyed.nodup_put h.ids staff, h.flag, fun w hw hwaiting => ?_⟩
    unfold currentSession
    rw [getStaff_put]
    split
    · rename_i hid
      exact hguard w hw hid hwaiting
    · exact h.current w hw hwaiting

/-! ## What a tick starts -/

/-- A check adds a wake at most, and touches no other flag. -/
theorem tickOne_frame (s : System) (staff : PersistedStaff) :
    (s.tickOne staff).sessions = s.sessions ∧ (s.tickOne staff).inbox = s.inbox ∧
      (∃ new, (s.tickOne staff).wakes = s.wakes ++ new) ∧
      ∀ id, id ≠ staff.id → (s.tickOne staff).isNudgePending id = s.isNudgePending id := by
  rcases tickOne_cases s staff with hsame | ⟨-, sessionId, heq⟩
  · rw [hsame]
    exact ⟨rfl, rfl, ⟨[], (List.append_nil _).symm⟩, fun _ _ => rfl⟩
  · rw [heq]
    refine ⟨rfl, rfl, ⟨_, rfl⟩, fun id hne => ?_⟩
    have hset : (s.applyPolicyThenNudge staff sessionId (s.listPending staff.id)).isNudgePending id =
        if id = staff.id then true else s.isNudgePending id := isNudgePending_set s staff.id id
    rw [hset, if_neg hne]

theorem Due.of_same {s' : System} (h : Due s staff)
    (hsessions : s'.sessions = s.sessions) (hinbox : s'.inbox = s.inbox) : Due s' staff := by
  constructor
  · have hidle := h.idle
    unfold System.idleSession System.getSession at hidle ⊢
    rw [hsessions]
    exact hidle
  · have hpending := h.pending
    unfold System.listPending at hpending ⊢
    rw [hinbox]
    exact hpending

theorem tickOne_woken (hdue : Due s staff) (hflag : s.isNudgePending staff.id = false) :
    ∃ w, (s.tickOne staff).wakes = s.wakes ++ [w] ∧ w.staffId = staff.id ∧
      w.stage.preparing = true := by
  obtain ⟨sessionId, hidle⟩ := Option.isSome_iff_exists.mp hdue.idle
  unfold System.tickOne
  rw [hidle]
  dsimp only
  rw [hflag, if_neg Bool.false_ne_true, if_neg hdue.pending]
  exact ⟨_, rfl, rfl, firstStage_preparing staff.contextPolicy⟩

theorem foldl_tickOne_wakes (staff : List PersistedStaff) (s : System) :
    ∃ new, (staff.foldl System.tickOne s).wakes = s.wakes ++ new := by
  induction staff generalizing s with
  | nil => exact ⟨[], (List.append_nil _).symm⟩
  | cons first rest ih =>
    obtain ⟨-, -, ⟨new, hnew⟩, -⟩ := tickOne_frame s first
    obtain ⟨more, hmore⟩ := ih (s.tickOne first)
    exact ⟨new ++ more, by rw [List.foldl_cons, hmore, hnew, List.append_assoc]⟩

theorem foldl_tickOne_woken {all : List PersistedStaff} (hids : (all.map (·.id)).Nodup)
    (hstaff : staff ∈ all) (hdue : Due s staff) (hflag : s.isNudgePending staff.id = false) :
    ∃ new, (all.foldl System.tickOne s).wakes = s.wakes ++ new ∧
      ∃ w ∈ new, w.staffId = staff.id ∧ w.stage.preparing = true := by
  induction all generalizing s with
  | nil => cases hstaff
  | cons first rest ih =>
    obtain ⟨hnew, hrest⟩ := List.nodup_cons.mp hids
    obtain ⟨hsessions, hinbox, ⟨added, hadded⟩, hflags⟩ := tickOne_frame s first
    rw [List.foldl_cons]
    rcases List.mem_cons.mp hstaff with rfl | hlater
    · -- its turn has come; the others add their own wakes
      obtain ⟨w, hwakes, hid, hpreparing⟩ := tickOne_woken hdue hflag
      obtain ⟨more, hmore⟩ := foldl_tickOne_wakes rest (s.tickOne staff)
      refine ⟨w :: more, ?_, w, List.mem_cons_self, hid, hpreparing⟩
      rw [hmore, hwakes, List.append_assoc, List.singleton_append]
    · have hne : staff.id ≠ first.id := fun heq =>
        hnew (List.mem_map.mpr ⟨staff, hlater, heq⟩)
      obtain ⟨more, hmore, w, hw, hwoken⟩ := ih hrest hlater (hdue.of_same hsessions hinbox)
        ((hflags _ hne).trans hflag)
      exact ⟨added ++ more, by rw [hmore, hadded, List.append_assoc], w,
        List.mem_append_right _ hw, hwoken⟩

/-- A tick wakes every staff that is due and has no flag. -/
theorem tick_wakes (hids : (s.staff.map (·.id)).Nodup)
    (hstaff : staff ∈ s.staff) (hdue : Due s staff) (hflag : s.isNudgePending staff.id = false) :
    ∃ new, (s.step .tick).wakes = s.wakes ++ new ∧
      ∃ w ∈ new, w.staffId = staff.id ∧ w.stage.preparing = true :=
  foldl_tickOne_woken hids hstaff hdue hflag

/-! ## Runs -/

/-- An open wake is being prepared or waits in the current session. -/
theorem Tracked.unflagged (h : Tracked s) {staffId : String}
    (hresting : Resting s staffId) : s.isNudgePending staffId = false := by
  by_contra hflag
  rw [Bool.not_eq_false] at hflag
  have hone := h.flag staffId
  rw [hflag, if_pos rfl] at hone
  obtain ⟨w, hw, hopen⟩ := List.countP_pos_iff.mp (show 0 < openWakes s staffId by omega)
  simp only [Wake.openFor, WakeStage.isOpen, Bool.and_eq_true, Bool.or_eq_true,
    decide_eq_true_eq] at hopen
  obtain ⟨rfl, hpreparing | hwaiting⟩ := hopen
  · rw [hresting.preparing w hw rfl] at hpreparing
    cases hpreparing
  · exact hresting.waiting w hw rfl hwaiting (h.current w hw hwaiting)

theorem Tracked.wakesOnce (h : Tracked s) : WakesOnce s where
  single staffId := by
    rw [h.flag staffId]
    split <;> omega
  unflagged _ hresting := h.unflagged hresting
  woken staff hstaff hresting hdue := by
    obtain ⟨new, hnew, w, hw, hwoken⟩ := tick_wakes h.ids hstaff hdue (h.unflagged hresting)
    exact ⟨w, by rw [hnew]; exact List.mem_append_right _ hw, hwoken⟩

/-- Where every step meets the condition, wakes are neither doubled nor silenced at any moment of the
    run. -/
theorem staff_wakes (events : List Event) (h : Along System.step KeepsTrack .start events) :
    Always System.step WakesOnce .start events := by
  have hstart : Tracked .start := ⟨List.nodup_nil, fun _ => rfl, nofun⟩
  exact (always_of_along tracked_step hstart h).mono fun s htracked => htracked.wakesOnce

/-! ## The flag must not be cleared early -/

/-- An open wake of a staff whose flag has been cleared early: when the staff idles with an entry, the
    next tick doubles it. -/
theorem early_clear_doubles (hids : (s.staff.map (·.id)).Nodup) {staffId : String}
    (hopen : openWakes s staffId ≠ 0) (hflag : s.isNudgePending staffId = false)
    (entry : InboxEntry) :
    ¬ WakesOnce (run System.step s [.putStaff ⟨staffId, .active, some "session", .preserve⟩,
      .setSession "session" (some ⟨"idle", some staffId, true⟩), .enqueue staffId entry, .tick]) := by
  -- the state before the tick
  obtain ⟨t, ht⟩ : ∃ t, t = run System.step s
      [.putStaff ⟨staffId, .active, some "session", .preserve⟩,
        .setSession "session" (some ⟨"idle", some staffId, true⟩), .enqueue staffId entry] := ⟨_, rfl⟩
  have hwakes : t.wakes = s.wakes := by rw [ht]; rfl
  have hflags : t.isNudgePending staffId = false := by rw [ht]; exact hflag
  have hstaff : (⟨staffId, .active, some "session", .preserve⟩ : PersistedStaff) ∈ t.staff := by
    have hget : t.getStaff staffId = some ⟨staffId, .active, some "session", .preserve⟩ := by
      rw [ht]
      exact (getStaff_put s _ staffId).trans (if_pos rfl)
    exact List.mem_of_find?_eq_some hget
  have hdue : Due t ⟨staffId, .active, some "session", .preserve⟩ := by
    constructor
    · have hsession : t.getSession "session" = some ⟨"idle", some staffId, true⟩ := by
        rw [ht]
        exact (JsMap.get?_set _ _ _ _).trans (if_pos rfl)
      simp [System.idleSession, hsession]
    · have hpending : t.listPending staffId = s.listPending staffId ++ [entry] := by
        rw [ht]
        show (JsMap.get? (JsMap.set s.inbox staffId _) staffId).getD [] = _
        rw [JsMap.get?_set, if_pos rfl]
        rfl
      rw [hpending]
      exact List.append_ne_nil_of_right_ne_nil _ (List.cons_ne_nil _ _)
  have hids' : (t.staff.map (·.id)).Nodup := by
    rw [ht]
    exact Keyed.nodup_put hids _
  obtain ⟨new, hnew, w, hw, hid, hpreparing⟩ := tick_wakes hids' hstaff hdue hflags
  intro h
  have hlast : run System.step s [.putStaff ⟨staffId, .active, some "session", .preserve⟩,
      .setSession "session" (some ⟨"idle", some staffId, true⟩), .enqueue staffId entry, .tick] =
      t.step .tick := by rw [ht]; rfl
  rw [hlast] at h
  have hsingle := h.single staffId
  -- the open wake from before and the new one
  have hcount : openWakes (t.step .tick) staffId =
      openWakes s staffId + new.countP (Wake.openFor staffId) := by
    unfold openWakes
    rw [hnew, List.countP_append, hwakes]
  have hpos : 0 < new.countP (Wake.openFor staffId) :=
    List.countP_pos_iff.mpr ⟨w, hw, by simp [Wake.openFor, WakeStage.isOpen, hid, hpreparing]⟩
  omega

/-! ## Three runs -/

section Runs

def idleStaff (sessionId : String) (policy : ContextPolicy) : List Event :=
  [.putStaff ⟨"staff", .active, some sessionId, policy⟩,
    .setSession sessionId (some ⟨"idle", some "staff", true⟩)]

/-- An entry comes in and the staff is poked. -/
def wakeUp : List Event := [.enqueue "staff" ⟨"entry", "manual", none, false⟩, .microtask]

/-- A wake from its poke to its turn. -/
def onceRun : List Event := idleStaff "session" .preserve ++ wakeUp ++
  [.delivered 0 true .dispatched, .wakeStart 0, .tick]

/-- While a wake compacts the session, a turn of the user begins in it and ends. -/
def doubledRun : List Event := idleStaff "session" .compact ++ wakeUp ++
  [.agentStart "session", .tick]

/-- A wake waits in the session that the staff leaves; its turn begins there. -/
def silencedRun : List Event := idleStaff "old" .preserve ++ wakeUp ++
  [.delivered 0 true .queued] ++ idleStaff "new" .preserve ++ [.wakeStart 0]

/-- A wake that is alone. -/
theorem once_run : Always System.step WakesOnce .start onceRun := by
  refine staff_wakes onceRun ⟨nofun, trivial, trivial, trivial, fun w hw => ?_, fun w hw _ => ?_,
    trivial, trivial⟩
  · have hwake : some (⟨"staff", "session", [⟨"entry", "manual", none, false⟩], .delivering⟩ : Wake) =
        some w := hw
    rw [Option.some.injEq] at hwake
    subst hwake
    exact ⟨fun _ => ⟨by decide, fun _ => by decide⟩, nofun⟩
  · have hwake : some (⟨"staff", "session", [⟨"entry", "manual", none, false⟩], .waiting⟩ : Wake) =
        some w := hw
    rw [Option.some.injEq] at hwake
    subst hwake
    decide

/-- The turn of the user clears the flag of the wake that compacts, and the tick starts another wake.
    The flag of the wake that waits in the old session is never cleared, and the new session is not
    woken. -/
theorem doubled_and_silenced :
    ¬ Always System.step WakesOnce .start doubledRun ∧
      ¬ Always System.step WakesOnce .start silencedRun := by
  constructor
  · intro h
    exact absurd (h.last.single "staff") (by decide)
  · intro h
    have hresting : Resting (run System.step .start silencedRun) "staff" := by
      constructor
      · decide
      · decide
    exact absurd (h.last.unflagged "staff" hresting) (by decide)

end Runs

end Bobbit.Server.Nudger
