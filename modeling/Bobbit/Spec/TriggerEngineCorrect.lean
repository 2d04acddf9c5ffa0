import Bobbit.Lib.OnceEach
import Bobbit.Lib.Run
import Bobbit.Server.TriggerEngine

/-!
# When triggers fire

A trigger is only ever changed by its own checks, so its history is the replay of the
readings that its checks were given. What a replay fires is known from the keys it sees: the
minutes of a schedule, the object ids of a ref.

## Key results
- `scan_replays`: a tick checks a trigger once or leaves it alone.
- `scan_order`: a tick checks the enabled triggers in order, up to the first that fires.
- `triggers_fire`: in every run a schedule fires once in each minute that it matches and in
  which it is checked, and a git trigger fires at each change between successful checks.
- `second_schedule_missed`: two schedules of one minute, and one tick.
-/

namespace Bobbit.Server.StaffTrigger

open Lib

variable (config : EngineConfig) (cwd : JsString)

/-! ## One trigger -/

def LegacyStaffTrigger.after (t : LegacyStaffTrigger) (c : Check) : LegacyStaffTrigger :=
  { t with
    lastFired := (c.entry.map fun _ => c.firedAt) <|> t.lastFired
    lastSeenSha := c.sha <|> t.lastSeenSha }

def checkOf (index : Nat) (t : LegacyStaffTrigger) (r : Reading) : Check :=
  ⟨index, r.now, r.firedAt, (checkTrigger config cwd t r).2, (checkTrigger config cwd t r).1⟩

/-- The checks of a trigger that is given these readings. -/
def replay (index : Nat) : LegacyStaffTrigger → List Reading → List Check
  | _, [] => []
  | t, r :: rest =>
    checkOf config cwd index t r :: replay index (t.after (checkOf config cwd index t r)) rest

def LegacyStaffTrigger.afterAll (t : LegacyStaffTrigger) (checks : List Check) :
    LegacyStaffTrigger :=
  checks.foldl LegacyStaffTrigger.after t

theorem replay_append (index : Nat) (t : LegacyStaffTrigger) (readings : List Reading)
    (r : Reading) :
    replay config cwd index t (readings ++ [r]) =
      replay config cwd index t readings ++
        [checkOf config cwd index (t.afterAll (replay config cwd index t readings)) r] := by
  induction readings generalizing t with
  | nil => rfl
  | cons first rest ih =>
    rw [List.cons_append, replay, ih]
    rfl

/-! ## One tick -/

variable {triggers : List LegacyStaffTrigger} {t : LegacyStaffTrigger}

/-- Updating a trigger by its id updates the one at its place. -/
theorem updateTriggerState_eq_set (hids : (triggers.map (·.id)).Nodup) {i : Nat}
    (hget : triggers[i]? = some t) (lastFired : Option Nat) (lastSeenSha : Option JsString) :
    updateTriggerState t.id lastFired lastSeenSha triggers =
      triggers.set i { t with
        lastFired := lastFired <|> t.lastFired
        lastSeenSha := lastSeenSha <|> t.lastSeenSha } := by
  induction triggers generalizing i with
  | nil => cases hget
  | cons first rest ih =>
    obtain ⟨hnew, hrest⟩ := List.nodup_cons.mp hids
    cases i with
    | zero =>
      obtain rfl : first = t := by simpa using hget
      simp [updateTriggerState]
    | succ i =>
      rw [List.getElem?_cons_succ] at hget
      have hne : first.id ≠ t.id := by
        intro heq
        exact hnew (List.mem_map.mpr ⟨t, List.mem_of_getElem? hget, heq.symm⟩)
      rw [updateTriggerState, if_neg hne, ih hrest hget, List.set_cons_succ]

/-- One turn of the loop over the triggers, when it checks. -/
theorem scanTriggers_cons (hids : (triggers.map (·.id)).Nodup)
    (readings : Nat → Reading) {index : Nat}
    (hget : triggers[index]? = some t) (henabled : t.enabled = true) (rest : List Nat) :
    scanTriggers config cwd readings (index :: rest) triggers =
      let c := checkOf config cwd index t (readings index)
      let triggers := triggers.set index (t.after c)
      if c.fired then (triggers, [c])
      else
        ((scanTriggers config cwd readings rest triggers).1,
          c :: (scanTriggers config cwd readings rest triggers).2) := by
  rw [scanTriggers, hget]
  simp only [henabled, Bool.not_true, Bool.false_eq_true, if_false]
  rw [updateTriggerState_eq_set hids hget]
  rfl

theorem scanTriggers_disabled (readings : Nat → Reading)
    {index : Nat} (hget : triggers[index]? = some t)
    (henabled : t.enabled = false) (rest : List Nat) :
    scanTriggers config cwd readings (index :: rest) triggers =
      scanTriggers config cwd readings rest triggers := by
  rw [scanTriggers, hget]
  simp only [henabled, Bool.not_false, if_true]

theorem map_id_set {i : Nat} (hget : triggers[i]? = some t) (c : Check) :
    (triggers.set i (t.after c)).map (·.id) = triggers.map (·.id) := by
  refine List.ext_getElem? fun j => ?_
  by_cases heq : i = j
  · subst heq
    rw [List.getElem?_map, List.getElem?_set_self (List.getElem?_eq_some_iff.mp hget).1,
      List.getElem?_map, hget]
    rfl
  · rw [List.getElem?_map, List.getElem?_set_ne heq, List.getElem?_map]

def checksAt (index : Nat) (checks : List Check) : List Check := checks.filter (·.index = index)

/-- What a scan makes of the trigger at a place: it is left alone, or checked once. -/
def Scanned (readings : Nat → Reading) (triggers triggers' : List LegacyStaffTrigger)
    (checks : List Check) : Prop :=
  triggers'.map (·.id) = triggers.map (·.id) ∧
    ∀ j t, triggers[j]? = some t →
      (checksAt j checks = [] ∧ triggers'[j]? = some t) ∨
      (checksAt j checks = [checkOf config cwd j t (readings j)] ∧
        triggers'[j]? = some (t.after (checkOf config cwd j t (readings j))))

/-- A scan checks only the triggers at the places it is given. -/
theorem index_mem_of_scan {readings : Nat → Reading} {places : List Nat}
    (hids : (triggers.map (·.id)).Nodup) :
    ∀ c ∈ (scanTriggers config cwd readings places triggers).2, c.index ∈ places := by
  induction places generalizing triggers with
  | nil => intro c hc; cases hc
  | cons index rest ih =>
    intro c hc
    cases hget : triggers[index]? with
    | none =>
      rw [scanTriggers, hget] at hc
      cases hc
    | some t =>
      cases henabled : t.enabled with
      | false =>
        rw [scanTriggers_disabled config cwd readings hget henabled] at hc
        exact List.mem_cons_of_mem _ (ih hids c hc)
      | true =>
        rw [scanTriggers_cons config cwd hids readings hget henabled] at hc
        dsimp only at hc
        split at hc
        · rw [List.mem_singleton.mp hc]
          exact List.mem_cons_self
        · rcases List.mem_cons.mp hc with rfl | hc
          · exact List.mem_cons_self
          · exact List.mem_cons_of_mem _ (ih (by rw [map_id_set hget]; exact hids) c hc)

theorem scan_replays (readings : Nat → Reading) {places : List Nat} (hplaces : places.Nodup)
    (hids : (triggers.map (·.id)).Nodup) :
    Scanned config cwd readings triggers (scanTriggers config cwd readings places triggers).1
      (scanTriggers config cwd readings places triggers).2 := by
  induction places generalizing triggers with
  | nil => exact ⟨rfl, fun j t hj => .inl ⟨rfl, hj⟩⟩
  | cons index rest ih =>
    obtain ⟨hnew, hrest⟩ := List.nodup_cons.mp hplaces
    cases hget : triggers[index]? with
    | none =>
      rw [scanTriggers, hget]
      exact ⟨rfl, fun j t hj => .inl ⟨rfl, hj⟩⟩
    | some t =>
      cases henabled : t.enabled with
      | false =>
        rw [scanTriggers_disabled config cwd readings hget henabled]
        exact ih hrest hids
      | true =>
        have hlt := (List.getElem?_eq_some_iff.mp hget).1
        have hids' : ((triggers.set index
            (t.after (checkOf config cwd index t (readings index)))).map (·.id)).Nodup := by
          rw [map_id_set hget]
          exact hids
        rw [scanTriggers_cons config cwd hids readings hget henabled]
        dsimp only
        split
        · refine ⟨map_id_set hget _, fun j u hj => ?_⟩
          by_cases heq : j = index
          · subst heq
            obtain rfl : t = u := Option.some.inj (hget.symm.trans hj)
            right
            exact ⟨by simp [checksAt, checkOf], by rw [List.getElem?_set_self hlt]⟩
          · left
            refine ⟨by simp [checksAt, checkOf, Ne.symm heq], ?_⟩
            rw [List.getElem?_set_ne (Ne.symm heq)]
            exact hj
        · obtain ⟨hmap, hscan⟩ := ih hrest hids'
          refine ⟨hmap.trans (map_id_set hget _), fun j u hj => ?_⟩
          by_cases heq : j = index
          · subst heq
            obtain rfl : t = u := Option.some.inj (hget.symm.trans hj)
            -- the place does not come up again
            have hnone : checksAt j (scanTriggers config cwd readings rest (triggers.set j
                (t.after (checkOf config cwd j t (readings j))))).2 = [] := by
              refine List.filter_eq_nil_iff.mpr fun c hc hcj => hnew ?_
              rw [← of_decide_eq_true hcj]
              exact index_mem_of_scan config cwd hids' c hc
            right
            rcases hscan j _ (List.getElem?_set_self hlt) with ⟨-, hkeep⟩ | ⟨hone, -⟩
            · refine ⟨?_, hkeep⟩
              rw [checksAt, List.filter_cons_of_pos (by simp [checkOf])]
              exact congrArg _ hnone
            · rw [hnone] at hone
              cases hone
          · have hother := hscan j u (by rw [List.getElem?_set_ne (Ne.symm heq)]; exact hj)
            rwa [checksAt, List.filter_cons_of_neg (by simp [checkOf, Ne.symm heq])]

def enabledPlaces (triggers : List LegacyStaffTrigger) (places : List Nat) : List Nat :=
  places.filter fun i => triggers[i]?.any (·.enabled)

/-- A tick checks enabled triggers in order; none but the last of them fires, and that one
    did if some were not reached. -/
def InOrder (enabled : List Nat) (checks : List Check) : Prop :=
  ∃ unreached, enabled = checks.map (·.index) ++ unreached ∧
    (∀ c ∈ checks.dropLast, c.fired = false) ∧
    (unreached = [] ∨ checks.getLast?.any Check.fired = true)

theorem enabledPlaces_set {i : Nat} (hget : triggers[i]? = some t) (c : Check) (places : List Nat) :
    enabledPlaces (triggers.set i (t.after c)) places = enabledPlaces triggers places := by
  refine List.filter_congr fun j _ => ?_
  by_cases heq : i = j
  · subst heq
    rw [List.getElem?_set_self (List.getElem?_eq_some_iff.mp hget).1, hget]
    rfl
  · rw [List.getElem?_set_ne heq]

/-- A tick checks the enabled triggers in order, up to the first that fires. -/
theorem scan_order (readings : Nat → Reading) {places : List Nat}
    (hids : (triggers.map (·.id)).Nodup) (hplaces : ∀ i ∈ places, i < triggers.length) :
    InOrder (enabledPlaces triggers places)
      (scanTriggers config cwd readings places triggers).2 := by
  induction places generalizing triggers with
  | nil => exact ⟨[], rfl, (fun c hc => by cases hc), .inl rfl⟩
  | cons index rest ih =>
    have hrest : ∀ i ∈ rest, i < triggers.length := fun i hi =>
      hplaces i (List.mem_cons_of_mem _ hi)
    obtain ⟨t, hget⟩ : ∃ t, triggers[index]? = some t :=
      ⟨_, List.getElem?_eq_getElem (hplaces index List.mem_cons_self)⟩
    cases henabled : t.enabled with
    | false =>
      rw [scanTriggers_disabled config cwd readings hget henabled, enabledPlaces,
        List.filter_cons_of_neg (by simp [hget, henabled])]
      exact ih hids hrest
    | true =>
      have hfirst : enabledPlaces triggers (index :: rest) =
          index :: enabledPlaces triggers rest := by
        rw [enabledPlaces, List.filter_cons_of_pos (by simp [hget, henabled])]
        rfl
      rw [scanTriggers_cons config cwd hids readings hget henabled, hfirst]
      dsimp only
      split
      · rename_i hfired
        exact ⟨enabledPlaces triggers rest, rfl, (fun c hc => by cases hc), .inr hfired⟩
      · rename_i hfired
        have hscan := @ih (triggers.set index
          (t.after (checkOf config cwd index t (readings index))))
          (by rw [map_id_set hget]; exact hids) (by simpa using hrest)
        rw [enabledPlaces_set hget] at hscan
        obtain ⟨unreached, heq, hquiet, hlast⟩ := hscan
        refine ⟨unreached, by rw [heq]; rfl, ?_, ?_⟩
        · intro c hc
          rw [List.dropLast_cons_of_ne_nil (by rintro h; rw [h] at hc; cases hc)] at hc
          rcases List.mem_cons.mp hc with rfl | hc
          · exact Bool.eq_false_iff.mpr hfired
          · exact hquiet c hc
        · refine hlast.imp_right fun hany => ?_
          rw [List.getLast?_cons]
          cases hl : (scanTriggers config cwd readings rest (triggers.set index
              (t.after (checkOf config cwd index t (readings index))))).2.getLast? with
          | none => rw [hl] at hany; cases hany
          | some c => rw [hl] at hany; exact hany

/-! ## What a replay fires -/

/-- The minutes in which a schedule is due. -/
def dueIn (t : LegacyStaffTrigger) (minute : Nat) : Bool :=
  match t.cron.filter (· ≠ []) with
  | none => false
  | some cron => cronMatches cron (config.localDate minute)

/-- The minute that a trigger remembers to have fired in. -/
def LegacyStaffTrigger.lastMinute (t : LegacyStaffTrigger) : Option Nat :=
  (t.lastFired.filter (· ≠ 0)).map minuteOf

theorem checkScheduleTrigger_eq (t : LegacyStaffTrigger) (now : Nat) :
    checkScheduleTrigger config t now =
      (dueIn config t (minuteOf now) && decide (t.lastMinute ≠ some (minuteOf now))) := by
  unfold checkScheduleTrigger dueIn LegacyStaffTrigger.lastMinute
  cases t.cron.filter (· ≠ []) with
  | none => rfl
  | some cron =>
    cases hmatch : cronMatches cron (config.localDate (minuteOf now)) with
    | false => simp [hmatch]
    | true =>
      cases hlast : t.lastFired.filter (· ≠ 0) with
      | none => simp [hmatch]
      | some lastFired => simp [hmatch]

/-- The clock of some checks: firing is recorded in the minute of the check. -/
def RecordsMinute (checks : List Check) : Prop :=
  ∀ c ∈ checks, 0 < c.firedAt ∧ minuteOf c.firedAt = minuteOf c.now

/-- A schedule fires once for each minute, as its checks come. -/
theorem replay_schedule (index : Nat) (htype : t.type = .schedule) (readings : List Reading)
    (hclock : RecordsMinute (replay config cwd index t readings)) :
    (replay config cwd index t readings).map Check.fired =
      onceFlags (dueIn config t) t.lastMinute
        ((replay config cwd index t readings).map fun c => minuteOf c.now) := by
  induction readings generalizing t with
  | nil => rfl
  | cons r rest ih =>
    obtain ⟨hpos, hminute⟩ := hclock _ List.mem_cons_self
    have hfired : (checkOf config cwd index t r).fired =
        (dueIn config t (minuteOf r.now) && decide (t.lastMinute ≠ some (minuteOf r.now))) := by
      rw [← checkScheduleTrigger_eq]
      simp only [checkOf, Check.fired, checkTrigger, htype]
      cases checkScheduleTrigger config t r.now <;> rfl
    have hlast : (t.after (checkOf config cwd index t r)).lastMinute =
        if (checkOf config cwd index t r).fired then some (minuteOf r.now) else t.lastMinute := by
      unfold LegacyStaffTrigger.lastMinute LegacyStaffTrigger.after Check.fired
      cases (checkOf config cwd index t r).entry with
      | none => rfl
      | some entry =>
        have hne : (checkOf config cwd index t r).firedAt ≠ 0 := Nat.pos_iff_ne_zero.mp hpos
        have hsome : ((some (checkOf config cwd index t r).firedAt <|> t.lastFired) : Option Nat) =
            some (checkOf config cwd index t r).firedAt := rfl
        simp only [Option.map_some, hsome, Option.filter_some, Option.isSome_some, if_true,
          decide_eq_true hne, hminute]
        rfl
    have hrest := ih (t := t.after (checkOf config cwd index t r)) htype
      fun c hc => hclock c (List.mem_cons_of_mem _ hc)
    rw [replay, List.map_cons, List.map_cons, onceFlags, hrest, hlast, hfired]
    rfl

theorem currentSha_ne_nil {r : Reading} {sha : JsString}
    (h : currentSha config cwd t r = some sha) : sha ≠ [] := by
  unfold currentSha at h
  obtain ⟨hasRemote, -, hfind⟩ := Option.bind_eq_some_iff.mp h
  obtain ⟨candidate, -, hcandidate⟩ := List.exists_of_findSome?_eq_some hfind
  obtain ⟨output, -, houtput⟩ := Option.bind_eq_some_iff.mp hcandidate
  split at houtput
  · rename_i hid
    rw [← Option.some.inj houtput]
    intro hnil
    rw [lowerHex, List.map_eq_nil_iff] at hnil
    rw [hnil] at hid
    cases hid
  · cases houtput

theorem checkTrigger_failed {r : Reading} (htype : t.type = .git)
    (hsha : currentSha config cwd t r = none) : checkTrigger config cwd t r = (none, none) := by
  simp only [checkTrigger, htype, hsha]

/-- A check that sees an object id compares it with the last one. -/
theorem checkTrigger_succeeded {r : Reading} {sha : JsString}
    (htype : t.type = .git) (hsha : currentSha config cwd t r = some sha) :
    checkTrigger config cwd t r =
      if (t.lastSeenSha.filter (· ≠ [])).any (· ≠ sha) then
        (some (fireTrigger t (gitContext t sha)), some sha)
      else (none, some sha) := by
  simp only [checkTrigger, htype, hsha]

/-- A git trigger fires at each change between successful checks. -/
theorem replay_git (index : Nat) (htype : t.type = .git) (readings : List Reading) :
    (((replay config cwd index t readings).filter (·.sha.isSome)).map Check.fired =
      changeFlags (t.lastSeenSha.filter (· ≠ []))
        ((replay config cwd index t readings).filterMap (·.sha))) ∧
      ∀ c ∈ replay config cwd index t readings, c.sha = none → c.fired = false := by
  induction readings generalizing t with
  | nil => exact ⟨rfl, fun c hc => by cases hc⟩
  | cons r rest ih =>
    obtain ⟨hflags, hfailed⟩ := ih (t := t.after (checkOf config cwd index t r)) htype
    cases hsha : currentSha config cwd t r with
    | none =>
      have hcheck := checkTrigger_failed config cwd htype hsha
      have hquiet : (checkOf config cwd index t r).sha = none ∧
          (checkOf config cwd index t r).fired = false := by
        simp only [checkOf, Check.fired, hcheck]
        exact ⟨trivial, rfl⟩
      have hseen : (t.after (checkOf config cwd index t r)).lastSeenSha = t.lastSeenSha := by
        rw [LegacyStaffTrigger.after, hquiet.1]
        rfl
      rw [replay, List.filter_cons_of_neg (by simp [hquiet.1]), List.filterMap_cons_none hquiet.1,
        ← hseen]
      refine ⟨hflags, fun c hc hnone => ?_⟩
      rcases List.mem_cons.mp hc with rfl | hc
      · exact hquiet.2
      · exact hfailed c hc hnone
    | some sha =>
      have hcheck := checkTrigger_succeeded config cwd htype hsha
      have hdone : (checkOf config cwd index t r).sha = some sha ∧
          (checkOf config cwd index t r).fired =
            (t.lastSeenSha.filter (· ≠ [])).any (· ≠ sha) := by
        simp only [checkOf, Check.fired, hcheck]
        split
        · rename_i h
          exact ⟨rfl, h.symm⟩
        · rename_i h
          exact ⟨rfl, (Bool.eq_false_iff.mpr h).symm⟩
      have hseen : (t.after (checkOf config cwd index t r)).lastSeenSha.filter (· ≠ []) =
          some sha := by
        rw [LegacyStaffTrigger.after, hdone.1]
        exact Option.filter_eq_some_iff.mpr
          ⟨rfl, decide_eq_true (currentSha_ne_nil config cwd hsha)⟩
      rw [hseen] at hflags
      rw [replay, List.filter_cons_of_pos (by simp [hdone.1]), List.filterMap_cons_some hdone.1,
        List.map_cons, changeFlags, hdone.2, hflags]
      refine ⟨rfl, fun c hc hnone => ?_⟩
      rcases List.mem_cons.mp hc with rfl | hc
      · rw [hdone.1] at hnone
        cases hnone
      · exact hfailed c hc hnone

/-! ## Every run -/

/-- The checks of a staff so far, oldest first. -/
def Watched.checks (w : Watched) : List Check := w.ticks.flatten

/-- The enabled triggers of an active staff, in order. -/
def scheduledPlaces (staff : PersistedStaff) : List Nat :=
  if staff.active then enabledPlaces staff.triggers (List.range staff.triggers.length) else []

/-- What a run makes of a staff: every trigger is the replay of its own checks. -/
structure Replays (staff : PersistedStaff) (w : Watched) : Prop where
  cwd : w.staff.cwd = staff.cwd
  active : w.staff.active = staff.active
  ids : w.staff.triggers.map (·.id) = staff.triggers.map (·.id)
  ticks : ∀ tick ∈ w.ticks, InOrder (scheduledPlaces staff) tick
  triggers : ∀ (j : Nat) t, staff.triggers[j]? = some t →
    ∃ readings, checksAt j w.checks = replay config staff.cwd j t readings ∧
      w.staff.triggers[j]? = some (t.afterAll (checksAt j w.checks))

theorem enabled_afterAll (t : LegacyStaffTrigger) (checks : List Check) :
    (t.afterAll checks).enabled = t.enabled := by
  induction checks generalizing t with
  | nil => rfl
  | cons c rest ih => exact ih (t.after c)

variable {staff : PersistedStaff}

theorem Replays.scheduledPlaces {w : Watched}
    (h : Replays config staff w) : scheduledPlaces w.staff = scheduledPlaces staff := by
  have hlen : w.staff.triggers.length = staff.triggers.length := by
    simpa using congrArg List.length h.ids
  unfold StaffTrigger.scheduledPlaces
  rw [h.active, hlen]
  split
  · refine List.filter_congr fun j _ => ?_
    cases hj : staff.triggers[j]? with
    | none =>
      rw [List.getElem?_eq_none_iff.mpr (hlen ▸ List.getElem?_eq_none_iff.mp hj)]
    | some t =>
      obtain ⟨-, -, hget⟩ := h.triggers j t hj
      rw [hget, Option.any_some, Option.any_some, enabled_afterAll]
  · rfl

theorem checksAt_append (j : Nat) (checks checks' : List Check) :
    checksAt j (checks ++ checks') = checksAt j checks ++ checksAt j checks' :=
  List.filter_append ..

theorem Replays.tick {w : Watched} (h : Replays config staff w)
    (hids : (staff.triggers.map (·.id)).Nodup) (readings : Nat → Reading) :
    Replays config staff (w.tick config readings) := by
  have hplaces := h.scheduledPlaces
  have hids' : (w.staff.triggers.map (·.id)).Nodup := by rw [h.ids]; exact hids
  unfold Watched.tick
  cases hactive : w.staff.active with
  | false =>
    simp only [Bool.not_false, if_true]
    have hnone : StaffTrigger.scheduledPlaces staff = [] := by
      rw [← hplaces, StaffTrigger.scheduledPlaces, hactive]
      rfl
    refine ⟨h.cwd, h.active, h.ids, ?_, ?_⟩
    · intro tick htick
      rcases List.mem_append.mp htick with htick | htick
      · exact h.ticks tick htick
      · rw [List.mem_singleton.mp htick, hnone]
        exact ⟨[], rfl, (fun c hc => by cases hc), .inl rfl⟩
    · have hchecks : (⟨w.staff, w.ticks ++ [[]]⟩ : Watched).checks = w.checks := by
        simp [Watched.checks]
      rw [hchecks]
      exact h.triggers
  | true =>
    simp only [Bool.not_true, Bool.false_eq_true, if_false]
    have hscan := scan_replays config w.staff.cwd readings
      (List.nodup_range (n := w.staff.triggers.length)) hids'
    have horder : InOrder (enabledPlaces w.staff.triggers (List.range w.staff.triggers.length))
        (scanTriggers config w.staff.cwd readings (List.range w.staff.triggers.length)
          w.staff.triggers).2 :=
      scan_order config w.staff.cwd readings hids' fun i hi => List.mem_range.mp hi
    generalize scanTriggers config w.staff.cwd readings (List.range w.staff.triggers.length)
      w.staff.triggers = result at hscan horder
    obtain ⟨hmap, hone⟩ := hscan
    refine ⟨h.cwd, h.active, hmap.trans h.ids, ?_, ?_⟩
    · intro tick htick
      rcases List.mem_append.mp htick with htick | htick
      · exact h.ticks tick htick
      · rw [List.mem_singleton.mp htick, ← hplaces, StaffTrigger.scheduledPlaces, hactive]
        exact horder
    · intro j t hj
      obtain ⟨before, hchecks, hget⟩ := h.triggers j t hj
      have hall (ts : List LegacyStaffTrigger) :
          (⟨{ w.staff with triggers := ts }, w.ticks ++ [result.2]⟩ : Watched).checks =
            w.checks ++ result.2 := by
        simp [Watched.checks]
      rw [hall, checksAt_append]
      rcases hone j _ hget with ⟨hnone, hkeep⟩ | ⟨hchecked, hafter⟩
      · rw [hnone, List.append_nil]
        exact ⟨before, hchecks, hkeep⟩
      · refine ⟨before ++ [readings j], ?_, ?_⟩
        · rw [hchecked, replay_append, ← hchecks, h.cwd]
        · rw [hchecked, LegacyStaffTrigger.afterAll, List.foldl_append]
          exact hafter

namespace TriggerEngine

/-- A callback that finds no tick in flight. -/
def starts (s : TriggerEngine) : Event → Bool
  | .callback _ => !s.tickInFlight
  | .settled => false

/-- How a run goes on for the staff at a place. -/
def Goes (staff : PersistedStaff) (i ticks : Nat) (s : TriggerEngine) : Prop :=
  ∃ w, s.staff[i]? = some w ∧ Replays config staff w ∧ w.ticks.length = ticks

theorem goes_step {staff : PersistedStaff} {i ticks : Nat} {s : TriggerEngine}
    (hids : (staff.triggers.map (·.id)).Nodup) (h : Goes config staff i ticks s) (event : Event) :
    Goes config staff i (ticks + (starts s event).toNat) (step config s event) := by
  obtain ⟨w, hget, hreplays, hticks⟩ := h
  cases event with
  | settled => exact ⟨w, hget, hreplays, hticks⟩
  | callback readings =>
    cases hflight : s.tickInFlight with
    | true =>
      simp only [step, starts, hflight, if_true]
      exact ⟨w, hget, hreplays, hticks⟩
    | false =>
      simp only [step, starts, hflight, Bool.false_eq_true, if_false]
      refine ⟨w.tick config (readings i), ?_, hreplays.tick config hids (readings i), ?_⟩
      · rw [List.getElem?_map, List.getElem?_zipIdx, hget]
        simp
      · unfold Watched.tick
        cases w.staff.active <;> simp [hticks]

theorem goes_run {staff : PersistedStaff} {i ticks : Nat} {s : TriggerEngine}
    (hids : (staff.triggers.map (·.id)).Nodup) (h : Goes config staff i ticks s)
    (events : List Event) :
    Goes config staff i (ticks + countAlong (step config) starts s events)
      (run (step config) s events) := by
  induction events generalizing s ticks with
  | nil => exact h
  | cons event rest ih =>
    have hrest := ih (goes_step config hids h event)
    rw [Nat.add_assoc] at hrest
    exact hrest

end TriggerEngine

/-- What the checks of a staff fire. -/
structure Fires (staff : PersistedStaff) (w : Watched) : Prop where
  /-- a tick checks the enabled triggers in order, up to the first that fires -/
  ticks : ∀ tick ∈ w.ticks, InOrder (scheduledPlaces staff) tick
  /-- a schedule fires once in each minute that it matches and is checked in -/
  schedule : ∀ (j : Nat) t, staff.triggers[j]? = some t → t.type = .schedule →
    RecordsMinute (checksAt j w.checks) →
    (checksAt j w.checks).Pairwise (fun c c' => minuteOf c.now ≤ minuteOf c'.now) →
    (∀ minute, t.lastMinute = some minute → ∀ c ∈ checksAt j w.checks, minute ≤ minuteOf c.now) →
    ∀ minute, ((checksAt j w.checks).countP fun c => minuteOf c.now = minute && c.fired) =
      if (∃ c ∈ checksAt j w.checks, minuteOf c.now = minute) ∧ dueIn config t minute = true ∧
        t.lastMinute ≠ some minute then 1 else 0
  /-- a git trigger fires at the successful checks that see another object id than the one
      before -/
  git : ∀ (j : Nat) t, staff.triggers[j]? = some t → t.type = .git →
    (((checksAt j w.checks).filter (·.sha.isSome)).map Check.fired =
      List.zipWith (fun before sha => before.any (· ≠ sha))
        (t.lastSeenSha.filter (· ≠ []) :: ((checksAt j w.checks).filterMap (·.sha)).map some)
        ((checksAt j w.checks).filterMap (·.sha))) ∧
      ∀ c ∈ checksAt j w.checks, c.sha = none → c.fired = false

theorem Replays.fires {w : Watched} (h : Replays config staff w) : Fires config staff w where
  ticks := h.ticks
  schedule := by
    intro j t hj htype hrecords hforward hearlier minute
    obtain ⟨readings, hchecks, -⟩ := h.triggers j t hj
    have hflags := replay_schedule config staff.cwd j htype readings (hchecks ▸ hrecords)
    rw [← hchecks] at hflags
    have hcount := countP_onceFlags (dueIn config t) (List.pairwise_map.mpr hforward)
      (fun l hl k hk => by
        obtain ⟨c, hc, rfl⟩ := List.mem_map.mp hk
        exact hearlier l hl c hc) minute
    rw [← hflags, actionsOn, List.zip_map', List.countP_map] at hcount
    refine hcount.trans ?_
    simp only [List.mem_map]
  git := by
    intro j t hj htype
    obtain ⟨readings, hchecks, -⟩ := h.triggers j t hj
    have hgit := replay_git config staff.cwd j htype readings
    rw [← hchecks, changeFlags_eq] at hgit
    exact hgit

/-- **Triggers.** In every run each staff has one tick for each callback that finds none in
    flight, and its checks fire as they should. -/
theorem triggers_fire (engine : TriggerEngine) (events : List TriggerEngine.Event) {i : Nat}
    {staff : PersistedStaff} (hstaff : engine.staff[i]? = some ⟨staff, []⟩)
    (hids : (staff.triggers.map (·.id)).Nodup) :
    ∃ w, (run (TriggerEngine.step config) engine events).staff[i]? = some w ∧
      w.ticks.length = countAlong (TriggerEngine.step config) TriggerEngine.starts engine events ∧
      Fires config staff w := by
  have hstart : TriggerEngine.Goes config staff i 0 engine := by
    refine ⟨⟨staff, []⟩, hstaff, ⟨rfl, rfl, rfl, (fun tick htick => by cases htick), ?_⟩, rfl⟩
    exact fun j t hj => ⟨[], rfl, hj⟩
  obtain ⟨w, hget, hreplays, hticks⟩ := TriggerEngine.goes_run config hids hstart events
  exact ⟨w, hget, by rw [hticks, Nat.zero_add], hreplays.fires⟩

/-! ## Two schedules of one minute -/

def everyMinute (id : String) : LegacyStaffTrigger where
  id := id
  type := .schedule
  enabled := true
  cron := some (js "* * * * *")
  repo := none
  branch := none
  prompt := none
  lastFired := none
  lastSeenSha := none

def twoSchedules : PersistedStaff := ⟨[], true, [everyMinute "a", everyMinute "b"]⟩

/-- A date that is the same in every minute. -/
def fixedDate : EngineConfig := ⟨fun _ => ⟨0, 0, 1, 0, 0⟩, false⟩

def oneTick : List TriggerEngine.Event :=
  [.callback fun _ _ => ⟨60000, 60001, fun _ => none, fun _ _ => none⟩]

theorem two_schedules_checked :
    (⟨[⟨twoSchedules, []⟩], false⟩ : TriggerEngine).staff[0]? = some ⟨twoSchedules, []⟩ ∧
    (twoSchedules.triggers.map (·.id)).Nodup ∧
    ∃ w, (run (TriggerEngine.step fixedDate) ⟨[⟨twoSchedules, []⟩], false⟩ oneTick).staff[0]? =
        some w ∧
      w.ticks.length = countAlong (TriggerEngine.step fixedDate) TriggerEngine.starts
        ⟨[⟨twoSchedules, []⟩], false⟩ oneTick ∧
      Fires fixedDate twoSchedules w :=
  ⟨rfl, by decide, triggers_fire fixedDate ⟨[⟨twoSchedules, []⟩], false⟩ oneTick rfl (by decide)⟩

/-- The tick of a minute fires the first schedule and misses the second, which matches too. -/
theorem second_schedule_missed :
    dueIn fixedDate (everyMinute "b") (minuteOf 60000) = true ∧
      (run (TriggerEngine.step fixedDate) ⟨[⟨twoSchedules, []⟩], false⟩ oneTick).staff.map
        (fun w => w.checks.map fun c => (c.index, minuteOf c.now, c.fired)) =
          [[(0, 1, true)]] := by
  decide +kernel

end Bobbit.Server.StaffTrigger
