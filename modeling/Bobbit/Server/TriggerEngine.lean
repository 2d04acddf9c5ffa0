import Bobbit.Server.StaffTriggerEngine

/-!
# Trigger engine

Model of `TriggerEngine` in `src/server/agent/staff-trigger-engine.ts`: the ticks that check
the triggers of active staff. A tick waits for repositories to be refreshed and so reads the
clock and the refs at later and later times; its effects are placed where it starts, since
only callbacks that it turns away come in between. Each staff keeps a history of its checks.
-/

namespace Bobbit.Server.StaffTrigger

open Lib Lib.JsString

/-- `LegacyTriggerType`, of the engine's triggers. -/
inductive TriggerType
  | schedule
  | git
  | manual
  /-- a trigger that other parts of the gateway fire -/
  | other
deriving DecidableEq

structure LegacyStaffTrigger where
  id : String
  type : TriggerType
  enabled : Bool
  cron : Option JsString
  repo : Option JsString
  branch : Option JsString
  prompt : Option JsString
  lastFired : Option Nat
  lastSeenSha : Option JsString
deriving DecidableEq

structure PersistedStaff where
  cwd : JsString
  active : Bool
  triggers : List LegacyStaffTrigger

/-- What `ensureFreshRepository` reports. -/
structure RepositorySnapshot where
  stale : Bool
  lastError : Bool
  hasRemote : Option Bool
  fetched : Bool

/-- What one check reads: the clock, once more when it fires, and the repository; a call
    that throws gives nothing. -/
structure Reading where
  now : Nat
  firedAt : Nat
  ensureFreshRepository : JsString → Option RepositorySnapshot
  gitRunner : JsString → JsString → Option JsString

/-- What the engine is set up with: the local date of each minute, and whether there is a
    freshener of repositories. -/
structure EngineConfig where
  localDate : Nat → CronDate
  repositoryFreshener : Bool

/-- The entry that a trigger puts into the inbox. -/
structure InboxEntry where
  title : JsString
  prompt : JsString
  context : Option JsString
  triggerId : String
deriving DecidableEq

/-- A check of the trigger at a place; `sha` is the object id of a successful git check. -/
structure Check where
  index : Nat
  now : Nat
  firedAt : Nat
  sha : Option JsString
  entry : Option InboxEntry
deriving DecidableEq

def Check.fired (c : Check) : Bool := c.entry.isSome

def minuteOf (time : Nat) : Nat := time / 60000

/-! ## Checks -/

def checkScheduleTrigger (config : EngineConfig) (trigger : LegacyStaffTrigger) (now : Nat) :
    Bool :=
  match trigger.cron.filter (· ≠ []) with
  | none => false
  | some cron =>
    if ! cronMatches cron (config.localDate (minuteOf now)) then false
    else
      match trigger.lastFired.filter (· ≠ 0) with
      | none => true
      | some lastFired => minuteOf lastFired ≠ minuteOf now

def comparisonRefCandidates (branch : JsString) (hasRemote : Bool) : List JsString :=
  if ! hasRemote then [branch]
  else if branch = js "HEAD" then [js "@\x7bu\x7d", js "HEAD"]
  else if (js "origin/").isPrefixOf branch || (js "refs/").isPrefixOf branch then [branch]
  else [js "refs/remotes/origin/" ++ branch, branch]

/-- `[0-9a-f]`, without case. -/
def isHexDigit (c : UInt16) : Bool :=
  Lib.isDigit c || (0x61 ≤ c && c ≤ 0x66) || (0x41 ≤ c && c ≤ 0x46)

/-- `/^(?:[0-9a-f]{40}|[0-9a-f]{64})$/i`. -/
def isObjectId (s : JsString) : Bool := (s.length == 40 || s.length == 64) && s.all isHexDigit

/-- `toLowerCase`, of hexadecimal digits. -/
def lowerHex (s : JsString) : JsString :=
  s.map fun c => if 0x41 ≤ c && c ≤ 0x46 then c + 0x20 else c

/-- The object id that a git trigger sees, if its check succeeds. -/
def currentSha (config : EngineConfig) (cwd : JsString) (trigger : LegacyStaffTrigger)
    (r : Reading) : Option JsString :=
  let repo := (trigger.repo.filter (· ≠ [])).getD cwd
  let branch := (trigger.branch.filter (· ≠ [])).getD (js "HEAD")
  let hasRemote :=
    if config.repositoryFreshener then
      match r.ensureFreshRepository repo with
      | none => none
      | some snapshot =>
        if snapshot.stale || snapshot.lastError then none
        else some (snapshot.hasRemote.getD snapshot.fetched)
    else some false
  hasRemote.bind fun hasRemote =>
    (comparisonRefCandidates branch hasRemote).findSome? fun candidate =>
      (r.gitRunner candidate repo).bind fun output =>
        if isObjectId (trim output) then some (lowerHex (trim output)) else none

/-- What a git trigger tells about a change. -/
def gitContext (trigger : LegacyStaffTrigger) (sha : JsString) : JsString :=
  unlines
    [js "Git ref changed.",
      js "Configured ref: " ++ Json.quote ((trigger.branch.filter (· ≠ [])).getD (js "HEAD")),
      js "Commit: " ++ sha]

def TriggerType.text : TriggerType → JsString
  | .schedule => js "schedule"
  | .git => js "git"
  | .manual => js "manual"
  | .other => js "other"

/-- The entry of `fireTrigger`. -/
def fireTrigger (trigger : LegacyStaffTrigger) (extraContext : Option JsString) : InboxEntry where
  title := trigger.type.text ++ js ": " ++
    (trigger.cron <|> trigger.branch).getD (js trigger.id)
  prompt := (trigger.prompt.filter (· ≠ [])).getD (js "Trigger fired: " ++ trigger.type.text) ++
    (extraContext.map (js "\n\n" ++ ·)).getD []
  context := extraContext
  triggerId := trigger.id

/-- The entry and the object id of a check. -/
def checkTrigger (config : EngineConfig) (cwd : JsString) (trigger : LegacyStaffTrigger)
    (r : Reading) : Option InboxEntry × Option JsString :=
  match trigger.type with
  | .schedule =>
    (if checkScheduleTrigger config trigger r.now then some (fireTrigger trigger none) else none,
      none)
  | .git =>
    match currentSha config cwd trigger r with
    | none => (none, none)
    | some sha =>
      if (trigger.lastSeenSha.filter (· ≠ [])).any (· ≠ sha) then
        (some (fireTrigger trigger (gitContext trigger sha)), some sha)
      else (none, some sha)
  | _ => (none, none)

/-- `updateTriggerState`: the first trigger with the id. -/
def updateTriggerState (id : String) (lastFired : Option Nat) (lastSeenSha : Option JsString) :
    List LegacyStaffTrigger → List LegacyStaffTrigger
  | [] => []
  | trigger :: rest =>
    if trigger.id = id then
      { trigger with
        lastFired := lastFired <|> trigger.lastFired
        lastSeenSha := lastSeenSha <|> trigger.lastSeenSha } :: rest
    else trigger :: updateTriggerState id lastFired lastSeenSha rest

/-! ## Ticks -/

/-- The loop over the triggers of a staff, from some places on: it ends with the first one
    that fires. -/
def scanTriggers (config : EngineConfig) (cwd : JsString) (readings : Nat → Reading) :
    List Nat → List LegacyStaffTrigger → List LegacyStaffTrigger × List Check
  | [], triggers => (triggers, [])
  | index :: rest, triggers =>
    match triggers[index]? with
    | none => (triggers, [])
    | some trigger =>
      if ! trigger.enabled then scanTriggers config cwd readings rest triggers
      else
        let r := readings index
        let (entry, sha) := checkTrigger config cwd trigger r
        let triggers := updateTriggerState trigger.id (entry.map fun _ => r.firedAt) sha triggers
        let check : Check := ⟨index, r.now, r.firedAt, sha, entry⟩
        if entry.isSome then (triggers, [check])
        else
          let (triggers, checks) := scanTriggers config cwd readings rest triggers
          (triggers, check :: checks)

/-- A staff with the checks of each tick so far. -/
structure Watched where
  staff : PersistedStaff
  ticks : List (List Check)

def Watched.tick (config : EngineConfig) (readings : Nat → Reading) (w : Watched) : Watched :=
  if ! w.staff.active then { w with ticks := w.ticks ++ [[]] }
  else
    let (triggers, checks) := scanTriggers config w.staff.cwd readings
      (List.range w.staff.triggers.length) w.staff.triggers
    { staff := { w.staff with triggers := triggers }, ticks := w.ticks ++ [checks] }

structure TriggerEngine where
  staff : List Watched
  tickInFlight : Bool

namespace TriggerEngine

inductive Event
  /-- the interval calls `tick`; the readings are those of each staff's checks -/
  | callback (readings : Nat → Nat → Reading)
  /-- the tick in flight ends -/
  | settled

/-- A callback during a tick is skipped. -/
def step (config : EngineConfig) (s : TriggerEngine) : Event → TriggerEngine
  | .callback readings =>
    if s.tickInFlight then s
    else
      { staff := s.staff.zipIdx.map fun entry => entry.1.tick config (readings entry.2)
        tickInFlight := true }
  | .settled => { s with tickInFlight := false }

end TriggerEngine

end Bobbit.Server.StaffTrigger
