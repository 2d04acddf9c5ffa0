import Bobbit.Lib.JsMap
import Bobbit.Lib.Keyed

/-!
# The inbox nudger

Model of `src/server/agent/inbox-nudger.ts`: the wakes of staff agents that idle with pending inbox
entries, and the flag of each staff that keeps a second wake from starting. A wake runs in parts
between its awaits: the context policy, the delivery of its prompt, and the wait for the turn of that
prompt. Sessions, inboxes and the bindings of staff to sessions change around it in any way.

The diagnostics and the write of `lastWakeAt` are left out.
-/

namespace Bobbit.Server.Nudger

open Lib

inductive StaffState where
  | active
  | paused
  | retired
  deriving DecidableEq

inductive ContextPolicy where
  | compact
  | clear
  | preserve
  deriving DecidableEq

structure PersistedStaff where
  id : String
  state : StaffState
  currentSessionId : Option String
  contextPolicy : ContextPolicy

structure SessionInfo where
  status : String
  staffId : Option String
  queueIsEmpty : Bool

/-- An entry of an inbox; a notification that reserves its wake has an input and a trigger. -/
structure InboxEntry where
  id : String
  sourceType : String
  triggerId : Option String
  hasNotificationInput : Bool
  deriving DecidableEq

/-! ## Wakes -/

/-- How far a wake is: its policy runs, its prompt is being delivered, the prompt is accepted and
    waits for its turn, the turn has begun before the delivery returned, or it is over. -/
inductive WakeStage where
  | compacting
  | clearing
  | delivering
  | waiting
  | started
  | over
  deriving DecidableEq

/-- One run of `applyPolicyThenNudge`. -/
structure Wake where
  staffId : String
  sessionId : String
  pending : List InboxEntry
  stage : WakeStage

def notificationEntry (pending : List InboxEntry) : Option InboxEntry :=
  pending.find? (·.sourceType = "notification")

/-- The wake is reserved for one notification. -/
def reserved (pending : List InboxEntry) : Bool :=
  (notificationEntry pending).any fun entry =>
    entry.hasNotificationInput && entry.triggerId.any (· ≠ "")

def digest (pending : List InboxEntry) : String :=
  match notificationEntry pending with
  | some entry => "[INBOX] Process only pending inbox entry " ++ entry.id ++
      ", then use inbox_complete or inbox_dismiss for that entry."
  | none => "[INBOX] You have " ++ toString pending.length ++ " pending " ++
      (if pending.length = 1 then "item" else "items") ++
      ". Use inbox_list to inspect, then process each with inbox_complete or inbox_dismiss."

/-- What the delivery of a prompt comes to. -/
inductive DeliveryResult where
  | dispatched
  | queued
  | threw
  deriving DecidableEq

/-- A delivery that clears the flag: an error, or a reservation that was not dispatched. -/
def releases (pending : List InboxEntry) (result : DeliveryResult) : Bool :=
  result = .threw || reserved pending && result ≠ .dispatched

/-! ## The system -/

structure System where
  staff : List PersistedStaff
  sessions : JsMap String SessionInfo
  inbox : JsMap String (List InboxEntry)
  nudgePending : JsMap String Bool
  wakes : List Wake
  prompts : List (String × String)
  microtasks : List String

namespace System

def getStaff (s : System) (id : String) : Option PersistedStaff :=
  s.staff.find? (·.id = id)

def getSession (s : System) (id : String) : Option SessionInfo := JsMap.get? s.sessions id

def listPending (s : System) (staffId : String) : List InboxEntry :=
  (JsMap.get? s.inbox staffId).getD []

/-- `this.nudgePending.get(staffId)`. -/
def isNudgePending (s : System) (staffId : String) : Bool :=
  JsMap.get? s.nudgePending staffId = some true

def setNudgePending (s : System) (staffId : String) : System :=
  { s with nudgePending := JsMap.set s.nudgePending staffId true }

def clearNudgePending (s : System) (staffId : String) : System :=
  { s with nudgePending := JsMap.erase s.nudgePending staffId }

def setStage (s : System) (i : Nat) (stage : WakeStage) : System :=
  { s with wakes := s.wakes.modify i fun w => { w with stage := stage } }

/-- The part of a wake behind its policy: the digest goes to the session. -/
def deliver (s : System) (i : Nat) (w : Wake) : System :=
  { s.setStage i .delivering with prompts := s.prompts ++ [(w.sessionId, digest w.pending)] }

def fail (s : System) (i : Nat) (w : Wake) : System :=
  (s.setStage i .over).clearNudgePending w.staffId

def firstStage : ContextPolicy → WakeStage
  | .compact => .compacting
  | .clear => .clearing
  | .preserve => .delivering

/-- `applyPolicyThenNudge`, up to its first await. -/
def applyPolicyThenNudge (s : System) (staff : PersistedStaff) (sessionId : String)
    (pending : List InboxEntry) : System :=
  let w : Wake := ⟨staff.id, sessionId, pending, firstStage staff.contextPolicy⟩
  { s.setNudgePending staff.id with
    wakes := s.wakes ++ [w]
    prompts :=
      if staff.contextPolicy = .preserve then s.prompts ++ [(sessionId, digest pending)]
      else s.prompts }

/-- The session of an active staff, when it is idle. -/
def idleSession (s : System) (staff : PersistedStaff) : Option String :=
  if staff.state = .active then
    (staff.currentSessionId.filter (· ≠ "")).filter fun sessionId =>
      (s.getSession sessionId).any (·.status = "idle")
  else none

def tickOne (s : System) (staff : PersistedStaff) : System :=
  match s.idleSession staff with
  | none => s
  | some sessionId =>
    if s.isNudgePending staff.id then s
    else if s.listPending staff.id = [] then s
    else s.applyPolicyThenNudge staff sessionId (s.listPending staff.id)

def tick (s : System) : System := s.staff.foldl tickOne s

/-- The staff that a start in a session counts for. -/
def staffOfSession (s : System) (sessionId : String) : Option String :=
  (s.staff.find? (·.currentSessionId = some sessionId)).map (·.id)

def onAgentStart (s : System) (sessionId : String) : System :=
  match s.staffOfSession sessionId with
  | some staffId => s.clearNudgePending staffId
  | none => s

/-- The hook of the session manager, for a session of some staff. -/
def agentStart (s : System) (sessionId : String) : System :=
  if (s.getSession sessionId).any fun session => session.staffId.any (· ≠ "") then
    s.onAgentStart sessionId
  else s

/-- What `clear` checks behind `clearContext`. -/
def clearAdmitted (s : System) (w : Wake) : Bool :=
  (s.getStaff w.staffId).any (fun staff =>
    staff.state = .active && staff.currentSessionId = some w.sessionId) &&
  (s.getSession w.sessionId).any fun session =>
    session.staffId = some w.staffId && session.status = "idle" && session.queueIsEmpty

/-- The context policy of a wake has returned, or thrown. -/
def policyDone (s : System) (i : Nat) (ok : Bool) : System :=
  match s.wakes[i]? with
  | none => s
  | some w =>
    if w.stage = .compacting then if ok then s.deliver i w else s.fail i w
    else if w.stage = .clearing then
      if ok && s.clearAdmitted w then s.deliver i w else s.fail i w
    else s

/-- The stage behind a delivery: what the session has accepted waits, unless its turn has begun. -/
def stageAfter (stage : WakeStage) (accepted : Bool) : WakeStage :=
  if stage = .delivering ∧ accepted then .waiting else .over

/-- The delivery of a prompt has come to a result. Whether the session has accepted the prompt is its
    own matter. -/
def delivered (s : System) (i : Nat) (accepted : Bool) (result : DeliveryResult) : System :=
  match s.wakes[i]? with
  | none => s
  | some w =>
    if w.stage = .delivering ∨ w.stage = .started then
      let s' := s.setStage i (stageAfter w.stage accepted)
      if releases w.pending result then s'.clearNudgePending w.staffId else s'
    else s

/-- The turn of a wake begins, at the latest when its prompt has been accepted. -/
def wakeStart (s : System) (i : Nat) : System :=
  match s.wakes[i]? with
  | none => s
  | some w =>
    if w.stage = .delivering then (s.setStage i .started).agentStart w.sessionId
    else if w.stage = .waiting then (s.setStage i .over).agentStart w.sessionId
    else s

end System

inductive Event where
  | tick
  | poke (staffId : String)
  | microtask
  | enqueue (staffId : String) (entry : InboxEntry)
  | settle (staffId entryId : String)
  | putStaff (staff : PersistedStaff)
  | setSession (id : String) (session : Option SessionInfo)
  | policyDone (i : Nat) (ok : Bool)
  | delivered (i : Nat) (accepted : Bool) (result : DeliveryResult)
  | agentStart (sessionId : String)
  | wakeStart (i : Nat)

namespace System

def runMicrotask (s : System) : System :=
  match s.microtasks with
  | [] => s
  | staffId :: rest =>
    match s.getStaff staffId with
    | some staff => { s with microtasks := rest }.tickOne staff
    | none => { s with microtasks := rest }

def poke (s : System) (staffId : String) : System :=
  { s with microtasks := s.microtasks ++ [staffId] }

def step (s : System) : Event → System
  | .tick => s.tick
  | .poke staffId => s.poke staffId
  | .microtask => s.runMicrotask
  | .enqueue staffId entry =>
    { s with inbox := JsMap.set s.inbox staffId (s.listPending staffId ++ [entry]) }.poke staffId
  | .settle staffId entryId =>
    { s with inbox := JsMap.set s.inbox staffId ((s.listPending staffId).filter (·.id ≠ entryId)) }
  | .putStaff staff => { s with staff := Keyed.put PersistedStaff.id s.staff staff }
  | .setSession id session =>
    { s with
      sessions :=
        match session with
        | some session => JsMap.set s.sessions id session
        | none => JsMap.erase s.sessions id }
  | .policyDone i ok => s.policyDone i ok
  | .delivered i accepted result => s.delivered i accepted result
  | .agentStart sessionId => s.agentStart sessionId
  | .wakeStart i => s.wakeStart i

/-- No staff, no sessions, no wakes. -/
def start : System where
  staff := []
  sessions := []
  inbox := []
  nudgePending := []
  wakes := []
  prompts := []
  microtasks := []

end System

end Bobbit.Server.Nudger
