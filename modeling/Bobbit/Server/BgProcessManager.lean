import Bobbit.Lib.JsMap

/-!
# Background processes

Model of the life of a process in `src/server/agent/bg-process-manager.ts`: `create`, `kill`,
`dismiss`, `cleanup`, the status watcher, the resolution of a container pid and the restore of a
session, with the rows that `src/server/agent/bg-process-store.ts` keeps in memory. What a step
reads from outside (the clock, the status and pid files, whether a pid is alive) comes with its
event as a `Probe`. Output is left to `BgProcessOutput`.

A process keeps its `nonce` for life; instances of it are places in `heap`. Beside the fields of
the source the state keeps the signals that were sent, the processes whose exit was broadcast or
that were dismissed, and the ids that `create` took from a row.
-/

namespace Bobbit.Server

open Lib

/-- `TerminalReason`, of a process that is not running. -/
inductive TerminalReason
  | normal
  | killed
  | unrecoverable
  | spawnFailed
  deriving DecidableEq

inductive BgStatus
  | running
  | exited
  | unrecoverable
  deriving DecidableEq

/-- The signals of `kill`. -/
inductive BgSignal
  | term
  | kill
  deriving DecidableEq

/-- What `readStatus` finds. -/
inductive StatusFile
  | missing
  /-- not yet a number -/
  | partialWrite
  | code (exitCode : Int)
  deriving DecidableEq

/-- What a step reads from outside; the pid file has a pid and a nonce. -/
structure Probe where
  now : Nat
  status : StatusFile
  alive : Bool
  pidFile : Option (Nat × Nat)

/-- A `PersistedBgProcess`; `bg-3` has `id` 3, and pid 0 is pending. -/
structure PersistedBgProcess where
  sessionId : String
  id : Nat
  nonce : Nat
  inContainer : Bool
  processPid : Nat
  status : BgStatus
  exitCode : Option Int
  terminalReason : Option TerminalReason
  killRequested : Bool
  dockerExitWithoutStatusAt : Option Nat

/-- A `BgProcess`: an instance in memory. -/
structure BgProcess where
  sessionId : String
  id : Nat
  nonce : Nat
  inContainer : Bool
  processPid : Nat
  /-- `child`, with its handlers -/
  child : Bool
  status : BgStatus
  exitCode : Option Int
  terminalReason : Option TerminalReason
  killRequested : Bool
  killIntent : Option Nat
  dockerExitWithoutStatusAt : Option Nat
  /-- `_tailers` -/
  tailers : Bool
  /-- `_statusTimer` -/
  statusTimer : Bool
  /-- the handle in `_killEscalate` -/
  killEscalate : Option Nat
  /-- the attempt that `_pidResolveTimer` is to make -/
  pidResolveTimer : Option Nat

/-- A call of `restoreSession`: the rows to come, and the instance whose pid file it awaits with
    the number of the retry. -/
structure RestoreCall where
  sessionId : String
  pending : List Nat
  waiting : Option (Nat × Nat)

/-- A `BgProcessManager` with the store of its project. -/
structure BgProcessManager where
  nextId : Nat
  processes : JsMap String (JsMap Nat Nat)
  heap : List BgProcess
  store : JsMap (String × Nat) Nat
  rows : List PersistedBgProcess
  restores : List RestoreCall
  /-- the armed escalation timers: a handle and its instance -/
  armed : List (Nat × Nat)
  /-- the next handle -/
  handles : Nat
  /-- the next nonce -/
  nonces : Nat
  signals : List (Nat × BgSignal)
  exits : List Nat
  dismissed : List Nat
  taken : List (String × Nat)

namespace BgProcessManager

def killGraceMs : Nat := 1500

def dockerExitStatusGraceMs : Nat := 1500

def restorePidfileRetries : Nat := 5

def pidResolveAttempts : Nat := 50

/-- A manager over rows that a store has loaded. -/
def loaded (rows : List PersistedBgProcess) : BgProcessManager where
  nextId := 1
  processes := []
  heap := []
  store := rows.zipIdx.foldl (fun store row => JsMap.set store (row.1.sessionId, row.1.id) row.2) []
  rows := rows
  restores := []
  armed := []
  handles := 0
  nonces := rows.foldl (fun n row => max n (row.nonce + 1)) 0
  signals := []
  exits := []
  dismissed := []
  taken := []

/-! ## Parts -/

/-- `this.processes.get(sessionId)?.get(id)`. -/
def lookup (s : BgProcessManager) (sessionId : String) (id : Nat) : Option Nat :=
  (JsMap.get? s.processes sessionId).bind (JsMap.get? · id)

def onBg (s : BgProcessManager) (i : Nat) (f : BgProcess → BgProcess) : BgProcessManager :=
  { s with heap := s.heap.modify i f }

def update (s : BgProcessManager) (sessionId : String) (id : Nat)
    (f : PersistedBgProcess → PersistedBgProcess) : BgProcessManager :=
  match JsMap.get? s.store (sessionId, id) with
  | none => s
  | some row => { s with rows := s.rows.modify row f }

def remove (s : BgProcessManager) (sessionId : String) (id : Nat) : BgProcessManager :=
  { s with store := JsMap.erase s.store (sessionId, id) }

/-- `clearTimeout` of a handle, if there is one. -/
def clearEscalation (s : BgProcessManager) (handle : Option Nat) : BgProcessManager :=
  match handle with
  | none => s
  | some h => { s with armed := s.armed.filter (·.1 ≠ h) }

def stopTimers (s : BgProcessManager) (i : Nat) : BgProcessManager :=
  match s.heap[i]? with
  | none => s
  | some bg =>
    (s.clearEscalation bg.killEscalate).onBg i fun bg =>
      { bg with
        tailers := false
        statusTimer := false
        killEscalate := none
        pidResolveTimer := none }

/-- The status that a terminal reason gives. -/
def statusOf : TerminalReason → BgStatus
  | .unrecoverable => .unrecoverable
  | _ => .exited

/-- `terminalize`: the first terminal transition of an instance wins. -/
def terminalize (s : BgProcessManager) (i : Nat) (exitCode : Option Int)
    (reason : TerminalReason) : BgProcessManager :=
  match s.heap[i]? with
  | none => s
  | some bg =>
    if bg.status = .running then
      let s := (s.onBg i fun bg => { bg with
        status := statusOf reason
        exitCode := exitCode
        terminalReason := some reason
        dockerExitWithoutStatusAt := none }).stopTimers i
      let s := s.update bg.sessionId bg.id fun row => { row with
        status := statusOf reason
        exitCode := exitCode
        terminalReason := some reason
        dockerExitWithoutStatusAt := none }
      { s with exits := s.exits ++ [bg.nonce] }
    else s

/-- Whether the pid of an instance is alive; pid 0 is not. -/
def isAlive (bg : BgProcess) (probe : Probe) : Bool := decide (0 < bg.processPid) && probe.alive

/-- `checkStatus`, and whether a durable status was seen. -/
def checkStatus (s : BgProcessManager) (i : Nat) (probe : Probe) : BgProcessManager × Bool :=
  match s.heap[i]? with
  | none => (s, true)
  | some bg =>
    if bg.status ≠ .running then (s, true)
    else
      match probe.status with
      | .code exitCode => (s.terminalize i (some exitCode) .normal, true)
      | .partialWrite => (s, true)
      | .missing =>
        if bg.killRequested = false ∧ bg.killIntent = none ∧
            bg.dockerExitWithoutStatusAt.any (· + dockerExitStatusGraceMs ≤ probe.now) then
          (s.terminalize i none .spawnFailed, false)
        else if isAlive bg probe = false ∧ bg.killIntent.any (· + killGraceMs < probe.now) then
          (s.terminalize i none .killed, false)
        else (s, false)

/-! ## Kill and dismiss -/

/-- The signal of `kill` and its escalation timer. -/
def signalTerm (s : BgProcessManager) (i : Nat) : BgProcessManager :=
  { s with
    signals := s.signals ++ [(i, .term)]
    armed := s.armed ++ [(s.handles, i)]
    handles := s.handles + 1
    heap := s.heap.modify i fun bg => { bg with killEscalate := some s.handles } }

/-- The kill intent, recorded in the row when it is new. -/
def requestKill (s : BgProcessManager) (i : Nat) (bg : BgProcess) (now : Nat) : BgProcessManager :=
  let s := s.onBg i fun bg => { bg with killIntent := some now, killRequested := true }
  if bg.killRequested then s
  else s.update bg.sessionId bg.id fun row => { row with killRequested := true }

/-- `kill`; the signal goes to the process group, on the host or in the container. -/
def kill (s : BgProcessManager) (sessionId : String) (id : Nat) (probe : Probe) :
    BgProcessManager :=
  match s.lookup sessionId id with
  | none => s
  | some i =>
    match s.heap[i]? with
    | none => s
    | some bg =>
      if bg.status ≠ .running then s
      else
        let s := s.requestKill i bg probe.now
        let s := if 0 < bg.processPid then s.signalTerm i else s
        (s.checkStatus i probe).1

/-- The escalation timer of a handle fires. -/
def escalate (s : BgProcessManager) (handle : Nat) : BgProcessManager :=
  match s.armed.find? (·.1 = handle) with
  | none => s
  | some timer =>
    let s := { s with armed := s.armed.filter (·.1 ≠ handle) }
    match s.heap[timer.2]? with
    | none => s
    | some bg =>
      if bg.status = .running then { s with signals := s.signals ++ [(timer.2, .kill)] } else s

/-- `this.processes.get(sessionId)!.delete(id)`, with the map of the session when it gets empty. -/
def deleteProcess (s : BgProcessManager) (sessionId : String) (id : Nat) : BgProcessManager :=
  match JsMap.get? s.processes sessionId with
  | none => s
  | some map =>
    { s with
      processes :=
        if (JsMap.erase map id).isEmpty then JsMap.erase s.processes sessionId
        else JsMap.set s.processes sessionId (JsMap.erase map id) }

def dismiss (s : BgProcessManager) (sessionId : String) (id : Nat) (force : Bool)
    (probe : Probe) : BgProcessManager :=
  match s.lookup sessionId id with
  | none =>
    -- perhaps only persisted
    match JsMap.get? s.store (sessionId, id) with
    | none => s
    | some row =>
      { s.remove sessionId id with
        dismissed := s.dismissed ++ ((s.rows[row]?).map PersistedBgProcess.nonce).toList }
  | some i =>
    match s.heap[i]? with
    | none => s
    | some bg =>
      if bg.status = .running ∧ force = false then s
      else
        let s := if bg.status = .running then s.kill sessionId id probe else s
        let s := ((s.stopTimers i).deleteProcess sessionId id).remove sessionId id
        { s with dismissed := s.dismissed ++ [bg.nonce] }

/-- One process of `cleanup`. -/
def cleanupOne (sessionId : String) (probe : Nat → Probe) (s : BgProcessManager)
    (entry : Nat × Nat) : BgProcessManager :=
  match s.heap[entry.2]? with
  | none => s
  | some bg =>
    let s := if bg.status = .running then s.kill sessionId entry.1 (probe entry.1) else s
    { s.stopTimers entry.2 with dismissed := s.dismissed ++ [bg.nonce] }

/-- `cleanup`; `probe` answers for each process of the session. -/
def cleanup (s : BgProcessManager) (sessionId : String) (probe : Nat → Probe) :
    BgProcessManager :=
  let s :=
    match JsMap.get? s.processes sessionId with
    | none => s
    | some map =>
      let s := map.foldl (cleanupOne sessionId probe) s
      { s with processes := JsMap.erase s.processes sessionId }
  { s with store := s.store.filter fun entry => entry.1.1 ≠ sessionId }

/-! ## Create -/

/-- The pid of a pid file with the right nonce. -/
def pidOf (probe : Probe) (nonce : Nat) : Option Nat :=
  match probe.pidFile with
  | none => none
  | some (pid, nonce') => if nonce' = nonce ∧ 0 < pid then some pid else none

/-- `resolveDockerProcessPid`. -/
def resolvePid (s : BgProcessManager) (i : Nat) (attempt : Nat) (probe : Probe) :
    BgProcessManager :=
  match s.heap[i]? with
  | none => s
  | some bg =>
    if bg.status ≠ .running ∨ bg.inContainer = false then s
    else
      match pidOf probe bg.nonce with
      | some pid =>
        (s.onBg i fun bg => { bg with processPid := pid }).update bg.sessionId bg.id
          fun row => { row with processPid := pid }
      | none =>
        if pidResolveAttempts ≤ attempt then s
        else s.onBg i fun bg => { bg with pidResolveTimer := some (attempt + 1) }

/-- The pid resolution timer of an instance fires. -/
def pidTimerFired (s : BgProcessManager) (i : Nat) (probe : Probe) : BgProcessManager :=
  match s.heap[i]? with
  | none => s
  | some bg =>
    match bg.pidResolveTimer with
    | none => s
    | some attempt =>
      (s.onBg i fun bg => { bg with pidResolveTimer := none }).resolvePid i attempt probe

/-- The instance that `create` makes; `hostPid` is `child.pid ?? 0`. -/
def newProcess (s : BgProcessManager) (sessionId : String) (inContainer : Bool) (hostPid : Nat)
    (probe : Probe) : BgProcess where
  sessionId := sessionId
  id := s.nextId
  nonce := s.nonces
  inContainer := inContainer
  processPid := if inContainer then (pidOf probe s.nonces).getD 0 else hostPid
  child := true
  status := .running
  exitCode := none
  terminalReason := none
  killRequested := false
  killIntent := none
  dockerExitWithoutStatusAt := none
  tailers := true
  statusTimer := true
  killEscalate := none
  pidResolveTimer := none

def toPersisted (bg : BgProcess) : PersistedBgProcess where
  sessionId := bg.sessionId
  id := bg.id
  nonce := bg.nonce
  inContainer := bg.inContainer
  processPid := bg.processPid
  status := bg.status
  exitCode := bg.exitCode
  terminalReason := bg.terminalReason
  killRequested := bg.killRequested
  dockerExitWithoutStatusAt := bg.dockerExitWithoutStatusAt

/-- An instance in the map of its session. -/
def setProcess (s : BgProcessManager) (sessionId : String) (id i : Nat) : BgProcessManager :=
  { s with
    processes := JsMap.set s.processes sessionId
      (JsMap.set ((JsMap.get? s.processes sessionId).getD []) id i) }

theorem lookup_setProcess (s : BgProcessManager) (sessionId : String) (id i : Nat)
    (sessionId' : String) (id' : Nat) :
    (s.setProcess sessionId id i).lookup sessionId' id' =
      if sessionId' = sessionId ∧ id' = id then some i else s.lookup sessionId' id' := by
  unfold lookup setProcess
  rw [JsMap.get?_set]
  by_cases hsession : sessionId' = sessionId
  · subst hsession
    rw [if_pos rfl, Option.bind_some, JsMap.get?_set]
    by_cases hid : id' = id
    · rw [if_pos hid, if_pos ⟨rfl, hid⟩]
    · rw [if_neg hid, if_neg fun h => hid h.2]
      cases JsMap.get? s.processes sessionId' <;> rfl
  · rw [if_neg hsession, if_neg fun h => hsession h.1]

/-- `create`, from the spawn on. -/
def create (s : BgProcessManager) (sessionId : String) (inContainer : Bool) (hostPid : Nat)
    (probe : Probe) : BgProcessManager :=
  let bg := s.newProcess sessionId inContainer hostPid probe
  let i := s.heap.length
  let s := { s.setProcess sessionId bg.id i with
    nextId := s.nextId + 1
    nonces := s.nonces + 1
    heap := s.heap ++ [bg]
    rows := s.rows ++ [toPersisted bg]
    store := JsMap.set s.store (sessionId, bg.id) s.rows.length
    taken :=
      if (JsMap.get? s.store (sessionId, bg.id)).isSome then s.taken ++ [(sessionId, bg.id)]
      else s.taken }
  if inContainer = true ∧ bg.processPid = 0 then s.resolvePid i 0 probe else s

/-- The child of an instance emits `error`. -/
def childError (s : BgProcessManager) (i : Nat) : BgProcessManager :=
  if (s.heap[i]?).any BgProcess.child then s.terminalize i none .spawnFailed else s

/-- The child of an instance emits `exit`; `failed` for a code that is a number other than 0. -/
def childExit (s : BgProcessManager) (i : Nat) (failed : Bool) (probe : Probe) :
    BgProcessManager :=
  if (s.heap[i]?).any BgProcess.child then
    let checked := s.checkStatus i probe
    match checked.1.heap[i]? with
    | none => checked.1
    | some bg =>
      if bg.inContainer = true ∧ bg.status = .running ∧ checked.2 = false ∧
          bg.killRequested = false ∧ failed = true ∧ bg.dockerExitWithoutStatusAt = none then
        (checked.1.onBg i fun bg => { bg with
          dockerExitWithoutStatusAt := some probe.now }).update bg.sessionId bg.id
          fun row => { row with dockerExitWithoutStatusAt := some probe.now }
      else checked.1
  else s

/-! ## Restore -/

def rehydrate (row : PersistedBgProcess) : BgProcess where
  sessionId := row.sessionId
  id := row.id
  nonce := row.nonce
  inContainer := row.inContainer
  processPid := row.processPid
  child := false
  status := row.status
  exitCode := row.exitCode
  terminalReason := row.terminalReason
  killRequested := row.killRequested
  killIntent := none
  dockerExitWithoutStatusAt := row.dockerExitWithoutStatusAt
  tailers := false
  statusTimer := false
  killEscalate := none
  pidResolveTimer := none

/-- `restoreSession` up to its loop. -/
def restoreSession (s : BgProcessManager) (sessionId : String) : BgProcessManager :=
  let records := (s.store.filter fun entry => entry.1.1 = sessionId).map Prod.snd
  if records.isEmpty then s
  else
    { s with
      processes :=
        if (JsMap.get? s.processes sessionId).isSome then s.processes
        else JsMap.set s.processes sessionId []
      nextId := (records.filterMap fun row => (s.rows[row]?).map PersistedBgProcess.id).foldl
        (fun next id => if next ≤ id then id + 1 else next) s.nextId
      restores := s.restores ++ [{ sessionId := sessionId, pending := records, waiting := none }] }

/-- `startTailers` and `startStatusWatcher`. -/
def attach (s : BgProcessManager) (i : Nat) : BgProcessManager :=
  s.onBg i fun bg => { bg with tailers := true, statusTimer := true }

def markLostOrKilled (s : BgProcessManager) (i : Nat) : BgProcessManager :=
  match s.heap[i]? with
  | none => s
  | some bg => s.terminalize i none (if bg.killRequested then .killed else .unrecoverable)

/-- `restoreOne` once its pid file is read: `again` answers the check of a repeated kill. -/
def reattach (s : BgProcessManager) (i : Nat) (pidFile : Option (Nat × Nat)) (again : Probe) :
    BgProcessManager :=
  match s.heap[i]? with
  | none => s
  | some bg =>
    if (pidFile.map Prod.snd).any (· ≠ bg.nonce) then s.markLostOrKilled i
    else
      let s := s.attach i
      if bg.killRequested then s.kill bg.sessionId bg.id again else s

/-- The pid file's pid is adopted when it is another and the process may be signalled by it. -/
def adoptPid (s : BgProcessManager) (i : Nat) (bg : BgProcess) (probe : Probe) :
    BgProcessManager :=
  match pidOf probe bg.nonce with
  | none => s
  | some pid =>
    if (bg.inContainer = true ∧ bg.processPid = 0) ∨
        (bg.inContainer = false ∧ pid ≠ bg.processPid) then
      (s.onBg i fun bg => { bg with processPid := pid }).update bg.sessionId bg.id
        fun row => { row with processPid := pid }
    else s

/-- What a call of `restoreSession` does next. -/
def setRestore (s : BgProcessManager) (r : Nat) (pending : List Nat)
    (waiting : Option (Nat × Nat)) : BgProcessManager :=
  { s with
    restores := s.restores.modify r fun call =>
      { call with pending := pending, waiting := waiting } }

/-- `restoreOne` of an instance that is in the map, with a row that says it runs; `again` answers
    the second read of the pid file. -/
def reconcile (s : BgProcessManager) (r i : Nat) (pending : List Nat) (bg : BgProcess)
    (probe again : Probe) : BgProcessManager :=
  match probe.status with
  | .code exitCode => s.terminalize i (some exitCode) .normal
  | _ =>
    if bg.dockerExitWithoutStatusAt.isSome = true ∧ bg.killRequested = false then
      if bg.dockerExitWithoutStatusAt.any (· + dockerExitStatusGraceMs ≤ probe.now) then
        s.terminalize i none .spawnFailed
      else s.attach i
    else
      let s := s.adoptPid i bg probe
      if (s.heap[i]?).any (isAlive · probe) then
        match again.pidFile with
        | none => s.setRestore r pending (some (i, 0))
        | some pidFile => s.reattach i (some pidFile) again
      else s.markLostOrKilled i

/-- The next round of the loop of `restoreSession`: `restoreOne` up to its first await. -/
def restoreNext (s : BgProcessManager) (r : Nat) (probe again : Probe) : BgProcessManager :=
  match s.restores[r]? with
  | none => s
  | some call =>
    match call.waiting, call.pending with
    | none, row :: pending =>
      let s := s.setRestore r pending none
      match s.rows[row]? with
      | none => s
      | some rec =>
        let existing := ((s.lookup call.sessionId rec.id).bind (s.heap[·]?)).any fun bg =>
          bg.status = .running && bg.tailers && bg.statusTimer
        if existing then s
        else
          let i := s.heap.length
          let s := { s with heap := s.heap ++ [rehydrate rec] }
          -- without a map of the session the set throws, and the loop goes on
          if (JsMap.get? s.processes call.sessionId).isSome then
            let s := s.setProcess call.sessionId rec.id i
            if rec.status = .running then s.reconcile r i pending (rehydrate rec) probe again
            else s
          else s
    | _, _ => s

/-- A retry of `restoreOne` for its pid file. -/
def restoreResume (s : BgProcessManager) (r : Nat) (probe again : Probe) : BgProcessManager :=
  match s.restores[r]? with
  | none => s
  | some call =>
    match call.waiting with
    | none => s
    | some (i, retry) =>
      if probe.pidFile = none ∧ retry + 1 < restorePidfileRetries then
        s.setRestore r call.pending (some (i, retry + 1))
      else (s.setRestore r call.pending none).reattach i probe.pidFile again

/-! ## Steps -/

inductive Event
  | create (sessionId : String) (inContainer : Bool) (hostPid : Nat) (probe : Probe)
  | childError (i : Nat)
  | childExit (i : Nat) (failed : Bool) (probe : Probe)
  /-- a tailer calls `onChunk` -/
  | chunk (i : Nat)
  /-- the status watcher of an instance -/
  | poll (i : Nat) (probe : Probe)
  | pidTimer (i : Nat) (probe : Probe)
  | escalation (handle : Nat)
  | kill (sessionId : String) (id : Nat) (probe : Probe)
  | dismiss (sessionId : String) (id : Nat) (force : Bool) (probe : Probe)
  | cleanup (sessionId : String) (probe : Nat → Probe)
  | restoreSession (sessionId : String)
  | restoreNext (r : Nat) (probe again : Probe)
  | restoreResume (r : Nat) (probe again : Probe)

/-- The status watcher fires when it is there. -/
def polled (s : BgProcessManager) (i : Nat) (probe : Probe) : BgProcessManager :=
  match s.heap[i]? with
  | none => s
  | some bg => if bg.statusTimer then (s.checkStatus i probe).1 else s

def step (s : BgProcessManager) : Event → BgProcessManager
  | .create sessionId inContainer hostPid probe => s.create sessionId inContainer hostPid probe
  | .childError i => s.childError i
  | .childExit i failed probe => s.childExit i failed probe
  -- output and offsets only
  | .chunk _ => s
  | .poll i probe => s.polled i probe
  | .pidTimer i probe => s.pidTimerFired i probe
  | .escalation handle => s.escalate handle
  | .kill sessionId id probe => s.kill sessionId id probe
  | .dismiss sessionId id force probe => s.dismiss sessionId id force probe
  | .cleanup sessionId probe => s.cleanup sessionId probe
  | .restoreSession sessionId => s.restoreSession sessionId
  | .restoreNext r probe again => s.restoreNext r probe again
  | .restoreResume r probe again => s.restoreResume r probe again

end BgProcessManager

end Bobbit.Server
