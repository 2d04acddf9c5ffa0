import Bobbit.Lib.JsMap
import Bobbit.Lib.Keyed

/-!
# The orchestration core

Model of `src/server/agent/orchestration-core.ts`: which agent owns which child agent. The core keeps
an index of children by owner and a memory of dismissed children, and reads the persisted rows and
the sessions of the session manager. The calls of the core and everything around them (sessions that
start and end, rows that are written, a restart of the gateway) are the events of one system. A call
that awaits the session manager is an event for the part before it and one for the part behind it.

The tools and the model of a child, the delivery of a prompt and the statuses that `wait` reports are
left out.
-/

namespace Bobbit.Server.Orchestration

open Lib

abbrev ChildKind := String

/-! ## What the core reads -/

structure PersistedSessionLike where
  id : String
  title : Option String
  delegateOf : Option String
  instructions : Option String
  parentSessionId : Option String
  childKind : Option ChildKind
  archived : Bool
  teamLeadSessionId : Option String

structure OrchestrationSessionLike where
  status : String
  title : Option String
  dormant : Bool

/-- The persisted rows and the sessions of the session manager. -/
structure OrchestrationSessionView where
  rows : List PersistedSessionLike
  sessions : JsMap String OrchestrationSessionLike

/-- A text that counts as true: there and not empty. -/
def truthy (text : Option String) : Bool := text.any (· ≠ "")

namespace OrchestrationSessionView

def getSession (view : OrchestrationSessionView) (id : String) : Option OrchestrationSessionLike :=
  JsMap.get? view.sessions id

def getPersistedSession (view : OrchestrationSessionView) (id : String) :
    Option PersistedSessionLike := view.rows.find? (·.id = id)

def isSessionLive (view : OrchestrationSessionView) (id : String) : Bool :=
  (view.getSession id).any (!·.dormant)

end OrchestrationSessionView

structure OrchestrationCoreError where
  message : String
  code : String

/-! ## The index -/

structure ChildHandle where
  sessionId : String
  ownerSessionId : String
  childKind : ChildKind
  spawnedAt : Nat
  title : Option String
  blocking : Bool

structure ChildIndex where
  entries : JsMap String (List ChildHandle)
  nodup : (JsMap.keys entries).Nodup

namespace ChildIndex

def empty : ChildIndex := ⟨[], List.nodup_nil⟩

def list (index : ChildIndex) (ownerId : String) : List ChildHandle :=
  (JsMap.get? index.entries ownerId).getD []

/-- `list.find(h => h.sessionId === childId)`. -/
def findChild (index : ChildIndex) (ownerId childId : String) : Option ChildHandle :=
  (index.list ownerId).find? (·.sessionId = childId)

/-- A handle has all its fields, so the old one is overwritten. -/
def putHandle (list : List ChildHandle) (handle : ChildHandle) : List ChildHandle :=
  match list.findIdx? (·.sessionId = handle.sessionId) with
  | none => list ++ [handle]
  | some i => list.set i handle

def addHandle (index : ChildIndex) (handle : ChildHandle) : ChildIndex :=
  ⟨JsMap.set index.entries handle.ownerSessionId
      (putHandle (index.list handle.ownerSessionId) handle),
    JsMap.nodup_set index.nodup _ _⟩

/-- The entry of one owner in the loop of `forgetChild`. -/
def forgetEntry (sessionId : String) (entry : String × List ChildHandle) :
    Option (String × List ChildHandle) :=
  let next := entry.2.filter (·.sessionId ≠ sessionId)
  if next.length ≠ entry.2.length ∧ next = [] then none else some (entry.1, next)

theorem nodup_forgetEntry {entries : JsMap String (List ChildHandle)}
    (h : (JsMap.keys entries).Nodup) (sessionId : String) :
    (JsMap.keys (entries.filterMap (forgetEntry sessionId))).Nodup := by
  have hkeys : (JsMap.keys (entries.filterMap (forgetEntry sessionId))).Sublist
      (JsMap.keys entries) := by
    induction entries with
    | nil => exact List.Sublist.refl _
    | cons entry rest ih =>
      have hrest := ih (List.nodup_cons.mp h).2
      rw [List.filterMap_cons]
      unfold forgetEntry
      dsimp only
      split
      · exact hrest.cons _
      · rename_i kept hkept
        split at hkept
        · cases hkept
        · rw [Option.some.injEq] at hkept
          subst hkept
          exact hrest.cons_cons _
  exact h.sublist hkeys

def forgetChild (index : ChildIndex) (sessionId : String) : ChildIndex :=
  ⟨index.entries.filterMap (forgetEntry sessionId), nodup_forgetEntry index.nodup sessionId⟩

def forgetOwner (index : ChildIndex) (ownerId : String) : ChildIndex :=
  ⟨JsMap.erase index.entries ownerId, JsMap.nodup_erase index.nodup ownerId⟩

end ChildIndex

structure TrustedChild where
  ownerSessionId : String
  childKind : ChildKind

def trustedRestorableChild (ps : PersistedSessionLike) : Option TrustedChild :=
  if ps.archived then none
  else if truthy ps.delegateOf then
    if ps.instructions.isNone then none
    else some ⟨ps.delegateOf.getD "", ps.childKind.getD "delegate"⟩
  else if truthy ps.parentSessionId ∧ truthy ps.childKind then
    some ⟨ps.parentSessionId.getD "", ps.childKind.getD ""⟩
  else none

/-- The handle of a row, if it is that of a child. -/
def restoredHandle (now : Nat) (ps : PersistedSessionLike) : Option ChildHandle :=
  (trustedRestorableChild ps).map fun restored =>
    { sessionId := ps.id, ownerSessionId := restored.ownerSessionId
      childKind := restored.childKind, spawnedAt := now, title := ps.title, blocking := false }

def rebuildIndexFromPersisted (persisted : List PersistedSessionLike) (now : Nat) : ChildIndex :=
  (persisted.filterMap (restoredHandle now)).foldl ChildIndex.addHandle ChildIndex.empty

/-! ## The core -/

structure DismissedChild where
  ownerSessionId : String
  childKind : Option ChildKind

structure OrchestrationCore where
  index : ChildIndex
  dismissedChildren : JsMap String DismissedChild

/-- A row of a child: it has `delegateOf` or a `childKind`. -/
def isChildRow (ps : PersistedSessionLike) : Bool := truthy ps.delegateOf || truthy ps.childKind

def assertCanSpawn (view : OrchestrationSessionView) (ownerId : String) :
    Except OrchestrationCoreError Unit :=
  if (view.getPersistedSession ownerId).any isChildRow then
    .error ⟨"Spawning child agents is not permitted from a child session (no grandchildren).",
      "NO_GRANDCHILDREN"⟩
  else .ok ()

def notOwnedMessage (ownerId childId : String) : String :=
  "Child session " ++ childId ++ " is not owned by " ++ ownerId ++ "."

def requireOwnChild (core : OrchestrationCore) (ownerId childId : String) :
    Except OrchestrationCoreError ChildHandle :=
  match core.index.findChild ownerId childId with
  | some handle => .ok handle
  | none => .error ⟨notOwnedMessage ownerId childId, "NOT_OWN_CHILD"⟩

/-! ### Calls of the session manager -/

inductive OrchestrationVerb where
  | kickoff
  | prompt
  | steer
  | abort
  | read
  | terminate
  deriving DecidableEq

/-- A call of the session manager, about a session and on behalf of a caller. -/
structure SessionCall where
  verb : OrchestrationVerb
  callerId : String
  sessionId : String

/-- `prompt`, `abort` and `read`. -/
def ownChildCall (verb : OrchestrationVerb) (core : OrchestrationCore) (ownerId childId : String) :
    Except OrchestrationCoreError SessionCall := do
  let _ ← requireOwnChild core ownerId childId
  .ok ⟨verb, ownerId, childId⟩

def prompt : OrchestrationCore → String → String → Except OrchestrationCoreError SessionCall :=
  ownChildCall .prompt

def abort : OrchestrationCore → String → String → Except OrchestrationCoreError SessionCall :=
  ownChildCall .abort

def read : OrchestrationCore → String → String → Except OrchestrationCoreError SessionCall :=
  ownChildCall .read

def steer (core : OrchestrationCore) (view : OrchestrationSessionView) (ownerId childId : String) :
    Except OrchestrationCoreError SessionCall := do
  let _ ← requireOwnChild core ownerId childId
  if (view.getSession childId).any (·.status = "streaming") then .ok ⟨.steer, ownerId, childId⟩
  else .error ⟨"Agent is not currently streaming — use prompt instead.", "NOT_STREAMING"⟩

/-- The sessions whose output `wait` may read. -/
def wait (core : OrchestrationCore) (ownerId : String) (childIds : List String) :
    Except OrchestrationCoreError (List SessionCall) :=
  childIds.mapM (read core ownerId)

/-! ### `dismiss` -/

inductive DismissStatus where
  | dismissed
  | alreadyDismissed
  | notOwned
  | notFound
  | failed
  deriving DecidableEq

structure DismissResult where
  ok : Bool
  status : DismissStatus
  sessionId : String
  message : String
  retryable : Bool

/-- A dismissal that waits for `terminateSession`. -/
structure PendingDismiss where
  ownerId : String
  childId : String
  childKind : Option ChildKind

/-- What becomes of `terminateSession`: `true`, `false` or an error. -/
inductive TerminateOutcome where
  | ended
  | absent
  | failed (message : String)

def persistedOwned (ownerId : String) (ps : PersistedSessionLike) : Bool :=
  ps.delegateOf = some ownerId || ps.parentSessionId = some ownerId ||
    ps.teamLeadSessionId = some ownerId

def persistedChildKind (ownerId : String) (persisted : Option PersistedSessionLike) :
    Option ChildKind :=
  persisted.bind fun ps =>
    if truthy ps.childKind then ps.childKind
    else if persistedOwned ownerId ps then some "delegate"
    else none

def alreadyDismissed (childId : String) : DismissResult :=
  ⟨true, .alreadyDismissed, childId, "Child session " ++ childId ++ " is already dismissed.", false⟩

def notOwned (ownerId childId : String) : DismissResult :=
  ⟨false, .notOwned, childId, notOwnedMessage ownerId childId, false⟩

def isCurrentlyLive (view : OrchestrationSessionView) (childId : String) : Bool :=
  (view.getSession childId).any (·.status ≠ "terminated") &&
    !(view.getPersistedSession childId).any (·.archived) && view.isSessionLive childId

/-- `persistedOwned || rememberedOwned`. -/
def ownedByRecord (core : OrchestrationCore) (view : OrchestrationSessionView)
    (ownerId childId : String) : Bool :=
  (view.getPersistedSession childId).any (persistedOwned ownerId) ||
    (JsMap.get? core.dismissedChildren childId).any (·.ownerSessionId = ownerId)

/-- `rememberDismissed` and `forgetChild`. -/
def dropChild (core : OrchestrationCore) (pending : PendingDismiss) : OrchestrationCore where
  index := core.index.forgetChild pending.childId
  dismissedChildren :=
    JsMap.set core.dismissedChildren pending.childId ⟨pending.ownerId, pending.childKind⟩

/-- `dismiss`, up to its answer or to `terminateSession`. -/
def dismiss (core : OrchestrationCore) (view : OrchestrationSessionView) (ownerId childId : String) :
    OrchestrationCore × (DismissResult ⊕ PendingDismiss) :=
  let handle := core.index.findChild ownerId childId
  let persisted := view.getPersistedSession childId
  let remembered := JsMap.get? core.dismissedChildren childId
  let known := (view.getSession childId).isSome || persisted.isSome ||
    remembered.any (·.ownerSessionId ≠ "")
  let pending : PendingDismiss := ⟨ownerId, childId,
    ((handle.map (·.childKind)).or (persistedChildKind ownerId persisted)).or
      (remembered.bind (·.childKind))⟩
  if isCurrentlyLive view childId ∧ handle.isNone then (core, .inl (notOwned ownerId childId))
  else if handle.isNone ∧ ownedByRecord core view ownerId childId = false then
    (core, .inl (if known then notOwned ownerId childId
      else ⟨false, .notFound, childId, "Child session " ++ childId ++ " was not found.", false⟩))
  else if isCurrentlyLive view childId = false then
    (dropChild core pending, .inl (alreadyDismissed childId))
  else (core, .inr pending)

/-- `dismiss`, behind `terminateSession`. -/
def finishDismiss (core : OrchestrationCore) (pending : PendingDismiss) :
    TerminateOutcome → OrchestrationCore × DismissResult
  | .ended => (dropChild core pending, ⟨true, .dismissed, pending.childId,
      "Child session " ++ pending.childId ++ " dismissed.", false⟩)
  | .absent => (dropChild core pending, alreadyDismissed pending.childId)
  | .failed message => (core, ⟨false, .failed, pending.childId,
      "Failed to dismiss child session " ++ pending.childId ++ ": " ++ message, true⟩)

/-! ### Reminders -/

def RESTART_COLLECTION_REMINDER_EXCLUDED_CHILD_KINDS : List ChildKind :=
  ["team", "pr-walkthrough", "host-agents"]

def shouldSendRestartCollectionReminder (handle : ChildHandle) : Bool :=
  handle.childKind ∉ RESTART_COLLECTION_REMINDER_EXCLUDED_CHILD_KINDS

structure Reminder where
  ownerId : String
  handles : List ChildHandle
  message : String

def reminderMessage (handles : List ChildHandle) : String :=
  let enumerated := String.intercalate ", " (handles.map fun h =>
    h.sessionId ++ if truthy h.title then " \"" ++ h.title.getD "" ++ "\"" else "")
  "[ORCHESTRATION] The gateway restarted. You have " ++ toString handles.length ++
    " live child agent(s) from before the restart: " ++ enumerated ++
    ". Their results were not collected. Call team_wait to collect them (it returns on the " ++
    "first child idle and tells you who remains)."

def remindOwnersWithLiveChildren (core : OrchestrationCore) (view : OrchestrationSessionView)
    (filter : ChildHandle → Bool) : List Reminder :=
  core.index.entries.filterMap fun entry =>
    let handles := entry.2.filter filter
    if handles = [] ∨ (view.getPersistedSession entry.1).all (·.archived) then none
    else some ⟨entry.1, handles, reminderMessage handles⟩

/-! ### `spawn` -/

inductive SpawnLifecycle where
  | bare
  | full
  deriving DecidableEq

structure SpawnOpts where
  ownerSessionId : String
  childKind : Option ChildKind
  title : Option String
  lifecycle : Option SpawnLifecycle
  subBranch : Bool
  deferInitialPrompt : Bool

/-- A spawn that waits for the session manager, with the child once it has been created. -/
structure PendingSpawn where
  opts : SpawnOpts
  childId : Option String

/-- The path through `createSession`. -/
def createsSession (opts : SpawnOpts) : Bool :=
  opts.lifecycle.getD .bare ≠ .bare || opts.subBranch

def spawnedHandle (view : OrchestrationSessionView) (opts : SpawnOpts) (childId : String)
    (now : Nat) : ChildHandle where
  sessionId := childId
  ownerSessionId := opts.ownerSessionId
  childKind := opts.childKind.getD "delegate"
  spawnedAt := now
  title := opts.title.or ((view.getSession childId).bind (·.title))
  blocking := false

/-! ## The system -/

/-- The session manager, the core, the calls under way and the answers to dismissals so far. -/
structure System where
  view : OrchestrationSessionView
  core : OrchestrationCore
  spawning : List PendingSpawn
  dismissing : List PendingDismiss
  answers : List DismissResult

inductive Event where
  | spawn (opts : SpawnOpts)
  | spawnCreated (i : Nat) (childId : String)
  | spawnDone (i now : Nat)
  | spawnFailed (i : Nat)
  | registerChild (handle : ChildHandle)
  | prompt (ownerId childId : String)
  | steer (ownerId childId : String)
  | abort (ownerId childId : String)
  | read (ownerId childId : String)
  | wait (ownerId : String) (childIds : List String)
  | dismiss (ownerId childId : String)
  | terminated (i : Nat) (outcome : TerminateOutcome)
  | forgetChild (sessionId : String)
  | forgetOwner (ownerId : String)
  | rebuildIndex (keep : String → Bool) (now : Nat)
  | restart (keep : String → Bool) (now : Nat)
  | putRow (row : PersistedSessionLike)
  | setSession (id : String) (session : Option OrchestrationSessionLike)

/-- A row is created, or rewritten in its place. -/
def putRow (rows : List PersistedSessionLike) (row : PersistedSessionLike) :
    List PersistedSessionLike := Keyed.put PersistedSessionLike.id rows row

def archiveRow (rows : List PersistedSessionLike) (id : String) : List PersistedSessionLike :=
  rows.map fun r => if r.id = id then { r with archived := true } else r

/-- `terminateSession` archives the row of the session that it ends. -/
def endSession (view : OrchestrationSessionView) (id : String) : TerminateOutcome →
    OrchestrationSessionView
  | .ended => ⟨archiveRow view.rows id, JsMap.erase view.sessions id⟩
  | .absent => view
  | .failed _ => view

def bootRows (view : OrchestrationSessionView) (keep : String → Bool) : List PersistedSessionLike :=
  view.rows.filter fun r => !r.archived && keep r.id

/-- A restored session is dormant until it is started. -/
def dormantSession (ps : PersistedSessionLike) : String × OrchestrationSessionLike :=
  (ps.id, { status := "terminated", title := ps.title, dormant := true })

namespace System

def step (s : System) : Event → System
  | .spawn opts =>
    match assertCanSpawn s.view opts.ownerSessionId with
    | .ok _ => { s with spawning := s.spawning ++ [⟨opts, none⟩] }
    | .error _ => s
  | .spawnCreated i childId =>
    { s with spawning := s.spawning.modify i fun p => { p with childId := p.childId.or (some childId) } }
  | .spawnDone i now =>
    match s.spawning[i]? with
    | some ⟨opts, some childId⟩ =>
      { s with
        core := { s.core with index := s.core.index.addHandle (spawnedHandle s.view opts childId now) }
        spawning := s.spawning.eraseIdx i }
    | _ => s
  | .spawnFailed i => { s with spawning := s.spawning.eraseIdx i }
  | .registerChild handle => { s with core := { s.core with index := s.core.index.addHandle handle } }
  | .prompt _ _ => s
  | .steer _ _ => s
  | .abort _ _ => s
  | .read _ _ => s
  | .wait _ _ => s
  | .dismiss ownerId childId =>
    match dismiss s.core s.view ownerId childId with
    | (core, .inl result) => { s with core := core, answers := s.answers ++ [result] }
    | (core, .inr pending) => { s with core := core, dismissing := s.dismissing ++ [pending] }
  | .terminated i outcome =>
    match s.dismissing[i]? with
    | some pending =>
      let (core, result) := finishDismiss s.core pending outcome
      { s with
        view := endSession s.view pending.childId outcome
        core := core
        dismissing := s.dismissing.eraseIdx i
        answers := s.answers ++ [result] }
    | none => s
  | .forgetChild sessionId =>
    { s with core := { s.core with index := s.core.index.forgetChild sessionId } }
  | .forgetOwner ownerId =>
    { s with core := { s.core with index := s.core.index.forgetOwner ownerId } }
  | .rebuildIndex keep now =>
    { s with
      core := { s.core with
        index := rebuildIndexFromPersisted (s.view.rows.filter (keep ·.id)) now } }
  | .restart keep now =>
    { s with
      view := { s.view with sessions := (bootRows s.view keep).map dormantSession }
      core := ⟨rebuildIndexFromPersisted (bootRows s.view keep) now, []⟩
      spawning := []
      dismissing := [] }
  | .putRow row => { s with view := { s.view with rows := Orchestration.putRow s.view.rows row } }
  | .setSession id session =>
    { s with
      view := { s.view with
        sessions :=
          match session with
          | some session => JsMap.set s.view.sessions id session
          | none => JsMap.erase s.view.sessions id } }

/-- The calls of the session manager in a step. A dismissal terminates a session before it waits;
    behind `createSession`, a spawn sends the instructions unless they are deferred. -/
def calls (s : System) : Event → List SessionCall
  | .prompt ownerId childId => (Orchestration.prompt s.core ownerId childId).toOption.toList
  | .steer ownerId childId => (Orchestration.steer s.core s.view ownerId childId).toOption.toList
  | .abort ownerId childId => (Orchestration.abort s.core ownerId childId).toOption.toList
  | .read ownerId childId => (Orchestration.read s.core ownerId childId).toOption.toList
  | .wait ownerId childIds => ((Orchestration.wait s.core ownerId childIds).toOption).getD []
  | .dismiss ownerId childId =>
    match (Orchestration.dismiss s.core s.view ownerId childId).2 with
    | .inl _ => []
    | .inr pending => [⟨.terminate, pending.ownerId, pending.childId⟩]
  | .spawnCreated i childId =>
    match s.spawning[i]? with
    | some ⟨opts, none⟩ =>
      if createsSession opts ∧ opts.deferInitialPrompt = false then
        [⟨.kickoff, opts.ownerSessionId, childId⟩]
      else []
    | _ => []
  | _ => []

def start : System where
  view := ⟨[], []⟩
  core := ⟨ChildIndex.empty, []⟩
  spawning := []
  dismissing := []
  answers := []

end System

end Bobbit.Server.Orchestration
