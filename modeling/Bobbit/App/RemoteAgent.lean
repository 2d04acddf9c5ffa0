import Bobbit.Server.EventBuffer

/-!
# Sequence gate of the client

Model of the sequence handling of `RemoteAgent` in `src/app/remote-agent.ts`: the
cursor `_highestSeq`, the buffer of events that came too early, and the messages that
move them. What an event or a permission card does to the rest of the client is left
out; a frame that gets there is recorded as applied.

The second part is the server's side: the frames that `emitSessionEvent` and
`requestToolGrant` of `src/server/agent/session-manager.ts` broadcast, with the
numbers of the session's event buffer.
-/

namespace Bobbit.App

open Server

variable {ε κ : Type}

/-- The content of a frame: an agent event, or the card of a permission request. -/
inductive FrameBody (ε κ : Type)
  | event (data : ε)
  | toolPermissionNeeded (card : κ)
deriving DecidableEq

/-- An event that waits for its predecessor. -/
structure PendingEvent (ε : Type) where
  seq : Int
  data : ε
deriving DecidableEq

/-- The part of the client that sequence numbers are checked against. The last two
    fields are history: the frames applied, and the calls of `requestMessages`. -/
structure RemoteAgent (ε κ : Type) where
  highestSeq : Int
  seqInitialized : Bool
  pendingEvents : List (PendingEvent ε)
  inResumeFallback : Bool
  applied : List (Option Int × FrameBody ε κ)
  requests : Nat
deriving DecidableEq

/-- The messages that concern the gate; a sequence number may be missing. -/
inductive ServerMessage (ε κ : Type)
  | event (seq : Option Int) (data : ε)
  | toolPermissionNeeded (seq : Option Int) (card : κ)
  | resumeGap (lastSeq : Option Int)
  | messages

namespace RemoteAgent

def pendingEventsMax : Nat := 500

def new : RemoteAgent ε κ := ⟨0, false, [], false, [], 0⟩

def reset (agent : RemoteAgent ε κ) : RemoteAgent ε κ :=
  { agent with
    highestSeq := 0
    seqInitialized := false
    pendingEvents := []
    inResumeFallback := false }

def apply (agent : RemoteAgent ε κ) (seq : Option Int) (body : FrameBody ε κ) : RemoteAgent ε κ :=
  { agent with applied := agent.applied ++ [(seq, body)] }

def requestMessages (agent : RemoteAgent ε κ) : RemoteAgent ε κ :=
  { agent with requests := agent.requests + 1 }

/-- The first loop of `_drainOrderedEvents`. -/
def drainNext (agent : RemoteAgent ε κ) : List (PendingEvent ε) → RemoteAgent ε κ
  | [] => { agent with pendingEvents := [] }
  | next :: rest =>
    if next.seq = agent.highestSeq + 1 then
      ({ agent with highestSeq := next.seq }.apply (some next.seq) (.event next.data)).drainNext rest
    else { agent with pendingEvents := next :: rest }

def drainOrderedEvents (agent : RemoteAgent ε κ) : RemoteAgent ε κ :=
  let agent := agent.drainNext agent.pendingEvents
  { agent with pendingEvents := agent.pendingEvents.dropWhile (·.seq ≤ agent.highestSeq) }

/-- The first numbered frame sets the baseline. -/
def initializeSeq (agent : RemoteAgent ε κ) (seq : Int) : RemoteAgent ε κ :=
  if agent.seqInitialized then agent else { agent with highestSeq := seq - 1, seqInitialized := true }

def advanceTopLevelSeq (agent : RemoteAgent ε κ) (seq : Int) : RemoteAgent ε κ × Bool :=
  let agent := agent.initializeSeq seq
  if seq ≤ agent.highestSeq then (agent, false)
  else if seq ≠ agent.highestSeq + 1 then
    ({ agent with
        pendingEvents := []
        inResumeFallback := true
        highestSeq := seq }.requestMessages, true)
  else ({ agent with highestSeq := seq }, true)

/-- An event ahead of its predecessor is buffered; a buffer that overflows is given up. -/
def bufferEvent (agent : RemoteAgent ε κ) (seq : Int) (data : ε) : RemoteAgent ε κ :=
  let pendingEvents :=
    (agent.pendingEvents ++ [PendingEvent.mk seq data]).mergeSort fun a b => a.seq ≤ b.seq
  if pendingEvents.length > pendingEventsMax then
    { agent with
      pendingEvents := []
      inResumeFallback := true
      highestSeq := 0
      seqInitialized := false }.requestMessages
  else { agent with pendingEvents := pendingEvents }

/-- `handleServerMessage` for an event. -/
def handleEvent (agent : RemoteAgent ε κ) (seq : Option Int) (data : ε) : RemoteAgent ε κ :=
  match seq with
  | none => agent.apply none (.event data)
  | some seq =>
    let agent := agent.initializeSeq seq
    if seq ≤ agent.highestSeq then agent
    else if seq ≠ agent.highestSeq + 1 then (agent.bufferEvent seq data).drainOrderedEvents
    else ({ agent with highestSeq := seq }.apply (some seq) (.event data)).drainOrderedEvents

/-- `handleServerMessage` for a permission request. -/
def handleToolPermissionNeeded (agent : RemoteAgent ε κ) (seq : Option Int) (card : κ) :
    RemoteAgent ε κ :=
  match seq with
  | none => agent.apply none (.toolPermissionNeeded card)
  | some seq =>
    match agent.advanceTopLevelSeq seq with
    | (agent, false) => agent
    | (agent, true) => (agent.apply (some seq) (.toolPermissionNeeded card)).drainOrderedEvents

/-- `handleServerMessage`, as far as the gate is concerned. -/
def handleServerMessage (agent : RemoteAgent ε κ) : ServerMessage ε κ → RemoteAgent ε κ
  | .event seq data => agent.handleEvent seq data
  | .toolPermissionNeeded seq card => agent.handleToolPermissionNeeded seq card
  | .resumeGap lastSeq =>
    { agent with
      highestSeq := lastSeq.getD 0
      pendingEvents := []
      inResumeFallback := true }.requestMessages
  | .messages => { agent with inResumeFallback := false }

/-- What happens to the gate of a client. -/
inductive Event (ε κ : Type)
  | message (message : ServerMessage ε κ)
  | reset

def step (agent : RemoteAgent ε κ) : Event ε κ → RemoteAgent ε κ
  | .message message => agent.handleServerMessage message
  | .reset => agent.reset

end RemoteAgent

/-! ## The frames of a session -/

structure SequencedFrame (ε κ : Type) where
  seq : Int
  body : FrameBody ε κ
deriving DecidableEq

def SequencedFrame.message (frame : SequencedFrame ε κ) : ServerMessage ε κ :=
  match frame.body with
  | .event data => .event (some frame.seq) data
  | .toolPermissionNeeded card => .toolPermissionNeeded (some frame.seq) card

/-- What a session does with the numbers of its frames. -/
inductive SessionOp (ε κ : Type)
  /-- `emitSessionEvent` -/
  | emitEvent (event : ε) (ts : Int) (bytes : Option Nat)
  /-- `requestToolGrant` -/
  | requestToolGrant (card : κ) (ts : Int)
  /-- a restart: a new buffer goes on with the numbers of the old one -/
  | restart

/-- The buffer after an operation, and the frame that is broadcast. -/
def sessionStep (buffer : EventBuffer ε) : SessionOp ε κ →
    EventBuffer ε × Option (SequencedFrame ε κ)
  | .emitEvent event ts bytes =>
    let (buffer, entry) := buffer.push event ts bytes
    (buffer, some ⟨entry.seq, .event event⟩)
  | .requestToolGrant card ts =>
    let (buffer, seq, _) := buffer.pushFrame ts
    (buffer, some ⟨seq, .toolPermissionNeeded card⟩)
  | .restart =>
    let fresh := EventBuffer.new (some 1000) (some EventBuffer.defaultMaxBytes)
    if buffer.lastSeq > 0 then (fresh.seedNextSeq (some (buffer.lastSeq + 1)), none)
    else (fresh, none)

/-- The buffer after some operations. -/
def sessionBuffer (buffer : EventBuffer ε) (ops : List (SessionOp ε κ)) : EventBuffer ε :=
  ops.foldl (fun buffer op => (sessionStep buffer op).1) buffer

/-- The frames that are broadcast, in order. -/
def broadcasts (buffer : EventBuffer ε) : List (SessionOp ε κ) → List (SequencedFrame ε κ)
  | [] => []
  | op :: rest => (sessionStep buffer op).2.toList ++ broadcasts (sessionStep buffer op).1 rest

end Bobbit.App
