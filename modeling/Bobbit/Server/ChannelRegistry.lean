import Bobbit.Lib.JsMap

/-!
# Channel registry

Model of `ChannelRegistry` in `src/server/extension-host/channel-registry.ts`: the
lifecycle of channels, their indexes, and the delivery of a handler's frames to the
attached clients. An `await` on the handler, on a sink or on a timeout is a `Task` of
its record, and any task may be the next to go on. Records and attachments are
referred to by number, since a continuation keeps the object it has even when the
maps no longer lead to it.
-/

namespace Bobbit.Server

open Lib

inductive FrameKind
  | text | json
deriving DecidableEq

/-- A valid frame; the data of a json frame is its serialization. -/
structure HostChannelFrame where
  kind : FrameKind
  data : String
deriving DecidableEq

def frameByteLength (frame : HostChannelFrame) : Nat := frame.data.utf8ByteSize

inductive ChannelState
  | opening | opened | closing | closed
deriving DecidableEq

/-- The part of `ChannelQuotaConfig` that opens and outbound frames are checked against. -/
structure ChannelQuotas where
  maxChannelsPerSessionPerPack : Nat
  maxGatewayChannels : Nat
  maxFrameBytes : Nat
  maxOutboundBytes : Nat
  maxOutboundFrames : Nat
  maxClientOutboundBytes : Nat
  maxClientOutboundFrames : Nat
deriving DecidableEq

structure DeclaredQuotas where
  maxChannelsPerSessionPerPack : Option Nat
  maxGatewayChannels : Option Nat
  maxFrameBytes : Option Nat
  maxOutboundBytes : Option Nat
  maxOutboundFrames : Option Nat
  maxClientOutboundBytes : Option Nat
  maxClientOutboundFrames : Option Nat

/-- A declared quota narrows a limit. -/
def narrow (limit : Nat) (declared : Option Nat) : Nat := (declared.map (min limit)).getD limit

def effectiveQuotas (quotas : ChannelQuotas) (declared : DeclaredQuotas) : ChannelQuotas where
  maxChannelsPerSessionPerPack :=
    narrow quotas.maxChannelsPerSessionPerPack declared.maxChannelsPerSessionPerPack
  maxGatewayChannels := narrow quotas.maxGatewayChannels declared.maxGatewayChannels
  maxFrameBytes := narrow quotas.maxFrameBytes declared.maxFrameBytes
  maxOutboundBytes := narrow quotas.maxOutboundBytes declared.maxOutboundBytes
  maxOutboundFrames := narrow quotas.maxOutboundFrames declared.maxOutboundFrames
  maxClientOutboundBytes := narrow quotas.maxClientOutboundBytes declared.maxClientOutboundBytes
  maxClientOutboundFrames := narrow quotas.maxClientOutboundFrames declared.maxClientOutboundFrames

/-- A `ChannelClientSink`: is there an `onFrame`, and what does it say about draining? -/
structure ClientSink where
  onFrame : Bool
  autoDrain : Option Bool
deriving DecidableEq

/-- A frame with its place among the frames that the handler sent. -/
abbrev SentFrame := Nat × HostChannelFrame

/-- A `ClientAttachment`. The last two fields are history: how many frames the handler
    had sent before, and the frames handed to the client. -/
structure ClientAttachment where
  clientId : String
  sink : Option ClientSink
  autoDrain : Bool
  queuedFrames : List SentFrame
  queuedBytes : Int
  inFlightFrames : Int
  inFlightBytes : Int
  attaching : Bool
  since : Nat
  delivered : List SentFrame
deriving DecidableEq

/-- Who waits for `completeAttach`: an attach of its own, or the loop of
    `completePendingAttaches` with the attachments that it still has to visit. -/
inductive AttachCaller
  | attach
  | pendingAttaches (rest : List Nat)
deriving DecidableEq

inductive Task
  /-- `open`, for `dispatcher.open` -/
  | opening
  /-- `completeAttach`, for `handler.onAttach` -/
  | onAttach (attachment : Nat) (caller : AttachCaller)
  /-- `flushAutoDrainQueue`, for `sink.onFrame` -/
  | flush (attachment bytes : Nat) (caller : AttachCaller)
  /-- `deliverFromHandler`, for `sink.onFrame` -/
  | delivery (attachment bytes : Nat)
  /-- `deliverFromHandler` after an error, for `detachInternal` -/
  | detaching (attachment bytes : Nat)
  /-- `closeInternal`, for the handler to close -/
  | closing
  /-- `closeInternal`, for `sink.onClose` of the first of these attachments -/
  | closeClients (attachments : List Nat)
deriving DecidableEq

structure ChannelRecord where
  id : String
  sessionId : String
  packId : String
  contributionId : String
  name : String
  singletonKey : Option String
  state : ChannelState
  quotas : ChannelQuotas
  clients : JsMap String Nat
  handler : Bool
  outboundBytes : Int
  outboundFrames : Int
  attachments : List ClientAttachment
  tasks : List Task
  /-- history: the frames accepted from the handler, with the attachments they are for -/
  accepted : List (SentFrame × List Nat)

namespace ClientAttachment

/-- `sink?.onFrame`. -/
def hasOnFrame (client : ClientAttachment) : Bool := (client.sink.map (·.onFrame)).getD false

/-- Is a new frame handed to the sink at once? -/
def isDirect (client : ClientAttachment) : Bool :=
  ! client.attaching && client.autoDrain && client.hasOnFrame

def new (clientId : String) (sink : Option ClientSink) (since : Nat) : ClientAttachment where
  clientId := clientId
  sink := sink
  autoDrain := sink.bind (·.autoDrain) ≠ some false
  queuedFrames := []
  queuedBytes := 0
  inFlightFrames := 0
  inFlightBytes := 0
  attaching := true
  since := since
  delivered := []

/-- An attachment gets another sink. -/
def reattach (client : ClientAttachment) (sink : Option ClientSink) : ClientAttachment :=
  { client with sink := sink, autoDrain := sink.bind (·.autoDrain) ≠ some false }

/-- `assertClientOutboundCapacity`, when it passes. -/
def hasCapacity (client : ClientAttachment) (quotas : ChannelQuotas) (bytes : Nat) : Bool :=
  client.queuedBytes + client.inFlightBytes + bytes ≤ quotas.maxClientOutboundBytes &&
    client.queuedFrames.length + client.inFlightFrames + 1 ≤ quotas.maxClientOutboundFrames

/-- What `deliverFromHandler` does to a recipient. -/
def receive (client : ClientAttachment) (frame : SentFrame) : ClientAttachment :=
  let bytes := frameByteLength frame.2
  if client.isDirect then
    { client with
      inFlightFrames := client.inFlightFrames + 1
      inFlightBytes := client.inFlightBytes + bytes
      delivered := client.delivered ++ [frame] }
  else
    { client with
      queuedFrames := client.queuedFrames ++ [frame]
      queuedBytes := client.queuedBytes + bytes }

/-- What `removeClientAccounting` does to the attachment. -/
def cleared (client : ClientAttachment) : ClientAttachment :=
  { client with
    queuedFrames := []
    queuedBytes := 0
    inFlightFrames := 0
    inFlightBytes := 0
    attaching := false }

end ClientAttachment

def tupleKey (sessionId packId channelId name : String) : String :=
  sessionId ++ "\x00" ++ packId ++ "\x00" ++ channelId ++ "\x00" ++ name

def singletonIndexKey (sessionId packId name singletonKey : String) : String :=
  sessionId ++ "\x00" ++ packId ++ "\x00" ++ name ++ "\x00" ++ singletonKey

namespace ChannelRecord

/-- The key of a record in `tupleIndex`. -/
def tupleKey (r : ChannelRecord) : String := Server.tupleKey r.sessionId r.packId r.id r.name

/-- The key of a record in `singletonIndex`; an empty singleton key is none. -/
def indexKey (r : ChannelRecord) : Option String :=
  (r.singletonKey.filter (· ≠ "")).map (singletonIndexKey r.sessionId r.packId r.name)

def await (r : ChannelRecord) (task : Task) : ChannelRecord := { r with tasks := r.tasks ++ [task] }

def update (r : ChannelRecord) (attachment : Nat) (f : ClientAttachment → ClientAttachment) :
    ChannelRecord :=
  { r with attachments := r.attachments.modify attachment f }

def removeClientAccounting (r : ChannelRecord) (attachment : Nat) : ChannelRecord :=
  match r.attachments[attachment]? with
  | none => r
  | some client =>
    { r.update attachment (·.cleared) with
      outboundBytes := r.outboundBytes - (client.queuedBytes + client.inFlightBytes)
      outboundFrames :=
        r.outboundFrames - (client.queuedFrames.length + client.inFlightFrames) }

/-- Take a client out of `clients`. -/
def deleteClient (r : ChannelRecord) (clientId : String) : ChannelRecord :=
  { r with clients := r.clients.erase clientId }

def detachInternal (r : ChannelRecord) (clientId : String) : ChannelRecord :=
  match r.clients.get? clientId with
  | none => r
  | some attachment => (r.removeClientAccounting attachment).deleteClient clientId

/-- `closeInternal`, up to where it waits for the handler. -/
def closeInternal (r : ChannelRecord) : ChannelRecord :=
  if r.state = .closed then r else { r with state := .closing }.await .closing

/-- The loop of `completePendingAttaches`. -/
def completePendingAttaches (r : ChannelRecord) : List Nat → ChannelRecord
  | [] => r
  | attachment :: rest =>
    if (r.attachments[attachment]?).any (·.attaching) then
      r.await (.onAttach attachment (.pendingAttaches rest))
    else r.completePendingAttaches rest

/-- `completeAttach` returns. -/
def attachCompleted (r : ChannelRecord) : AttachCaller → ChannelRecord
  | .attach => r
  | .pendingAttaches rest => r.completePendingAttaches rest

/-- `completeAttach` throws: the client is removed, and a channel that is just being
    opened is closed. -/
def attachFailed (r : ChannelRecord) (attachment : Nat) (caller : AttachCaller) : ChannelRecord :=
  let clientId := ((r.attachments[attachment]?).map (·.clientId)).getD ""
  let r := (r.removeClientAccounting attachment).deleteClient clientId
  match caller with
  | .attach => r
  | .pendingAttaches _ => r.closeInternal

/-- The `finally` after `sink.onFrame`. -/
def settleFrame (r : ChannelRecord) (attachment bytes : Nat) : ChannelRecord :=
  match r.attachments[attachment]? with
  | none => r
  | some client =>
    if client.inFlightFrames > 0 ∧ client.inFlightBytes ≥ bytes then
      { r.update attachment fun client =>
          { client with
            inFlightFrames := client.inFlightFrames - 1
            inFlightBytes := client.inFlightBytes - bytes } with
        outboundBytes := r.outboundBytes - bytes
        outboundFrames := r.outboundFrames - 1 }
    else r

/-- One turn of the loop of `flushAutoDrainQueue`. A sink that has lost its `onFrame`
    meanwhile makes the call throw. -/
def flushNext (r : ChannelRecord) (attachment : Nat) (caller : AttachCaller) : ChannelRecord :=
  match r.attachments[attachment]? with
  | none => r.attachCompleted caller
  | some client =>
    match client.queuedFrames with
    | [] => r.attachCompleted caller
    | frame :: queuedFrames =>
      let bytes := frameByteLength frame.2
      let taken := { client with
        queuedFrames := queuedFrames
        queuedBytes := client.queuedBytes - bytes
        inFlightFrames := client.inFlightFrames + 1
        inFlightBytes := client.inFlightBytes + bytes }
      if client.hasOnFrame then
        (r.update attachment fun _ => { taken with delivered := taken.delivered ++ [frame] }).await
          (.flush attachment bytes caller)
      else
        ((r.update attachment fun _ => taken).settleFrame attachment bytes).attachFailed attachment
          caller

def flushAutoDrainQueue (r : ChannelRecord) (attachment : Nat) (caller : AttachCaller) :
    ChannelRecord :=
  if (r.attachments[attachment]?).any fun client => client.autoDrain && client.hasOnFrame then
    r.flushNext attachment caller
  else r.attachCompleted caller

/-- `attachInternal`; a closing or closed channel throws. -/
def attachInternal (r : ChannelRecord) (clientId : String) (sink : Option ClientSink) :
    ChannelRecord :=
  if r.state = .closed ∨ r.state = .closing then r
  else
    match r.clients.get? clientId with
    | some attachment => r.update attachment (·.reattach sink)
    | none =>
      let attachment := r.attachments.length
      let r := { r with
        attachments := r.attachments ++ [ClientAttachment.new clientId sink r.accepted.length]
        clients := r.clients.set clientId attachment }
      if r.handler then r.await (.onAttach attachment .attach) else r

/-- `record.clients.values()`. -/
def clientNumbers (r : ChannelRecord) : List Nat := r.clients.map fun entry => entry.2

/-- The attachments among some numbers. -/
def recipients (r : ChannelRecord) (attachments : List Nat) : List ClientAttachment :=
  attachments.filterMap fun attachment => r.attachments[attachment]?

/-- `assertOutboundCapacity` and `assertClientOutboundCapacity`, when they pass. -/
def hasCapacity (r : ChannelRecord) (attachments : List Nat) (bytes : Nat) : Bool :=
  r.outboundBytes + bytes * attachments.length ≤ r.quotas.maxOutboundBytes &&
    r.outboundFrames + attachments.length ≤ r.quotas.maxOutboundFrames &&
      (r.recipients attachments).all (·.hasCapacity r.quotas bytes)

/-- `deliverFromHandler` for one recipient. -/
def deliverTo (frame : SentFrame) (r : ChannelRecord) (attachment : Nat) : ChannelRecord :=
  let bytes := frameByteLength frame.2
  let delivered := { r.update attachment (·.receive frame) with
    outboundBytes := r.outboundBytes + bytes
    outboundFrames := r.outboundFrames + 1 }
  if (r.attachments[attachment]?).any (·.isDirect) then
    delivered.await (.delivery attachment bytes)
  else delivered

/-- `deliverFromHandler`; a frame over a quota is rejected. -/
def deliverFromHandler (r : ChannelRecord) (attachments : List Nat) (frame : HostChannelFrame) :
    ChannelRecord :=
  if r.hasCapacity attachments (frameByteLength frame) then
    let sent := (r.accepted.length, frame)
    attachments.foldl (deliverTo sent) { r with accepted := r.accepted ++ [(sent, attachments)] }
  else r

/-- Are frames accepted from the handler? (`requireOpenChannelForHandlerSend` and
    `validateFrameFor`) -/
def acceptsFrame (r : ChannelRecord) (frame : HostChannelFrame) : Bool :=
  (r.state = .opened || r.state = .opening) && frameByteLength frame ≤ r.quotas.maxFrameBytes

def sendFromHandler (r : ChannelRecord) (frame : HostChannelFrame) : ChannelRecord :=
  if r.acceptsFrame frame then r.deliverFromHandler r.clientNumbers frame else r

def sendFromHandlerTo (r : ChannelRecord) (clientId : String) (frame : HostChannelFrame) :
    ChannelRecord :=
  match r.clients.get? clientId with
  | none => r
  | some attachment =>
    if r.acceptsFrame frame then r.deliverFromHandler [attachment] frame else r

def framesBytes (frames : List SentFrame) : Nat := (frames.map (frameByteLength ·.2)).sum

/-- `drainClient`; the frames it returns are delivered. -/
def drainClient (r : ChannelRecord) (clientId : String) (maxFrames : Option Nat) : ChannelRecord :=
  match r.clients.get? clientId with
  | none => r
  | some attachment =>
    match r.attachments[attachment]? with
    | none => r
    | some client =>
      let count := maxFrames.getD client.queuedFrames.length
      let frames := client.queuedFrames.take count
      { r.update attachment fun client =>
          { client with
            queuedFrames := client.queuedFrames.drop count
            queuedBytes := client.queuedBytes - framesBytes frames
            delivered := client.delivered ++ frames } with
        outboundBytes := r.outboundBytes - framesBytes frames
        outboundFrames := r.outboundFrames - frames.length }

/-- The end of `closeInternal`. -/
def clientsClosed (r : ChannelRecord) : ChannelRecord :=
  { r with clients := [], outboundBytes := 0, outboundFrames := 0 }

/-- The loop over the clients of a closed channel waits for the next one. -/
def closeNext (r : ChannelRecord) : List Nat → ChannelRecord
  | [] => r.clientsClosed
  | attachments => r.await (.closeClients attachments)

/-- `closeInternal` goes on after the handler. -/
def handlerClosed (r : ChannelRecord) : ChannelRecord :=
  { r with state := .closed }.closeNext r.clientNumbers

/-- `open` goes on after `dispatcher.open`. -/
def handlerOpened (r : ChannelRecord) : ChannelRecord :=
  if r.state = .closed then r
  else { r with handler := true, state := .opened }.completePendingAttaches r.clientNumbers

/-- A continuation goes on; `ok` says whether what it waited for is a success. -/
def resume (r : ChannelRecord) (task : Task) (ok : Bool) : ChannelRecord :=
  match task with
  | .opening => if ok then r.handlerOpened else r.closeInternal
  | .onAttach attachment caller =>
    if ok then
      (r.update attachment ({ · with attaching := false })).flushAutoDrainQueue attachment caller
    else r.attachFailed attachment caller
  | .flush attachment bytes caller =>
    let r := r.settleFrame attachment bytes
    if ok then r.flushNext attachment caller else r.attachFailed attachment caller
  | .delivery attachment bytes =>
    if ok then r.settleFrame attachment bytes
    else
      let clientId := ((r.attachments[attachment]?).map (·.clientId)).getD ""
      (r.detachInternal clientId).await (.detaching attachment bytes)
  | .detaching attachment bytes => r.settleFrame attachment bytes
  | .closing => r.handlerClosed
  | .closeClients [] => r.clientsClosed
  | .closeClients (attachment :: rest) => (r.removeClientAccounting attachment).closeNext rest

end ChannelRecord

/-- The resolved request of `open`. -/
structure OpenRequest where
  sessionId : String
  packId : String
  contributionId : String
  channelName : String
  singletonKey : Option String
  quotas : DeclaredQuotas
  clientId : Option String
  client : Option ClientSink

/-- The registry, with all records ever made. -/
structure ChannelRegistry where
  quotas : ChannelQuotas
  records : List ChannelRecord
  channels : JsMap String Nat
  tupleIndex : JsMap String String
  singletonIndex : JsMap String String

namespace ChannelRegistry

def empty (quotas : ChannelQuotas) : ChannelRegistry := ⟨quotas, [], [], [], []⟩

def update (s : ChannelRegistry) (record : Nat) (f : ChannelRecord → ChannelRecord) :
    ChannelRegistry :=
  { s with records := s.records.modify record f }

def channel (s : ChannelRegistry) (id : String) : Option ChannelRecord :=
  (s.channels.get? id).bind fun record => s.records[record]?

def index (s : ChannelRegistry) (record : ChannelRecord) : ChannelRegistry :=
  { s with
    records := s.records ++ [record]
    channels := s.channels.set record.id s.records.length
    tupleIndex := s.tupleIndex.set record.tupleKey record.id
    singletonIndex := match record.indexKey with
      | some key => s.singletonIndex.set key record.id
      | none => s.singletonIndex }

def unindex (s : ChannelRegistry) (record : ChannelRecord) : ChannelRegistry :=
  { s with
    channels := s.channels.erase record.id
    tupleIndex := s.tupleIndex.erase record.tupleKey
    singletonIndex := match record.indexKey with
      | some key => s.singletonIndex.erase key
      | none => s.singletonIndex }

/-- `assertCanOpen`, when it passes. -/
def canOpen (s : ChannelRegistry) (sessionId packId : String) (quotas : ChannelQuotas) : Bool :=
  s.channels.length < quotas.maxGatewayChannels &&
    (s.channels.filterMap fun entry => s.records[entry.2]?).countP (fun record =>
      record.sessionId = sessionId && record.packId = packId && record.state ≠ .closed) <
        quotas.maxChannelsPerSessionPerPack

def newRecord (req : OpenRequest) (id : String) (quotas : ChannelQuotas) : ChannelRecord where
  id := id
  sessionId := req.sessionId
  packId := req.packId
  contributionId := req.contributionId
  name := req.channelName
  singletonKey := req.singletonKey
  state := .opening
  quotas := quotas
  clients := []
  handler := false
  outboundBytes := 0
  outboundFrames := 0
  attachments := []
  tasks := []
  accepted := []

/-- The channel of a singleton that is still there. -/
def existing (s : ChannelRegistry) (req : OpenRequest) : Option Nat := do
  let key ← req.singletonKey.filter (· ≠ "")
  let id ← s.singletonIndex.get? (singletonIndexKey req.sessionId req.packId req.channelName key)
  let number ← s.channels.get? id
  let record ← s.records[number]?
  if record.state ≠ .closed then some number else none

/-- The optional attach of `open`; an empty client id is none. -/
def attachClient (req : OpenRequest) (r : ChannelRecord) : ChannelRecord :=
  match req.clientId.filter (· ≠ "") with
  | none => r
  | some clientId => r.attachInternal clientId req.client

/-- `open`, up to where it waits for `dispatcher.open`; `id` is the new UUID. -/
def opens (s : ChannelRegistry) (req : OpenRequest) (id : String) : ChannelRegistry :=
  match s.existing req with
  | some record => s.update record (attachClient req)
  | none =>
    let quotas := effectiveQuotas s.quotas req.quotas
    if s.canOpen req.sessionId req.packId quotas then
      s.index ((attachClient req (newRecord req id quotas)).await .opening)
    else s

/-- The number of a channel in scope. -/
def inScope (s : ChannelRegistry) (sessionId packId channelId : String) : Option Nat := do
  let number ← s.channels.get? channelId
  let record ← s.records[number]?
  if record.sessionId = sessionId ∧ record.packId = packId then some number else none

/-- An operation on a channel in scope. -/
def onChannel (s : ChannelRegistry) (sessionId packId channelId : String)
    (f : ChannelRecord → ChannelRecord) : ChannelRegistry :=
  match s.inScope sessionId packId channelId with
  | none => s
  | some record => s.update record f

/-- `requireChannel` lets no closed channel through. -/
def requireChannel (f : ChannelRecord → ChannelRecord) (r : ChannelRecord) : ChannelRecord :=
  if r.state = .closed then r else f r

def onHandlerChannel (s : ChannelRegistry) (channelId : String) (f : ChannelRecord → ChannelRecord) :
    ChannelRegistry :=
  match s.channels.get? channelId with
  | none => s
  | some record => s.update record f

/-- Take a task off the list of its record, and go on with it. -/
def resumeTask (task : Task) (number : Nat) (ok : Bool) (r : ChannelRecord) : ChannelRecord :=
  { r with tasks := r.tasks.eraseIdx number }.resume task ok

/-- A task of a record goes on; the end of a close takes the record out of the indexes. -/
def resume (s : ChannelRegistry) (record number : Nat) (ok : Bool) : ChannelRegistry :=
  match s.records[record]? with
  | none => s
  | some r =>
    match r.tasks[number]? with
    | none => s
    | some .closing => (s.unindex r).update record (resumeTask .closing number ok)
    | some task => s.update record (resumeTask task number ok)

/-- What can happen to a registry. `close`, `closeSession`, `closePack`,
    `closeUnavailablePacks`, `sweepIdle`, `dispose` and the handler's own `close` call
    `closeInternal` on the records they find. -/
inductive Event
  | opens (req : OpenRequest) (id : String)
  | attach (sessionId packId channelId clientId : String) (client : Option ClientSink)
  | detach (sessionId packId channelId clientId : String)
  | sendFromHandler (channelId : String) (frame : HostChannelFrame)
  | sendFromHandlerTo (channelId clientId : String) (frame : HostChannelFrame)
  | drainClient (sessionId packId channelId clientId : String) (maxFrames : Option Nat)
  | closeInternal (record : Nat)
  | resume (record number : Nat) (ok : Bool)

def step (s : ChannelRegistry) : Event → ChannelRegistry
  | .opens req id => s.opens req id
  | .attach sessionId packId channelId clientId client =>
    s.onChannel sessionId packId channelId (requireChannel (·.attachInternal clientId client))
  | .detach sessionId packId channelId clientId =>
    s.onChannel sessionId packId channelId (·.detachInternal clientId)
  | .sendFromHandler channelId frame => s.onHandlerChannel channelId (·.sendFromHandler frame)
  | .sendFromHandlerTo channelId clientId frame =>
    s.onHandlerChannel channelId (·.sendFromHandlerTo clientId frame)
  | .drainClient sessionId packId channelId clientId maxFrames =>
    s.onChannel sessionId packId channelId (requireChannel (·.drainClient clientId maxFrames))
  | .closeInternal record => s.update record (·.closeInternal)
  | .resume record number ok => s.resume record number ok

end ChannelRegistry

end Bobbit.Server
