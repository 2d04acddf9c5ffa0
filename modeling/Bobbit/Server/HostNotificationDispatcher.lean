import Bobbit.Lib.JsMap

/-!
# Host notification dispatcher

Model of `ProjectOrderedQueue` and of the fanout of `publishValidated` in
`src/server/extension-host/host-notification-dispatcher.ts`. A delivery may take any time,
and other publishes come at any of its awaits; a notification stands here after its
validation, with the consumers that its definition names.

Beside the fields of the source the state keeps a log of the calls that leave it.
-/

namespace Bobbit.Server

open Lib

inductive HostNotificationConsumer
  | browser
  | module
  | staff
  deriving DecidableEq

/-- A `HostNotification`; `id` is its place among the publications. -/
structure HostNotification where
  id : Nat
  projectId : String
  consumers : List HostNotificationConsumer
  deriving DecidableEq

structure HostNotificationDeliveryAdapter where
  consumer : HostNotificationConsumer
  durable : Bool
  /-- `refreshRequired` is there -/
  refreshes : Bool

structure QueueLane where
  items : List HostNotification
  running : Bool

/-- Where a call of `drain` stands. -/
inductive DrainPhase
  | queued
  | delivering (notification : HostNotification)
  | ended
  deriving DecidableEq

/-- A call of `drain`, on the lane of this place in the heap. -/
structure Drain where
  projectId : String
  lane : Nat
  phase : DrainPhase

inductive DiagnosticCode
  | queueOverflow
  | consumerFailure
  deriving DecidableEq

/-- A call of `diagnostic`. -/
structure HostNotificationDiagnostic where
  code : DiagnosticCode
  notification : HostNotification
  consumer : HostNotificationConsumer
  deriving DecidableEq

/-- A `ProjectOrderedQueue`. Every lane there has been is in `heap`; `accepted`, `refused` and
    `received` log the admissions and the calls of `deliver`, `refreshing` the queued calls of the
    adapter's `refreshRequired` and `refreshed` those made. -/
structure ProjectOrderedQueue where
  adapter : HostNotificationDeliveryAdapter
  capacity : Nat
  lanes : JsMap String Nat
  heap : List QueueLane
  drains : List Drain
  accepted : List HostNotification
  refused : List HostNotification
  received : List HostNotification
  refreshing : List HostNotification
  refreshed : List HostNotification

namespace ProjectOrderedQueue

def create (adapter : HostNotificationDeliveryAdapter) (capacity : Nat) : ProjectOrderedQueue where
  adapter := adapter
  capacity := capacity
  lanes := []
  heap := []
  drains := []
  accepted := []
  refused := []
  received := []
  refreshing := []
  refreshed := []

def refreshRequired (q : ProjectOrderedQueue) (n : HostNotification) : ProjectOrderedQueue :=
  if q.adapter.refreshes then { q with refreshing := q.refreshing ++ [n] } else q

/-- The lane of a project, made when it has none. -/
def laneOf (q : ProjectOrderedQueue) (projectId : String) : ProjectOrderedQueue × Nat :=
  match JsMap.get? q.lanes projectId with
  | some lane => (q, lane)
  | none =>
    ({ q with
      lanes := JsMap.set q.lanes projectId q.heap.length
      heap := q.heap ++ [{ items := [], running := false }] }, q.heap.length)

/-- `enqueue`, and whether the notification was admitted. -/
def enqueue (q : ProjectOrderedQueue) (n : HostNotification) : ProjectOrderedQueue × Bool :=
  let (q, ref) := q.laneOf n.projectId
  match q.heap[ref]? with
  | none => (q, false)
  | some lane =>
    if q.capacity ≤ lane.items.length then ({ q with refused := q.refused ++ [n] }, false)
    else
      ({ q with
        heap := q.heap.set ref { items := lane.items ++ [n], running := true }
        accepted := q.accepted ++ [n]
        drains :=
          if lane.running then q.drains
          else q.drains ++ [{ projectId := n.projectId, lane := ref, phase := .queued }] }, true)

/-- The head of the loop of `drain`, up to its await; with nothing to do, its `finally`. -/
def turn (q : ProjectOrderedQueue) (k : Nat) (d : Drain) : ProjectOrderedQueue :=
  match q.heap[d.lane]? with
  | none => q
  | some lane =>
    match lane.items with
    | n :: rest =>
      { q with
        heap := q.heap.set d.lane { lane with items := rest }
        drains := q.drains.set k { d with phase := .delivering n }
        received := q.received ++ [n] }
    | [] =>
      { q with
        heap := q.heap.set d.lane { lane with running := false }
        drains := q.drains.set k { d with phase := .ended }
        lanes :=
          if JsMap.get? q.lanes d.projectId = some d.lane then JsMap.erase q.lanes d.projectId
          else q.lanes }

/-- The microtask of a queued drain. -/
def start (q : ProjectOrderedQueue) (k : Nat) : ProjectOrderedQueue :=
  match q.drains[k]? with
  | none => q
  | some d =>
    match d.phase with
    | .queued => q.turn k d
    | _ => q

/-- The notification that a drain is delivering. -/
def delivering? (q : ProjectOrderedQueue) (k : Nat) : Option HostNotification :=
  match q.drains[k]? with
  | none => none
  | some d =>
    match d.phase with
    | .delivering n => some n
    | _ => none

/-- The awaited delivery of a drain has ended. -/
def delivered (q : ProjectOrderedQueue) (k : Nat) : ProjectOrderedQueue :=
  match q.drains[k]? with
  | none => q
  | some d =>
    match d.phase with
    | .delivering _ => q.turn k d
    | _ => q

/-- The first queued call of the adapter's `refreshRequired` is made. -/
def refresh (q : ProjectOrderedQueue) : ProjectOrderedQueue :=
  match q.refreshing with
  | [] => q
  | n :: rest => { q with refreshing := rest, refreshed := q.refreshed ++ [n] }

end ProjectOrderedQueue

/-- A durable adapter; `offering` are its queued microtasks, `offered` the calls of `deliver`. -/
structure DurableAdapter where
  adapter : HostNotificationDeliveryAdapter
  offering : List HostNotification
  offered : List HostNotification

/-- A `HostNotificationDispatcher`, with the log of its publications and diagnostics. -/
structure HostNotificationDispatcher where
  queues : List ProjectOrderedQueue
  durableAdapters : List DurableAdapter
  published : List HostNotification
  diagnostics : List HostNotificationDiagnostic

namespace HostNotificationDispatcher

/-- `queueCapacity` of the constructor. -/
def queueCapacity (configured : Option Nat) : Nat := max 1 (min (configured.getD 256) 4096)

/-- The first adapter of each consumer. -/
def firstOfEach : List HostNotificationConsumer → List HostNotificationDeliveryAdapter →
    List HostNotificationDeliveryAdapter
  | _, [] => []
  | seen, adapter :: rest =>
    if adapter.consumer ∈ seen then firstOfEach seen rest
    else adapter :: firstOfEach (adapter.consumer :: seen) rest

def create (adapters : List HostNotificationDeliveryAdapter) (configured : Option Nat) :
    HostNotificationDispatcher where
  queues := ((firstOfEach [] adapters).filter (!·.durable)).map
    (.create · (queueCapacity configured))
  durableAdapters := ((firstOfEach [] adapters).filter (·.durable)).map fun adapter =>
    { adapter := adapter, offering := [], offered := [] }
  published := []
  diagnostics := []

/-- A queue's turn in the fanout, and the diagnostics of it. -/
def fanout (n : HostNotification) (q : ProjectOrderedQueue) :
    ProjectOrderedQueue × List HostNotificationDiagnostic :=
  if q.adapter.consumer ∈ n.consumers then
    let (q', admitted) := q.enqueue n
    if admitted then (q', [])
    else
      (q'.refreshRequired n, [{
        code := .queueOverflow
        notification := n
        consumer := q.adapter.consumer }])
  else (q, [])

/-- A durable adapter's turn in the fanout. -/
def offer (n : HostNotification) (d : DurableAdapter) : DurableAdapter :=
  if d.adapter.consumer ∈ n.consumers then { d with offering := d.offering ++ [n] } else d

/-- `publishValidated`, from the notification on. -/
def publish (s : HostNotificationDispatcher) (projectId : String)
    (consumers : List HostNotificationConsumer) : HostNotificationDispatcher :=
  let n := { id := s.published.length, projectId := projectId, consumers := consumers }
  { queues := s.queues.map fun q => (fanout n q).1
    durableAdapters := s.durableAdapters.map (offer n)
    published := s.published ++ [n]
    diagnostics := s.diagnostics ++ s.queues.flatMap fun q => (fanout n q).2 }

def onQueue (s : HostNotificationDispatcher) (i : Nat)
    (f : ProjectOrderedQueue → ProjectOrderedQueue) : HostNotificationDispatcher :=
  { s with queues := s.queues.modify i f }

/-- What `onFailure` reports of a call that fails. -/
def onFailure (call : Option (HostNotification × HostNotificationConsumer)) (fails : Bool) :
    List HostNotificationDiagnostic :=
  match call with
  | none => []
  | some (n, consumer) =>
    if fails then [{ code := .consumerFailure, notification := n, consumer := consumer }] else []

/-- The awaited delivery of a drain ends; a failure is reported. -/
def delivered (s : HostNotificationDispatcher) (i k : Nat) (fails : Bool) :
    HostNotificationDispatcher :=
  { s.onQueue i (·.delivered k) with
    diagnostics := s.diagnostics ++
      onFailure ((s.queues[i]?).bind fun q =>
        (q.delivering? k).map fun n => (n, q.adapter.consumer)) fails }

/-- The first queued call of a queue's `refreshRequired` is made; a failure is reported. -/
def refresh (s : HostNotificationDispatcher) (i : Nat) (fails : Bool) :
    HostNotificationDispatcher :=
  { s.onQueue i (·.refresh) with
    diagnostics := s.diagnostics ++
      onFailure ((s.queues[i]?).bind fun q =>
        q.refreshing.head?.map fun n => (n, q.adapter.consumer)) fails }

/-- The first queued offer of a durable adapter is made. -/
def offerNext (d : DurableAdapter) : DurableAdapter :=
  match d.offering with
  | [] => d
  | n :: rest => { d with offering := rest, offered := d.offered ++ [n] }

/-- A durable adapter goes on; a failure is reported. -/
def offerDurable (s : HostNotificationDispatcher) (j : Nat) (fails : Bool) :
    HostNotificationDispatcher :=
  { s with
    durableAdapters := s.durableAdapters.modify j offerNext
    diagnostics := s.diagnostics ++
      onFailure ((s.durableAdapters[j]?).bind fun d =>
        d.offering.head?.map fun n => (n, d.adapter.consumer)) fails }

/-- What can happen to a dispatcher. -/
inductive Event
  | publish (projectId : String) (consumers : List HostNotificationConsumer)
  /-- the microtask of a queued drain -/
  | start (queue drain : Nat)
  | delivered (queue drain : Nat) (fails : Bool)
  /-- the microtask of a queued call of `refreshRequired` -/
  | refresh (queue : Nat) (fails : Bool)
  /-- the microtask of a queued offer -/
  | offer (adapter : Nat) (fails : Bool)

def step (s : HostNotificationDispatcher) : Event → HostNotificationDispatcher
  | .publish projectId consumers => s.publish projectId consumers
  | .start i k => s.onQueue i (·.start k)
  | .delivered i k fails => s.delivered i k fails
  | .refresh i fails => s.refresh i fails
  | .offer j fails => s.offerDurable j fails

end HostNotificationDispatcher

end Bobbit.Server
