import Bobbit.Spec.ChannelIndexCorrect

/-!
# Delivery of a channel's frames

A handler's frame goes to an attached client at once, or waits in its queue while the
client is attaching or drains by hand. The queue is flushed in the background, and
nothing keeps a new frame from being handed over during the flush.

Key results:

- `delivered_in_order_iff`: what was delivered and what is queued are the frames sent
  since the client attached, and a queue that drains by itself has a flush under way,
  in exactly the runs in which no frame meets a direct client with a queue and no
  client gets direct with one.
- `direct_frame_overtakes_queue`: such a run.
-/

namespace Bobbit.Server

open Lib

/-! ## The property -/

/-- The frames for an attachment among the accepted ones, from a place on. -/
def sentTo (accepted : List (SentFrame × List Nat)) (attachment since : Nat) : List SentFrame :=
  ((accepted.drop since).filter (attachment ∈ ·.2)).map (·.1)

/-- The attachments that a caller of `completeAttach` still visits. -/
def AttachCaller.rest : AttachCaller → List Nat
  | .attach => []
  | .pendingAttaches rest => rest

namespace Task

/-- A continuation that leads to the end of an attach. -/
def Completes (attachment : Nat) : Task → Prop
  | .opening => True
  | .onAttach a caller => a = attachment ∨ attachment ∈ caller.rest
  | .flush _ _ caller => attachment ∈ caller.rest
  | _ => False

/-- A continuation that hands over what is queued. -/
def Flushes (attachment : Nat) : Task → Prop
  | .flush a _ _ => a = attachment
  | _ => False

end Task

namespace ChannelRecord

/-- Delivery to one client is in order and loses nothing. -/
structure InOrder (r : ChannelRecord) (attachment : Nat) (client : ClientAttachment) : Prop where
  /-- what was delivered and what is queued is what was sent -/
  frames : client.delivered ++ client.queuedFrames = sentTo r.accepted attachment client.since
  /-- an attach gets to its end, unless the channel is about to close -/
  attached : client.attaching = true → r.state = .closing ∨ ∃ task ∈ r.tasks, task.Completes attachment
  /-- a queue that drains by itself is being flushed -/
  flushed : client.isDirect = true → client.queuedFrames = [] ∨ ∃ task ∈ r.tasks, task.Flushes attachment

/-- Delivery to every client of a channel that is not closed. -/
def DeliversInOrder (r : ChannelRecord) : Prop :=
  r.state ≠ .closed → ∀ clientId attachment client, r.clients.get? clientId = some attachment →
    r.attachments[attachment]? = some client → r.InOrder attachment client

/-- A frame is accepted only when those who get it directly have nothing queued. -/
def SendReady (r : ChannelRecord) (attachments : List Nat) (frame : HostChannelFrame) : Prop :=
  r.acceptsFrame frame → r.hasCapacity attachments (frameByteLength frame) →
    ∀ attachment ∈ attachments, ∀ client, r.attachments[attachment]? = some client →
      client.isDirect → client.queuedFrames = []

/-- A client that is attached gets a direct sink only when it has nothing queued, or
    its queue is being flushed. -/
def AttachReady (r : ChannelRecord) (clientId : String) (sink : Option ClientSink) : Prop :=
  r.state ≠ .closed → r.state ≠ .closing → ∀ attachment client,
    r.clients.get? clientId = some attachment → r.attachments[attachment]? = some client →
      (client.reattach sink).isDirect →
        client.queuedFrames = [] ∨ ∃ task ∈ r.tasks, task.Flushes attachment

end ChannelRecord

namespace ChannelRegistry

def DeliversInOrder (s : ChannelRegistry) : Prop := ∀ r ∈ s.records, r.DeliversInOrder

/-- The attach of an `open` that reuses a channel. -/
def OpenReady (s : ChannelRegistry) (req : OpenRequest) : Prop :=
  ∀ number r clientId, s.existing req = some number → s.records[number]? = some r →
    req.clientId.filter (· ≠ "") = some clientId → r.AttachReady clientId req.client

/-- No frame and no sink overtakes a queue. -/
def KeepsOrder (s : ChannelRegistry) : Event → Prop
  | .opens req _ => s.OpenReady req
  | .attach sessionId packId channelId clientId client => ∀ number r,
    s.inScope sessionId packId channelId = some number → s.records[number]? = some r →
      r.AttachReady clientId client
  | .sendFromHandler channelId frame => ∀ r, s.channel channelId = some r →
    r.SendReady r.clientNumbers frame
  | .sendFromHandlerTo channelId clientId frame => ∀ r attachment, s.channel channelId = some r →
    r.clients.get? clientId = some attachment → r.SendReady [attachment] frame
  | _ => True

end ChannelRegistry

/-! ## Operations that hand nothing over -/

namespace ClientAttachment

/-- An attachment without its counters. -/
def view (client : ClientAttachment) : ClientAttachment :=
  { client with queuedBytes := 0, inFlightFrames := 0, inFlightBytes := 0 }

variable {c c' : ClientAttachment}

theorem clientId_eq (h : c'.view = c.view) : c'.clientId = c.clientId :=
  congrArg (·.clientId) h

theorem since_eq (h : c'.view = c.view) : c'.since = c.since :=
  congrArg (·.since) h

theorem delivered_eq (h : c'.view = c.view) : c'.delivered = c.delivered :=
  congrArg (·.delivered) h

theorem queuedFrames_eq (h : c'.view = c.view) : c'.queuedFrames = c.queuedFrames :=
  congrArg (·.queuedFrames) h

theorem attaching_eq (h : c'.view = c.view) : c'.attaching = c.attaching :=
  congrArg (·.attaching) h

theorem isDirect_eq (h : c'.view = c.view) : c'.isDirect = c.isDirect :=
  show c'.view.isDirect = c.view.isDirect from congrArg _ h

end ClientAttachment

namespace ChannelRecord

/-- Nothing that delivery depends on changes, except for clients that go, tasks that
    come and what happens to one attachment. -/
structure Kept (exempt : Option Nat) (r r' : ChannelRecord) : Prop where
  accepted : r'.accepted = r.accepted
  handler : r'.handler = r.handler
  state : r'.state = r.state ∨ r'.state = .closing
  nodup : (JsMap.keys r.clients).Nodup → (JsMap.keys r'.clients).Nodup
  clients : ∀ clientId attachment, r'.clients.get? clientId = some attachment →
    r.clients.get? clientId = some attachment
  views : ∀ clientId attachment, r'.clients.get? clientId = some attachment →
    some attachment ≠ exempt →
    (r'.attachments[attachment]?).map (·.view) = (r.attachments[attachment]?).map (·.view)
  clientIds : ∀ attachment : Nat,
    (r'.attachments[attachment]?).map (·.clientId) = (r.attachments[attachment]?).map (·.clientId)
  tasks : ∀ task ∈ r.tasks, task ∈ r'.tasks
  closeClients : ∀ attachments, Task.closeClients attachments ∈ r'.tasks →
    Task.closeClients attachments ∈ r.tasks

namespace Kept

variable {r r' r'' : ChannelRecord} {exempt : Option Nat}

theorem refl (exempt : Option Nat) (r : ChannelRecord) : Kept exempt r r :=
  ⟨rfl, rfl, .inl rfl, fun h => h, fun _ _ h => h, fun _ _ _ _ => rfl, fun _ => rfl,
    fun _ h => h, fun _ h => h⟩

theorem trans (h : Kept exempt r r') (h' : Kept exempt r' r'') : Kept exempt r r'' where
  accepted := h'.accepted.trans h.accepted
  handler := h'.handler.trans h.handler
  state := by
    rcases h'.state with heq | hclosing
    · rw [heq]
      exact h.state
    · exact .inr hclosing
  nodup hnodup := h'.nodup (h.nodup hnodup)
  clients clientId attachment hget := h.clients _ _ (h'.clients clientId attachment hget)
  views clientId attachment hget hne := (h'.views clientId attachment hget hne).trans
    (h.views clientId attachment (h'.clients _ _ hget) hne)
  clientIds attachment := (h'.clientIds attachment).trans (h.clientIds attachment)
  tasks task htask := h'.tasks task (h.tasks task htask)
  closeClients attachments htask := h.closeClients _ (h'.closeClients attachments htask)

/-- Keeping everything is more than keeping all but an attachment. -/
theorem weaken (h : Kept none r r') (exempt : Option Nat) : Kept exempt r r' :=
  { h with views := fun clientId attachment hget _ => h.views clientId attachment hget (by simp) }

end Kept

variable (r : ChannelRecord)

theorem getElem?_update (attachment : Nat) (f : ClientAttachment → ClientAttachment) (a : Nat) :
    (r.update attachment f).attachments[a]? =
      (r.attachments[a]?).map fun c => if attachment = a then f c else c := by
  simp only [update, List.getElem?_modify]
  cases r.attachments[a]? <;> simp

theorem kept_update (attachment : Nat) {f : ClientAttachment → ClientAttachment}
    (hf : ∀ c, r.attachments[attachment]? = some c → (f c).clientId = c.clientId) :
    Kept (some attachment) r (r.update attachment f) where
  accepted := rfl
  handler := rfl
  state := .inl rfl
  nodup h := h
  clients _ _ h := h
  views _ a _ hne := by
    have hne : attachment ≠ a := fun heq => hne (congrArg some heq.symm)
    simp [getElem?_update, hne]
  clientIds a := by
    rw [getElem?_update, Option.map_map]
    refine Option.map_congr fun c hc => ?_
    simp only [Function.comp]
    split
    · rename_i heq
      exact hf c (heq ▸ hc)
    · rfl
  tasks _ h := h
  closeClients _ h := h

theorem kept_update_view (attachment : Nat)
    {f : ClientAttachment → ClientAttachment} (hf : ∀ c, (f c).view = c.view) :
    Kept none r (r.update attachment f) :=
  { r.kept_update attachment fun c _ => ClientAttachment.clientId_eq (hf c) with
    views := fun _ a _ _ => by
      rw [getElem?_update, Option.map_map]
      refine Option.map_congr fun c _ => ?_
      simp only [Function.comp]
      split
      · exact hf c
      · rfl }

variable (exempt : Option Nat)

theorem kept_await (r : ChannelRecord) {task : Task}
    (htask : ∀ attachments, task ≠ .closeClients attachments) : Kept exempt r (r.await task) :=
  { Kept.refl exempt r with
    tasks := fun t ht => List.mem_append_left _ ht
    closeClients := fun attachments h => by
      rcases List.mem_append.mp h with h | h
      · exact h
      · exact absurd (List.mem_singleton.mp h).symm (htask attachments) }

theorem kept_deleteClient (r : ChannelRecord) (clientId : String) :
    Kept exempt r (r.deleteClient clientId) :=
  { Kept.refl exempt r with
    nodup := fun h => JsMap.nodup_erase h clientId
    clients := fun id attachment h => by
      simp only [deleteClient, JsMap.get?_erase] at h
      split at h
      · cases h
      · exact h
    views := fun _ _ _ _ => rfl }

theorem kept_removeClientAccounting (attachment : Nat) :
    Kept (some attachment) r (r.removeClientAccounting attachment) := by
  unfold removeClientAccounting
  split
  · exact .refl _ r
  · have h := r.kept_update attachment (f := (·.cleared)) fun _ _ => rfl
    exact ⟨h.accepted, h.handler, h.state, h.nodup, h.clients, h.views, h.clientIds, h.tasks,
      h.closeClients⟩

theorem kept_settleFrame (attachment bytes : Nat) :
    Kept none r (r.settleFrame attachment bytes) := by
  unfold settleFrame
  split
  · exact .refl _ r
  · split
    · have h := r.kept_update_view attachment (f := fun client =>
        { client with
          inFlightFrames := client.inFlightFrames - 1
          inFlightBytes := client.inFlightBytes - bytes }) fun _ => rfl
      exact ⟨h.accepted, h.handler, h.state, h.nodup, h.clients, h.views, h.clientIds, h.tasks,
        h.closeClients⟩
    · exact .refl _ r

theorem kept_closeInternal (r : ChannelRecord) : Kept exempt r r.closeInternal := by
  unfold closeInternal
  split
  · exact .refl _ r
  · have hclosing : Kept exempt r { r with state := .closing } :=
      { Kept.refl exempt r with state := .inr rfl }
    exact hclosing.trans (kept_await _ _ (by simp))

theorem kept_completePendingAttaches (r : ChannelRecord)
    (attachments : List Nat) : Kept exempt r (r.completePendingAttaches attachments) := by
  induction attachments with
  | nil => exact .refl _ r
  | cons attachment rest ih =>
    unfold completePendingAttaches
    split
    · exact kept_await _ _ (by simp)
    · exact ih

theorem kept_attachCompleted (r : ChannelRecord) (caller : AttachCaller) :
    Kept exempt r (r.attachCompleted caller) := by
  cases caller with
  | attach => exact .refl _ r
  | pendingAttaches rest => exact r.kept_completePendingAttaches exempt rest

/-! ## The invariant -/

/-- The clients of a channel have attachments of their own, with what was sent since. -/
structure Fifo (r : ChannelRecord) : Prop where
  nodup : (JsMap.keys r.clients).Nodup
  attached : ∀ clientId attachment, r.clients.get? clientId = some attachment →
    ∃ client, r.attachments[attachment]? = some client ∧ client.clientId = clientId ∧
      client.since ≤ r.accepted.length ∧
        client.delivered ++ client.queuedFrames = sentTo r.accepted attachment client.since
  numbered : ∀ (i : Nat) (entry : SentFrame × List Nat), r.accepted[i]? = some entry → entry.1.1 = i

/-- What clients wait for is under way, but for the flush of one attachment and the
    attaches of some. -/
def Awaited (exempt : Option Nat) (rest : List Nat) (r : ChannelRecord) : Prop :=
  ∀ clientId attachment client, r.clients.get? clientId = some attachment →
    r.attachments[attachment]? = some client →
      (client.attaching = true → r.state = .closing ∨ attachment ∈ rest ∨
        ∃ task ∈ r.tasks, task.Completes attachment) ∧
      (client.isDirect = true → client.queuedFrames = [] ∨ some attachment = exempt ∨
        ∃ task ∈ r.tasks, task.Flushes attachment)

/-- The invariant of a channel that is not closed. -/
structure DeliveryInv (exempt : Option Nat) (rest : List Nat) (r : ChannelRecord) : Prop where
  fifo : Fifo r
  awaited : Awaited exempt rest r
  opening : r.handler = false → r.state = .closing ∨ Task.opening ∈ r.tasks
  notClosing : ∀ attachments, Task.closeClients attachments ∉ r.tasks

theorem DeliveryInv.inOrder {r : ChannelRecord} (h : DeliveryInv none [] r) : r.DeliversInOrder := by
  intro _ clientId attachment client hget hclient
  obtain ⟨c, hc, -, -, hframes⟩ := h.fifo.attached clientId attachment hget
  rw [hclient] at hc
  cases hc
  have hawaited := h.awaited clientId attachment client hget hclient
  refine ⟨hframes, fun hattaching => ?_, fun hdirect => ?_⟩
  · simpa using hawaited.1 hattaching
  · simpa using hawaited.2 hdirect

section

variable {r r' : ChannelRecord} {exempt : Option Nat} {rest : List Nat}

variable {clientId : String} {attachment : Nat} {client : ClientAttachment}

theorem Kept.get_client (h : Kept exempt r r')
    (hget : r'.clients.get? clientId = some attachment) (hne : some attachment ≠ exempt)
    (hclient : r'.attachments[attachment]? = some client) :
    ∃ c, r.attachments[attachment]? = some c ∧ client.view = c.view := by
  have hview := h.views clientId attachment hget hne
  rw [hclient, Option.map_some, eq_comm, Option.map_eq_some_iff] at hview
  obtain ⟨c, hc, hview⟩ := hview
  exact ⟨c, hc, hview.symm⟩

theorem Kept.fifo (h : Kept none r r') (hfifo : Fifo r) : Fifo r' where
  nodup := h.nodup hfifo.nodup
  attached clientId attachment hget := by
    obtain ⟨c, hc, hid, hsince, hframes⟩ := hfifo.attached _ _ (h.clients _ _ hget)
    have hview := h.views clientId attachment hget (by simp)
    rw [hc, Option.map_some, Option.map_eq_some_iff] at hview
    obtain ⟨c', hc', hview⟩ := hview
    refine ⟨c', hc', ?_, ?_, ?_⟩
    · rw [ClientAttachment.clientId_eq hview, hid]
    · rw [ClientAttachment.since_eq hview, h.accepted]
      exact hsince
    · rw [ClientAttachment.delivered_eq hview, ClientAttachment.queuedFrames_eq hview,
        ClientAttachment.since_eq hview, h.accepted, hframes]
  numbered i entry hentry := hfifo.numbered i entry (h.accepted ▸ hentry)

theorem Kept.closing (h : Kept exempt r r') (hstate : r.state = .closing) : r'.state = .closing := by
  rcases h.state with heq | hclosing
  · rw [heq, hstate]
  · exact hclosing

theorem Kept.awaited (h : Kept none r r') (hawaited : Awaited exempt rest r) :
    Awaited exempt rest r' := by
  intro clientId attachment client hget hclient
  obtain ⟨c, hc, hview⟩ := h.get_client hget (by simp) hclient
  obtain ⟨hattach, hflush⟩ := hawaited clientId attachment c (h.clients _ _ hget) hc
  constructor
  · intro hattaching
    rw [ClientAttachment.attaching_eq hview] at hattaching
    rcases hattach hattaching with hstate | hrest | ⟨task, htask, hcompletes⟩
    · exact .inl (h.closing hstate)
    · exact .inr (.inl hrest)
    · exact .inr (.inr ⟨task, h.tasks task htask, hcompletes⟩)
  · intro hdirect
    rw [ClientAttachment.isDirect_eq hview] at hdirect
    rw [ClientAttachment.queuedFrames_eq hview]
    rcases hflush hdirect with hempty | hexempt | ⟨task, htask, hflushes⟩
    · exact .inl hempty
    · exact .inr (.inl hexempt)
    · exact .inr (.inr ⟨task, h.tasks task htask, hflushes⟩)

theorem Kept.opening (h : Kept exempt r r')
    (hopening : r.handler = false → r.state = .closing ∨ Task.opening ∈ r.tasks)
    (hhandler : r'.handler = false) : r'.state = .closing ∨ Task.opening ∈ r'.tasks := by
  rcases hopening (h.handler ▸ hhandler) with hstate | htask
  · exact .inl (h.closing hstate)
  · exact .inr (h.tasks _ htask)

/-- Operations that keep everything keep the invariant. -/
theorem Kept.inv (h : Kept none r r') (hinv : DeliveryInv exempt rest r) :
    DeliveryInv exempt rest r' where
  fifo := h.fifo hinv.fifo
  awaited := h.awaited hinv.awaited
  opening := h.opening hinv.opening
  notClosing attachments htask := hinv.notClosing attachments (h.closeClients _ htask)

/-! ## Clients that go -/

/-- When its client goes, what happened to an attachment does not matter. -/
theorem Kept.deleteClient (h : Kept (some attachment) r r') (hfifo : Fifo r)
    (hid : ∀ client, r.attachments[attachment]? = some client → client.clientId = clientId) :
    Kept none r (r'.deleteClient clientId) ∧
      ∀ id, (r'.deleteClient clientId).clients.get? id ≠ some attachment := by
  have hdeleted := h.trans (r'.kept_deleteClient (some attachment) clientId)
  have hgone : ∀ id, (r'.deleteClient clientId).clients.get? id ≠ some attachment := by
    intro id hget
    obtain ⟨c, hc, hcid, -⟩ := hfifo.attached id attachment (hdeleted.clients _ _ hget)
    have heq : id = clientId := hcid.symm.trans (hid c hc)
    simp [ChannelRecord.deleteClient, JsMap.get?_erase, heq] at hget
  refine ⟨{ hdeleted with views := fun id a hget _ => hdeleted.views id a hget ?_ }, hgone⟩
  rintro ⟨⟩
  exact hgone id hget

/-- A failed attach takes its client out, and what happened to its attachment with it. -/
theorem Kept.attachFailed (h : Kept (some attachment) r r') (hfifo : Fifo r)
    (caller : AttachCaller) :
    Kept none r (r'.attachFailed attachment caller) ∧
      ∀ id, (r'.attachFailed attachment caller).clients.get? id ≠ some attachment := by
  have hid : ∀ client, r.attachments[attachment]? = some client →
      client.clientId = ((r'.attachments[attachment]?).map (·.clientId)).getD "" := by
    intro client hclient
    rw [h.clientIds, hclient]
    rfl
  have hremoved := (h.trans (r'.kept_removeClientAccounting attachment)).deleteClient hfifo hid
  cases caller with
  | attach => exact hremoved
  | pendingAttaches rest =>
    have hclosed := kept_closeInternal none ((r'.removeClientAccounting attachment).deleteClient
      (((r'.attachments[attachment]?).map (·.clientId)).getD ""))
    exact ⟨hremoved.1.trans hclosed, fun id hget => hremoved.2 id (hclosed.clients _ _ hget)⟩

theorem kept_detachInternal (hfifo : Fifo r) (clientId : String) :
    Kept none r (r.detachInternal clientId) := by
  unfold detachInternal
  split
  · exact .refl _ r
  · rename_i attachment hget
    refine ((r.kept_removeClientAccounting attachment).deleteClient hfifo fun c hc => ?_).1
    obtain ⟨client, hclient, hid, -⟩ := hfifo.attached clientId attachment hget
    rw [hc] at hclient
    cases hclient
    exact hid

/-! ## Attaches that complete -/

theorem closeInternal_state (hstate : r.state ≠ .closed) : r.closeInternal.state = .closing := by
  unfold closeInternal
  rw [if_neg hstate]
  rfl

/-- The loop of `completePendingAttaches` takes care of the attachments it is given. -/
theorem awaited_completePendingAttaches (h : Awaited exempt rest r) :
    Awaited exempt [] (r.completePendingAttaches rest) := by
  induction rest with
  | nil => exact h
  | cons next rest ih =>
    unfold completePendingAttaches
    split
    · intro clientId attachment client hget hclient
      obtain ⟨hattach, hflush⟩ := h clientId attachment client hget hclient
      constructor
      · intro hattaching
        rcases hattach hattaching with hstate | hrest | ⟨task, htask, hcompletes⟩
        · exact .inl hstate
        · refine .inr (.inr ⟨_, List.mem_append_right _ (List.mem_singleton_self _), ?_⟩)
          rcases List.mem_cons.mp hrest with rfl | hrest
          · exact .inl rfl
          · exact .inr hrest
        · exact .inr (.inr ⟨task, List.mem_append_left _ htask, hcompletes⟩)
      · intro hdirect
        rcases hflush hdirect with hempty | hexempt | ⟨task, htask, hflushes⟩
        · exact .inl hempty
        · exact .inr (.inl hexempt)
        · exact .inr (.inr ⟨task, List.mem_append_left _ htask, hflushes⟩)
    · rename_i hnot
      refine ih fun clientId attachment client hget hclient => ?_
      obtain ⟨hattach, hflush⟩ := h clientId attachment client hget hclient
      refine ⟨fun hattaching => ?_, hflush⟩
      rcases hattach hattaching with hstate | hrest | htask
      · exact .inl hstate
      · rcases List.mem_cons.mp hrest with rfl | hrest
        · simp [hclient, hattaching] at hnot
        · exact .inr (.inl hrest)
      · exact .inr (.inr htask)

theorem Awaited.weaken {rest' : List Nat} (h : Awaited exempt rest r)
    (hrest : ∀ attachment ∈ rest, attachment ∈ rest') : Awaited exempt rest' r := by
  intro clientId attachment client hget hclient
  obtain ⟨hattach, hflush⟩ := h clientId attachment client hget hclient
  exact ⟨fun hattaching => (hattach hattaching).imp_right (Or.imp_left (hrest attachment)), hflush⟩

/-- An attachment without a direct queue needs no flush. -/
theorem Awaited.unexempt (h : Awaited (some attachment) rest r)
    (hempty : ∀ clientId client, r.clients.get? clientId = some attachment →
      r.attachments[attachment]? = some client → client.isDirect = true → client.queuedFrames = []) :
    Awaited none rest r := by
  intro clientId a client hget hclient
  obtain ⟨hattach, hflush⟩ := h clientId a client hget hclient
  refine ⟨hattach, fun hdirect => ?_⟩
  rcases hflush hdirect with hqueue | hexempt | htask
  · exact .inl hqueue
  · cases hexempt
    exact .inl (hempty clientId client hget hclient hdirect)
  · exact .inr (.inr htask)

variable {caller : AttachCaller}

theorem awaited_attachCompleted (h : Awaited none caller.rest r) :
    Awaited none [] (r.attachCompleted caller) := by
  cases caller with
  | attach => exact h
  | pendingAttaches rest => exact awaited_completePendingAttaches h

/-- A failed attach leaves no attachment of its own to flush; where it ends the loop
    over the pending attaches, the channel closes. -/
theorem awaited_attachFailed
    (hkept : Kept (some attachment) r r') (hfifo : Fifo r) (hstate : r'.state ≠ .closed)
    (h : Awaited (some attachment) (attachment :: caller.rest) r) :
    Awaited none [] (r'.attachFailed attachment caller) := by
  obtain ⟨hafter, hgone⟩ := hkept.attachFailed hfifo caller
  have hleft : Awaited none (attachment :: caller.rest) (r'.attachFailed attachment caller) :=
    Awaited.unexempt (hafter.awaited h) fun id _ hget => absurd hget (hgone id)
  cases caller with
  | attach =>
    intro clientId a client hget hclient
    obtain ⟨hattach, hflush⟩ := hleft clientId a client hget hclient
    refine ⟨fun hattaching => ?_, hflush⟩
    rcases hattach hattaching with hclosing | hrest | htask
    · exact .inl hclosing
    · exact absurd (List.mem_singleton.mp hrest ▸ hget) (hgone clientId)
    · exact .inr (.inr htask)
  | pendingAttaches rest =>
    intro clientId a client hget hclient
    refine ⟨fun _ => .inl ?_, (hleft clientId a client hget hclient).2⟩
    refine closeInternal_state fun hclosed => hstate ?_
    exact (r'.same_removeClientAccounting attachment).closed.mp hclosed

theorem inv_attachCompleted (caller : AttachCaller) (h : DeliveryInv none caller.rest r) :
    DeliveryInv none [] (r.attachCompleted caller) :=
  { (r.kept_attachCompleted none caller).inv h with awaited := awaited_attachCompleted h.awaited }

theorem inv_attachFailed (hkept : Kept (some attachment) r r') (hstate : r'.state ≠ .closed)
    (h : DeliveryInv (some attachment) (attachment :: caller.rest) r) :
    DeliveryInv none [] (r'.attachFailed attachment caller) :=
  { (hkept.attachFailed h.fifo caller).1.inv h with
    awaited := awaited_attachFailed hkept h.fifo hstate h.awaited }

/-! ## Flushes -/

/-- A change of an attachment that keeps its frames in order. -/
theorem Fifo.update (h : Fifo r) {f : ClientAttachment → ClientAttachment}
    (hf : ∀ c, r.attachments[attachment]? = some c → (f c).clientId = c.clientId ∧
      (f c).since = c.since ∧ (f c).delivered ++ (f c).queuedFrames = c.delivered ++ c.queuedFrames) :
    Fifo (r.update attachment f) where
  nodup := h.nodup
  attached clientId a hget := by
    obtain ⟨c, hc, hid, hsince, hframes⟩ := h.attached clientId a hget
    refine ⟨if attachment = a then f c else c, by rw [getElem?_update, hc]; rfl, ?_⟩
    split
    · rename_i heq
      obtain ⟨hfid, hfsince, hfframes⟩ := hf c (heq ▸ hc)
      rw [hfid, hfsince, hfframes]
      exact ⟨hid, hsince, hframes⟩
    · exact ⟨hid, hsince, hframes⟩
  numbered := h.numbered

/-- A frame goes from the queue to the sink, and the flush waits for it. -/
theorem inv_handedOver (bytes : Nat) {f : ClientAttachment → ClientAttachment}
    (hf : ∀ c, r.attachments[attachment]? = some c → (f c).clientId = c.clientId ∧
      (f c).since = c.since ∧ (f c).attaching = c.attaching ∧
        (f c).delivered ++ (f c).queuedFrames = c.delivered ++ c.queuedFrames)
    (h : DeliveryInv (some attachment) caller.rest r) :
    DeliveryInv none [] ((r.update attachment f).await (.flush attachment bytes caller)) := by
  have hkept : Kept (some attachment) r
      ((r.update attachment f).await (.flush attachment bytes caller)) :=
    (r.kept_update attachment fun c hc => (hf c hc).1).trans (kept_await _ _ (by simp))
  have hfifo : Fifo (r.update attachment f) := h.fifo.update fun c hc =>
    ⟨(hf c hc).1, (hf c hc).2.1, (hf c hc).2.2.2⟩
  refine ⟨⟨hfifo.nodup, hfifo.attached, hfifo.numbered⟩, ?_, hkept.opening h.opening,
    fun attachments htask => h.notClosing attachments (hkept.closeClients _ htask)⟩
  have hnew : Task.flush attachment bytes caller ∈
      ((r.update attachment f).await (.flush attachment bytes caller)).tasks :=
    List.mem_append_right _ (List.mem_singleton_self _)
  intro clientId a client hget hclient
  change (r.update attachment f).attachments[a]? = some client at hclient
  rw [getElem?_update, Option.map_eq_some_iff] at hclient
  obtain ⟨c, hc, rfl⟩ := hclient
  obtain ⟨hattach, hflush⟩ := h.awaited clientId a c hget hc
  have hattaching : (if attachment = a then f c else c).attaching = c.attaching := by
    split
    · rename_i heq
      exact (hf c (heq ▸ hc)).2.2.1
    · rfl
  rw [hattaching]
  constructor
  · intro hcattaching
    rcases hattach hcattaching with hstate | hrest | ⟨task, htask, hcompletes⟩
    · exact .inl hstate
    · exact .inr (.inr ⟨_, hnew, hrest⟩)
    · exact .inr (.inr ⟨task, hkept.tasks task htask, hcompletes⟩)
  · by_cases heq : attachment = a
    · exact fun _ => .inr (.inr ⟨_, hnew, heq⟩)
    · rw [if_neg heq]
      intro hdirect
      rcases hflush hdirect with hempty | hexempt | ⟨task, htask, hflushes⟩
      · exact .inl hempty
      · exact absurd (Option.some.inj hexempt).symm heq
      · exact .inr (.inr ⟨task, hkept.tasks task htask, hflushes⟩)

theorem inv_flushNext (hstate : r.state ≠ .closed)
    (h : DeliveryInv (some attachment) caller.rest r) :
    DeliveryInv none [] (r.flushNext attachment caller) := by
  have hcompleted (hempty : ∀ client, r.attachments[attachment]? = some client →
      client.queuedFrames = []) : DeliveryInv none [] (r.attachCompleted caller) :=
    inv_attachCompleted _ { h with
      awaited := h.awaited.unexempt fun _ client _ hclient _ => hempty client hclient }
  unfold flushNext
  split
  · rename_i hnone
    exact hcompleted fun client hclient => by rw [hnone] at hclient; cases hclient
  · rename_i client hclient
    split
    · rename_i hqueue
      exact hcompleted fun c hc => by rw [hclient] at hc; cases hc; exact hqueue
    · rename_i frame queuedFrames hqueue
      dsimp only
      split
      · refine inv_handedOver _ (fun c hc => ?_) h
        rw [hclient] at hc
        cases hc
        exact ⟨rfl, rfl, rfl, by simp [hqueue]⟩
      · have htaken := r.kept_update attachment (f := fun _ => { client with
          queuedFrames := queuedFrames
          queuedBytes := client.queuedBytes - frameByteLength frame.2
          inFlightFrames := client.inFlightFrames + 1
          inFlightBytes := client.inFlightBytes + frameByteLength frame.2 }) (by
            intro c hc
            rw [hclient] at hc
            cases hc
            rfl)
        refine inv_attachFailed (htaken.trans ((kept_settleFrame _ _ _).weaken _)) ?_ { h with
          awaited := h.awaited.weaken fun a ha => List.mem_cons_of_mem _ ha }
        intro hclosed
        exact hstate ((same_update r attachment _).closed.mp ((same_settleFrame _ _ _).closed.mp hclosed))

theorem inv_flushAutoDrainQueue (hstate : r.state ≠ .closed)
    (h : DeliveryInv (some attachment) caller.rest r) :
    DeliveryInv none [] (r.flushAutoDrainQueue attachment caller) := by
  unfold flushAutoDrainQueue
  split
  · exact inv_flushNext hstate h
  · rename_i hnot
    refine inv_attachCompleted _ { h with awaited := h.awaited.unexempt ?_ }
    intro _ client _ hclient hdirect
    simp only [hclient, Option.any_some, Bool.and_eq_true] at hnot
    simp only [ClientAttachment.isDirect, Bool.and_eq_true] at hdirect
    exact absurd ⟨hdirect.1.2, hdirect.2⟩ hnot

/-! ## Continuations -/

variable {number : Nat}

/-- A task is taken off the list: what it alone stood for is to be taken care of. -/
theorem awaited_taken {task : Task} (htask : r.tasks[number]? = some task) (h : Awaited none [] r)
    (hrest : ∀ clientId attachment, r.clients.get? clientId = some attachment →
      task.Completes attachment → attachment ∈ rest)
    (hexempt : ∀ attachment, task.Flushes attachment → some attachment = exempt) :
    Awaited exempt rest { r with tasks := r.tasks.eraseIdx number } := by
  have hleft : ∀ t ∈ r.tasks, t = task ∨ t ∈ r.tasks.eraseIdx number := by
    intro t ht
    obtain ⟨i, hi⟩ := List.mem_iff_getElem?.mp ht
    by_cases heq : i = number
    · subst heq
      rw [hi] at htask
      exact .inl (Option.some.inj htask)
    · exact .inr (List.mem_eraseIdx_iff_getElem?.mpr ⟨i, heq, hi⟩)
  intro clientId attachment client hget hclient
  obtain ⟨hattach, hflush⟩ := h clientId attachment client hget hclient
  constructor
  · intro hattaching
    rcases hattach hattaching with hstate | hnil | ⟨t, ht, hcompletes⟩
    · exact .inl hstate
    · cases hnil
    · rcases hleft t ht with rfl | ht
      · exact .inr (.inl (hrest clientId attachment hget hcompletes))
      · exact .inr (.inr ⟨t, ht, hcompletes⟩)
  · intro hdirect
    rcases hflush hdirect with hempty | hnone | ⟨t, ht, hflushes⟩
    · exact .inl hempty
    · cases hnone
    · rcases hleft t ht with rfl | ht
      · exact .inr (.inl (hexempt attachment hflushes))
      · exact .inr (.inr ⟨t, ht, hflushes⟩)

theorem inv_taken {task : Task} (htask : r.tasks[number]? = some task)
    (hopening : task ≠ .opening) (h : DeliveryInv none [] r)
    (hrest : ∀ clientId attachment, r.clients.get? clientId = some attachment →
      task.Completes attachment → attachment ∈ rest)
    (hexempt : ∀ attachment, task.Flushes attachment → some attachment = exempt) :
    DeliveryInv exempt rest { r with tasks := r.tasks.eraseIdx number } where
  fifo := ⟨h.fifo.nodup, h.fifo.attached, h.fifo.numbered⟩
  awaited := awaited_taken htask h.awaited hrest hexempt
  opening hhandler := by
    rcases h.opening hhandler with hstate | hmem
    · exact .inl hstate
    · obtain ⟨i, hi⟩ := List.mem_iff_getElem?.mp hmem
      refine .inr (List.mem_eraseIdx_iff_getElem?.mpr ⟨i, ?_, hi⟩)
      rintro rfl
      rw [hi] at htask
      exact hopening (Option.some.inj htask).symm
  notClosing attachments hmem := h.notClosing attachments (List.mem_of_mem_eraseIdx hmem)

theorem mem_clientNumbers
    (hget : r.clients.get? clientId = some attachment) : attachment ∈ r.clientNumbers :=
  List.mem_map.mpr ⟨_, JsMap.mem_of_get? hget, rfl⟩

theorem inv_opening (ok : Bool) (htask : r.tasks[number]? = some .opening)
    (hstate : r.state ≠ .closed) (h : DeliveryInv none [] r) :
    DeliveryInv none [] (ChannelRegistry.resumeTask .opening number ok r) := by
  have hawaited : Awaited none r.clientNumbers { r with tasks := r.tasks.eraseIdx number } :=
    awaited_taken htask h.awaited (fun _ _ hget _ => mem_clientNumbers hget) fun _ => False.elim
  have hfifo : Fifo { r with tasks := r.tasks.eraseIdx number } :=
    ⟨h.fifo.nodup, h.fifo.attached, h.fifo.numbered⟩
  have hclosing : ∀ attachments, Task.closeClients attachments ∉ r.tasks.eraseIdx number :=
    fun attachments hmem => h.notClosing attachments (List.mem_of_mem_eraseIdx hmem)
  cases ok with
  | true =>
    change DeliveryInv none [] (handlerOpened { r with tasks := r.tasks.eraseIdx number })
    rw [handlerOpened, if_neg hstate]
    refine inv_attachCompleted (.pendingAttaches r.clientNumbers) ?_
    refine ⟨⟨hfifo.nodup, hfifo.attached, hfifo.numbered⟩, ?_, fun hhandler => (by cases hhandler),
      hclosing⟩
    intro clientId attachment client hget hclient
    exact ⟨fun _ => .inr (.inl (mem_clientNumbers hget)),
      (hawaited clientId attachment client hget hclient).2⟩
  | false =>
    have hkept := kept_closeInternal none { r with tasks := r.tasks.eraseIdx number }
    have hafter : (closeInternal { r with tasks := r.tasks.eraseIdx number }).state = .closing :=
      closeInternal_state hstate
    refine ⟨hkept.fifo hfifo, ?_, fun _ => .inl hafter, fun attachments htask =>
      hclosing attachments (hkept.closeClients attachments htask)⟩
    intro clientId attachment client hget hclient
    exact ⟨fun _ => .inl hafter, (hkept.awaited hawaited clientId attachment client hget hclient).2⟩

theorem inv_onAttach (ok : Bool)
    (htask : r.tasks[number]? = some (.onAttach attachment caller)) (hstate : r.state ≠ .closed)
    (h : DeliveryInv none [] r) :
    DeliveryInv none [] (ChannelRegistry.resumeTask (.onAttach attachment caller) number ok r) := by
  have htaken : DeliveryInv (some attachment) (attachment :: caller.rest)
      { r with tasks := r.tasks.eraseIdx number } :=
    inv_taken htask (by simp) h (fun _ a _ hcompletes => by
      rcases hcompletes with rfl | hrest
      · exact List.mem_cons_self
      · exact List.mem_cons_of_mem _ hrest) fun _ => False.elim
  cases ok with
  | true =>
    refine inv_flushAutoDrainQueue hstate ?_
    have hkept := kept_update { r with tasks := r.tasks.eraseIdx number } attachment
      (f := ({ · with attaching := false })) fun _ _ => rfl
    refine ⟨htaken.fifo.update fun _ _ => ⟨rfl, rfl, rfl⟩, ?_, hkept.opening htaken.opening,
      fun attachments hmem => htaken.notClosing attachments (hkept.closeClients _ hmem)⟩
    intro clientId a client hget hclient
    rw [getElem?_update, Option.map_eq_some_iff] at hclient
    obtain ⟨c, hc, rfl⟩ := hclient
    obtain ⟨hattach, hflush⟩ := htaken.awaited clientId a c hget hc
    by_cases heq : attachment = a
    · simp only [if_pos heq]
      exact ⟨fun hattaching => (by cases hattaching), fun _ => .inr (.inl (congrArg some heq.symm))⟩
    · simp only [if_neg heq]
      refine ⟨fun hattaching => ?_, hflush⟩
      rcases hattach hattaching with hclosing | hrest | htask
      · exact .inl hclosing
      · rcases List.mem_cons.mp hrest with rfl | hrest
        · exact absurd rfl heq
        · exact .inr (.inl hrest)
      · exact .inr (.inr htask)
  | false => exact inv_attachFailed (.refl _ _) hstate htaken

theorem inv_resumeTask {task : Task} (ok : Bool) (htask : r.tasks[number]? = some task)
    (hne : task ≠ .closing) (hstate : r.state ≠ .closed) (h : DeliveryInv none [] r) :
    DeliveryInv none [] (ChannelRegistry.resumeTask task number ok r) := by
  have hplain (hopening : task ≠ .opening) (hcompletes : ∀ a, ¬ task.Completes a)
      (hflushes : ∀ a, ¬ task.Flushes a) :
      DeliveryInv none [] { r with tasks := r.tasks.eraseIdx number } :=
    inv_taken htask hopening h (fun _ a _ hc => absurd hc (hcompletes a)) fun a hf =>
      absurd hf (hflushes a)
  cases task with
  | closing => exact absurd rfl hne
  | opening => exact inv_opening ok htask hstate h
  | onAttach attachment caller => exact inv_onAttach ok htask hstate h
  | flush attachment bytes caller =>
    have htaken : DeliveryInv (some attachment) caller.rest
        { r with tasks := r.tasks.eraseIdx number } :=
      inv_taken htask (by simp) h (fun _ _ _ hc => hc) fun _ heq => congrArg some (Eq.symm heq)
    have hkept := kept_settleFrame { r with tasks := r.tasks.eraseIdx number } attachment bytes
    have hsettled : (settleFrame { r with tasks := r.tasks.eraseIdx number } attachment
        bytes).state ≠ .closed :=
      fun hclosed => hstate ((same_settleFrame { r with tasks := r.tasks.eraseIdx number } _
        _).closed.mp hclosed)
    cases ok with
    | true => exact inv_flushNext hsettled (hkept.inv htaken)
    | false =>
      refine inv_attachFailed (hkept.weaken _) hsettled { htaken with
        awaited := htaken.awaited.weaken fun a ha => List.mem_cons_of_mem _ ha }
  | delivery attachment bytes =>
    have htaken := hplain (by simp) (fun _ h => h) fun _ h => h
    cases ok with
    | true => exact (kept_settleFrame _ _ _).inv htaken
    | false =>
      exact ((kept_detachInternal htaken.fifo _).trans (kept_await _ _ (by simp))).inv htaken
  | detaching attachment bytes =>
    exact (kept_settleFrame _ _ _).inv (hplain (by simp) (fun _ h => h) fun _ h => h)
  | closeClients attachments =>
    exact absurd (List.mem_of_getElem? htask) (h.notClosing attachments)

/-! ## Attaches -/

theorem sentTo_length (accepted : List (SentFrame × List Nat)) (attachment : Nat) :
    sentTo accepted attachment accepted.length = [] := by
  simp [sentTo]

/-- A client that is not attached gets an attachment of its own. -/
theorem fifo_attach (h : Fifo r) (clientId : String) (sink : Option ClientSink) :
    Fifo { r with
      attachments := r.attachments ++ [ClientAttachment.new clientId sink r.accepted.length]
      clients := r.clients.set clientId r.attachments.length } where
  nodup := JsMap.nodup_set h.nodup _ _
  attached id a hget := by
    simp only [JsMap.get?_set] at hget
    split at hget
    · rename_i heq
      cases hget
      refine ⟨_, List.getElem?_concat_length, heq.symm, Nat.le_refl _, ?_⟩
      exact (sentTo_length r.accepted r.attachments.length).symm
    · obtain ⟨c, hc, hrest⟩ := h.attached id a hget
      refine ⟨c, ?_, hrest⟩
      rw [List.getElem?_append_left (List.getElem?_eq_some_iff.mp hc).1]
      exact hc
  numbered := h.numbered

theorem awaited_attach (h : Awaited none [] r) (hfifo : Fifo r) (clientId : String)
    (sink : Option ClientSink) :
    Awaited none [r.attachments.length] { r with
      attachments := r.attachments ++ [ClientAttachment.new clientId sink r.accepted.length]
      clients := r.clients.set clientId r.attachments.length } := by
  intro id a client hget hclient
  simp only [JsMap.get?_set] at hget
  split at hget
  · cases hget
    rw [List.getElem?_concat_length] at hclient
    cases hclient
    exact ⟨fun _ => .inr (.inl (List.mem_singleton_self _)), fun _ => .inl rfl⟩
  · obtain ⟨c, hc, -⟩ := hfifo.attached id a hget
    rw [List.getElem?_append_left (List.getElem?_eq_some_iff.mp hc).1, hc] at hclient
    cases hclient
    have hweak : Awaited none [r.attachments.length] r := h.weaken fun _ hnil => (by cases hnil)
    exact hweak id a _ hget hc

/-- A client that is attached gets a sink that does not overtake its queue. -/
theorem inv_reattach (h : DeliveryInv none [] r) {sink : Option ClientSink}
    (hready : ∀ client, r.attachments[attachment]? = some client → (client.reattach sink).isDirect →
      client.queuedFrames = [] ∨ ∃ task ∈ r.tasks, task.Flushes attachment) :
    DeliveryInv none [] (r.update attachment (·.reattach sink)) where
  fifo := h.fifo.update fun _ _ => ⟨rfl, rfl, rfl⟩
  awaited := by
    intro id a client hid hclient
    rw [getElem?_update, Option.map_eq_some_iff] at hclient
    obtain ⟨c, hc, rfl⟩ := hclient
    obtain ⟨hattach, hflush⟩ := h.awaited id a c hid hc
    split
    · rename_i heq
      subst heq
      exact ⟨hattach, fun hdirect => (hready c hc hdirect).imp_right .inr⟩
    · exact ⟨hattach, hflush⟩
  opening := h.opening
  notClosing := h.notClosing

/-- `attachInternal`, while the handler is there or `open` waits for it. -/
theorem inv_attachInternal (h : DeliveryInv none [] r)
    {sink : Option ClientSink} (hready : r.AttachReady clientId sink) :
    DeliveryInv none [] (r.attachInternal clientId sink) := by
  unfold attachInternal
  split
  · exact h
  · rename_i hstate
    rw [not_or] at hstate
    split
    · rename_i attachment hget
      exact inv_reattach h fun client hclient =>
        hready hstate.1 hstate.2 attachment client hget hclient
    · dsimp only
      have hfifo := fifo_attach h.fifo clientId sink
      have hawaited := awaited_attach h.awaited h.fifo clientId sink
      split
      · refine ⟨⟨hfifo.nodup, hfifo.attached, hfifo.numbered⟩, ?_, ?_, ?_⟩
        · intro id a client hget hclient
          obtain ⟨hattach, hflush⟩ := hawaited id a client hget hclient
          refine ⟨fun hattaching => ?_, fun hdirect => ?_⟩
          · rcases hattach hattaching with hclosing | hnew | ⟨task, htask, hcompletes⟩
            · exact .inl hclosing
            · refine .inr (.inr ⟨_, List.mem_append_right _ (List.mem_singleton_self _), .inl ?_⟩)
              exact (List.mem_singleton.mp hnew).symm
            · exact .inr (.inr ⟨task, List.mem_append_left _ htask, hcompletes⟩)
          · rcases hflush hdirect with hempty | hexempt | ⟨task, htask, hflushes⟩
            · exact .inl hempty
            · exact .inr (.inl hexempt)
            · exact .inr (.inr ⟨task, List.mem_append_left _ htask, hflushes⟩)
        · exact fun hhandler => (h.opening hhandler).imp_right (List.mem_append_left _)
        · intro attachments hmem
          rcases List.mem_append.mp hmem with hmem | hmem
          · exact h.notClosing attachments hmem
          · cases List.mem_singleton.mp hmem
      · rename_i hhandler
        refine ⟨hfifo, ?_, h.opening, h.notClosing⟩
        intro id a client hget hclient
        refine ⟨fun _ => ?_, (hawaited id a client hget hclient).2⟩
        rcases h.opening (by simpa using hhandler) with hclosing | hopening
        · exact absurd hclosing hstate.2
        · exact .inr (.inr ⟨_, hopening, trivial⟩)

/-! ## Frames of the handler -/

/-- `deliverTo` for each of some attachments. -/
structure Delivered (frame : SentFrame) (attachments : List Nat) (r r' : ChannelRecord) : Prop where
  clients : r'.clients = r.clients
  accepted : r'.accepted = r.accepted
  state : r'.state = r.state
  handler : r'.handler = r.handler
  attachments : ∀ attachment, r'.attachments[attachment]? = (r.attachments[attachment]?).map fun c =>
    if attachment ∈ attachments then c.receive frame else c
  tasks : ∀ task ∈ r.tasks, task ∈ r'.tasks
  closeClients : ∀ attachments, Task.closeClients attachments ∈ r'.tasks →
    Task.closeClients attachments ∈ r.tasks

theorem delivered_deliverTo (frame : SentFrame) (r : ChannelRecord) (attachment : Nat) :
    Delivered frame [attachment] r (deliverTo frame r attachment) := by
  have hupdate : ∀ a, (r.update attachment (·.receive frame)).attachments[a]? =
      (r.attachments[a]?).map fun c => if a ∈ [attachment] then c.receive frame else c := by
    intro a
    simp only [getElem?_update, List.mem_singleton, eq_comm]
  unfold deliverTo
  dsimp only
  split
  · exact ⟨rfl, rfl, rfl, rfl, hupdate, fun _ h => List.mem_append_left _ h, fun attachments h => by
      rcases List.mem_append.mp h with h | h
      · exact h
      · cases List.mem_singleton.mp h⟩
  · exact ⟨rfl, rfl, rfl, rfl, hupdate, fun _ h => h, fun _ h => h⟩

theorem delivered_foldl (frame : SentFrame) (attachments : List Nat) (hnodup : attachments.Nodup)
    (r : ChannelRecord) : Delivered frame attachments r (attachments.foldl (deliverTo frame) r) := by
  induction attachments generalizing r with
  | nil =>
    exact ⟨rfl, rfl, rfl, rfl, fun a => by simp, fun _ h => h, fun _ h => h⟩
  | cons attachment rest ih =>
    obtain ⟨hnot, hnodup⟩ := List.nodup_cons.mp hnodup
    have hfirst := delivered_deliverTo frame r attachment
    have hrest := ih hnodup (deliverTo frame r attachment)
    refine ⟨hrest.clients.trans hfirst.clients, hrest.accepted.trans hfirst.accepted,
      hrest.state.trans hfirst.state, hrest.handler.trans hfirst.handler, fun a => ?_,
      fun task h => hrest.tasks task (hfirst.tasks task h),
      fun l h => hfirst.closeClients l (hrest.closeClients l h)⟩
    rw [List.foldl_cons, hrest.attachments, hfirst.attachments, Option.map_map]
    congr 1
    funext c
    simp only [Function.comp, List.mem_cons]
    by_cases heq : a = attachment
    · subst heq
      simp [hnot]
    · simp [heq]

/-- An entry of the log adds its frame to what its attachments were sent. -/
theorem sentTo_append (accepted : List (SentFrame × List Nat)) (frame : SentFrame)
    (attachments : List Nat) (attachment : Nat) {since : Nat} (hsince : since ≤ accepted.length) :
    sentTo (accepted ++ [(frame, attachments)]) attachment since =
      sentTo accepted attachment since ++ if attachment ∈ attachments then [frame] else [] := by
  unfold sentTo
  rw [List.drop_append_of_le_length hsince, List.filter_append, List.map_append]
  congr 1
  by_cases hmem : attachment ∈ attachments <;> simp [hmem]

/-- Nothing is overtaken when a frame is received in order. -/
theorem receive_frames (frame : SentFrame) (hready : client.isDirect → client.queuedFrames = []) :
    (client.receive frame).delivered ++ (client.receive frame).queuedFrames =
      client.delivered ++ client.queuedFrames ++ [frame] := by
  unfold ClientAttachment.receive
  dsimp only
  split
  · rename_i hdirect
    simp [hready hdirect]
  · simp

theorem receive_keeps (client : ClientAttachment) (frame : SentFrame) :
    (client.receive frame).clientId = client.clientId ∧
      (client.receive frame).since = client.since ∧
        (client.receive frame).attaching = client.attaching ∧
          (client.receive frame).isDirect = client.isDirect := by
  unfold ClientAttachment.receive
  dsimp only
  split <;> exact ⟨rfl, rfl, rfl, rfl⟩

theorem receive_queuedFrames (frame : SentFrame)
    (hdirect : client.isDirect = true) : (client.receive frame).queuedFrames = client.queuedFrames := by
  simp [ClientAttachment.receive, hdirect]

theorem inv_delivered {frame : SentFrame} {attachments : List Nat}
    (h : DeliveryInv none [] r) (hnumber : frame.1 = r.accepted.length)
    (hdelivered : Delivered frame attachments
      { r with accepted := r.accepted ++ [(frame, attachments)] } r')
    (hready : ∀ attachment ∈ attachments, ∀ client, r.attachments[attachment]? = some client →
      client.isDirect → client.queuedFrames = []) : DeliveryInv none [] r' := by
  refine ⟨⟨?_, ?_, ?_⟩, ?_, ?_, fun l hmem => h.notClosing l (hdelivered.closeClients l hmem)⟩
  · rw [hdelivered.clients]
    exact h.fifo.nodup
  · intro clientId a hget
    rw [hdelivered.clients] at hget
    obtain ⟨c, hc, hid, hsince, hframes⟩ := h.fifo.attached clientId a hget
    refine ⟨if a ∈ attachments then c.receive frame else c, by rw [hdelivered.attachments, hc]; rfl, ?_⟩
    obtain ⟨hkid, hksince, -⟩ := receive_keeps c frame
    simp only [hdelivered.accepted, List.length_append, List.length_singleton]
    split
    · rename_i hmem
      rw [hkid, hksince, sentTo_append _ _ _ _ hsince, if_pos hmem,
        receive_frames frame (hready a hmem c hc), hframes]
      exact ⟨hid, by omega, rfl⟩
    · rename_i hmem
      rw [sentTo_append _ _ _ _ hsince, if_neg hmem, hframes, List.append_nil]
      exact ⟨hid, by omega, rfl⟩
  · intro i entry hentry
    rw [hdelivered.accepted, List.getElem?_append] at hentry
    split at hentry
    · exact h.fifo.numbered i entry hentry
    · rename_i hle
      obtain ⟨hi, rfl⟩ := List.getElem?_eq_some_iff.mp hentry
      simp only [List.length_singleton] at hi
      simp only [List.getElem_singleton, hnumber]
      omega
  · intro clientId a client hget hclient
    rw [hdelivered.clients] at hget
    rw [hdelivered.attachments, Option.map_eq_some_iff] at hclient
    obtain ⟨c, hc, rfl⟩ := hclient
    obtain ⟨hattach, hflush⟩ := h.awaited clientId a c hget hc
    obtain ⟨-, -, hkattaching, hkdirect⟩ := receive_keeps c frame
    constructor
    · intro hattaching
      have hattaching : c.attaching = true := by
        split at hattaching
        · exact hkattaching ▸ hattaching
        · exact hattaching
      rcases hattach hattaching with hclosing | hrest | ⟨task, htask, hcompletes⟩
      · exact .inl (hdelivered.state.trans hclosing)
      · exact .inr (.inl hrest)
      · exact .inr (.inr ⟨task, hdelivered.tasks task htask, hcompletes⟩)
    · intro hdirect
      have hcdirect : c.isDirect = true := by
        split at hdirect
        · exact hkdirect ▸ hdirect
        · exact hdirect
      have hqueue : (if a ∈ attachments then c.receive frame else c).queuedFrames =
          c.queuedFrames := by
        split
        · exact receive_queuedFrames frame hcdirect
        · rfl
      rw [hqueue]
      rcases hflush hcdirect with hempty | hexempt | ⟨task, htask, hflushes⟩
      · exact .inl hempty
      · exact .inr (.inl hexempt)
      · exact .inr (.inr ⟨task, hdelivered.tasks task htask, hflushes⟩)
  · intro hhandler
    rw [hdelivered.handler] at hhandler
    rcases h.opening hhandler with hclosing | htask
    · exact .inl (hdelivered.state.trans hclosing)
    · exact .inr (hdelivered.tasks _ htask)

theorem nodup_clientNumbers (h : Fifo r) : r.clientNumbers.Nodup := by
  have hnodup := h.nodup
  rw [JsMap.keys] at hnodup
  refine List.Nodup.map_on ?_ hnodup.of_map
  rintro ⟨id, a⟩ hentry ⟨id', a'⟩ hentry' rfl
  obtain ⟨c, hc, hid, -⟩ := h.attached id _ (JsMap.get?_of_mem h.nodup hentry)
  obtain ⟨c', hc', hid', -⟩ := h.attached id' _ (JsMap.get?_of_mem h.nodup hentry')
  rw [hc] at hc'
  cases hc'
  rw [← hid, ← hid']

variable {frame : HostChannelFrame}

theorem inv_deliverFromHandler (h : DeliveryInv none [] r) {attachments : List Nat}
    (hnodup : attachments.Nodup) (haccepts : r.acceptsFrame frame = true)
    (hready : r.SendReady attachments frame) :
    DeliveryInv none [] (r.deliverFromHandler attachments frame) := by
  unfold deliverFromHandler
  split
  · rename_i hcapacity
    exact inv_delivered h rfl (delivered_foldl _ attachments hnodup _) (hready haccepts hcapacity)
  · exact h

theorem inv_sendFromHandler (h : DeliveryInv none [] r)
    (hready : r.SendReady r.clientNumbers frame) :
    DeliveryInv none [] (r.sendFromHandler frame) := by
  unfold sendFromHandler
  split
  · rename_i haccepts
    exact inv_deliverFromHandler h (nodup_clientNumbers h.fifo) haccepts hready
  · exact h

theorem inv_sendFromHandlerTo (h : DeliveryInv none [] r)
    (hready : ∀ attachment, r.clients.get? clientId = some attachment →
      r.SendReady [attachment] frame) :
    DeliveryInv none [] (r.sendFromHandlerTo clientId frame) := by
  unfold sendFromHandlerTo
  split
  · exact h
  · rename_i attachment hget
    split
    · rename_i haccepts
      exact inv_deliverFromHandler h (List.nodup_singleton _) haccepts (hready attachment hget)
    · exact h

theorem inv_drainClient (h : DeliveryInv none [] r) (clientId : String) (maxFrames : Option Nat) :
    DeliveryInv none [] (r.drainClient clientId maxFrames) := by
  unfold drainClient
  split
  · exact h
  · rename_i attachment hget
    split
    · exact h
    · rename_i client hclient
      dsimp only
      generalize maxFrames.getD client.queuedFrames.length = count
      have hfifo : Fifo (r.update attachment fun c =>
          { c with
            queuedFrames := c.queuedFrames.drop count
            queuedBytes := c.queuedBytes - framesBytes (client.queuedFrames.take count)
            delivered := c.delivered ++ client.queuedFrames.take count }) := by
        refine h.fifo.update fun c hc => ⟨rfl, rfl, ?_⟩
        rw [hclient] at hc
        cases hc
        simp only [List.append_assoc, List.take_append_drop]
      refine ⟨⟨hfifo.nodup, hfifo.attached, hfifo.numbered⟩, ?_, h.opening, h.notClosing⟩
      intro id a c' hid hc'
      simp only [getElem?_update, Option.map_eq_some_iff] at hc'
      obtain ⟨c, hc, rfl⟩ := hc'
      obtain ⟨hattach, hflush⟩ := h.awaited id a c hid hc
      split
      · refine ⟨hattach, fun hdirect => (hflush hdirect).imp_left fun hempty => ?_⟩
        simp only [hempty, List.drop_nil]
      · exact ⟨hattach, hflush⟩

end

/-! ## New channels -/

/-- The client of a request is attached before `open` waits. -/
theorem await_attachClient (req : OpenRequest) (id : String) (quotas : ChannelQuotas) :
    (ChannelRegistry.attachClient req (ChannelRegistry.newRecord req id quotas)).await .opening =
      ChannelRegistry.attachClient req
        ((ChannelRegistry.newRecord req id quotas).await .opening) := by
  unfold ChannelRegistry.attachClient
  split <;> rfl

theorem inv_newRecord (req : OpenRequest) (id : String) (quotas : ChannelQuotas) :
    DeliveryInv none [] ((ChannelRegistry.newRecord req id quotas).await .opening) where
  fifo := ⟨List.nodup_nil, fun _ _ hget => (by cases hget), fun _ _ hentry => (by cases hentry)⟩
  awaited _ _ _ hget := by cases hget
  opening _ := .inr (List.mem_singleton_self _)
  notClosing attachments hmem := by cases List.mem_singleton.mp hmem

end ChannelRecord

namespace ChannelRegistry

open ChannelRecord

/-! ## Runs -/

/-- The channels that are not closed satisfy the invariant. -/
def DeliveryInvs (s : ChannelRegistry) : Prop :=
  ∀ r ∈ s.records, r.state ≠ .closed → DeliveryInv none [] r

variable {s : ChannelRegistry}

theorem DeliveryInvs.update (h : DeliveryInvs s) {record : Nat} {f : ChannelRecord → ChannelRecord}
    (hf : ∀ r, s.records[record]? = some r → (f r).state ≠ .closed →
      r.state ≠ .closed ∧ (DeliveryInv none [] r → DeliveryInv none [] (f r))) :
    DeliveryInvs (s.update record f) := by
  intro q hq hstate
  obtain ⟨n, hn⟩ := List.mem_iff_getElem?.mp hq
  rw [getElem?_update, Option.map_eq_some_iff] at hn
  obtain ⟨r, hr, rfl⟩ := hn
  by_cases heq : record = n
  · rw [if_pos heq] at hstate ⊢
    obtain ⟨hopen, hinv⟩ := hf r (heq ▸ hr) hstate
    exact hinv (h r (List.mem_of_getElem? hr) hopen)
  · rw [if_neg heq] at hstate ⊢
    exact h r (List.mem_of_getElem? hr) hstate

/-- An operation on a channel that is not closed leaves it so. -/
theorem DeliveryInvs.update_same (h : DeliveryInvs s) {record : Nat}
    {f : ChannelRecord → ChannelRecord} (hsame : ∀ r, SameChannel r (f r))
    (hf : ∀ r, s.records[record]? = some r → r.state ≠ .closed → DeliveryInv none [] r →
      DeliveryInv none [] (f r)) : DeliveryInvs (s.update record f) :=
  h.update fun r hr hstate =>
    have hopen : r.state ≠ .closed := fun hclosed => hstate ((hsame r).closed.mpr hclosed)
    ⟨hopen, hf r hr hopen⟩

theorem inv_attachClient {req : OpenRequest} {r : ChannelRecord} (h : DeliveryInv none [] r)
    (hready : ∀ clientId, req.clientId.filter (· ≠ "") = some clientId →
      r.AttachReady clientId req.client) : DeliveryInv none [] (attachClient req r) := by
  unfold attachClient
  split
  · exact h
  · rename_i clientId hclient
    exact inv_attachInternal h (hready clientId hclient)

theorem DeliveryInvs.opens (h : DeliveryInvs s) {req : OpenRequest}
    {id : String} (hready : s.OpenReady req) : DeliveryInvs (s.opens req id) := by
  unfold ChannelRegistry.opens
  split
  · rename_i number hexisting
    exact h.update_same (same_attachClient req) fun r hr _ hinv =>
      inv_attachClient hinv fun clientId hclient => hready number r clientId hexisting hr hclient
  · dsimp only
    split
    · intro q hq hstate
      rcases List.mem_append.mp hq with hq | hq
      · exact h q hq hstate
      · cases List.mem_singleton.mp hq
        rw [await_attachClient]
        exact inv_attachClient (inv_newRecord _ _ _) fun clientId _ _ _ _ _ hget => by cases hget
    · exact h

theorem DeliveryInvs.resume (h : DeliveryInvs s) (record number : Nat)
    (ok : Bool) : DeliveryInvs (s.resume record number ok) := by
  unfold ChannelRegistry.resume
  split
  · exact h
  · rename_i r hr
    split
    · exact h
    · refine DeliveryInvs.update (s := s.unindex r) h fun q _ hstate => ?_
      exact absurd (q.closed_resumeTask number ok).2 hstate
    · rename_i task hne htask
      refine h.update_same (fun q => q.same_resumeTask (fun heq => hne heq) number ok) ?_
      intro q hq hopen hinv
      rw [hr] at hq
      cases hq
      exact inv_resumeTask ok htask (fun heq => hne heq) hopen hinv

theorem DeliveryInvs.step (h : DeliveryInvs s) {event : Event}
    (horder : KeepsOrder s event) : DeliveryInvs (s.step event) := by
  cases event with
  | opens req id => exact h.opens horder
  | attach sessionId packId channelId clientId client =>
    simp only [ChannelRegistry.step, onChannel]
    split
    · exact h
    · rename_i record hscope
      refine h.update_same (same_requireChannel fun r => r.same_attachInternal clientId client) ?_
      intro r hr hopen hinv
      rw [requireChannel, if_neg hopen]
      exact inv_attachInternal hinv (horder record r hscope hr)
  | detach sessionId packId channelId clientId =>
    simp only [ChannelRegistry.step, onChannel]
    split
    · exact h
    · exact h.update_same (fun r => r.same_detachInternal clientId) fun r _ _ hinv =>
        (kept_detachInternal hinv.fifo clientId).inv hinv
  | sendFromHandler channelId frame =>
    simp only [ChannelRegistry.step, onHandlerChannel]
    split
    · exact h
    · rename_i record hchannel
      refine h.update_same (fun r => r.same_sendFromHandler frame) fun r hr _ hinv => ?_
      exact inv_sendFromHandler hinv (horder r (by rw [channel, hchannel]; exact hr))
  | sendFromHandlerTo channelId clientId frame =>
    simp only [ChannelRegistry.step, onHandlerChannel]
    split
    · exact h
    · rename_i record hchannel
      refine h.update_same (fun r => r.same_sendFromHandlerTo clientId frame) fun r hr _ hinv => ?_
      exact inv_sendFromHandlerTo hinv fun attachment hget =>
        horder r attachment (by rw [channel, hchannel]; exact hr) hget
  | drainClient sessionId packId channelId clientId maxFrames =>
    simp only [ChannelRegistry.step, onChannel]
    split
    · exact h
    · refine h.update_same (same_requireChannel fun r => r.same_drainClient clientId maxFrames) ?_
      intro r _ hopen hinv
      rw [requireChannel, if_neg hopen]
      exact inv_drainClient hinv clientId maxFrames
  | closeInternal record =>
    exact h.update_same same_closeInternal fun r _ _ hinv => (r.kept_closeInternal none).inv hinv
  | resume record number ok => exact h.resume record number ok

end ChannelRegistry

/-! ## What goes wrong otherwise -/

namespace ChannelRecord

variable {r : ChannelRecord}

/-- Frames that were sent have smaller numbers than the next one. -/
theorem number_lt_of_mem_sentTo (h : Fifo r) {attachment since : Nat}
    {frame : SentFrame} (hmem : frame ∈ sentTo r.accepted attachment since) :
    frame.1 < r.accepted.length := by
  unfold sentTo at hmem
  obtain ⟨entry, hentry, rfl⟩ := List.mem_map.mp hmem
  obtain ⟨i, hi⟩ := List.mem_iff_getElem?.mp (List.mem_of_mem_drop (List.mem_of_mem_filter hentry))
  rw [h.numbered i entry hi]
  exact (List.getElem?_eq_some_iff.mp hi).1

variable {attachments : List Nat}

/-- A frame that is handed over past a queue is out of order. -/
theorem not_inOrder_delivered {r' : ChannelRecord} {frame : SentFrame}
    (h : DeliveryInv none [] r) (hstate : r.state ≠ .closed)
    (hnumber : frame.1 = r.accepted.length)
    (hdelivered : Delivered frame attachments
      { r with accepted := r.accepted ++ [(frame, attachments)] } r')
    {clientId : String} {attachment : Nat} {client : ClientAttachment}
    (hmem : attachment ∈ attachments) (hget : r.clients.get? clientId = some attachment)
    (hclient : r.attachments[attachment]? = some client) (hdirect : client.isDirect = true)
    (hqueue : client.queuedFrames ≠ []) : ¬ r'.DeliversInOrder := by
  intro hafter
  obtain ⟨c, hc, -, hsince, hframes⟩ := h.fifo.attached clientId attachment hget
  rw [hclient] at hc
  cases hc
  have hreceived : r'.attachments[attachment]? = some (client.receive frame) := by
    rw [hdelivered.attachments, hclient, Option.map_some, if_pos hmem]
  have horder := (hafter (by rw [hdelivered.state]; exact hstate) clientId attachment _
    (by rw [hdelivered.clients]; exact hget) hreceived).frames
  rw [(receive_keeps client frame).2.1, hdelivered.accepted, sentTo_append _ _ _ _ hsince,
    if_pos hmem, ← hframes, receive_queuedFrames frame hdirect] at horder
  simp only [ClientAttachment.receive, hdirect, if_true, List.append_assoc,
    List.append_cancel_left_eq] at horder
  cases hcons : client.queuedFrames with
  | nil => exact hqueue hcons
  | cons first rest =>
    rw [hcons] at horder
    have heq : frame = first := (List.cons.inj horder).1
    have hsent : first ∈ sentTo r.accepted attachment client.since := by
      rw [← hframes, hcons]
      simp
    have hlt := number_lt_of_mem_sentTo h.fifo hsent
    rw [← heq, hnumber] at hlt
    exact Nat.lt_irrefl _ hlt

variable {frame : HostChannelFrame}

theorem not_inOrder_deliverFromHandler (h : DeliveryInv none [] r)
    (hstate : r.state ≠ .closed) (hnodup : attachments.Nodup)
    (hattached : ∀ attachment ∈ attachments, ∃ clientId, r.clients.get? clientId = some attachment)
    (hnot : ¬ r.SendReady attachments frame) :
    ¬ (r.deliverFromHandler attachments frame).DeliversInOrder := by
  simp only [SendReady, not_forall] at hnot
  obtain ⟨-, hcapacity, attachment, hmem, client, hclient, hdirect, hqueue⟩ := hnot
  obtain ⟨clientId, hget⟩ := hattached attachment hmem
  rw [deliverFromHandler, if_pos hcapacity]
  exact not_inOrder_delivered h hstate rfl (delivered_foldl _ attachments hnodup _) hmem hget hclient
    hdirect hqueue

theorem SendReady.of_not_accepts (hnot : ¬ r.acceptsFrame frame = true) :
    r.SendReady attachments frame := fun haccepts => absurd haccepts hnot

theorem open_of_not_sendReady (hnot : ¬ r.SendReady attachments frame) : r.state ≠ .closed := by
  intro hclosed
  refine hnot (.of_not_accepts ?_)
  simp [acceptsFrame, hclosed]

theorem not_inOrder_sendFromHandler (h : DeliveryInv none [] r) (hstate : r.state ≠ .closed)
    (hnot : ¬ r.SendReady r.clientNumbers frame) :
    ¬ (r.sendFromHandler frame).DeliversInOrder := by
  have haccepts : r.acceptsFrame frame = true := by
    by_contra haccepts
    exact hnot (.of_not_accepts haccepts)
  rw [sendFromHandler, if_pos haccepts]
  refine not_inOrder_deliverFromHandler h hstate (nodup_clientNumbers h.fifo) ?_ hnot
  intro attachment hmem
  obtain ⟨⟨id, a⟩, hentry, rfl⟩ := List.mem_map.mp hmem
  exact ⟨id, JsMap.get?_of_mem h.fifo.nodup hentry⟩

theorem not_inOrder_sendFromHandlerTo (h : DeliveryInv none [] r)
    (hstate : r.state ≠ .closed) {clientId : String} {attachment : Nat}
    (hget : r.clients.get? clientId = some attachment) (hnot : ¬ r.SendReady [attachment] frame) :
    ¬ (r.sendFromHandlerTo clientId frame).DeliversInOrder := by
  have haccepts : r.acceptsFrame frame = true := by
    by_contra haccepts
    exact hnot (.of_not_accepts haccepts)
  simp only [sendFromHandlerTo, hget, if_pos haccepts]
  refine not_inOrder_deliverFromHandler h hstate (List.nodup_singleton _) ?_ hnot
  intro a hmem
  rw [List.mem_singleton.mp hmem]
  exact ⟨clientId, hget⟩

/-- A client that gets direct with a queue that nothing flushes is stuck with it. -/
theorem not_inOrder_attachInternal {clientId : String}
    {sink : Option ClientSink} (hnot : ¬ r.AttachReady clientId sink) :
    ¬ (r.attachInternal clientId sink).DeliversInOrder := by
  simp only [AttachReady, not_forall] at hnot
  obtain ⟨hclosed, hclosing, attachment, client, hget, hclient, hdirect, hstuck⟩ := hnot
  rw [attachInternal, if_neg (not_or.mpr ⟨hclosed, hclosing⟩)]
  simp only [hget]
  intro hafter
  have hreattached : (r.update attachment (·.reattach sink)).attachments[attachment]? =
      some (client.reattach sink) := by
    rw [getElem?_update, hclient, Option.map_some, if_pos rfl]
  exact hstuck ((hafter hclosed clientId attachment _ hget hreattached).flushed hdirect)

end ChannelRecord

namespace ChannelRegistry

open ChannelRecord

theorem not_inOrder_update {s : ChannelRegistry} {record : Nat} {r : ChannelRecord}
    (hr : s.records[record]? = some r) {f : ChannelRecord → ChannelRecord}
    (hnot : ¬ (f r).DeliversInOrder) : ¬ (s.update record f).DeliversInOrder := by
  intro hafter
  refine hnot (hafter (f r) (List.mem_of_getElem? (i := record) ?_))
  rw [getElem?_update, hr, Option.map_some, if_pos rfl]

theorem not_inOrder_step {s : ChannelRegistry} (h : DeliveryInvs s) {event : Event}
    (hnot : ¬ KeepsOrder s event) : ¬ (s.step event).DeliversInOrder := by
  cases event with
  | opens req id =>
    simp only [KeepsOrder, OpenReady, not_forall] at hnot
    obtain ⟨number, r, clientId, hexisting, hr, hclient, hnot⟩ := hnot
    simp only [step, opens, hexisting]
    refine not_inOrder_update hr ?_
    simp only [attachClient, hclient]
    exact not_inOrder_attachInternal hnot
  | attach sessionId packId channelId clientId client =>
    simp only [KeepsOrder, not_forall] at hnot
    obtain ⟨number, r, hscope, hr, hnot⟩ := hnot
    simp only [step, onChannel, hscope]
    refine not_inOrder_update hr ?_
    have hopen : r.state ≠ .closed := fun hclosed => hnot fun hne => absurd hclosed hne
    rw [requireChannel, if_neg hopen]
    exact not_inOrder_attachInternal hnot
  | sendFromHandler channelId frame =>
    simp only [KeepsOrder, not_forall] at hnot
    obtain ⟨r, hchannel, hnot⟩ := hnot
    obtain ⟨number, hnumber, hr⟩ := Option.bind_eq_some_iff.mp hchannel
    simp only [step, onHandlerChannel, hnumber]
    have hopen := open_of_not_sendReady hnot
    exact not_inOrder_update hr
      (not_inOrder_sendFromHandler (h r (List.mem_of_getElem? hr) hopen) hopen hnot)
  | sendFromHandlerTo channelId clientId frame =>
    simp only [KeepsOrder, not_forall] at hnot
    obtain ⟨r, attachment, hchannel, hget, hnot⟩ := hnot
    obtain ⟨number, hnumber, hr⟩ := Option.bind_eq_some_iff.mp hchannel
    simp only [step, onHandlerChannel, hnumber]
    have hopen := open_of_not_sendReady hnot
    exact not_inOrder_update hr
      (not_inOrder_sendFromHandlerTo (h r (List.mem_of_getElem? hr) hopen) hopen hget hnot)
  | _ => exact absurd trivial hnot

/-- **Delivery in order.** What was delivered to an attached client and what is queued
    for it are the frames sent since, in order and once each, and what is queued for a
    client that drains by itself is on its way, in exactly the runs in which no frame is
    accepted for a direct client with a queue, and no attached client gets direct while
    it has a queue that is not being flushed. -/
theorem delivered_in_order_iff (quotas : ChannelQuotas) (events : List Event) :
    Always step DeliversInOrder (empty quotas) events ↔
      Along step KeepsOrder (empty quotas) events :=
  always_iff_along (I := DeliveryInvs) (fun _ _ h _ horder => h.step horder)
    (fun _ h r hr hopen => (h r hr hopen).inOrder hopen)
    (fun _ _ h _ hnot => not_inOrder_step h hnot) (fun _ hr => (by cases hr))
    (along_of_forall (fun _ _ => trivial) _ _)

/-- A frame sent while the queue of an attach is flushed. -/
def overtaking : List Event :=
  let frame (data : String) := Event.sendFromHandler "a" ⟨.text, data⟩
  [.opens { exampleOpen with clientId := some "c", client := some ⟨true, none⟩ } "a",
    frame "first", frame "second", .resume 0 0 true, .resume 0 0 true, frame "third"]

/-- The third frame is handed over while the second one is queued. -/
theorem direct_frame_overtakes_queue :
    ¬ Always step DeliversInOrder (empty ⟨9, 9, 99, 99, 9, 99, 9⟩) overtaking := by
  intro h
  have hframes : ∀ r ∈ (run step (empty ⟨9, 9, 99, 99, 9, 99, 9⟩) overtaking).records,
      r.state ≠ .closed ∧ r.clients.get? "c" = some 0 ∧
        ∃ client ∈ r.attachments[0]?,
          client.delivered ++ client.queuedFrames ≠ sentTo r.accepted 0 client.since := by
    decide
  obtain ⟨r, hr⟩ := List.exists_mem_of_ne_nil
    (run step (empty ⟨9, 9, 99, 99, 9, 99, 9⟩) overtaking).records (by decide)
  obtain ⟨hopen, hget, client, hclient, hne⟩ := hframes r hr
  exact hne (h.last r hr hopen "c" 0 client hget hclient).frames

end ChannelRegistry

end Bobbit.Server
