import Bobbit.Lib.List
import Bobbit.Spec.ChannelDeliveryCorrect

/-!
# Accounting of a channel's outbound frames

A frame for a client is charged to the channel while it is queued or on its way to the
sink, and released when it is handed over, drained, or when its client goes.

Key results:

- `accounted_iff`: the counters of every channel are the sums over its clients, never
  negative and within the quota, in exactly the runs in which no attach that fails takes
  out, under its client's id, another attachment that holds a frame.
- `stale_attach_leaks`: such a run.
-/

namespace Bobbit.Server

open Lib

/-! ## The property -/

/-- The attachment and the size of a frame that is on its way to a sink. -/
def Task.send? : Task → Option (Nat × Nat)
  | .flush attachment bytes _ => some (attachment, bytes)
  | .delivery attachment bytes => some (attachment, bytes)
  | _ => none

/-- The sizes of the frames on their way to an attachment. -/
def sendsTo (sends : List (Nat × Nat)) (attachment : Nat) : List Nat :=
  (sends.filter (·.1 = attachment)).map (·.2)

namespace ClientAttachment

/-- The bytes that an attachment holds. -/
def bytes (client : ClientAttachment) : Int := client.queuedBytes + client.inFlightBytes

/-- The frames that an attachment holds. -/
def frames (client : ClientAttachment) : Int := client.queuedFrames.length + client.inFlightFrames

/-- Nothing is queued or on its way. -/
def Idle (client : ClientAttachment) : Prop :=
  client.queuedFrames = [] ∧ client.inFlightFrames = 0

instance (client : ClientAttachment) : Decidable client.Idle := inferInstanceAs (Decidable (_ ∧ _))

end ClientAttachment

namespace ChannelRecord

def attached (r : ChannelRecord) : List ClientAttachment := r.recipients r.clientNumbers

/-- The counters of a channel are right. -/
structure Accounted (r : ChannelRecord) : Prop where
  bytes : r.outboundBytes = (r.attached.map (·.bytes)).sum
  frames : r.outboundFrames = (r.attached.map (·.frames)).sum
  /-- the bytes that are counted as queued -/
  queued : ∀ clientId attachment client, r.clients.get? clientId = some attachment →
    r.attachments[attachment]? = some client → client.queuedBytes = framesBytes client.queuedFrames
  /-- the frames that are counted as in flight -/
  inFlight : r.state ≠ .closed → ∀ clientId attachment client,
    r.clients.get? clientId = some attachment → r.attachments[attachment]? = some client →
      client.inFlightFrames = (sendsTo (r.tasks.filterMap Task.send?) attachment).length ∧
        client.inFlightBytes = (sendsTo (r.tasks.filterMap Task.send?) attachment).sum
  nonneg : 0 ≤ r.outboundBytes ∧ 0 ≤ r.outboundFrames
  idle : (∀ client ∈ r.attached, client.Idle) → r.outboundBytes = 0 ∧ r.outboundFrames = 0
  quota : r.outboundBytes ≤ r.quotas.maxOutboundBytes ∧
    r.outboundFrames ≤ r.quotas.maxOutboundFrames

/-- The client id under which a failed attach takes its attachment out. -/
def clientIdOf (r : ChannelRecord) (attachment : Nat) : String :=
  ((r.attachments[attachment]?).map (·.clientId)).getD ""

/-- Under the client id of an attachment there is nothing, the attachment itself, or one
    that holds no frame. -/
def MayFail (r : ChannelRecord) (attachment : Nat) : Prop :=
  ∀ other client, r.clients.get? (r.clientIdOf attachment) = some other → other ≠ attachment →
    r.attachments[other]? = some client → client.Idle

/-- The attachment whose attach fails when a continuation goes on. -/
def failsAttach (r : ChannelRecord) (task : Task) (ok : Bool) : Option Nat :=
  match task with
  | .onAttach attachment _ => if ok then none else some attachment
  | .flush attachment _ _ =>
    if ok then
      if (r.attachments[attachment]?).any fun client =>
        ! client.queuedFrames.isEmpty && ! client.hasOnFrame then some attachment else none
    else some attachment
  | _ => none

end ChannelRecord

namespace ChannelRegistry

/-- The counters of all channels are right. -/
def Accounted (s : ChannelRegistry) : Prop := ∀ r ∈ s.records, r.Accounted

/-- No attach that fails takes out another attachment that holds a frame. -/
def FailsOwn (s : ChannelRegistry) : Event → Prop
  | .resume record number ok => ∀ r task attachment, s.records[record]? = some r →
    r.tasks[number]? = some task → r.failsAttach task ok = some attachment → r.MayFail attachment
  | _ => True

end ChannelRegistry

/-! ## Frames on their way -/

theorem sendsTo_perm {sends sends' : List (Nat × Nat)} (h : sends'.Perm sends) (attachment : Nat) :
    (sendsTo sends' attachment).Perm (sendsTo sends attachment) :=
  (h.filter _).map _

theorem sendsTo_cons (send : Nat × Nat) (sends : List (Nat × Nat)) (attachment : Nat) :
    sendsTo (send :: sends) attachment =
      if send.1 = attachment then send.2 :: sendsTo sends attachment
      else sendsTo sends attachment := by
  by_cases h : send.1 = attachment <;> simp [sendsTo, h]

namespace ClientAttachment

/-- The counters of the frames in flight. -/
def InFlight (client : ClientAttachment) (sends : List Nat) : Prop :=
  client.inFlightFrames = sends.length ∧ client.inFlightBytes = sends.sum

structure Empty (client : ClientAttachment) : Prop where
  queuedFrames : client.queuedFrames = []
  inFlightFrames : client.inFlightFrames = 0
  inFlightBytes : client.inFlightBytes = 0

variable {client : ClientAttachment}

theorem InFlight.perm {sends sends' : List Nat}
    (h : client.InFlight sends) (hperm : sends'.Perm sends) : client.InFlight sends' :=
  ⟨by rw [hperm.length_eq]; exact h.1, by rw [hperm.sum_eq]; exact h.2⟩

theorem Empty.charge (h : client.Empty)
    (hqueued : client.queuedBytes = ChannelRecord.framesBytes client.queuedFrames) :
    client.bytes = 0 ∧ client.frames = 0 := by
  rw [h.queuedFrames] at hqueued
  simp [ClientAttachment.bytes, ClientAttachment.frames, h.queuedFrames, h.inFlightFrames,
    h.inFlightBytes, hqueued, ChannelRecord.framesBytes]

/-- Frames in flight that are counted right make an idle attachment empty. -/
theorem InFlight.empty {sends : List Nat} (h : client.InFlight sends)
    (hidle : client.Idle) : client.Empty := by
  have hlength := h.1
  rw [hidle.2] at hlength
  have hnil : sends = [] := List.length_eq_zero_iff.mp (by omega)
  refine ⟨hidle.1, hidle.2, ?_⟩
  rw [h.2, hnil]
  rfl

end ClientAttachment

namespace ChannelRecord

/-- The frames on their way: those that a continuation waits for, and some whose
    continuation is being run. -/
def sends (r : ChannelRecord) (owed : List (Nat × Nat)) : List (Nat × Nat) :=
  owed ++ r.tasks.filterMap Task.send?

def IsAttached (r : ChannelRecord) (attachment : Nat) : Prop :=
  ∃ clientId, r.clients.get? clientId = some attachment

/-- A quantity summed over the clients. -/
def total (r : ChannelRecord) (f : ClientAttachment → Int) : Int :=
  (r.clientNumbers.map fun attachment => ((r.attachments[attachment]?).map f).getD 0).sum

/-- The invariant of a channel, but for the frames in flight of one attachment. -/
structure Charged (owed : List (Nat × Nat)) (exempt : Option Nat) (r : ChannelRecord) : Prop where
  nodup : (JsMap.keys r.clients).Nodup
  attached : ∀ clientId attachment, r.clients.get? clientId = some attachment →
    ∃ client, r.attachments[attachment]? = some client ∧ client.clientId = clientId
  known : ∀ send ∈ r.sends owed, send.1 < r.attachments.length
  queued : ∀ (attachment : Nat) (client : ClientAttachment),
    r.attachments[attachment]? = some client →
    client.queuedBytes = framesBytes client.queuedFrames
  /-- the frames in flight are counted, until the client has gone -/
  inFlight : ∀ (attachment : Nat) (client : ClientAttachment),
    r.attachments[attachment]? = some client →
    some attachment ≠ exempt → client.InFlight (sendsTo (r.sends owed) attachment) ∨
      client.Empty ∧ (¬ r.IsAttached attachment ∨ r.state = .closed)
  detached : ∀ (attachment : Nat) (client : ClientAttachment),
    r.attachments[attachment]? = some client →
    ¬ r.IsAttached attachment → client.Empty
  /-- the loop over the clients of a closed channel has emptied those it has visited -/
  closing : ∀ attachments, Task.closeClients attachments ∈ r.tasks → r.state = .closed ∧
    ∀ (attachment : Nat) (client : ClientAttachment),
      r.attachments[attachment]? = some client → r.IsAttached attachment →
      attachment ∈ attachments ∨ client.Empty
  /-- a client whose sink has failed is gone -/
  detaching : ∀ attachment bytes, Task.detaching attachment bytes ∈ r.tasks →
    attachment < r.attachments.length ∧ ¬ r.IsAttached attachment
  bytes : r.outboundBytes = r.total (·.bytes)
  frames : r.outboundFrames = r.total (·.frames)
  quota : r.outboundBytes ≤ r.quotas.maxOutboundBytes ∧
    r.outboundFrames ≤ r.quotas.maxOutboundFrames

variable {r : ChannelRecord}

theorem Charged.nodup_clientNumbers {owed : List (Nat × Nat)}
    {exempt : Option Nat} (h : Charged owed exempt r) : r.clientNumbers.Nodup := by
  have hnodup := h.nodup
  rw [JsMap.keys] at hnodup
  apply List.Nodup.map_on _ hnodup.of_map
  rintro ⟨id, a⟩ hentry ⟨id', a'⟩ hentry' rfl
  obtain ⟨c, hc, hid⟩ := h.attached id _ (JsMap.get?_of_mem h.nodup hentry)
  obtain ⟨c', hc', hid'⟩ := h.attached id' _ (JsMap.get?_of_mem h.nodup hentry')
  rw [hc] at hc'
  cases hc'
  rw [← hid, ← hid']

theorem Charged.mem_clientNumbers {owed : List (Nat × Nat)}
    {exempt : Option Nat} (h : Charged owed exempt r) {attachment : Nat} :
    attachment ∈ r.clientNumbers ↔ r.IsAttached attachment := by
  constructor
  · intro hmem
    obtain ⟨⟨id, a⟩, hentry, rfl⟩ := List.mem_map.mp hmem
    exact ⟨id, JsMap.get?_of_mem h.nodup hentry⟩
  · rintro ⟨clientId, hget⟩
    exact ChannelRecord.mem_clientNumbers hget

/-- One attachment of a channel is rewritten. -/
structure Rewrites (attachment : Nat) (client' : ClientAttachment) (r r' : ChannelRecord) : Prop where
  clients : r'.clients = r.clients
  attachments : ∀ other : Nat, r'.attachments[other]? =
    if other = attachment then some client' else r.attachments[other]?
  length : r'.attachments.length = r.attachments.length
  state : r'.state = r.state
  quotas : r'.quotas = r.quotas
  tasks : r'.tasks = r.tasks

theorem Rewrites.update {attachment : Nat} {client : ClientAttachment}
    (h : r.attachments[attachment]? = some client) (f : ClientAttachment → ClientAttachment) :
    Rewrites attachment (f client) r (r.update attachment f) where
  clients := rfl
  attachments := by
    intro other
    rw [getElem?_update]
    by_cases hother : other = attachment
    · simp [hother, h]
    · simp [hother, Ne.symm hother]
  length := by simp [ChannelRecord.update]
  state := rfl
  quotas := rfl
  tasks := rfl

theorem Rewrites.counters {r' : ChannelRecord} {attachment : Nat} {client' : ClientAttachment}
    (h : Rewrites attachment client' r r') (outboundBytes outboundFrames : Int) :
    Rewrites attachment client' r { r' with outboundBytes, outboundFrames } :=
  ⟨h.clients, h.attachments, h.length, h.state, h.quotas, h.tasks⟩

section Rewrites

variable {r r' : ChannelRecord} {owed owed' : List (Nat × Nat)} {exempt exempt' : Option Nat}
  {attachment : Nat} {client client' : ClientAttachment}

theorem Rewrites.isAttached (hr : Rewrites attachment client' r r') (other : Nat) :
    r'.IsAttached other ↔ r.IsAttached other := by
  unfold IsAttached
  rw [hr.clients]

/-- The sum over the clients changes by what is charged to the attachment. -/
theorem Rewrites.total (hr : Rewrites attachment client' r r') (h : Charged owed exempt r)
    (hclient : r.attachments[attachment]? = some client) {f : ClientAttachment → Int}
    (hempty : ¬ r.IsAttached attachment → f client = f client') :
    r'.total f = r.total f + (f client' - f client) := by
  have hnumbers : r'.clientNumbers = r.clientNumbers := by
    unfold clientNumbers
    rw [hr.clients]
  unfold ChannelRecord.total
  rw [hnumbers, sum_map_of_ne h.nodup_clientNumbers (a := attachment)
    (f := fun attachment => ((r.attachments[attachment]?).map f).getD 0)]
  · split
    · rw [hr.attachments, if_pos rfl, hclient]
      rfl
    · rename_i hnot
      rw [hempty fun hattached => hnot (h.mem_clientNumbers.mpr hattached)]
      omega
  · intro other _ hother
    rw [hr.attachments, if_neg hother]

/-- Rewriting an attachment keeps the invariant when its counters are right, the channel's
    counters change with them, and only a client that is attached begins to hold frames. -/
theorem Charged.rewrite (h : Charged owed exempt r)
    (hclient : r.attachments[attachment]? = some client) (hr : Rewrites attachment client' r r')
    (hid : client'.clientId = client.clientId)
    (hqueued : client'.queuedBytes = framesBytes client'.queuedFrames)
    (hknown : ∀ send ∈ owed', send.1 < r.attachments.length)
    (hsends : ∀ other, other ≠ attachment → some other ≠ exempt' →
      some other ≠ exempt ∧ sendsTo owed' other = sendsTo owed other)
    (hinFlight : some attachment ≠ exempt' →
      client'.InFlight (sendsTo (r.sends owed') attachment) ∨
        client'.Empty ∧ (¬ r.IsAttached attachment ∨ r.state = .closed))
    (hempty : client.Empty → client'.Empty ∨ r.IsAttached attachment ∧ r.state ≠ .closed)
    (hbytes : r'.outboundBytes = r.outboundBytes + (client'.bytes - client.bytes))
    (hframes : r'.outboundFrames = r.outboundFrames + (client'.frames - client.frames))
    (hquota : r'.outboundBytes ≤ r.quotas.maxOutboundBytes ∧
      r'.outboundFrames ≤ r.quotas.maxOutboundFrames) : Charged owed' exempt' r' := by
  have hsame : ¬ r.IsAttached attachment → client.bytes = client'.bytes ∧
      client.frames = client'.frames := by
    intro hnot
    have hold := h.detached attachment client hclient hnot
    have hnew := (hempty hold).resolve_right fun hattached => hnot hattached.1
    obtain ⟨hb, hf⟩ := hold.charge (h.queued attachment client hclient)
    obtain ⟨hb', hf'⟩ := hnew.charge hqueued
    exact ⟨by rw [hb, hb'], by rw [hf, hf']⟩
  have hsendsOf : ∀ other owed, sendsTo (r.sends owed) other =
      sendsTo owed other ++ sendsTo (r.tasks.filterMap Task.send?) other := by
    intro other owed
    simp [ChannelRecord.sends, sendsTo]
  have htasks : ∀ owed, r'.sends owed = r.sends owed := by
    intro owed
    rw [ChannelRecord.sends, ChannelRecord.sends, hr.tasks]
  constructor
  · rw [hr.clients]
    exact h.nodup
  · intro clientId other hget
    rw [hr.clients] at hget
    obtain ⟨c, hc, hcid⟩ := h.attached clientId other hget
    rw [hr.attachments]
    split
    · rename_i hother
      rw [hother, hclient] at hc
      cases hc
      exact ⟨client', rfl, hid.trans hcid⟩
    · exact ⟨c, hc, hcid⟩
  · intro send hsend
    rw [htasks, ChannelRecord.sends, List.mem_append] at hsend
    rw [hr.length]
    cases hsend with
    | inl howed => exact hknown send howed
    | inr htask => exact h.known send (List.mem_append_right _ htask)
  · intro other c hc
    rw [hr.attachments] at hc
    split at hc
    · cases hc
      exact hqueued
    · exact h.queued other c hc
  · intro other c hc hexempt
    rw [htasks, hr.isAttached, hr.state]
    rw [hr.attachments] at hc
    split at hc
    · rename_i hother
      cases hc
      rw [hother] at hexempt ⊢
      exact hinFlight hexempt
    · rename_i hother
      obtain ⟨hexempt, hsends⟩ := hsends other hother hexempt
      rw [hsendsOf, hsends, ← hsendsOf]
      exact h.inFlight other c hc hexempt
  · intro other c hc hnot
    rw [hr.isAttached] at hnot
    rw [hr.attachments] at hc
    split at hc
    · rename_i hother
      cases hc
      rw [hother] at hnot
      exact (hempty (h.detached attachment client hclient hnot)).resolve_right
        fun hattached => hnot hattached.1
    · exact h.detached other c hc hnot
  · intro attachments htask
    rw [hr.tasks] at htask
    rw [hr.state]
    obtain ⟨hclosed, hvisited⟩ := h.closing attachments htask
    refine ⟨hclosed, fun other c hc hattached => ?_⟩
    rw [hr.isAttached] at hattached
    rw [hr.attachments] at hc
    split at hc
    · rename_i hother
      cases hc
      rw [hother] at hattached ⊢
      exact (hvisited attachment client hclient hattached).imp_right fun hold =>
        (hempty hold).resolve_right fun hopen => hopen.2 hclosed
    · exact hvisited other c hc hattached
  · intro other bytes htask
    rw [hr.tasks] at htask
    rw [hr.length, hr.isAttached]
    exact h.detaching other bytes htask
  · rw [hbytes, h.bytes, hr.total h hclient fun hnot => (hsame hnot).1]
  · rw [hframes, h.frames, hr.total h hclient fun hnot => (hsame hnot).2]
  · rw [hr.quotas]
    exact hquota

end Rewrites

/-! ## Tasks and states -/

section Tasks

variable {r : ChannelRecord} {owed owed' : List (Nat × Nat)} {exempt : Option Nat}

theorem Charged.retask (h : Charged owed exempt r) {tasks : List Task}
    (hperm : (owed' ++ tasks.filterMap Task.send?).Perm (r.sends owed))
    (hclosing : ∀ attachments, Task.closeClients attachments ∈ tasks →
      Task.closeClients attachments ∈ r.tasks ∨ r.state = .closed ∧
        ∀ (attachment : Nat) (client : ClientAttachment),
          r.attachments[attachment]? = some client → r.IsAttached attachment →
          attachment ∈ attachments ∨ client.Empty)
    (hdetaching : ∀ attachment bytes, Task.detaching attachment bytes ∈ tasks →
      Task.detaching attachment bytes ∈ r.tasks ∨
        attachment < r.attachments.length ∧ ¬ r.IsAttached attachment) :
    Charged owed' exempt { r with tasks } where
  nodup := h.nodup
  attached := h.attached
  known := fun send hsend => h.known send (hperm.mem_iff.mp hsend)
  queued := h.queued
  inFlight := fun attachment client hclient hexempt =>
    (h.inFlight attachment client hclient hexempt).imp_left fun hcount =>
      hcount.perm (sendsTo_perm hperm attachment)
  detached := h.detached
  closing := by
    intro attachments htask
    cases hclosing attachments htask with
    | inl hold => exact h.closing attachments hold
    | inr hnew => exact hnew
  detaching := by
    intro attachment bytes htask
    cases hdetaching attachment bytes htask with
    | inl hold => exact h.detaching attachment bytes hold
    | inr hnew => exact hnew
  bytes := h.bytes
  frames := h.frames
  quota := h.quota

/-- A continuation that waits for no frame starts to wait. -/
theorem Charged.await (h : Charged owed exempt r) {task : Task} (hsend : task.send? = none)
    (hclose : ∀ attachments, task ≠ .closeClients attachments)
    (hdetach : ∀ attachment bytes, task = .detaching attachment bytes →
      attachment < r.attachments.length ∧ ¬ r.IsAttached attachment) :
    Charged owed exempt (r.await task) := by
  apply h.retask
  · rw [List.filterMap_append]
    simp [hsend, ChannelRecord.sends]
  · intro attachments hmem
    cases List.mem_append.mp hmem with
    | inl hold => exact .inl hold
    | inr hnew => exact absurd (List.mem_singleton.mp hnew).symm (hclose attachments)
  · intro attachment bytes hmem
    cases List.mem_append.mp hmem with
    | inl hold => exact .inl hold
    | inr hnew => exact .inr (hdetach attachment bytes (List.mem_singleton.mp hnew).symm)

/-- The continuation of a frame on its way starts to wait. -/
theorem Charged.await_send {send : Nat × Nat} (h : Charged (send :: owed) exempt r) {task : Task}
    (hsend : task.send? = some send) : Charged owed exempt (r.await task) := by
  apply h.retask
  · rw [List.filterMap_append]
    simp only [List.filterMap_cons, hsend, List.filterMap_nil, ChannelRecord.sends]
    rw [← List.append_assoc]
    exact List.perm_append_singleton _ _
  · intro attachments hmem
    cases List.mem_append.mp hmem with
    | inl hold => exact .inl hold
    | inr hnew =>
      rw [← List.mem_singleton.mp hnew] at hsend
      cases hsend
  · intro attachment bytes hmem
    cases List.mem_append.mp hmem with
    | inl hold => exact .inl hold
    | inr hnew =>
      rw [← List.mem_singleton.mp hnew] at hsend
      cases hsend

theorem Charged.taken (h : Charged [] exempt r) {number : Nat} {task : Task}
    (htask : r.tasks[number]? = some task) :
    Charged task.send?.toList exempt { r with tasks := r.tasks.eraseIdx number } := by
  obtain ⟨hlt, htask⟩ := List.getElem?_eq_some_iff.mp htask
  apply h.retask
  · have hperm := (List.getElem_cons_eraseIdx_perm hlt).filterMap Task.send?
    rw [htask] at hperm
    apply List.Perm.trans _ hperm
    cases hsend : task.send? <;> simp [hsend]
  · exact fun attachments hmem => .inl (List.mem_of_mem_eraseIdx hmem)
  · exact fun attachment bytes hmem => .inl (List.mem_of_mem_eraseIdx hmem)

/-- The channel is not closed, and gets into another state. -/
theorem Charged.restate (h : Charged owed exempt r) (hopen : r.state ≠ .closed)
    (state : ChannelState) (handler : Bool) : Charged owed exempt { r with state, handler } :=
  { h with
    inFlight := fun attachment client hclient hexempt =>
      (h.inFlight attachment client hclient hexempt).imp_right fun hempty =>
        ⟨hempty.1, .inl (hempty.2.resolve_right hopen)⟩
    closing := fun attachments htask => absurd (h.closing attachments htask).1 hopen }

theorem Charged.closed (h : Charged owed exempt r) : Charged owed exempt { r with state := .closed } :=
  { h with
    inFlight := fun attachment client hclient hexempt =>
      (h.inFlight attachment client hclient hexempt).imp_right fun hempty =>
        ⟨hempty.1, .inr rfl⟩
    closing := fun attachments htask => ⟨rfl, (h.closing attachments htask).2⟩ }

theorem Charged.closeInternal (h : Charged owed exempt r) : Charged owed exempt r.closeInternal := by
  unfold ChannelRecord.closeInternal
  split
  · exact h
  · rename_i hopen
    exact (h.restate hopen .closing r.handler).await rfl (by simp) (by simp)

theorem Charged.completePendingAttaches (h : Charged owed exempt r) (attachments : List Nat) :
    Charged owed exempt (r.completePendingAttaches attachments) := by
  induction attachments with
  | nil => exact h
  | cons attachment rest ih =>
    unfold ChannelRecord.completePendingAttaches
    split
    · exact h.await rfl (by simp) (by simp)
    · exact ih

theorem Charged.attachCompleted (h : Charged owed exempt r) (caller : AttachCaller) :
    Charged owed exempt (r.attachCompleted caller) := by
  cases caller with
  | attach => exact h
  | pendingAttaches rest => exact h.completePendingAttaches rest

end Tasks

/-! ## Frames that arrive -/

section Frames

variable {r : ChannelRecord} {owed : List (Nat × Nat)} {exempt : Option Nat}

theorem framesBytes_cons (frame : SentFrame) (frames : List SentFrame) :
    framesBytes (frame :: frames) = frameByteLength frame.2 + framesBytes frames := rfl

theorem framesBytes_append (frames frames' : List SentFrame) :
    framesBytes (frames ++ frames') = framesBytes frames + framesBytes frames' := by
  simp [framesBytes]

variable {client : ClientAttachment}

theorem Charged.charge_nonneg (h : Charged owed none r) {attachment : Nat}
    (hclient : r.attachments[attachment]? = some client) :
    0 ≤ client.bytes ∧ 0 ≤ client.frames := by
  have hqueued := h.queued attachment client hclient
  unfold ClientAttachment.bytes ClientAttachment.frames
  cases h.inFlight attachment client hclient (by simp) with
  | inl hcount =>
    have hframes := hcount.1
    have hbytes := hcount.2
    omega
  | inr hempty =>
    have hframes := hempty.1.inFlightFrames
    have hbytes := hempty.1.inFlightBytes
    omega

/-- A frame on its way to an attachment that is empty already is forgotten. -/
theorem Charged.forget {send : Nat × Nat} (h : Charged (send :: owed) none r)
    (hclient : r.attachments[send.1]? = some client)
    (hempty : client.Empty ∧ (¬ r.IsAttached send.1 ∨ r.state = .closed)) :
    Charged owed none r :=
  { h with
    known := fun other hother => h.known other (List.mem_cons_of_mem _ hother)
    inFlight := by
      intro attachment client' hclient' hexempt
      by_cases hsend : attachment = send.1
      · rw [hsend, hclient] at hclient'
        cases hclient'
        rw [hsend]
        exact .inr hempty
      · have hold := h.inFlight attachment client' hclient' hexempt
        rw [sends, List.cons_append, sendsTo_cons, if_neg (Ne.symm hsend)] at hold
        exact hold }

/-- The frame is released when it was handed over, unless its client has gone before. -/
theorem Charged.settleFrame {attachment bytes : Nat} (h : Charged ((attachment, bytes) :: owed) none r) :
    Charged owed none (r.settleFrame attachment bytes) := by
  unfold ChannelRecord.settleFrame
  have hlt := h.known (attachment, bytes) List.mem_cons_self
  split
  · rename_i hnone
    rw [List.getElem?_eq_none_iff] at hnone
    omega
  · rename_i client hclient
    have hcase := h.inFlight attachment client hclient (by simp)
    rw [sends, List.cons_append, sendsTo_cons, if_pos rfl] at hcase
    cases hcase with
    | inl hcount =>
      have hframes := hcount.1
      have hbytes := hcount.2
      simp only [List.length_cons, List.sum_cons] at hframes hbytes
      rw [if_pos (by omega)]
      have hquota := h.quota
      have hrewrites := Rewrites.update hclient fun client =>
        { client with
          inFlightFrames := client.inFlightFrames - 1
          inFlightBytes := client.inFlightBytes - bytes }
      apply h.rewrite hclient (hrewrites.counters _ _)
      · rfl
      · exact h.queued attachment client hclient
      · exact fun send hsend => h.known send (List.mem_cons_of_mem _ (List.mem_append_left _ hsend))
      · intro other hother _
        rw [sendsTo_cons, if_neg (Ne.symm hother)]
        exact ⟨by simp, rfl⟩
      · intro _
        left
        refine ⟨?_, ?_⟩
        · dsimp only [sends]
          omega
        · dsimp only [sends]
          omega
      · intro hempty
        have := hempty.inFlightFrames
        omega
      · simp only [ClientAttachment.bytes]
        omega
      · simp only [ClientAttachment.frames]
        omega
      · dsimp only
        omega
    | inr hempty =>
      rw [if_neg (by rw [hempty.1.inFlightFrames]; omega)]
      exact h.forget hclient hempty

theorem Charged.take (h : Charged [] none r) {attachment : Nat}
    (hclient : r.attachments[attachment]? = some client) {frame : SentFrame}
    {queuedFrames : List SentFrame} (hqueue : client.queuedFrames = frame :: queuedFrames)
    {client' : ClientAttachment} (hid : client'.clientId = client.clientId)
    (hqueued : client'.queuedFrames = queuedFrames)
    (hqueuedBytes : client'.queuedBytes = client.queuedBytes - frameByteLength frame.2)
    (hframes : client'.inFlightFrames = client.inFlightFrames + 1)
    (hbytes : client'.inFlightBytes = client.inFlightBytes + frameByteLength frame.2) :
    Charged [(attachment, frameByteLength frame.2)] none (r.update attachment fun _ => client') := by
  have hold := h.queued attachment client hclient
  rw [hqueue, framesBytes_cons] at hold
  have hlength : client.queuedFrames.length = queuedFrames.length + 1 := by rw [hqueue]; rfl
  apply h.rewrite hclient (Rewrites.update hclient fun _ => client') hid
  · rw [hqueuedBytes, hqueued]
    omega
  · intro send hsend
    rw [List.mem_singleton.mp hsend]
    exact (List.getElem?_eq_some_iff.mp hclient).1
  · intro other hother _
    rw [sendsTo_cons, if_neg (Ne.symm hother)]
    exact ⟨by simp, rfl⟩
  · intro _
    cases h.inFlight attachment client hclient (by simp) with
    | inl hcount =>
      left
      rw [sends, List.cons_append, sendsTo_cons, if_pos rfl]
      refine ⟨?_, ?_⟩
      · rw [hframes, hcount.1]
        rfl
      · rw [hbytes, hcount.2, List.sum_cons]
        simp only [sends, List.nil_append]
        omega
    | inr hempty =>
      rw [hempty.1.queuedFrames] at hqueue
      cases hqueue
  · intro hempty
    rw [hempty.queuedFrames] at hqueue
    cases hqueue
  · show r.outboundBytes = _
    simp only [ClientAttachment.bytes, hqueuedBytes, hbytes]
    omega
  · show r.outboundFrames = _
    simp only [ClientAttachment.frames, hqueued, hframes, hlength]
    omega
  · exact h.quota

/-- A change of an attachment that its counters do not depend on. -/
theorem Charged.update (h : Charged owed none r) (attachment : Nat)
    {f : ClientAttachment → ClientAttachment}
    (hf : ∀ client, (f client).clientId = client.clientId ∧
      (f client).queuedFrames = client.queuedFrames ∧ (f client).queuedBytes = client.queuedBytes ∧
        (f client).inFlightFrames = client.inFlightFrames ∧
          (f client).inFlightBytes = client.inFlightBytes) :
    Charged owed none (r.update attachment f) := by
  cases hclient : r.attachments[attachment]? with
  | none =>
    have hsame : r.update attachment f = r := by
      unfold ChannelRecord.update
      rw [List.modify_eq_self (List.getElem?_eq_none_iff.mp hclient)]
    rw [hsame]
    exact h
  | some client =>
    obtain ⟨hid, hqueue, hqueued, hframes, hbytes⟩ := hf client
    apply h.rewrite hclient (Rewrites.update hclient f) hid
    · rw [hqueued, hqueue]
      exact h.queued attachment client hclient
    · exact fun send hsend => h.known send (List.mem_append_left _ hsend)
    · exact fun other _ _ => ⟨by simp, rfl⟩
    · intro _
      apply (h.inFlight attachment client hclient (by simp)).imp
      · exact fun hcount => ⟨hframes.trans hcount.1, hbytes.trans hcount.2⟩
      · exact fun hempty => ⟨⟨hqueue.trans hempty.1.queuedFrames,
          hframes.trans hempty.1.inFlightFrames, hbytes.trans hempty.1.inFlightBytes⟩, hempty.2⟩
    · exact fun hempty => .inl ⟨hqueue.trans hempty.queuedFrames,
        hframes.trans hempty.inFlightFrames, hbytes.trans hempty.inFlightBytes⟩
    · simp only [ClientAttachment.bytes, hqueued, hbytes]
      show r.outboundBytes = _
      omega
    · simp only [ClientAttachment.frames, hqueue, hframes]
      show r.outboundFrames = _
      omega
    · exact h.quota

end Frames

/-! ## Clients that go -/

section Clients

variable {r : ChannelRecord} {owed : List (Nat × Nat)}

variable {attachment : Nat}

theorem removeClientAccounting_none (h : r.attachments[attachment]? = none) :
    r.removeClientAccounting attachment = r := by
  unfold ChannelRecord.removeClientAccounting
  rw [h]

variable {client : ClientAttachment}

theorem removeClientAccounting_some (h : r.attachments[attachment]? = some client) :
    Rewrites attachment client.cleared r (r.removeClientAccounting attachment) ∧
      (r.removeClientAccounting attachment).outboundBytes = r.outboundBytes - client.bytes ∧
      (r.removeClientAccounting attachment).outboundFrames = r.outboundFrames - client.frames := by
  unfold ChannelRecord.removeClientAccounting
  rw [h]
  exact ⟨(Rewrites.update h (·.cleared)).counters _ _, rfl, rfl⟩

theorem empty_cleared (client : ClientAttachment) : client.cleared.Empty := ⟨rfl, rfl, rfl⟩

/-- What was charged to an attachment is taken back; until its client is taken out, its
    frames in flight are not counted. -/
theorem Charged.removeClientAccounting (h : Charged owed none r) (attachment : Nat)
    {exempt : Option Nat} (hexempt : exempt = some attachment ∨ exempt = none ∧ r.state = .closed) :
    Charged owed exempt (r.removeClientAccounting attachment) := by
  cases hclient : r.attachments[attachment]? with
  | none =>
    rw [removeClientAccounting_none hclient]
    exact { h with
      inFlight := fun other client hother _ => h.inFlight other client hother (by simp) }
  | some client =>
    obtain ⟨hrewrites, hbytes, hframes⟩ := removeClientAccounting_some hclient
    have hempty := empty_cleared client
    obtain ⟨hb, hf⟩ := hempty.charge rfl
    obtain ⟨hb0, hf0⟩ := h.charge_nonneg hclient
    have hquota := h.quota
    apply h.rewrite hclient hrewrites rfl rfl
    · exact fun send hsend => h.known send (List.mem_append_left _ hsend)
    · exact fun other _ _ => ⟨by simp, rfl⟩
    · intro hne
      cases hexempt with
      | inl heq => exact absurd heq.symm hne
      | inr hclosed => exact .inr ⟨hempty, .inr hclosed.2⟩
    · exact fun _ => .inl hempty
    · rw [hbytes, hb]
      omega
    · rw [hframes, hf]
      omega
    · rw [hbytes, hframes]
      omega

theorem isAttached_deleteClient {clientId : String} :
    (r.deleteClient clientId).IsAttached attachment ↔
      ∃ id, id ≠ clientId ∧ r.clients.get? id = some attachment := by
  simp only [IsAttached, ChannelRecord.deleteClient, JsMap.get?_erase]
  constructor
  · rintro ⟨id, hget⟩
    split at hget
    · cases hget
    · rename_i hid
      exact ⟨id, hid, hget⟩
  · rintro ⟨id, hid, hget⟩
    exact ⟨id, by rw [if_neg hid]; exact hget⟩

theorem Charged.deleteClient {exempt : Option Nat} (h : Charged owed exempt r) {clientId : String}
    (hgone : ∀ (attachment : Nat) (client : ClientAttachment),
      r.clients.get? clientId = some attachment → r.attachments[attachment]? = some client →
        client.Empty)
    (hexempt : ∀ (attachment : Nat) (client : ClientAttachment), some attachment = exempt →
      r.attachments[attachment]? = some client → client.Empty ∧ client.clientId = clientId) :
    Charged owed none (r.deleteClient clientId) := by
  have hattached : ∀ attachment, (r.deleteClient clientId).IsAttached attachment →
      r.IsAttached attachment := by
    intro attachment h
    obtain ⟨id, -, hget⟩ := isAttached_deleteClient.mp h
    exact ⟨id, hget⟩
  have hdetached : ∀ attachment, ¬ (r.deleteClient clientId).IsAttached attachment →
      ¬ r.IsAttached attachment ∨ r.clients.get? clientId = some attachment := by
    intro attachment hnot
    by_cases hold : r.IsAttached attachment
    · right
      obtain ⟨id, hget⟩ := hold
      by_cases hid : id = clientId
      · exact hid ▸ hget
      · exact absurd (isAttached_deleteClient.mpr ⟨id, hid, hget⟩) hnot
    · exact .inl hold
  have htotal : ∀ f : ClientAttachment → Int,
      (∀ (attachment : Nat) (client : ClientAttachment),
        r.attachments[attachment]? = some client → client.Empty → f client = 0) →
      (r.deleteClient clientId).total f = r.total f := by
    intro f hf
    unfold ChannelRecord.total clientNumbers
    simp only [ChannelRecord.deleteClient, JsMap.erase, List.map_map]
    apply sum_map_filter
    intro entry hentry hid
    have hkey : entry.1 = clientId := by simpa using hid
    have hget := JsMap.get?_of_mem h.nodup (show (entry.1, entry.2) ∈ r.clients from hentry)
    obtain ⟨client, hclient, -⟩ := h.attached _ _ hget
    simp only [Function.comp, hclient, Option.map_some, Option.getD_some]
    exact hf _ client hclient (hgone _ client (hkey ▸ hget) hclient)
  constructor
  · exact JsMap.nodup_erase h.nodup clientId
  · intro id attachment hget
    simp only [ChannelRecord.deleteClient, JsMap.get?_erase] at hget
    split at hget
    · cases hget
    · exact h.attached id attachment hget
  · exact h.known
  · exact h.queued
  · intro attachment client hclient _
    by_cases heq : some attachment = exempt
    · obtain ⟨hempty, hid⟩ := hexempt attachment client heq hclient
      refine .inr ⟨hempty, .inl fun hatt => ?_⟩
      obtain ⟨id, hne, hget⟩ := isAttached_deleteClient.mp hatt
      obtain ⟨c, hc, hcid⟩ := h.attached id attachment hget
      cases hc.symm.trans hclient
      exact hne (hcid.symm.trans hid)
    · exact (h.inFlight attachment client hclient heq).imp_right fun hempty =>
        ⟨hempty.1, hempty.2.imp_left fun hnot hatt => hnot (hattached attachment hatt)⟩
  · intro attachment client hclient hnot
    cases hdetached attachment hnot with
    | inl hold => exact h.detached attachment client hclient hold
    | inr hget => exact hgone attachment client hget hclient
  · intro attachments htask
    obtain ⟨hclosed, hvisited⟩ := h.closing attachments htask
    exact ⟨hclosed, fun attachment client hclient hatt =>
      hvisited attachment client hclient (hattached attachment hatt)⟩
  · intro attachment bytes htask
    obtain ⟨hlt, hnot⟩ := h.detaching attachment bytes htask
    exact ⟨hlt, fun hatt => hnot (hattached attachment hatt)⟩
  · rw [htotal _ fun attachment client hclient hempty =>
      (hempty.charge (h.queued attachment client hclient)).1]
    exact h.bytes
  · rw [htotal _ fun attachment client hclient hempty =>
      (hempty.charge (h.queued attachment client hclient)).2]
    exact h.frames
  · exact h.quota

theorem Charged.detachInternal (h : Charged owed none r) (clientId : String) :
    Charged owed none (r.detachInternal clientId) := by
  unfold ChannelRecord.detachInternal
  split
  · exact h
  · rename_i attachment hget
    obtain ⟨client, hclient, hid⟩ := h.attached clientId attachment hget
    obtain ⟨hrewrites, -, -⟩ := removeClientAccounting_some hclient
    have hcleared : (r.removeClientAccounting attachment).attachments[attachment]? =
        some client.cleared := by rw [hrewrites.attachments, if_pos rfl]
    apply (h.removeClientAccounting attachment (.inl rfl)).deleteClient
    · intro other c hother hc
      rw [hrewrites.clients, hget] at hother
      cases hother
      cases hcleared.symm.trans hc
      exact empty_cleared client
    · intro other c heq hc
      cases heq
      cases hcleared.symm.trans hc
      exact ⟨empty_cleared client, hid⟩

/-- An attach that fails takes its own attachment out, or one that is idle. -/
theorem Charged.attachFailed (h : Charged owed none r)
    (hmay : r.MayFail attachment) (caller : AttachCaller) :
    Charged owed none (r.attachFailed attachment caller) := by
  have hdeleted : Charged owed none
      ((r.removeClientAccounting attachment).deleteClient (r.clientIdOf attachment)) := by
    have hidle : ∀ (other : Nat) (c : ClientAttachment), other ≠ attachment →
        r.clients.get? (r.clientIdOf attachment) = some other → r.attachments[other]? = some c →
          c.Empty := by
      intro other c hne hother hc
      have hcidle := hmay other c hother hne hc
      cases h.inFlight other c hc (by simp) with
      | inl hcount => exact hcount.empty hcidle
      | inr hempty => exact hempty.1
    cases hclient : r.attachments[attachment]? with
    | none =>
      rw [removeClientAccounting_none hclient]
      apply h.deleteClient
      · intro other c hother hc
        apply hidle other c _ hother hc
        rintro rfl
        cases hclient.symm.trans hc
      · intro _ _ heq
        cases heq
    | some client =>
      have hid : r.clientIdOf attachment = client.clientId := by simp [clientIdOf, hclient]
      obtain ⟨hrewrites, -, -⟩ := removeClientAccounting_some hclient
      have hcleared : (r.removeClientAccounting attachment).attachments[attachment]? =
          some client.cleared := by rw [hrewrites.attachments, if_pos rfl]
      apply (h.removeClientAccounting attachment (.inl rfl)).deleteClient
      · intro other c hother hc
        rw [hrewrites.clients] at hother
        by_cases hne : other = attachment
        · rw [hne] at hc
          cases hcleared.symm.trans hc
          exact empty_cleared client
        · rw [hrewrites.attachments, if_neg hne] at hc
          exact hidle other c hne hother hc
      · intro other c heq hc
        cases heq
        cases hcleared.symm.trans hc
        exact ⟨empty_cleared client, hid.symm⟩
  unfold ChannelRecord.attachFailed
  cases caller with
  | attach => exact hdeleted
  | pendingAttaches rest => exact hdeleted.closeInternal

/-- Who may fail does not depend on the counters of the attachment. -/
theorem mayFail_congr {r' : ChannelRecord}
    (hclients : r'.clients = r.clients) (hid : r'.clientIdOf attachment = r.clientIdOf attachment)
    (hothers : ∀ other : Nat, other ≠ attachment → r'.attachments[other]? = r.attachments[other]?) :
    r'.MayFail attachment ↔ r.MayFail attachment := by
  unfold MayFail
  rw [hclients, hid]
  apply forall_congr'
  intro other
  apply forall_congr'
  intro client
  apply imp_congr_right
  intro _
  apply imp_congr_right
  intro hne
  rw [hothers other hne]

theorem settleFrame_same (r : ChannelRecord) (attachment bytes : Nat) :
    (r.settleFrame attachment bytes).clients = r.clients ∧
      (r.settleFrame attachment bytes).clientIdOf attachment = r.clientIdOf attachment ∧
      ∀ other : Nat, other ≠ attachment →
        (r.settleFrame attachment bytes).attachments[other]? = r.attachments[other]? := by
  unfold ChannelRecord.settleFrame
  split
  · exact ⟨rfl, rfl, fun _ _ => rfl⟩
  · rename_i client hclient
    split
    · refine ⟨rfl, ?_, fun other hother => ?_⟩
      · simp [clientIdOf, getElem?_update, hclient]
      · rw [getElem?_update]
        simp [Ne.symm hother]
    · exact ⟨rfl, rfl, fun _ _ => rfl⟩

theorem mayFail_settleFrame (r : ChannelRecord) (attachment bytes : Nat) :
    (r.settleFrame attachment bytes).MayFail attachment ↔ r.MayFail attachment := by
  obtain ⟨hclients, hid, hothers⟩ := settleFrame_same r attachment bytes
  exact mayFail_congr hclients hid hothers

/-- A flush fails when the sink has no `onFrame` any more. -/
theorem Charged.flushNext_fails (h : Charged [] none r) (caller : AttachCaller)
    (hclient : r.attachments[attachment]? = some client)
    (hqueue : client.queuedFrames ≠ []) (hsink : client.hasOnFrame = false) :
    ∃ r', Charged [] none r' ∧ (r'.MayFail attachment ↔ r.MayFail attachment) ∧
      r.flushNext attachment caller = r'.attachFailed attachment caller := by
  unfold ChannelRecord.flushNext
  rw [hclient]
  dsimp only
  split
  · rename_i hnil
    exact absurd hnil hqueue
  · rename_i frame queuedFrames hqueue
    rw [hsink, if_neg Bool.false_ne_true]
    refine ⟨_, ?_, ?_, rfl⟩
    · apply Charged.settleFrame
      apply h.take hclient hqueue <;> rfl
    · rw [mayFail_settleFrame]
      apply mayFail_congr
      · rfl
      · simp [clientIdOf, getElem?_update, hclient]
      · intro other hother
        rw [getElem?_update]
        simp [Ne.symm hother]

theorem Charged.flushNext (h : Charged [] none r) (caller : AttachCaller)
    (hsink : ∀ client, r.attachments[attachment]? = some client → client.queuedFrames ≠ [] →
      client.hasOnFrame = true) : Charged [] none (r.flushNext attachment caller) := by
  unfold ChannelRecord.flushNext
  split
  · exact h.attachCompleted caller
  · rename_i client hclient
    split
    · exact h.attachCompleted caller
    · rename_i frame queuedFrames hqueue
      dsimp only
      rw [hsink client hclient (by rw [hqueue]; simp), if_pos rfl]
      apply Charged.await_send _ rfl
      apply h.take hclient hqueue <;> rfl

theorem Charged.flushAutoDrainQueue (h : Charged [] none r) (attachment : Nat)
    (caller : AttachCaller) : Charged [] none (r.flushAutoDrainQueue attachment caller) := by
  unfold ChannelRecord.flushAutoDrainQueue
  split
  · rename_i hdirect
    apply h.flushNext
    intro client hclient _
    rw [hclient, Option.any_some, Bool.and_eq_true] at hdirect
    exact hdirect.2
  · exact h.attachCompleted caller

theorem Charged.append (h : Charged [] none r) {clientId : String}
    (hnone : r.clients.get? clientId = none) (client : ClientAttachment) (hempty : client.Empty)
    (hid : client.clientId = clientId) (hqueued : client.queuedBytes = 0) :
    Charged [] none { r with
      attachments := r.attachments ++ [client]
      clients := r.clients.set clientId r.attachments.length } := by
  have hkey : clientId ∉ JsMap.keys r.clients := by
    intro hmem
    obtain ⟨⟨id, a⟩, hentry, rfl⟩ := List.mem_map.mp hmem
    rw [JsMap.get?_of_mem h.nodup hentry] at hnone
    cases hnone
  have hget : ∀ attachment c, (r.attachments ++ [client])[attachment]? = some c →
      (attachment < r.attachments.length ∧ r.attachments[attachment]? = some c) ∨
        (attachment = r.attachments.length ∧ c = client) := by
    intro attachment c hc
    rw [List.getElem?_append] at hc
    split at hc
    · rename_i hlt
      exact .inl ⟨hlt, hc⟩
    · right
      obtain ⟨hindex, rfl⟩ : attachment - r.attachments.length = 0 ∧ client = c := by
        simpa [List.getElem?_singleton] using hc
      exact ⟨by omega, rfl⟩
  have hqueuedBytes : client.queuedBytes = framesBytes client.queuedFrames := by
    rw [hqueued, hempty.queuedFrames]
    rfl
  have hnosends : sendsTo (r.sends []) r.attachments.length = [] := by
    rw [sendsTo, List.map_eq_nil_iff, List.filter_eq_nil_iff]
    intro send hsend heq
    have hlt := h.known send hsend
    have heq := of_decide_eq_true heq
    omega
  have hattached : ∀ attachment, attachment < r.attachments.length →
      ((∃ id, (r.clients.set clientId r.attachments.length).get? id = some attachment) ↔
        r.IsAttached attachment) := by
    intro attachment hlt
    simp only [JsMap.get?_set]
    constructor
    · rintro ⟨id, hget⟩
      split at hget
      · cases hget
        omega
      · exact ⟨id, hget⟩
    · rintro ⟨id, hget⟩
      refine ⟨id, ?_⟩
      rw [if_neg]
      · exact hget
      · rintro rfl
        rw [hnone] at hget
        cases hget
  have htotal : ∀ f : ClientAttachment → Int, f client = 0 →
      total { r with
        attachments := r.attachments ++ [client]
        clients := r.clients.set clientId r.attachments.length } f = r.total f := by
    intro f hf
    have hnumbers : (r.clients.set clientId r.attachments.length).map (fun entry => entry.2) =
        r.clientNumbers ++ [r.attachments.length] := by
      unfold JsMap.set
      rw [if_neg]
      · simp [clientNumbers]
      · intro hany
        obtain ⟨entry, hentry, hid⟩ := List.any_eq_true.mp hany
        exact hkey (List.mem_map.mpr ⟨entry, hentry, of_decide_eq_true hid⟩)
    unfold ChannelRecord.total
    rw [clientNumbers, hnumbers, List.map_append, List.sum_append]
    have hlast : ((r.attachments ++ [client])[r.attachments.length]?).map f = some 0 := by
      simp [hf]
    simp only [List.map_cons, List.map_nil, hlast, Option.getD_some, List.sum_cons, List.sum_nil]
    rw [add_zero, add_zero]
    congr 1
    apply List.map_congr_left
    intro attachment hmem
    obtain ⟨id, hid⟩ := h.mem_clientNumbers.mp hmem
    obtain ⟨c, hc, -⟩ := h.attached id attachment hid
    rw [List.getElem?_append_left (List.getElem?_eq_some_iff.mp hc).1]
  have hcharge := hempty.charge hqueuedBytes
  constructor
  · exact JsMap.nodup_set h.nodup _ _
  · intro id attachment hid'
    rw [JsMap.get?_set] at hid'
    split at hid'
    · rename_i heq
      cases hid'
      exact ⟨client, by simp, hid.trans heq.symm⟩
    · obtain ⟨c, hc, hcid⟩ := h.attached id attachment hid'
      exact ⟨c, by rw [List.getElem?_append_left (List.getElem?_eq_some_iff.mp hc).1, hc], hcid⟩
  · intro send hsend
    have hlt := h.known send hsend
    rw [List.length_append]
    omega
  · intro attachment c hc
    cases hget attachment c hc with
    | inl hold => exact h.queued attachment c hold.2
    | inr hnew => rw [hnew.2, hqueuedBytes]
  · intro attachment c hc _
    cases hget attachment c hc with
    | inl hold =>
      exact (h.inFlight attachment c hold.2 (by simp)).imp_right fun hempty =>
        ⟨hempty.1, hempty.2.imp_left fun hnot hatt => hnot ((hattached attachment hold.1).mp hatt)⟩
    | inr hnew =>
      obtain ⟨rfl, rfl⟩ := hnew
      left
      rw [show ChannelRecord.sends { r with
        attachments := r.attachments ++ [c]
        clients := r.clients.set clientId r.attachments.length } [] = r.sends [] from rfl, hnosends]
      exact ⟨hempty.inFlightFrames, hempty.inFlightBytes⟩
  · intro attachment c hc hnot
    cases hget attachment c hc with
    | inl hold =>
      exact h.detached attachment c hold.2 fun hatt => hnot ((hattached attachment hold.1).mpr hatt)
    | inr hnew => rw [hnew.2]; exact hempty
  · intro attachments htask
    obtain ⟨hclosed, hvisited⟩ := h.closing attachments htask
    refine ⟨hclosed, fun attachment c hc hatt => ?_⟩
    cases hget attachment c hc with
    | inl hold => exact hvisited attachment c hold.2 ((hattached attachment hold.1).mp hatt)
    | inr hnew => rw [hnew.2]; exact .inr hempty
  · intro attachment bytes htask
    obtain ⟨hlt, hnot⟩ := h.detaching attachment bytes htask
    exact ⟨by rw [List.length_append]; omega, fun hatt => hnot ((hattached attachment hlt).mp hatt)⟩
  · rw [htotal _ hcharge.1]
    exact h.bytes
  · rw [htotal _ hcharge.2]
    exact h.frames
  · exact h.quota

theorem Charged.attachInternal (h : Charged [] none r) (clientId : String)
    (sink : Option ClientSink) : Charged [] none (r.attachInternal clientId sink) := by
  unfold ChannelRecord.attachInternal
  split
  · exact h
  · split
    · exact h.update _ fun client => ⟨rfl, rfl, rfl, rfl, rfl⟩
    · rename_i hnone
      have happend := h.append hnone (ClientAttachment.new clientId sink r.accepted.length) ⟨rfl, rfl, rfl⟩ rfl rfl
      dsimp only
      split
      · exact happend.await rfl (by simp) (by simp)
      · exact happend

/-! ## Frames of the handler -/

theorem Charged.drainClient (h : Charged [] none r) (clientId : String) (maxFrames : Option Nat) :
    Charged [] none (r.drainClient clientId maxFrames) := by
  unfold ChannelRecord.drainClient
  split
  · exact h
  · rename_i attachment hget
    split
    · exact h
    · rename_i client hclient
      dsimp only
      generalize maxFrames.getD client.queuedFrames.length = count
      have hsplit : framesBytes client.queuedFrames =
          framesBytes (client.queuedFrames.take count) +
            framesBytes (client.queuedFrames.drop count) := by
        rw [← framesBytes_append, List.take_append_drop]
      have hlength : client.queuedFrames.length =
          (client.queuedFrames.take count).length + (client.queuedFrames.drop count).length := by
        rw [← List.length_append, List.take_append_drop]
      have hqueued := h.queued attachment client hclient
      have hquota := h.quota
      have hrewrites := Rewrites.update hclient fun client' =>
        { client' with
          queuedFrames := client'.queuedFrames.drop count
          queuedBytes := client'.queuedBytes - framesBytes (client.queuedFrames.take count)
          delivered := client'.delivered ++ client.queuedFrames.take count }
      apply h.rewrite hclient (hrewrites.counters _ _)
      · rfl
      · dsimp only
        omega
      · intro send hsend
        cases hsend
      · exact fun other _ _ => ⟨by simp, rfl⟩
      · intro _
        apply (h.inFlight attachment client hclient (by simp)).imp
        · exact fun hcount => hcount
        · exact fun hempty => ⟨⟨by simp [hempty.1.queuedFrames], hempty.1.inFlightFrames,
            hempty.1.inFlightBytes⟩, hempty.2⟩
      · exact fun hempty => .inl ⟨by simp [hempty.queuedFrames], hempty.inFlightFrames,
          hempty.inFlightBytes⟩
      · simp only [ClientAttachment.bytes]
        omega
      · simp only [ClientAttachment.frames]
        omega
      · dsimp only
        omega

/-- A recipient gets a frame for which the channel has room. -/
theorem Charged.deliverTo (h : Charged [] none r) (hopen : r.state ≠ .closed)
    (hattached : r.IsAttached attachment) (frame : SentFrame)
    (hbytes : r.outboundBytes + frameByteLength frame.2 ≤ r.quotas.maxOutboundBytes)
    (hframes : r.outboundFrames + 1 ≤ r.quotas.maxOutboundFrames) :
    Charged [] none (deliverTo frame r attachment) := by
  obtain ⟨clientId, hget⟩ := hattached
  obtain ⟨client, hclient, -⟩ := h.attached clientId attachment hget
  have hlt := (List.getElem?_eq_some_iff.mp hclient).1
  have hqueued := h.queued attachment client hclient
  have hcount : client.InFlight (sendsTo (r.sends []) attachment) := by
    cases h.inFlight attachment client hclient (by simp) with
    | inl hcount => exact hcount
    | inr hempty => exact absurd ⟨clientId, hget⟩ (hempty.2.resolve_right hopen)
  have hrewrites := Rewrites.update hclient (·.receive frame)
  unfold ChannelRecord.deliverTo
  dsimp only
  rw [hclient, Option.any_some]
  cases hdirect : client.isDirect with
  | true =>
    rw [if_pos rfl]
    apply Charged.await_send _ rfl
    apply h.rewrite hclient (hrewrites.counters _ _)
    · simp [ClientAttachment.receive, hdirect]
    · simpa [ClientAttachment.receive, hdirect] using hqueued
    · intro send hsend
      rw [List.mem_singleton.mp hsend]
      exact hlt
    · intro other hother _
      rw [sendsTo_cons, if_neg (Ne.symm hother)]
      exact ⟨by simp, rfl⟩
    · intro _
      left
      rw [ChannelRecord.sends, List.cons_append, sendsTo_cons, if_pos rfl]
      simp only [ClientAttachment.receive, hdirect, if_true]
      refine ⟨?_, ?_⟩
      · rw [hcount.1]
        rfl
      · rw [hcount.2, List.sum_cons]
        simp only [ChannelRecord.sends, List.nil_append]
        omega
    · exact fun _ => .inr ⟨⟨clientId, hget⟩, hopen⟩
    · simp only [ClientAttachment.receive, hdirect, if_true, ClientAttachment.bytes]
      omega
    · simp only [ClientAttachment.receive, hdirect, if_true, ClientAttachment.frames]
      omega
    · exact ⟨hbytes, hframes⟩
  | false =>
    rw [if_neg Bool.false_ne_true]
    apply h.rewrite hclient (hrewrites.counters _ _)
    · simp [ClientAttachment.receive, hdirect]
    · simp only [ClientAttachment.receive, hdirect, Bool.false_eq_true, if_false, framesBytes_append]
      rw [hqueued]
      simp [framesBytes]
    · intro send hsend
      cases hsend
    · exact fun other _ _ => ⟨by simp, rfl⟩
    · intro _
      left
      simp only [ClientAttachment.receive, hdirect, Bool.false_eq_true, if_false]
      exact hcount
    · exact fun _ => .inr ⟨⟨clientId, hget⟩, hopen⟩
    · simp only [ClientAttachment.receive, hdirect, Bool.false_eq_true, if_false,
        ClientAttachment.bytes]
      omega
    · simp only [ClientAttachment.receive, hdirect, Bool.false_eq_true, if_false,
        ClientAttachment.frames, List.length_append, List.length_singleton]
      omega
    · exact ⟨hbytes, hframes⟩

/-- What `deliverTo` leaves alone, and what it charges. -/
theorem deliverTo_same (frame : SentFrame) (r : ChannelRecord) (attachment : Nat) :
    (deliverTo frame r attachment).clients = r.clients ∧
      (deliverTo frame r attachment).state = r.state ∧
      (deliverTo frame r attachment).quotas = r.quotas ∧
      (deliverTo frame r attachment).outboundBytes = r.outboundBytes + frameByteLength frame.2 ∧
      (deliverTo frame r attachment).outboundFrames = r.outboundFrames + 1 := by
  unfold ChannelRecord.deliverTo
  dsimp only
  split
  · exact ⟨rfl, rfl, rfl, rfl, rfl⟩
  · exact ⟨rfl, rfl, rfl, rfl, rfl⟩

variable {attachments : List Nat}

theorem Charged.foldl_deliverTo (h : Charged [] none r) (hopen : r.state ≠ .closed)
    (frame : SentFrame) (hattached : ∀ attachment ∈ attachments, r.IsAttached attachment)
    (hbytes : r.outboundBytes + frameByteLength frame.2 * attachments.length ≤
      r.quotas.maxOutboundBytes)
    (hframes : r.outboundFrames + attachments.length ≤ r.quotas.maxOutboundFrames) :
    Charged [] none (attachments.foldl (ChannelRecord.deliverTo frame) r) := by
  induction attachments generalizing r with
  | nil => exact h
  | cons attachment rest ih =>
    obtain ⟨hclients, hstate, hquotas, hb, hf⟩ := deliverTo_same frame r attachment
    rw [List.length_cons] at hbytes hframes
    rw [Nat.cast_add, mul_add] at hbytes
    have hrest : (0 : Int) ≤ frameByteLength frame.2 * rest.length := by positivity
    apply ih
    · exact h.deliverTo hopen (hattached attachment List.mem_cons_self) frame (by omega) (by omega)
    · rw [hstate]
      exact hopen
    · intro other hother
      unfold IsAttached
      rw [hclients]
      exact hattached other (List.mem_cons_of_mem _ hother)
    · rw [hb, hquotas]
      omega
    · rw [hf, hquotas]
      omega

theorem Charged.deliverFromHandler (h : Charged [] none r) (hopen : r.state ≠ .closed)
    (hattached : ∀ attachment ∈ attachments, r.IsAttached attachment)
    (frame : HostChannelFrame) : Charged [] none (r.deliverFromHandler attachments frame) := by
  unfold ChannelRecord.deliverFromHandler
  split
  · rename_i hcapacity
    simp only [hasCapacity, Bool.and_eq_true, decide_eq_true_eq] at hcapacity
    have haccepted : Charged [] none { r with
        accepted := r.accepted ++ [((r.accepted.length, frame), attachments)] } :=
      ⟨h.nodup, h.attached, h.known, h.queued, h.inFlight, h.detached, h.closing, h.detaching,
        h.bytes, h.frames, h.quota⟩
    exact haccepted.foldl_deliverTo hopen _ hattached hcapacity.1.1 hcapacity.1.2
  · exact h

theorem not_closed_of_acceptsFrame {frame : HostChannelFrame} (h : r.acceptsFrame frame = true) :
    r.state ≠ .closed := by
  intro hclosed
  simp [acceptsFrame, hclosed] at h

theorem Charged.sendFromHandler (h : Charged [] none r) (frame : HostChannelFrame) :
    Charged [] none (r.sendFromHandler frame) := by
  unfold ChannelRecord.sendFromHandler
  split
  · rename_i haccepts
    apply h.deliverFromHandler (not_closed_of_acceptsFrame haccepts)
    exact fun attachment hmem => h.mem_clientNumbers.mp hmem
  · exact h

theorem Charged.sendFromHandlerTo (h : Charged [] none r) (clientId : String)
    (frame : HostChannelFrame) : Charged [] none (r.sendFromHandlerTo clientId frame) := by
  unfold ChannelRecord.sendFromHandlerTo
  split
  · exact h
  · rename_i attachment hget
    split
    · rename_i haccepts
      apply h.deliverFromHandler (not_closed_of_acceptsFrame haccepts)
      intro other hmem
      rw [List.mem_singleton.mp hmem]
      exact ⟨clientId, hget⟩
    · exact h

/-! ## The end of a close -/

theorem Charged.clientsClosed (h : Charged [] none r) (hclosed : r.state = .closed)
    (hvisited : ∀ (attachment : Nat) (client : ClientAttachment),
      r.attachments[attachment]? = some client → r.IsAttached attachment → client.Empty) :
    Charged [] none r.clientsClosed := by
  have hempty : ∀ (attachment : Nat) (client : ClientAttachment),
      r.attachments[attachment]? = some client → client.Empty := by
    intro attachment client hclient
    by_cases hattached : r.IsAttached attachment
    · exact hvisited attachment client hclient hattached
    · exact h.detached attachment client hclient hattached
  have hnone : ∀ attachment, ¬ r.clientsClosed.IsAttached attachment := by
    rintro attachment ⟨clientId, hget⟩
    cases hget
  constructor
  · exact List.nodup_nil
  · intro clientId attachment hget
    cases hget
  · exact h.known
  · exact h.queued
  · exact fun attachment client hclient _ =>
      .inr ⟨hempty attachment client hclient, .inl (hnone attachment)⟩
  · exact fun attachment client hclient _ => hempty attachment client hclient
  · intro attachments htask
    exact ⟨hclosed, fun attachment client hclient _ => .inr (hempty attachment client hclient)⟩
  · exact fun attachment bytes htask => ⟨(h.detaching attachment bytes htask).1, hnone attachment⟩
  · rfl
  · rfl
  · exact ⟨Int.natCast_nonneg _, Int.natCast_nonneg _⟩

theorem Charged.closeNext (h : Charged [] none r) (hclosed : r.state = .closed)
    (hvisited : ∀ (attachment : Nat) (client : ClientAttachment),
      r.attachments[attachment]? = some client → r.IsAttached attachment →
        attachment ∈ attachments ∨ client.Empty) :
    Charged [] none (r.closeNext attachments) := by
  cases attachments with
  | nil =>
    apply h.clientsClosed hclosed
    exact fun attachment client hclient hattached =>
      (hvisited attachment client hclient hattached).resolve_left (by simp)
  | cons next rest =>
    apply h.retask
    · have hnone : [Task.closeClients (next :: rest)].filterMap Task.send? = [] := rfl
      rw [List.filterMap_append, hnone]
      simp [ChannelRecord.sends]
    · intro attachments hmem
      cases List.mem_append.mp hmem with
      | inl hold => exact .inl hold
      | inr hnew =>
        cases List.mem_singleton.mp hnew
        exact .inr ⟨hclosed, hvisited⟩
    · intro attachment bytes hmem
      cases List.mem_append.mp hmem with
      | inl hold => exact .inl hold
      | inr hnew => cases List.mem_singleton.mp hnew

theorem Charged.handlerClosed (h : Charged [] none r) : Charged [] none r.handlerClosed := by
  apply h.closed.closeNext rfl
  exact fun attachment client _ hattached => .inl (h.mem_clientNumbers.mpr hattached)

theorem Charged.closeClient (h : Charged [] none r) {number : Nat} {rest : List Nat}
    (htask : r.tasks[number]? = some (.closeClients (attachment :: rest))) :
    Charged [] none
      (({ r with tasks := r.tasks.eraseIdx number }.removeClientAccounting attachment).closeNext
        rest) := by
  obtain ⟨hclosed, hvisited⟩ := h.closing _ (List.mem_of_getElem? htask)
  have htaken := h.taken htask
  have hremoved := Charged.removeClientAccounting htaken attachment (.inr ⟨rfl, hclosed⟩)
  cases hclient : r.attachments[attachment]? with
  | none =>
    rw [removeClientAccounting_none (r := { r with tasks := r.tasks.eraseIdx number }) hclient]
      at hremoved ⊢
    apply hremoved.closeNext hclosed
    intro other c hc hattached
    cases hvisited other c hc hattached with
    | inl hmem =>
      cases List.mem_cons.mp hmem with
      | inl heq =>
        rw [heq] at hc
        cases hclient.symm.trans hc
      | inr hrest => exact .inl hrest
    | inr hempty => exact .inr hempty
  | some client =>
    obtain ⟨hrewrites, -, -⟩ := removeClientAccounting_some
      (r := { r with tasks := r.tasks.eraseIdx number }) hclient
    apply hremoved.closeNext (hrewrites.state.trans hclosed)
    intro other c hc hattached
    rw [hrewrites.isAttached] at hattached
    rw [hrewrites.attachments] at hc
    split at hc
    · cases hc
      exact .inr (empty_cleared client)
    · rename_i hne
      cases hvisited other c hc hattached with
      | inl hmem => exact .inl ((List.mem_cons.mp hmem).resolve_left hne)
      | inr hempty => exact .inr hempty

/-! ## Continuations -/

theorem Charged.handlerOpened (h : Charged [] none r) : Charged [] none r.handlerOpened := by
  unfold ChannelRecord.handlerOpened
  split
  · exact h
  · rename_i hopen
    exact (h.restate hopen .opened true).completePendingAttaches _

theorem getElem?_settleFrame (bytes : Nat) (h : r.attachments[attachment]? = some client) :
    ∃ c, (r.settleFrame attachment bytes).attachments[attachment]? = some c ∧
      c.queuedFrames = client.queuedFrames ∧ c.hasOnFrame = client.hasOnFrame := by
  unfold ChannelRecord.settleFrame
  rw [h]
  dsimp only
  split
  · exact ⟨{ client with
      inFlightFrames := client.inFlightFrames - 1
      inFlightBytes := client.inFlightBytes - bytes }, by simp [getElem?_update, h], rfl, rfl⟩
  · exact ⟨client, h, rfl, rfl⟩

/-- A frame that is settled leaves the queue and the sink as they are. -/
theorem settleFrame_queue {bytes : Nat}
    (h : (r.settleFrame attachment bytes).attachments[attachment]? = some client) :
    ∃ c, r.attachments[attachment]? = some c ∧ client.queuedFrames = c.queuedFrames ∧
      client.hasOnFrame = c.hasOnFrame := by
  cases hc : r.attachments[attachment]? with
  | none =>
    have hsame : r.settleFrame attachment bytes = r := by
      unfold ChannelRecord.settleFrame
      rw [hc]
    rw [hsame, hc] at h
    cases h
  | some c =>
    obtain ⟨c', hc', hqueue, hsink⟩ := getElem?_settleFrame bytes hc
    cases h.symm.trans hc'
    exact ⟨c, rfl, hqueue, hsink⟩

/-- After its client has gone a frame may be counted as on its way or not. -/
theorem Charged.owe (h : Charged [] none r) (hlt : attachment < r.attachments.length)
    (hnot : ¬ r.IsAttached attachment) (bytes : Nat) : Charged [(attachment, bytes)] none r :=
  { h with
    known := by
      intro send hsend
      cases List.mem_cons.mp hsend with
      | inl heq => rw [heq]; exact hlt
      | inr hold => exact h.known send hold
    inFlight := by
      intro other client hclient hexempt
      by_cases hother : other = attachment
      · rw [hother] at hclient ⊢
        exact .inr ⟨h.detached attachment client hclient hnot, .inl hnot⟩
      · have hold := h.inFlight other client hclient hexempt
        rw [sends, List.cons_append, sendsTo_cons, if_neg (Ne.symm hother)]
        exact hold }

theorem get?_detachInternal (r : ChannelRecord) (clientId id : String) :
    (r.detachInternal clientId).clients.get? id =
      if id = clientId then none else r.clients.get? id := by
  unfold ChannelRecord.detachInternal
  split
  · rename_i hnone
    split
    · rename_i hid
      rw [hid, hnone]
    · rfl
  · rename_i attachment hget
    have hclients : (r.removeClientAccounting attachment).clients = r.clients := by
      unfold ChannelRecord.removeClientAccounting
      split <;> rfl
    rw [ChannelRecord.deleteClient, JsMap.get?_erase, hclients]

theorem Charged.sendFailed {bytes : Nat} (h : Charged [(attachment, bytes)] none r) :
    Charged [] none ((r.detachInternal (r.clientIdOf attachment)).await
      (.detaching attachment bytes)) := by
  have hdetached := h.detachInternal (r.clientIdOf attachment)
  have hlt := hdetached.known (attachment, bytes) List.mem_cons_self
  have hnot : ¬ (r.detachInternal (r.clientIdOf attachment)).IsAttached attachment := by
    rintro ⟨id, hget⟩
    rw [get?_detachInternal] at hget
    split at hget
    · cases hget
    · rename_i hid
      obtain ⟨client, hclient, hcid⟩ := h.attached id attachment hget
      exact hid (by simp [clientIdOf, hclient, hcid])
  cases hclient : (r.detachInternal (r.clientIdOf attachment)).attachments[attachment]? with
  | none =>
    rw [List.getElem?_eq_none_iff] at hclient
    omega
  | some client =>
    have hempty := hdetached.detached attachment client hclient hnot
    apply Charged.await (hdetached.forget hclient ⟨hempty, .inl hnot⟩) rfl (by simp)
    intro other bytes' heq
    cases heq
    exact ⟨hlt, hnot⟩

/-- An attach that fails does so from a state in which the channel's counters are right. -/
theorem Charged.resumeTask_fails (h : Charged [] none r) {number : Nat} {task : Task}
    (htask : r.tasks[number]? = some task) {ok : Bool}
    (hfails : r.failsAttach task ok = some attachment) :
    ∃ r' caller, Charged [] none r' ∧ (r'.MayFail attachment ↔ r.MayFail attachment) ∧
      ChannelRegistry.resumeTask task number ok r = r'.attachFailed attachment caller := by
  have htaken := h.taken htask
  unfold ChannelRegistry.resumeTask
  cases task with
  | onAttach a caller =>
    cases ok with
    | true => cases hfails
    | false =>
      cases hfails
      exact ⟨_, caller, htaken, mayFail_congr rfl rfl fun _ _ => rfl, rfl⟩
  | flush a bytes caller =>
    have hsettled := Charged.settleFrame htaken
    have hsame := mayFail_settleFrame { r with tasks := r.tasks.eraseIdx number } a bytes
    cases ok with
    | false =>
      cases hfails
      exact ⟨_, caller, hsettled, hsame, rfl⟩
    | true =>
      simp only [failsAttach, if_true, Option.ite_none_right_eq_some, Option.some.injEq,
        Option.any_eq_true_iff_get] at hfails
      obtain ⟨⟨hsome, hclient⟩, rfl⟩ := hfails
      obtain ⟨client, hget⟩ := Option.isSome_iff_exists.mp hsome
      simp only [hget, Option.get_some, Bool.and_eq_true, Bool.not_eq_true', List.isEmpty_eq_false_iff]
        at hclient
      obtain ⟨c, hc, hqueue, hsink⟩ := getElem?_settleFrame (r := { r with
        tasks := r.tasks.eraseIdx number }) bytes hget
      obtain ⟨r', hcharged, hmay, heq⟩ := hsettled.flushNext_fails caller hc
        (by rw [hqueue]; exact hclient.1) (by rw [hsink]; exact hclient.2)
      exact ⟨r', caller, hcharged, hmay.trans hsame, heq⟩
  | _ => cases hfails

/-- A continuation goes on; where an attach fails, it takes out its own attachment or an
    idle one. -/
theorem Charged.resumeTask (h : Charged [] none r) {number : Nat} {task : Task}
    (htask : r.tasks[number]? = some task) (ok : Bool)
    (hmay : ∀ attachment, r.failsAttach task ok = some attachment → r.MayFail attachment) :
    Charged [] none (ChannelRegistry.resumeTask task number ok r) := by
  cases hfails : r.failsAttach task ok with
  | some attachment =>
    obtain ⟨r', caller, hcharged, hsame, heq⟩ := h.resumeTask_fails htask hfails
    rw [heq]
    exact hcharged.attachFailed (hsame.mpr (hmay attachment hfails)) caller
  | none =>
    have htaken := h.taken htask
    unfold ChannelRegistry.resumeTask
    cases task with
    | opening =>
      cases ok with
      | true => exact htaken.handlerOpened
      | false => exact htaken.closeInternal
    | onAttach attachment caller =>
      cases ok with
      | true =>
        have hattached : Charged [] none (ChannelRecord.update
            { r with tasks := r.tasks.eraseIdx number } attachment
              ({ · with attaching := false })) :=
          Charged.update htaken attachment fun client => ⟨rfl, rfl, rfl, rfl, rfl⟩
        exact hattached.flushAutoDrainQueue attachment caller
      | false => cases hfails
    | flush attachment bytes caller =>
      cases ok with
      | true =>
        apply (Charged.settleFrame htaken).flushNext
        intro client hclient hqueue
        obtain ⟨c, hc, hqueue', hsink'⟩ := settleFrame_queue hclient
        have hc : r.attachments[attachment]? = some c := hc
        rw [hqueue'] at hqueue
        rw [hsink']
        simpa [failsAttach, hc, hqueue] using hfails
      | false => cases hfails
    | delivery attachment bytes =>
      cases ok with
      | true => exact Charged.settleFrame htaken
      | false => exact htaken.sendFailed
    | detaching attachment bytes =>
      obtain ⟨hlt, hnot⟩ := h.detaching attachment bytes (List.mem_of_getElem? htask)
      apply Charged.settleFrame
      apply htaken.owe hlt hnot
    | closing => exact htaken.handlerClosed
    | closeClients attachments =>
      cases attachments with
      | nil =>
        obtain ⟨hclosed, hvisited⟩ := h.closing [] (List.mem_of_getElem? htask)
        exact Charged.clientsClosed htaken hclosed fun attachment client hclient hattached =>
          (hvisited attachment client hclient hattached).resolve_left (by simp)
      | cons attachment rest => exact h.closeClient htask

/-! ## The counters -/

theorem total_eq_sum (r : ChannelRecord) (f : ClientAttachment → Int) :
    r.total f = (r.attached.map f).sum := by
  unfold total ChannelRecord.attached recipients
  induction r.clientNumbers with
  | nil => rfl
  | cons attachment rest ih =>
    rw [List.map_cons, List.sum_cons, ih, List.filterMap_cons]
    cases r.attachments[attachment]? <;> simp

theorem getElem?_of_mem_attached {r : ChannelRecord}
    (h : client ∈ r.attached) : ∃ attachment : Nat, r.attachments[attachment]? = some client := by
  obtain ⟨attachment, -, hget⟩ := List.mem_filterMap.mp h
  exact ⟨attachment, hget⟩

theorem Charged.accounted (h : Charged [] none r) : r.Accounted where
  bytes := h.bytes.trans (total_eq_sum r _)
  frames := h.frames.trans (total_eq_sum r _)
  queued := fun _ attachment client _ hclient => h.queued attachment client hclient
  inFlight := by
    intro hopen clientId attachment client hget hclient
    cases h.inFlight attachment client hclient (by simp) with
    | inl hcount => exact hcount
    | inr hempty => exact absurd ⟨clientId, hget⟩ (hempty.2.resolve_right hopen)
  nonneg := by
    rw [h.bytes, h.frames, total_eq_sum, total_eq_sum]
    constructor
    · apply List.sum_nonneg
      intro x hx
      obtain ⟨client, hmem, rfl⟩ := List.mem_map.mp hx
      obtain ⟨attachment, hclient⟩ := getElem?_of_mem_attached hmem
      exact (h.charge_nonneg hclient).1
    · apply List.sum_nonneg
      intro x hx
      obtain ⟨client, hmem, rfl⟩ := List.mem_map.mp hx
      obtain ⟨attachment, hclient⟩ := getElem?_of_mem_attached hmem
      exact (h.charge_nonneg hclient).2
  idle := by
    intro hidle
    have hcharge : ∀ client ∈ r.attached, client.bytes = 0 ∧ client.frames = 0 := by
      intro client hmem
      obtain ⟨attachment, hclient⟩ := getElem?_of_mem_attached hmem
      have hqueued := h.queued attachment client hclient
      cases h.inFlight attachment client hclient (by simp) with
      | inl hcount => exact (hcount.empty (hidle client hmem)).charge hqueued
      | inr hempty => exact hempty.1.charge hqueued
    rw [h.bytes, h.frames, total_eq_sum, total_eq_sum]
    constructor
    · apply List.sum_eq_zero
      intro x hx
      obtain ⟨client, hmem, rfl⟩ := List.mem_map.mp hx
      exact (hcharge client hmem).1
    · apply List.sum_eq_zero
      intro x hx
      obtain ⟨client, hmem, rfl⟩ := List.mem_map.mp hx
      exact (hcharge client hmem).2
  quota := h.quota

/-- An attach that takes out another attachment with frames leaves them charged to the
    channel, and to no client. -/
theorem not_accounted_attachFailed (h : Charged [] none r)
    (hnot : ¬ r.MayFail attachment) (caller : AttachCaller) :
    ¬ (r.attachFailed attachment caller).Accounted := by
  simp only [MayFail, not_forall] at hnot
  obtain ⟨other, client, hget, hne, hclient, hidle⟩ := hnot
  have hdetached : ¬ r.IsAttached attachment := by
    rintro ⟨id, hid⟩
    obtain ⟨c, hc, hcid⟩ := h.attached id attachment hid
    have hown : r.clientIdOf attachment = id := by simp [clientIdOf, hc, hcid]
    rw [hown, hid] at hget
    exact hne (Option.some.inj hget).symm
  -- the failed attachment itself was charged nothing
  have hremoved : (r.removeClientAccounting attachment).outboundFrames = r.outboundFrames ∧
      (r.removeClientAccounting attachment).clients = r.clients ∧
      ∀ a, a ≠ attachment →
        (r.removeClientAccounting attachment).attachments[a]? = r.attachments[a]? := by
    cases hc : r.attachments[attachment]? with
    | none =>
      rw [removeClientAccounting_none hc]
      exact ⟨rfl, rfl, fun _ _ => rfl⟩
    | some c =>
      obtain ⟨hrewrites, -, hframes⟩ := removeClientAccounting_some hc
      have hcharge := (h.detached attachment c hc hdetached).charge (h.queued attachment c hc)
      refine ⟨?_, hrewrites.clients, fun a ha => ?_⟩
      · rw [hframes, hcharge.2]
        omega
      · rw [hrewrites.attachments, if_neg ha]
  obtain ⟨hframes, hclients, hothers⟩ := hremoved
  have hpositive : 0 < client.frames := by
    have hnonneg := (h.charge_nonneg hclient).2
    cases h.inFlight other client hclient (by simp) with
    | inl hcount =>
      unfold ClientAttachment.Idle at hidle
      unfold ClientAttachment.frames
      have hinFlight := hcount.1
      by_cases hqueue : client.queuedFrames = []
      · have : client.inFlightFrames ≠ 0 := fun hzero => hidle ⟨hqueue, hzero⟩
        omega
      · have := List.length_pos_iff.mpr hqueue
        omega
    | inr hempty => exact absurd ⟨hempty.1.queuedFrames, hempty.1.inFlightFrames⟩ hidle
  have htotal : ((r.removeClientAccounting attachment).deleteClient
      (r.clientIdOf attachment)).total (·.frames) + client.frames = r.total (·.frames) := by
    have herase := JsMap.sum_erase h.nodup hget fun entry =>
      (((r.removeClientAccounting attachment).attachments[entry.2]?).map (·.frames)).getD 0
    rw [hothers other hne, hclient] at herase
    unfold total clientNumbers
    rw [List.map_map, List.map_map]
    simp only [ChannelRecord.deleteClient, hclients]
    refine Eq.trans herase ?_
    congr 1
    apply List.map_congr_left
    intro entry hentry
    have hentry := JsMap.get?_of_mem h.nodup (show (entry.1, entry.2) ∈ r.clients from hentry)
    have hne : entry.2 ≠ attachment := fun heq => hdetached ⟨entry.1, heq ▸ hentry⟩
    simp only [Function.comp]
    rw [hothers _ hne]
  intro hafter
  have hsum : ((r.removeClientAccounting attachment).deleteClient
      (r.clientIdOf attachment)).outboundFrames = ((r.removeClientAccounting attachment).deleteClient
        (r.clientIdOf attachment)).total (·.frames) := by
    rw [total_eq_sum]
    cases caller with
    | attach => exact hafter.frames
    | pendingAttaches rest =>
      have hclose : ∀ q : ChannelRecord, q.closeInternal.outboundFrames = q.outboundFrames ∧
          q.closeInternal.attached = q.attached := by
        intro q
        unfold ChannelRecord.closeInternal
        split <;> exact ⟨rfl, rfl⟩
      have hframes := hafter.frames
      unfold ChannelRecord.attachFailed at hframes
      dsimp only at hframes
      rw [(hclose _).1, (hclose _).2] at hframes
      exact hframes
  have hold := h.frames
  have hsame : ((r.removeClientAccounting attachment).deleteClient
      (r.clientIdOf attachment)).outboundFrames = r.outboundFrames := hframes
  omega

end Clients

/-! ## New channels -/

theorem charged_newRecord (req : OpenRequest) (id : String) (quotas : ChannelQuotas) :
    Charged [] none ((ChannelRegistry.newRecord req id quotas).await .opening) where
  nodup := List.nodup_nil
  attached := fun _ _ hget => nomatch hget
  known := fun _ hsend => nomatch hsend
  queued := fun _ _ hclient => nomatch hclient
  inFlight := fun _ _ hclient => nomatch hclient
  detached := fun _ _ hclient => nomatch hclient
  closing := fun _ htask => by cases List.mem_singleton.mp htask
  detaching := fun _ _ htask => by cases List.mem_singleton.mp htask
  bytes := rfl
  frames := rfl
  quota := ⟨Int.natCast_nonneg _, Int.natCast_nonneg _⟩

end ChannelRecord

namespace ChannelRegistry

open ChannelRecord

/-! ## Runs -/

def AllCharged (s : ChannelRegistry) : Prop := ∀ r ∈ s.records, Charged [] none r

variable {s : ChannelRegistry}

theorem AllCharged.update (h : AllCharged s) {record : Nat} {f : ChannelRecord → ChannelRecord}
    (hf : ∀ r, s.records[record]? = some r → Charged [] none r → Charged [] none (f r)) :
    AllCharged (s.update record f) := by
  intro q hq
  obtain ⟨n, hn⟩ := List.mem_iff_getElem?.mp hq
  rw [getElem?_update, Option.map_eq_some_iff] at hn
  obtain ⟨r, hr, rfl⟩ := hn
  split
  · rename_i heq
    exact hf r (heq ▸ hr) (h r (List.mem_of_getElem? hr))
  · exact h r (List.mem_of_getElem? hr)

theorem charged_attachClient {r : ChannelRecord} (h : Charged [] none r) (req : OpenRequest) :
    Charged [] none (attachClient req r) := by
  unfold attachClient
  split
  · exact h
  · exact h.attachInternal _ _

theorem AllCharged.opens (h : AllCharged s) (req : OpenRequest)
    (id : String) : AllCharged (s.opens req id) := by
  unfold ChannelRegistry.opens
  split
  · exact h.update fun r _ hr => charged_attachClient hr req
  · dsimp only
    split
    · intro q hq
      cases List.mem_append.mp hq with
      | inl hold => exact h q hold
      | inr hnew =>
        cases List.mem_singleton.mp hnew
        rw [await_attachClient]
        exact charged_attachClient (charged_newRecord _ _ _) req
    · exact h

theorem charged_requireChannel {f : ChannelRecord → ChannelRecord}
    (hf : ∀ r, Charged [] none r → Charged [] none (f r)) {r : ChannelRecord}
    (h : Charged [] none r) : Charged [] none (requireChannel f r) := by
  unfold requireChannel
  split
  · exact h
  · exact hf r h

theorem AllCharged.step (h : AllCharged s) {event : Event}
    (hfails : FailsOwn s event) : AllCharged (s.step event) := by
  cases event with
  | opens req id => exact h.opens req id
  | attach sessionId packId channelId clientId client =>
    simp only [ChannelRegistry.step, onChannel]
    split
    · exact h
    · exact h.update fun r _ hr => charged_requireChannel (fun q hq => hq.attachInternal _ _) hr
  | detach sessionId packId channelId clientId =>
    simp only [ChannelRegistry.step, onChannel]
    split
    · exact h
    · exact h.update fun r _ hr => hr.detachInternal clientId
  | sendFromHandler channelId frame =>
    simp only [ChannelRegistry.step, onHandlerChannel]
    split
    · exact h
    · exact h.update fun r _ hr => hr.sendFromHandler frame
  | sendFromHandlerTo channelId clientId frame =>
    simp only [ChannelRegistry.step, onHandlerChannel]
    split
    · exact h
    · exact h.update fun r _ hr => hr.sendFromHandlerTo clientId frame
  | drainClient sessionId packId channelId clientId maxFrames =>
    simp only [ChannelRegistry.step, onChannel]
    split
    · exact h
    · exact h.update fun r _ hr => charged_requireChannel (fun q hq => hq.drainClient _ _) hr
  | closeInternal record => exact h.update fun r _ hr => hr.closeInternal
  | resume record number ok =>
    simp only [ChannelRegistry.step, ChannelRegistry.resume]
    split
    · exact h
    · rename_i r hr
      split
      · exact h
      · rename_i htask
        apply AllCharged.update (s := s.unindex r) h
        intro q hq hcharged
        cases hr.symm.trans hq
        apply hcharged.resumeTask htask ok
        intro attachment hattach
        cases hattach
      · rename_i task _ htask
        apply h.update
        intro q hq hcharged
        cases hr.symm.trans hq
        exact hcharged.resumeTask htask ok fun attachment hattach =>
          hfails r task attachment hr htask hattach

theorem not_accounted_step (h : AllCharged s) {event : Event}
    (hnot : ¬ FailsOwn s event) : ¬ (s.step event).Accounted := by
  cases event with
  | resume record number ok =>
    simp only [FailsOwn, not_forall] at hnot
    obtain ⟨r, task, attachment, hr, htask, hfails, hmay⟩ := hnot
    obtain ⟨r', caller, hcharged, hsame, heq⟩ :=
      (h r (List.mem_of_getElem? hr)).resumeTask_fails htask hfails
    have hbad : ¬ (resumeTask task number ok r).Accounted := by
      rw [heq]
      exact not_accounted_attachFailed hcharged (fun hmay' => hmay (hsame.mp hmay')) caller
    have hstep : (s.step (.resume record number ok)).records[record]? =
        some (resumeTask task number ok r) := by
      simp only [step, resume, hr, htask]
      split
      · rename_i heq
        cases heq
      · rename_i heq
        cases heq
        cases hfails
      · rename_i other _ heq
        cases heq
        rw [getElem?_update, hr, Option.map_some, if_pos rfl]
    exact fun hafter => hbad (hafter _ (List.mem_of_getElem? hstep))
  | _ => exact absurd trivial hnot

/-- **Accounting.** In every state the byte and frame counters of each channel are the sums
    over its clients, not negative, zero when no client holds a frame, and within the
    quota, in exactly the runs in which no attach that fails takes out another attachment
    that holds a frame. -/
theorem accounted_iff (quotas : ChannelQuotas) (events : List Event) :
    Always step Accounted (empty quotas) events ↔ Along step FailsOwn (empty quotas) events :=
  always_iff_along (I := AllCharged) (fun _ _ h _ hfails => h.step hfails)
    (fun _ h r hr => (h r hr).accounted) (fun _ _ h _ hnot => not_accounted_step h hnot)
    (by simp [AllCharged, empty]) (along_of_forall (fun _ _ => trivial) _ _)

/-- A client attaches, goes and attaches again; a frame is queued for it; then the first
    attach fails. -/
def staleAttach : List Event :=
  [.opens exampleOpen "a", .resume 0 0 true, .attach "s" "p" "a" "c" none, .detach "s" "p" "a" "c",
    .attach "s" "p" "a" "c" none, .sendFromHandler "a" ⟨.text, "frame"⟩, .resume 0 0 false]

/-- The frame stays charged to a channel without clients. -/
theorem stale_attach_leaks :
    ¬ Always step Accounted (empty ⟨9, 9, 99, 99, 9, 99, 9⟩) staleAttach := by
  intro h
  have hleak : ∀ r ∈ (run step (empty ⟨9, 9, 99, 99, 9, 99, 9⟩) staleAttach).records,
      r.clients = [] ∧ r.outboundFrames = 1 := by
    decide
  obtain ⟨r, hr⟩ := List.exists_mem_of_ne_nil
    (run step (empty ⟨9, 9, 99, 99, 9, 99, 9⟩) staleAttach).records (by decide)
  obtain ⟨hclients, hframes⟩ := hleak r hr
  have hsum := (h.last r hr).frames
  rw [hframes, ChannelRecord.attached, clientNumbers, hclients] at hsum
  cases hsum

end ChannelRegistry

end Bobbit.Server
