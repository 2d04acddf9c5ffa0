import Bobbit.Lib.Run
import Bobbit.Server.ChannelRegistry

/-!
# Indexes of the channel registry

A close waits for the handler before it takes its channel out of the indexes, and it
may run twice for one channel. Deleting by singleton key, the second run takes out
whatever channel the key leads to by then.

Key results:

- `indexes_consistent_iff`: the maps describe the channels that are not closed, at
  most one for a singleton key, in exactly the runs in which no close ends while its
  key leads to another channel.
- `second_close_unindexes_successor`: such a run.
-/

namespace Bobbit.Server

open Lib

/-! ## What operations keep of a record -/

namespace ChannelRecord

def identity (r : ChannelRecord) : String × String × String × String × Option String :=
  (r.id, r.sessionId, r.packId, r.name, r.singletonKey)

theorem id_eq {r r' : ChannelRecord} (h : r'.identity = r.identity) : r'.id = r.id :=
  congrArg (·.1) h

theorem tupleKey_eq {r r' : ChannelRecord} (h : r'.identity = r.identity) :
    r'.tupleKey = r.tupleKey := by
  simp only [identity, Prod.mk.injEq] at h
  obtain ⟨hid, hsession, hpack, hname, -⟩ := h
  simp only [ChannelRecord.tupleKey, hid, hsession, hpack, hname]

theorem indexKey_eq {r r' : ChannelRecord} (h : r'.identity = r.identity) :
    r'.indexKey = r.indexKey := by
  simp only [identity, Prod.mk.injEq] at h
  obtain ⟨-, hsession, hpack, hname, hkey⟩ := h
  simp only [ChannelRecord.indexKey, hsession, hpack, hname, hkey]

/-- An operation keeps the identity of a record, and whether it is closed. -/
structure SameChannel (r r' : ChannelRecord) : Prop where
  identity : r'.identity = r.identity
  closed : r'.state = .closed ↔ r.state = .closed

namespace SameChannel

theorem refl (r : ChannelRecord) : SameChannel r r := ⟨rfl, Iff.rfl⟩

variable {r r' : ChannelRecord}

theorem trans {r'' : ChannelRecord} (h : SameChannel r r') (h' : SameChannel r' r'') :
    SameChannel r r'' :=
  ⟨h'.identity.trans h.identity, h'.closed.trans h.closed⟩

theorem id (h : SameChannel r r') : r'.id = r.id := id_eq h.identity

theorem tupleKey (h : SameChannel r r') : r'.tupleKey = r.tupleKey :=
  tupleKey_eq h.identity

theorem indexKey (h : SameChannel r r') : r'.indexKey = r.indexKey :=
  indexKey_eq h.identity

end SameChannel

variable (r : ChannelRecord)

theorem same_update (attachment : Nat) (f : ClientAttachment → ClientAttachment) :
    SameChannel r (r.update attachment f) := ⟨rfl, Iff.rfl⟩

theorem same_removeClientAccounting (attachment : Nat) :
    SameChannel r (r.removeClientAccounting attachment) := by
  unfold removeClientAccounting
  split <;> exact ⟨rfl, Iff.rfl⟩

theorem same_detachInternal (clientId : String) : SameChannel r (r.detachInternal clientId) := by
  unfold detachInternal
  split
  · exact .refl r
  · exact (r.same_removeClientAccounting _).trans ⟨rfl, Iff.rfl⟩

theorem same_closeInternal : SameChannel r r.closeInternal := by
  unfold closeInternal
  split
  · exact .refl r
  · rename_i hstate
    exact ⟨rfl, by simp [await, hstate]⟩

theorem same_completePendingAttaches (attachments : List Nat) :
    SameChannel r (r.completePendingAttaches attachments) := by
  induction attachments with
  | nil => exact .refl r
  | cons attachment rest ih =>
    unfold completePendingAttaches
    split
    · exact ⟨rfl, Iff.rfl⟩
    · exact ih

theorem same_attachCompleted (caller : AttachCaller) :
    SameChannel r (r.attachCompleted caller) := by
  cases caller with
  | attach => exact .refl r
  | pendingAttaches rest => exact r.same_completePendingAttaches rest

theorem same_attachFailed (attachment : Nat) (caller : AttachCaller) :
    SameChannel r (r.attachFailed attachment caller) := by
  have hremoved : ∀ clientId, SameChannel r
      ((r.removeClientAccounting attachment).deleteClient clientId) :=
    fun _ => (r.same_removeClientAccounting attachment).trans ⟨rfl, Iff.rfl⟩
  cases caller with
  | attach => exact hremoved _
  | pendingAttaches rest => exact (hremoved _).trans (same_closeInternal _)

theorem same_settleFrame (attachment bytes : Nat) :
    SameChannel r (r.settleFrame attachment bytes) := by
  unfold settleFrame
  split
  · exact .refl r
  · split <;> exact ⟨rfl, Iff.rfl⟩

theorem same_flushNext (attachment : Nat) (caller : AttachCaller) :
    SameChannel r (r.flushNext attachment caller) := by
  unfold flushNext
  split
  · exact r.same_attachCompleted caller
  · split
    · exact r.same_attachCompleted caller
    · dsimp only
      split
      · exact ⟨rfl, Iff.rfl⟩
      · refine SameChannel.trans ?_ (same_attachFailed _ _ _)
        exact (r.same_update attachment _).trans (same_settleFrame _ _ _)

theorem same_flushAutoDrainQueue (attachment : Nat) (caller : AttachCaller) :
    SameChannel r (r.flushAutoDrainQueue attachment caller) := by
  unfold flushAutoDrainQueue
  split
  · exact r.same_flushNext attachment caller
  · exact r.same_attachCompleted caller

theorem same_attachInternal (clientId : String) (sink : Option ClientSink) :
    SameChannel r (r.attachInternal clientId sink) := by
  unfold attachInternal
  split
  · exact .refl r
  · split
    · exact ⟨rfl, Iff.rfl⟩
    · dsimp only
      split <;> exact ⟨rfl, Iff.rfl⟩

theorem same_deliverTo (frame : SentFrame) (r : ChannelRecord) (attachment : Nat) :
    SameChannel r (deliverTo frame r attachment) := by
  unfold deliverTo
  dsimp only
  split <;> exact ⟨rfl, Iff.rfl⟩

theorem same_deliverFromHandler (attachments : List Nat)
    (frame : HostChannelFrame) : SameChannel r (r.deliverFromHandler attachments frame) := by
  have hfold : ∀ (sent : SentFrame) (r : ChannelRecord),
      SameChannel r (attachments.foldl (deliverTo sent) r) := by
    intro sent
    induction attachments with
    | nil => exact SameChannel.refl
    | cons attachment rest ih => exact fun r => (same_deliverTo sent r attachment).trans (ih _)
  unfold deliverFromHandler
  split
  · have hlogged : ∀ accepted, SameChannel r { r with accepted := accepted } :=
      fun _ => ⟨rfl, Iff.rfl⟩
    exact (hlogged _).trans (hfold _ _)
  · exact .refl r

theorem same_sendFromHandler (frame : HostChannelFrame) :
    SameChannel r (r.sendFromHandler frame) := by
  unfold sendFromHandler
  split
  · exact r.same_deliverFromHandler _ frame
  · exact .refl r

theorem same_sendFromHandlerTo (clientId : String) (frame : HostChannelFrame) :
    SameChannel r (r.sendFromHandlerTo clientId frame) := by
  unfold sendFromHandlerTo
  split
  · exact .refl r
  · split
    · exact r.same_deliverFromHandler _ frame
    · exact .refl r

theorem same_drainClient (clientId : String) (maxFrames : Option Nat) :
    SameChannel r (r.drainClient clientId maxFrames) := by
  unfold drainClient
  split
  · exact .refl r
  · split
    · exact .refl r
    · exact ⟨rfl, Iff.rfl⟩

theorem same_closeNext (attachments : List Nat) : SameChannel r (r.closeNext attachments) := by
  cases attachments <;> exact ⟨rfl, Iff.rfl⟩

theorem same_handlerOpened : SameChannel r r.handlerOpened := by
  unfold handlerOpened
  split
  · exact .refl r
  · rename_i hstate
    have hopened : SameChannel r { r with handler := true, state := .opened } :=
      ⟨rfl, by simp [hstate]⟩
    exact hopened.trans (same_completePendingAttaches _ _)

theorem same_resume {task : Task} (htask : task ≠ .closing) (ok : Bool) :
    SameChannel r (r.resume task ok) := by
  cases task with
  | closing => exact absurd rfl htask
  | opening =>
    unfold resume
    dsimp only
    split
    · exact r.same_handlerOpened
    · exact r.same_closeInternal
  | onAttach attachment caller =>
    unfold resume
    dsimp only
    split
    · exact (r.same_update attachment _).trans (same_flushAutoDrainQueue _ _ _)
    · exact r.same_attachFailed attachment caller
  | flush attachment bytes caller =>
    unfold resume
    dsimp only
    refine (r.same_settleFrame attachment bytes).trans ?_
    split
    · exact same_flushNext _ _ _
    · exact same_attachFailed _ _ _
  | delivery attachment bytes =>
    unfold resume
    dsimp only
    split
    · exact r.same_settleFrame attachment bytes
    · exact (r.same_detachInternal _).trans ⟨rfl, Iff.rfl⟩
  | detaching attachment bytes => exact r.same_settleFrame attachment bytes
  | closeClients attachments =>
    cases attachments with
    | nil => exact ⟨rfl, Iff.rfl⟩
    | cons attachment rest =>
      exact (r.same_removeClientAccounting attachment).trans (same_closeNext _ _)

theorem same_resumeTask {task : Task} (htask : task ≠ .closing) (number : Nat)
    (ok : Bool) : SameChannel r (ChannelRegistry.resumeTask task number ok r) := by
  have htaken : SameChannel r { r with tasks := r.tasks.eraseIdx number } := ⟨rfl, Iff.rfl⟩
  exact htaken.trans (same_resume _ htask ok)

theorem closed_resumeTask (number : Nat) (ok : Bool) :
    (ChannelRegistry.resumeTask .closing number ok r).identity = r.identity ∧
      (ChannelRegistry.resumeTask .closing number ok r).state = .closed := by
  have hnext : ∀ (r : ChannelRecord) (attachments : List Nat), r.state = .closed →
      (r.closeNext attachments).identity = r.identity ∧ (r.closeNext attachments).state = .closed :=
    fun r attachments hstate =>
      ⟨(r.same_closeNext attachments).identity, (r.same_closeNext attachments).closed.mpr hstate⟩
  exact hnext { r with tasks := r.tasks.eraseIdx number, state := .closed } _ rfl

end ChannelRecord

namespace ChannelRegistry

open ChannelRecord (SameChannel)

/-! ## The three maps -/

/-- The maps describe the channels that are not closed. -/
structure IndexConsistent (s : ChannelRegistry) : Prop where
  channels : ∀ id number, s.channels.get? id = some number ↔
    ∃ r : ChannelRecord, s.records[number]? = some r ∧ r.state ≠ .closed ∧ r.id = id
  tuples : ∀ key id, s.tupleIndex.get? key = some id ↔
    ∃ (number : Nat) (r : ChannelRecord), s.records[number]? = some r ∧ r.state ≠ .closed ∧ r.tupleKey = key ∧ r.id = id
  singletons : ∀ key id, s.singletonIndex.get? key = some id ↔
    ∃ (number : Nat) (r : ChannelRecord), s.records[number]? = some r ∧ r.state ≠ .closed ∧ r.indexKey = some key ∧ r.id = id
  /-- no two of them have a session, a pack, a name and a singleton key in common -/
  unique : ∀ (m n : Nat) (r r' : ChannelRecord), s.records[m]? = some r → s.records[n]? = some r' →
    r.state ≠ .closed → r'.state ≠ .closed → r.sessionId = r'.sessionId → r.packId = r'.packId →
      r.name = r'.name → r.singletonKey = r'.singletonKey → r.indexKey ≠ none → m = n

/-- A generated id occurs nowhere in the keys of earlier channels. -/
def FreshId (s : ChannelRegistry) : Event → Prop
  | .opens _ id => ∀ r ∈ s.records, ¬ id.toList <:+: r.tupleKey.toList
  | _ => True

/-- A close that ends finds its own channel under its key, or none. -/
def ClosesOwn (s : ChannelRegistry) : Event → Prop
  | .resume record number _ => ∀ r, s.records[record]? = some r → r.tasks[number]? = some .closing →
    ∀ key id, r.indexKey = some key → s.singletonIndex.get? key = some id → id = r.id
  | _ => True

/-- Consistent maps, and no two records with one id or one tuple key. -/
structure IndexInv (s : ChannelRegistry) : Prop extends IndexConsistent s where
  ids : ∀ (m n : Nat) (r r' : ChannelRecord), s.records[m]? = some r → s.records[n]? = some r' → r.id = r'.id → m = n
  keys : ∀ (m n : Nat) (r r' : ChannelRecord), s.records[m]? = some r → s.records[n]? = some r' →
    r.tupleKey = r'.tupleKey → m = n

theorem indexInv_empty (quotas : ChannelQuotas) : IndexInv (empty quotas) := by
  refine ⟨⟨?_, ?_, ?_, ?_⟩, ?_, ?_⟩ <;> simp [empty]

variable {s : ChannelRegistry}

/-- Records that are the same channels are described by the same maps. -/
theorem IndexInv.of_same {s' : ChannelRegistry} (h : IndexInv s)
    (hchannels : s'.channels = s.channels) (htuples : s'.tupleIndex = s.tupleIndex)
    (hsingletons : s'.singletonIndex = s.singletonIndex)
    (hto : ∀ (n : Nat) (r : ChannelRecord), s.records[n]? = some r →
      ∃ r', s'.records[n]? = some r' ∧ SameChannel r r')
    (hfrom : ∀ (n : Nat) (r' : ChannelRecord), s'.records[n]? = some r' →
      ∃ r, s.records[n]? = some r ∧ SameChannel r r') :
    IndexInv s' where
  channels id number := by
    rw [hchannels, h.channels]
    constructor
    · rintro ⟨r, hr, hstate, hid⟩
      obtain ⟨r', hr', hsame⟩ := hto number r hr
      exact ⟨r', hr', fun hc => hstate (hsame.closed.mp hc), hsame.id.trans hid⟩
    · rintro ⟨r', hr', hstate, hid⟩
      obtain ⟨r, hr, hsame⟩ := hfrom number r' hr'
      exact ⟨r, hr, fun hc => hstate (hsame.closed.mpr hc), hsame.id.symm.trans hid⟩
  tuples key id := by
    rw [htuples, h.tuples]
    constructor
    · rintro ⟨number, r, hr, hstate, hkey, hid⟩
      obtain ⟨r', hr', hsame⟩ := hto number r hr
      exact ⟨number, r', hr', fun hc => hstate (hsame.closed.mp hc), hsame.tupleKey.trans hkey,
        hsame.id.trans hid⟩
    · rintro ⟨number, r', hr', hstate, hkey, hid⟩
      obtain ⟨r, hr, hsame⟩ := hfrom number r' hr'
      exact ⟨number, r, hr, fun hc => hstate (hsame.closed.mpr hc), hsame.tupleKey.symm.trans hkey,
        hsame.id.symm.trans hid⟩
  singletons key id := by
    rw [hsingletons, h.singletons]
    constructor
    · rintro ⟨number, r, hr, hstate, hkey, hid⟩
      obtain ⟨r', hr', hsame⟩ := hto number r hr
      exact ⟨number, r', hr', fun hc => hstate (hsame.closed.mp hc), hsame.indexKey.trans hkey,
        hsame.id.trans hid⟩
    · rintro ⟨number, r', hr', hstate, hkey, hid⟩
      obtain ⟨r, hr, hsame⟩ := hfrom number r' hr'
      exact ⟨number, r, hr, fun hc => hstate (hsame.closed.mpr hc), hsame.indexKey.symm.trans hkey,
        hsame.id.symm.trans hid⟩
  unique m n q q' hq hq' hstate hstate' hsession hpack hname hkey hindex := by
    obtain ⟨r, hr, hsame⟩ := hfrom m q hq
    obtain ⟨r', hr', hsame'⟩ := hfrom n q' hq'
    have hi := hsame.identity
    have hi' := hsame'.identity
    simp only [ChannelRecord.identity, Prod.mk.injEq] at hi hi'
    obtain ⟨-, hi1, hi2, hi3, hi4⟩ := hi
    obtain ⟨-, hi1', hi2', hi3', hi4'⟩ := hi'
    exact h.unique m n r r' hr hr' (fun hc => hstate (hsame.closed.mpr hc))
      (fun hc => hstate' (hsame'.closed.mpr hc)) (by rw [← hi1, ← hi1', hsession])
      (by rw [← hi2, ← hi2', hpack]) (by rw [← hi3, ← hi3', hname]) (by rw [← hi4, ← hi4', hkey])
      (by rw [← hsame.indexKey]; exact hindex)
  ids m n q q' hq hq' hid := by
    obtain ⟨r, hr, hsame⟩ := hfrom m q hq
    obtain ⟨r', hr', hsame'⟩ := hfrom n q' hq'
    exact h.ids m n r r' hr hr' (by rw [← hsame.id, ← hsame'.id, hid])
  keys m n q q' hq hq' hkey := by
    obtain ⟨r, hr, hsame⟩ := hfrom m q hq
    obtain ⟨r', hr', hsame'⟩ := hfrom n q' hq'
    exact h.keys m n r r' hr hr' (by rw [← hsame.tupleKey, ← hsame'.tupleKey, hkey])

theorem getElem?_update (s : ChannelRegistry) (record : Nat) (f : ChannelRecord → ChannelRecord)
    (n : Nat) : (s.update record f).records[n]? =
      (s.records[n]?).map fun r => if record = n then f r else r := by
  simp only [update, List.getElem?_modify]
  cases s.records[n]? <;> simp

/-- An operation that keeps what a channel is keeps the invariant. -/
theorem IndexInv.update (h : IndexInv s) (record : Nat) {f : ChannelRecord → ChannelRecord}
    (hf : ∀ r, s.records[record]? = some r → SameChannel r (f r)) : IndexInv (s.update record f) := by
  have hsame : ∀ (n : Nat) (r : ChannelRecord), s.records[n]? = some r → SameChannel r (if record = n then f r else r) := by
    intro n r hr
    split
    · rename_i heq
      exact hf r (heq ▸ hr)
    · exact .refl r
  refine h.of_same rfl rfl rfl ?_ ?_
  · intro n r hr
    exact ⟨_, by rw [getElem?_update, hr]; rfl, hsame n r hr⟩
  · intro n r' hr'
    rw [getElem?_update, Option.map_eq_some_iff] at hr'
    obtain ⟨r, hr, rfl⟩ := hr'
    exact ⟨r, hr, hsame n r hr⟩

/-! ## Opens -/

theorem getElem?_index (s : ChannelRegistry) (record r : ChannelRecord) (n : Nat) :
    (s.index record).records[n]? = some r ↔
      s.records[n]? = some r ∨ n = s.records.length ∧ r = record := by
  simp only [index]
  rcases Nat.lt_trichotomy n s.records.length with hlt | heq | hgt
  · rw [List.getElem?_append_left hlt]
    exact ⟨.inl, fun h => h.resolve_right fun h => by omega⟩
  · subst heq
    simp [eq_comm]
  · rw [List.getElem?_append_right (by omega), List.getElem?_eq_none (by simp; omega),
      List.getElem?_eq_none (by omega)]
    simp
    omega

variable {r : ChannelRecord}

/-- A key that leads nowhere belongs to no channel that is not closed. -/
theorem IndexConsistent.indexKey_ne (h : IndexConsistent s) {key : String}
    (hkey : s.singletonIndex.get? key = none) {n : Nat}
    (hr : s.records[n]? = some r) (hstate : r.state ≠ .closed) : r.indexKey ≠ some key := by
  intro hindex
  rw [(h.singletons key r.id).mpr ⟨n, r, hr, hstate, hindex, rfl⟩] at hkey
  cases hkey

theorem get?_singletonIndex_index (s : ChannelRegistry) (record : ChannelRecord) (key : String) :
    (s.index record).singletonIndex.get? key =
      if record.indexKey = some key then some record.id else s.singletonIndex.get? key := by
  simp only [index]
  cases hkey : record.indexKey with
  | none => simp
  | some own =>
    simp only [JsMap.get?_set, Option.some.injEq]
    by_cases heq : key = own
    · rw [if_pos heq, if_pos heq.symm]
    · rw [if_neg heq, if_neg (Ne.symm heq)]

/-- A new channel with an id, a tuple key and a singleton key of its own. -/
theorem IndexInv.index (h : IndexInv s) {record : ChannelRecord}
    (hstate : record.state ≠ .closed) (hid : ∀ r ∈ s.records, r.id ≠ record.id)
    (htuple : ∀ r ∈ s.records, r.tupleKey ≠ record.tupleKey)
    (hsingleton : ∀ key, record.indexKey = some key → s.singletonIndex.get? key = none) :
    IndexInv (s.index record) where
  channels id number := by
    simp only [getElem?_index]
    simp only [ChannelRegistry.index, JsMap.get?_set]
    split
    · rename_i heq
      subst heq
      constructor
      · rintro ⟨⟩
        exact ⟨record, .inr ⟨rfl, rfl⟩, hstate, rfl⟩
      · rintro ⟨r, hr | ⟨rfl, -⟩, -, hrid⟩
        · exact absurd hrid (hid r (List.mem_of_getElem? hr))
        · rfl
    · rename_i hne
      rw [h.channels]
      constructor
      · rintro ⟨r, hr, hrest⟩
        exact ⟨r, .inl hr, hrest⟩
      · rintro ⟨r, hr | ⟨-, rfl⟩, hopen, hrid⟩
        · exact ⟨r, hr, hopen, hrid⟩
        · exact absurd hrid.symm hne
  tuples key id := by
    simp only [getElem?_index]
    simp only [ChannelRegistry.index, JsMap.get?_set]
    split
    · rename_i heq
      subst heq
      constructor
      · rintro ⟨⟩
        exact ⟨_, record, .inr ⟨rfl, rfl⟩, hstate, rfl, rfl⟩
      · rintro ⟨n, r, hr | ⟨-, rfl⟩, -, hkey, hrid⟩
        · exact absurd hkey (htuple r (List.mem_of_getElem? hr))
        · rw [hrid]
    · rename_i hne
      rw [h.tuples]
      constructor
      · rintro ⟨n, r, hr, hrest⟩
        exact ⟨n, r, .inl hr, hrest⟩
      · rintro ⟨n, r, hr | ⟨-, rfl⟩, hopen, hkey, hrid⟩
        · exact ⟨n, r, hr, hopen, hkey, hrid⟩
        · exact absurd hkey.symm hne
  singletons key id := by
    rw [get?_singletonIndex_index]
    simp only [getElem?_index]
    split
    · rename_i hkey
      constructor
      · rintro ⟨⟩
        exact ⟨_, record, .inr ⟨rfl, rfl⟩, hstate, hkey, rfl⟩
      · rintro ⟨n, r, hr | ⟨-, rfl⟩, hopen, hrkey, hrid⟩
        · exact absurd hrkey (h.indexKey_ne (hsingleton key hkey) hr hopen)
        · rw [hrid]
    · rename_i hne
      rw [h.singletons]
      constructor
      · rintro ⟨n, r, hr, hrest⟩
        exact ⟨n, r, .inl hr, hrest⟩
      · rintro ⟨n, r, hr | ⟨-, rfl⟩, hopen, hrkey, hrid⟩
        · exact ⟨n, r, hr, hopen, hrkey, hrid⟩
        · exact absurd hrkey hne
  unique m n r r' hr hr' hopen hopen' hsession hpack hname hkey hindex := by
    have hsame : r.indexKey = r'.indexKey := by
      simp only [ChannelRecord.indexKey, hsession, hpack, hname, hkey]
    obtain ⟨key, hsome⟩ := Option.ne_none_iff_exists'.mp hindex
    rw [getElem?_index] at hr hr'
    rcases hr with hr | ⟨rfl, rfl⟩ <;> rcases hr' with hr' | ⟨rfl, rfl⟩
    · exact h.unique m n r r' hr hr' hopen hopen' hsession hpack hname hkey hindex
    · exact absurd hsome (h.indexKey_ne (hsingleton key (hsame ▸ hsome)) hr hopen)
    · exact absurd (hsame ▸ hsome) (h.indexKey_ne (hsingleton key hsome) hr' hopen')
    · rfl
  ids m n r r' hr hr' heq := by
    rw [getElem?_index] at hr hr'
    rcases hr with hr | ⟨rfl, rfl⟩ <;> rcases hr' with hr' | ⟨rfl, rfl⟩
    · exact h.ids m n r r' hr hr' heq
    · exact absurd heq (hid r (List.mem_of_getElem? hr))
    · exact absurd heq.symm (hid r' (List.mem_of_getElem? hr'))
    · rfl
  keys m n r r' hr hr' heq := by
    rw [getElem?_index] at hr hr'
    rcases hr with hr | ⟨rfl, rfl⟩ <;> rcases hr' with hr' | ⟨rfl, rfl⟩
    · exact h.keys m n r r' hr hr' heq
    · exact absurd heq (htuple r (List.mem_of_getElem? hr))
    · exact absurd heq.symm (htuple r' (List.mem_of_getElem? hr'))
    · rfl

/-- Without a channel to reuse the key of the request leads nowhere. -/
theorem IndexInv.get?_of_existing (h : IndexInv s) {req : OpenRequest}
    (hnone : s.existing req = none) {id : String} {quotas : ChannelQuotas} {key : String}
    (hkey : (newRecord req id quotas).indexKey = some key) : s.singletonIndex.get? key = none := by
  simp only [ChannelRecord.indexKey, newRecord, Option.map_eq_some_iff] at hkey
  obtain ⟨singletonKey, hsingleton, rfl⟩ := hkey
  by_contra hne
  obtain ⟨found, hfound⟩ := Option.ne_none_iff_exists'.mp hne
  obtain ⟨number, r, hr, hstate, -, hid⟩ := (h.singletons _ found).mp hfound
  have hchannel := (h.channels found number).mpr ⟨r, hr, hstate, hid⟩
  simp only [existing, hsingleton, Option.bind_eq_bind, Option.bind_some, hfound, hchannel, hr,
    if_pos hstate] at hnone
  cases hnone

theorem same_attachClient (req : OpenRequest) (r : ChannelRecord) :
    SameChannel r (attachClient req r) := by
  unfold attachClient
  split
  · exact .refl r
  · exact r.same_attachInternal _ _

theorem id_infix_tupleKey (r : ChannelRecord) : r.id.toList <:+: r.tupleKey.toList := by
  refine ⟨(r.sessionId ++ "\x00" ++ r.packId ++ "\x00").toList, ("\x00" ++ r.name).toList, ?_⟩
  simp only [ChannelRecord.tupleKey, tupleKey, String.toList_append, List.append_assoc]

theorem IndexInv.opens (h : IndexInv s) {req : OpenRequest} {id : String}
    (hfresh : FreshId s (.opens req id)) : IndexInv (s.opens req id) := by
  unfold ChannelRegistry.opens
  split
  · exact h.update _ fun r _ => same_attachClient req r
  · rename_i hnone
    dsimp only
    split
    · generalize effectiveQuotas s.quotas req.quotas = quotas
      have hsame : SameChannel (newRecord req id quotas)
          ((attachClient req (newRecord req id quotas)).await .opening) :=
        (same_attachClient req _).trans ⟨rfl, Iff.rfl⟩
      refine h.index ?_ ?_ ?_ ?_
      · intro hclosed
        have := hsame.closed.mp hclosed
        cases this
      · intro r hr heq
        refine hfresh r hr ?_
        rw [show id = r.id from (heq.trans hsame.id).symm]
        exact id_infix_tupleKey r
      · intro r hr heq
        refine hfresh r hr ?_
        rw [heq, hsame.tupleKey]
        exact id_infix_tupleKey (newRecord req id quotas)
      · intro key hkey
        rw [hsame.indexKey] at hkey
        exact h.get?_of_existing hnone hkey
    · exact h

/-! ## Closes -/

variable {record : Nat}

/-- The records after the end of a close: the closed one, and the others. -/
theorem getElem?_closed (s : ChannelRegistry) (number : Nat)
    (ok : Bool) (hr : s.records[record]? = some r) (n : Nat) (q : ChannelRecord) :
    ((s.unindex r).update record (resumeTask .closing number ok)).records[n]? = some q ↔
      n = record ∧ q = resumeTask .closing number ok r ∨ n ≠ record ∧ s.records[n]? = some q := by
  rw [getElem?_update]
  change Option.map _ s.records[n]? = some q ↔ _
  by_cases hn : n = record
  · subst hn
    simp [hr, eq_comm]
  · simp [hn, Ne.symm hn]

theorem get?_unindex (s : ChannelRegistry) (r : ChannelRecord) (key : String) :
    (s.unindex r).singletonIndex.get? key =
      if r.indexKey = some key then none else s.singletonIndex.get? key := by
  unfold unindex
  cases hindex : r.indexKey with
  | none => simp
  | some own => simp [JsMap.get?_erase, eq_comm]

/-- Where the channel at `record` is none of those that are asked for, the others are all of them. -/
theorem exists_other_record
    (hr : s.records[record]? = some r) {A : ChannelRecord → Prop} (hA : ¬ A r) :
    (∃ (n : Nat) (q : ChannelRecord), s.records[n]? = some q ∧ q.state ≠ .closed ∧ A q) ↔
      ∃ (n : Nat), n ≠ record ∧ ∃ q, s.records[n]? = some q ∧ q.state ≠ .closed ∧ A q := by
  constructor
  · rintro ⟨n, q, hq, hstate, hAq⟩
    refine ⟨n, ?_, q, hq, hstate, hAq⟩
    rintro rfl
    rw [hr] at hq
    cases hq
    exact hA hAq
  · rintro ⟨n, -, q, hrest⟩
    exact ⟨n, q, hrest⟩

theorem IndexInv.closes (h : IndexInv s)
    (number : Nat) (ok : Bool) (hr : s.records[record]? = some r)
    (hown : ∀ key id, r.indexKey = some key → s.singletonIndex.get? key = some id → id = r.id) :
    IndexInv ((s.unindex r).update record (resumeTask .closing number ok)) := by
  have hclosed := r.closed_resumeTask number ok
  have hrecord := s.getElem?_closed number ok hr
  -- the closed record is none of those that the maps describe
  have hopen : ∀ (n : Nat) (A : ChannelRecord → Prop),
      (∃ q, ((s.unindex r).update record (resumeTask .closing number ok)).records[n]? = some q ∧
        q.state ≠ .closed ∧ A q) ↔
      n ≠ record ∧ ∃ q, s.records[n]? = some q ∧ q.state ≠ .closed ∧ A q := by
    intro n A
    simp only [hrecord]
    constructor
    · rintro ⟨q, ⟨-, rfl⟩ | ⟨hn, hq⟩, hstate, hA⟩
      · exact absurd hclosed.2 hstate
      · exact ⟨hn, q, hq, hstate, hA⟩
    · rintro ⟨hn, q, hq, hstate, hA⟩
      exact ⟨q, .inr ⟨hn, hq⟩, hstate, hA⟩
  have hbefore : ∀ (n : Nat) (q : ChannelRecord),
      ((s.unindex r).update record (resumeTask .closing number ok)).records[n]? = some q →
      ∃ q', s.records[n]? = some q' ∧ q.identity = q'.identity := by
    intro n q hq
    rcases (hrecord n q).mp hq with ⟨rfl, rfl⟩ | ⟨-, hq⟩
    · exact ⟨r, hr, hclosed.1⟩
    · exact ⟨q, hq, rfl⟩
  constructor
  · constructor
    · intro id n
      rw [hopen n (·.id = id), ← h.channels]
      change (s.channels.erase r.id).get? id = _ ↔ _
      rw [JsMap.get?_erase]
      split
      · rename_i heq
        subst heq
        constructor
        · rintro ⟨⟩
        · rintro ⟨hn, hget⟩
          obtain ⟨q, hq, -, hid⟩ := (h.channels r.id n).mp hget
          exact absurd (h.ids n record q r hq hr hid) hn
      · rename_i hne
        refine ⟨fun hget => ⟨?_, hget⟩, And.right⟩
        rintro rfl
        obtain ⟨q, hq, -, hid⟩ := (h.channels id n).mp hget
        rw [hr] at hq
        cases hq
        exact hne hid.symm
    · intro key id
      simp only [hopen]
      change (s.tupleIndex.erase r.tupleKey).get? key = _ ↔ _
      rw [JsMap.get?_erase]
      split
      · rename_i heq
        subst heq
        constructor
        · rintro ⟨⟩
        · rintro ⟨n, hn, q, hq, -, hkey, -⟩
          exact absurd (h.keys n record q r hq hr hkey) hn
      · rename_i hne
        have hnot : ¬ (r.tupleKey = key ∧ r.id = id) := fun hA => hne hA.1.symm
        rw [h.tuples]
        exact exists_other_record hr hnot
    · intro key id
      simp only [hopen]
      change (s.unindex r).singletonIndex.get? key = _ ↔ _
      rw [get?_unindex]
      split
      · rename_i hindex
        constructor
        · rintro ⟨⟩
        · rintro ⟨n, hn, q, hq, hstate, hkey, -⟩
          have hget := (h.singletons key q.id).mpr ⟨n, q, hq, hstate, hkey, rfl⟩
          exact absurd (h.ids n record q r hq hr (hown key q.id hindex hget)) hn
      · rename_i hne
        have hnot : ¬ (r.indexKey = some key ∧ r.id = id) := fun hA => hne hA.1
        rw [h.singletons]
        exact exists_other_record hr hnot
    · intro m n q q' hq hq' hstate hstate' hsession hpack hname hkey hindex
      rcases (hrecord m q).mp hq with ⟨-, rfl⟩ | ⟨-, hq⟩
      · exact absurd hclosed.2 hstate
      · rcases (hrecord n q').mp hq' with ⟨-, rfl⟩ | ⟨-, hq'⟩
        · exact absurd hclosed.2 hstate'
        · exact h.unique m n q q' hq hq' hstate hstate' hsession hpack hname hkey hindex
  · intro m n q q' hq hq' hid
    obtain ⟨p, hp, hsame⟩ := hbefore m q hq
    obtain ⟨p', hp', hsame'⟩ := hbefore n q' hq'
    exact h.ids m n p p' hp hp' (by
      rw [← ChannelRecord.id_eq hsame, ← ChannelRecord.id_eq hsame', hid])
  · intro m n q q' hq hq' hkey
    obtain ⟨p, hp, hsame⟩ := hbefore m q hq
    obtain ⟨p', hp', hsame'⟩ := hbefore n q' hq'
    exact h.keys m n p p' hp hp' (by
      rw [← ChannelRecord.tupleKey_eq hsame, ← ChannelRecord.tupleKey_eq hsame', hkey])

/-- A close that ends while its key leads to another channel takes that channel out
    of `singletonIndex`. -/
theorem closes_other (h : IndexInv s)
    (number : Nat) (ok : Bool) (hr : s.records[record]? = some r) {key id : String}
    (hkey : r.indexKey = some key) (hget : s.singletonIndex.get? key = some id) (hid : id ≠ r.id) :
    ¬ IndexConsistent ((s.unindex r).update record (resumeTask .closing number ok)) := by
  intro hafter
  obtain ⟨n, q, hq, hstate, hqkey, hqid⟩ := (h.singletons key id).mp hget
  have hn : n ≠ record := by
    rintro rfl
    rw [hr] at hq
    cases hq
    exact hid hqid.symm
  have hfound := (hafter.singletons key id).mpr
    ⟨n, q, (s.getElem?_closed number ok hr n q).mpr (.inr ⟨hn, hq⟩), hstate, hqkey, hqid⟩
  change (s.unindex r).singletonIndex.get? key = some id at hfound
  rw [get?_unindex, if_pos hkey] at hfound
  cases hfound

/-! ## Runs -/

theorem IndexInv.onChannel (h : IndexInv s) (sessionId packId channelId : String)
    {f : ChannelRecord → ChannelRecord} (hf : ∀ r, SameChannel r (f r)) :
    IndexInv (s.onChannel sessionId packId channelId f) := by
  unfold ChannelRegistry.onChannel
  split
  · exact h
  · exact h.update _ fun r _ => hf r

theorem IndexInv.onHandlerChannel (h : IndexInv s) (channelId : String)
    {f : ChannelRecord → ChannelRecord} (hf : ∀ r, SameChannel r (f r)) :
    IndexInv (s.onHandlerChannel channelId f) := by
  unfold ChannelRegistry.onHandlerChannel
  split
  · exact h
  · exact h.update _ fun r _ => hf r

theorem same_requireChannel {f : ChannelRecord → ChannelRecord} (hf : ∀ r, SameChannel r (f r))
    (r : ChannelRecord) : SameChannel r (requireChannel f r) := by
  unfold requireChannel
  split
  · exact .refl r
  · exact hf r

theorem IndexInv.step (h : IndexInv s) {event : Event}
    (hfresh : FreshId s event) (hown : ClosesOwn s event) : IndexInv (s.step event) := by
  cases event with
  | opens req id => exact h.opens hfresh
  | attach sessionId packId channelId clientId client =>
    exact h.onChannel _ _ _ (same_requireChannel fun r => r.same_attachInternal clientId client)
  | detach sessionId packId channelId clientId =>
    exact h.onChannel _ _ _ fun r => r.same_detachInternal clientId
  | sendFromHandler channelId frame =>
    exact h.onHandlerChannel _ fun r => r.same_sendFromHandler frame
  | sendFromHandlerTo channelId clientId frame =>
    exact h.onHandlerChannel _ fun r => r.same_sendFromHandlerTo clientId frame
  | drainClient sessionId packId channelId clientId maxFrames =>
    exact h.onChannel _ _ _ (same_requireChannel fun r => r.same_drainClient clientId maxFrames)
  | closeInternal record => exact h.update _ fun r _ => r.same_closeInternal
  | resume record number ok =>
    simp only [ChannelRegistry.step, resume]
    split
    · exact h
    · rename_i r hr
      split
      · exact h
      · rename_i htask
        exact h.closes number ok hr (hown r hr htask)
      · rename_i task hne htask
        exact h.update _ fun r _ => r.same_resumeTask (fun heq => hne heq) number ok

/-- **Index consistency.** The id map, the tuple index and the singleton index describe
    the channels that are not closed, and no two of these have a singleton key in common,
    in exactly the runs in which no close ends while its key leads to another channel. -/
theorem indexes_consistent_iff (quotas : ChannelQuotas) (events : List Event)
    (hids : Along step FreshId (empty quotas) events) :
    Always step IndexConsistent (empty quotas) events ↔ Along step ClosesOwn (empty quotas) events := by
  refine always_iff_along (I := IndexInv) (fun s event h hfresh hown => h.step hfresh hown)
    (fun s h => h.toIndexConsistent) ?_ (indexInv_empty quotas) hids
  intro s event h _ hother
  cases event with
  | resume record number ok =>
    simp only [ClosesOwn, not_forall] at hother
    obtain ⟨r, hr, htask, key, id, hkey, hget, hid⟩ := hother
    simp only [step, resume, hr, htask]
    exact closes_other h number ok hr hkey hget hid
  | _ => exact absurd trivial hother

/-- Two requests for one singleton channel. -/
def exampleOpen : OpenRequest where
  sessionId := "s"
  packId := "p"
  contributionId := "c"
  channelName := "n"
  singletonKey := some "k"
  quotas := ⟨none, none, none, none, none, none, none⟩
  clientId := none
  client := none

/-- A channel is closed twice at a time; between the two ends it is opened again. -/
def secondClose : List Event :=
  [.opens exampleOpen "a", .resume 0 0 true, .closeInternal 0, .closeInternal 0, .resume 0 0 true,
    .opens exampleOpen "b", .resume 0 0 true]

theorem freshId_secondClose : Along step FreshId (empty ⟨4, 4, 4, 4, 4, 4, 4⟩) secondClose := by
  refine ⟨fun r hr => (by cases hr), trivial, trivial, trivial, trivial, fun r hr hinfix => ?_,
    trivial, trivial⟩
  have hmem := hinfix.subset (show 'b' ∈ "b".toList by decide)
  cases hr with
  | head => revert hmem; decide
  | tail _ hr => cases hr

theorem indexes_consistent_firstClose :
    Along step FreshId (empty ⟨4, 4, 4, 4, 4, 4, 4⟩) (secondClose.take 6) ∧
      Always step IndexConsistent (empty ⟨4, 4, 4, 4, 4, 4, 4⟩) (secondClose.take 6) := by
  have hids : Along step FreshId (empty ⟨4, 4, 4, 4, 4, 4, 4⟩) (secondClose.take 6) :=
    (along_append (show Along step FreshId _ (secondClose.take 6 ++ secondClose.drop 6) from
      freshId_secondClose)).1
  refine ⟨hids, (indexes_consistent_iff _ _ hids).mpr
    ⟨trivial, ?_, trivial, trivial, ?_, trivial, trivial⟩⟩
  · intro r hr htask
    cases hr
    cases htask
  · intro r hr _ key id hkey hget
    cases hr
    cases hkey
    cases hget
    rfl

/-- The end of the second close takes the new channel out of the singleton index. -/
theorem second_close_unindexes_successor :
    Along step FreshId (empty ⟨4, 4, 4, 4, 4, 4, 4⟩) secondClose ∧
      ¬ Always step IndexConsistent (empty ⟨4, 4, 4, 4, 4, 4, 4⟩) secondClose := by
  refine ⟨freshId_secondClose, ?_⟩
  intro h
  have hlost : (run step (empty ⟨4, 4, 4, 4, 4, 4, 4⟩) secondClose).singletonIndex = [] := by
    decide
  have hfound := (h.last.singletons _ _).mpr
    ⟨1, (newRecord exampleOpen "b" ⟨4, 4, 4, 4, 4, 4, 4⟩).await .opening, rfl, by decide, rfl, rfl⟩
  rw [hlost] at hfound
  cases hfound

end ChannelRegistry

end Bobbit.Server
