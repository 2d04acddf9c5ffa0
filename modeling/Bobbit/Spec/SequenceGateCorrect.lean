import Bobbit.App.RemoteAgent

/-!
# Sequence gate of a client that attaches

The first numbered frame is a client's baseline. For a client that attaches while a
permission request is pending that frame is the replay of the request, under the number
it had when it was broadcast.

Key results:

- `gate_correct_iff`: every later event is applied when it arrives, once and in order,
  exactly when the request has the last number, or no event comes next.
- `late_joiner_stalls`: a client that holds back the event after an older request.
-/

namespace Bobbit.App

open Lib Server

variable {ε κ : Type}

/-! ## Numbers of a session -/

/-- Frames with the numbers after `last`. -/
def Numbered (last : Int) (frames : List (SequencedFrame ε κ)) : Prop :=
  ∀ (i : Nat) (frame : SequencedFrame ε κ), frames[i]? = some frame → frame.seq = last + 1 + i

theorem Numbered.increasing {last : Int} {live : List (SequencedFrame ε κ)}
    (h : Numbered last live) : (live.map (·.seq)).Pairwise (· < ·) := by
  rw [List.pairwise_iff_getElem]
  intro i j hi hj hij
  simp only [List.length_map] at hi hj
  have hseq := h i _ (List.getElem?_eq_getElem hi)
  have hseq' := h j _ (List.getElem?_eq_getElem hj)
  simp only [List.getElem_map, hseq, hseq']
  omega

theorem Numbered.lt {last : Int} {live : List (SequencedFrame ε κ)}
    (h : Numbered last live) {frame : SequencedFrame ε κ} (hframe : frame ∈ live) :
    last < frame.seq := by
  obtain ⟨i, hi⟩ := List.mem_iff_getElem?.mp hframe
  rw [h i frame hi]
  omega

variable (buffer : EventBuffer ε)

theorem push_lastSeq (event : ε) (ts : Int) (bytes : Option Nat) :
    (buffer.push event ts bytes).1.lastSeq = buffer.lastSeq + 1 ∧
      (buffer.push event ts bytes).2.seq = buffer.lastSeq + 1 := by
  unfold EventBuffer.push EventBuffer.lastSeq
  dsimp only
  split
  · exact ⟨by simp [EventBuffer.dropAllRetained], by simp⟩
  · split
    · exact ⟨by simp [EventBuffer.dropAllRetained], by simp⟩
    · exact ⟨by simp, by simp⟩

theorem nextSeq_seedNextSeq {seq : Int} (hseq : 1 < seq)
    (hnext : buffer.nextSeq = 1) : (buffer.seedNextSeq (some seq)).nextSeq = seq := by
  rw [EventBuffer.seedNextSeq, if_neg (by omega)]

/-- An operation broadcasts the next number, or none and keeps the numbers. -/
theorem sessionStep_spec (hbuffer : 0 ≤ buffer.lastSeq) (op : SessionOp ε κ) :
    (∃ frame, (sessionStep buffer op).2 = some frame ∧ frame.seq = buffer.lastSeq + 1 ∧
      (sessionStep buffer op).1.lastSeq = buffer.lastSeq + 1) ∨
    ((sessionStep buffer op).2 = none ∧ (sessionStep buffer op).1.lastSeq = buffer.lastSeq) := by
  cases op with
  | emitEvent event ts bytes =>
    obtain ⟨hlast, hseq⟩ := push_lastSeq buffer event ts bytes
    exact .inl ⟨_, rfl, hseq, hlast⟩
  | requestToolGrant card ts =>
    refine .inl ⟨_, rfl, ?_, ?_⟩
    · simp [EventBuffer.lastSeq]
    · simp [sessionStep, EventBuffer.pushFrame, EventBuffer.lastSeq]
  | restart =>
    refine .inr ?_
    unfold sessionStep
    dsimp only
    split
    · rename_i hpos
      refine ⟨rfl, ?_⟩
      rw [EventBuffer.lastSeq, nextSeq_seedNextSeq _ (show (1 : Int) < buffer.lastSeq + 1 by omega) rfl]
      omega
    · rename_i hpos
      refine ⟨rfl, ?_⟩
      have hzero : buffer.lastSeq = 0 := by omega
      rw [hzero]
      rfl

theorem broadcasts_numbered (hbuffer : 0 ≤ buffer.lastSeq) (ops : List (SessionOp ε κ)) :
    Numbered buffer.lastSeq (broadcasts buffer ops) ∧
      (sessionBuffer buffer ops).lastSeq = buffer.lastSeq + (broadcasts buffer ops).length := by
  induction ops generalizing buffer with
  | nil => exact ⟨fun i frame h => by simp [broadcasts] at h, by simp [sessionBuffer, broadcasts]⟩
  | cons op rest ih =>
    rcases sessionStep_spec buffer hbuffer op with ⟨frame, hframe, hseq, hlast⟩ | ⟨hnone, hlast⟩
    · obtain ⟨hnumbered, hafter⟩ := ih (sessionStep buffer op).1 (by omega)
      rw [broadcasts, hframe]
      constructor
      · intro i f hf
        cases i with
        | zero =>
          simp only [Option.toList_some, List.singleton_append, List.getElem?_cons_zero,
            Option.some.injEq] at hf
          rw [← hf, hseq]
          simp
        | succ i =>
          simp only [Option.toList_some, List.singleton_append, List.getElem?_cons_succ] at hf
          rw [hnumbered i f hf, hlast]
          push_cast
          omega
      · simp only [sessionBuffer, List.foldl_cons] at hafter ⊢
        rw [hafter, hlast]
        simp only [Option.toList_some, List.singleton_append, List.length_cons]
        push_cast
        omega
    · obtain ⟨hnumbered, hafter⟩ := ih (sessionStep buffer op).1 (by omega)
      rw [broadcasts, hnone]
      rw [hlast] at hnumbered hafter
      exact ⟨hnumbered, hafter⟩

theorem lastSeq_new (maxSize maxBytes : Option Rat) :
    (EventBuffer.new maxSize maxBytes : EventBuffer ε).lastSeq = 0 := rfl

/-! ## What a client receives -/

/-- The frames of a session arrive in order, and any of them again at any time. -/
inductive Deliveries : List (SequencedFrame ε κ) → List (SequencedFrame ε κ) →
    List (SequencedFrame ε κ) → Prop
  | done (seen : List (SequencedFrame ε κ)) : Deliveries seen [] []
  | next {frame : SequencedFrame ε κ} {seen live received : List (SequencedFrame ε κ)} :
    Deliveries (frame :: seen) live received → Deliveries seen (frame :: live) (frame :: received)
  | again {frame : SequencedFrame ε κ} {seen live received : List (SequencedFrame ε κ)} :
    frame ∈ seen → Deliveries seen live received → Deliveries seen live (frame :: received)

namespace Deliveries

variable {seen live received : List (SequencedFrame ε κ)}

theorem mem_or_mem (h : Deliveries seen live received) {frame : SequencedFrame ε κ}
    (hframe : frame ∈ received) : frame ∈ live ∨ frame ∈ seen := by
  induction h with
  | done seen => cases hframe
  | next _ ih =>
    rcases List.mem_cons.mp hframe with rfl | hframe
    · exact .inl List.mem_cons_self
    · rcases ih hframe with hlive | hseen
      · exact .inl (List.mem_cons_of_mem _ hlive)
      · rcases List.mem_cons.mp hseen with rfl | hseen
        · exact .inl List.mem_cons_self
        · exact .inr hseen
  | again hseen _ ih =>
    rcases List.mem_cons.mp hframe with rfl | hframe
    · exact .inr hseen
    · exact ih hframe

/-- What has arrived so far are the first frames of the session. -/
theorem of_prefix (h : Deliveries seen live received) {sofar : List (SequencedFrame ε κ)}
    (hsofar : sofar <+: received) : ∃ first, first <+: live ∧ Deliveries seen first sofar := by
  induction h generalizing sofar with
  | done seen =>
    rw [List.prefix_nil.mp hsofar]
    exact ⟨[], List.prefix_rfl, .done seen⟩
  | @next frame seen live received _ ih =>
    cases sofar with
    | nil => exact ⟨[], List.nil_prefix, .done seen⟩
    | cons head sofar =>
      obtain ⟨rfl, htail⟩ := List.cons_prefix_cons.mp hsofar
      obtain ⟨first, hfirst, h⟩ := ih htail
      exact ⟨head :: first, List.cons_prefix_cons.mpr ⟨rfl, hfirst⟩, .next h⟩
  | @again frame seen live received hseen _ ih =>
    cases sofar with
    | nil => exact ⟨[], List.nil_prefix, .done seen⟩
    | cons head sofar =>
      obtain ⟨rfl, htail⟩ := List.cons_prefix_cons.mp hsofar
      obtain ⟨first, hfirst, h⟩ := ih htail
      exact ⟨first, hfirst, .again hseen h⟩

end Deliveries

/-- How a frame is recorded when it is applied. -/
def SequencedFrame.entry (frame : SequencedFrame ε κ) : Option Int × FrameBody ε κ :=
  (some frame.seq, frame.body)

def SequencedFrame.isEvent (frame : SequencedFrame ε κ) : Bool :=
  match frame.body with
  | .event _ => true
  | .toolPermissionNeeded _ => false

namespace RemoteAgent

def receive (agent : RemoteAgent ε κ) (frame : SequencedFrame ε κ) : RemoteAgent ε κ :=
  agent.handleServerMessage frame.message

def receiveAll (agent : RemoteAgent ε κ) (frames : List (SequencedFrame ε κ)) : RemoteAgent ε κ :=
  frames.foldl receive agent

/-- What was applied and requested since a client attached, when it has received some
    frames after the replay of a request. -/
structure GateCorrect (start : RemoteAgent ε κ) (last : Int) (replay : SequencedFrame ε κ)
    (received : List (SequencedFrame ε κ)) : Prop where
  /-- numbers of applied frames increase: none is applied twice -/
  increasing : (((start.receiveAll (replay :: received)).applied.drop start.applied.length).filterMap
    (·.1)).Pairwise (· < ·)
  /-- an event after the attach is applied, unless a snapshot was requested -/
  prompt : ∀ frame ∈ received, frame.isEvent = true → last < frame.seq →
    frame.entry ∈ (start.receiveAll (replay :: received)).applied.drop start.applied.length ∨
      start.requests < (start.receiveAll (replay :: received)).requests

/-! ## One frame -/

variable {agent : RemoteAgent ε κ}

theorem drainOrderedEvents_nil (h : agent.pendingEvents = []) :
    agent.drainOrderedEvents = agent := by
  obtain ⟨highestSeq, seqInitialized, pendingEvents, inResumeFallback, applied, requests⟩ := agent
  subst h
  rfl

variable {frame : SequencedFrame ε κ}

theorem receive_again (hinit : agent.seqInitialized = true) (hseq : frame.seq ≤ agent.highestSeq) :
    agent.receive frame = agent := by
  obtain ⟨seq, body⟩ := frame
  cases body with
  | event data =>
    simp only [receive, SequencedFrame.message, handleServerMessage, handleEvent, initializeSeq,
      hinit, if_true]
    rw [if_pos hseq]
  | toolPermissionNeeded card =>
    simp only [receive, SequencedFrame.message, handleServerMessage, handleToolPermissionNeeded,
      advanceTopLevelSeq, initializeSeq, hinit, if_true]
    rw [if_pos hseq]

theorem receive_next (hinit : agent.seqInitialized = true) (hpending : agent.pendingEvents = [])
    (hseq : frame.seq = agent.highestSeq + 1) :
    agent.receive frame =
      { agent with highestSeq := frame.seq, applied := agent.applied ++ [frame.entry] } := by
  obtain ⟨seq, body⟩ := frame
  change seq = _ at hseq
  cases body with
  | event data =>
    simp only [receive, SequencedFrame.message, handleServerMessage, handleEvent, initializeSeq,
      hinit, if_true]
    rw [if_neg (by omega), if_neg (by omega)]
    exact drainOrderedEvents_nil hpending
  | toolPermissionNeeded card =>
    simp only [receive, SequencedFrame.message, handleServerMessage, handleToolPermissionNeeded,
      advanceTopLevelSeq, initializeSeq, hinit, if_true]
    rw [if_neg (by omega), if_neg (by omega)]
    exact drainOrderedEvents_nil hpending

/-- A permission request past a gap is applied, and a snapshot requested. -/
theorem receive_permission (hinit : agent.seqInitialized = true)
    (hpermission : frame.isEvent = false) (hseq : agent.highestSeq + 1 < frame.seq) :
    agent.receive frame =
      { agent with
        highestSeq := frame.seq
        pendingEvents := []
        inResumeFallback := true
        applied := agent.applied ++ [frame.entry]
        requests := agent.requests + 1 } := by
  obtain ⟨seq, body⟩ := frame
  change _ < seq at hseq
  cases body with
  | event data => cases hpermission
  | toolPermissionNeeded card =>
    simp only [receive, SequencedFrame.message, handleServerMessage, handleToolPermissionNeeded,
      advanceTopLevelSeq, initializeSeq, hinit, if_true]
    rw [if_neg (by omega), if_pos (by omega)]
    exact drainOrderedEvents_nil rfl

theorem receive_early (hinit : agent.seqInitialized = true) (hpending : agent.pendingEvents = [])
    (hevent : frame.isEvent = true) (hseq : agent.highestSeq + 1 < frame.seq) :
    (agent.receive frame).applied = agent.applied ∧
      (agent.receive frame).requests = agent.requests := by
  obtain ⟨seq, body⟩ := frame
  change _ < seq at hseq
  cases body with
  | toolPermissionNeeded card => cases hevent
  | event data =>
    simp only [receive, SequencedFrame.message, handleServerMessage, handleEvent, initializeSeq,
      hinit, if_true]
    rw [if_neg (by omega), if_pos (by omega)]
    simp only [bufferEvent, hpending, List.nil_append, List.mergeSort_singleton,
      List.length_singleton, pendingEventsMax]
    rw [if_neg (by omega)]
    simp only [drainOrderedEvents, drainNext]
    rw [if_neg (by omega)]
    exact ⟨rfl, rfl⟩

/-! ## Runs -/

/-- A client that has a baseline, and holds nothing back. -/
structure Ready (agent : RemoteAgent ε κ) (seen : List (SequencedFrame ε κ)) : Prop where
  initialized : agent.seqInitialized = true
  pending : agent.pendingEvents = []
  seen : ∀ frame ∈ seen, frame.seq ≤ agent.highestSeq

/-- A client whose cursor is at the last number, or that has a permission request coming
    next, applies everything when it arrives. -/
theorem receiveAll_applied {seen live received : List (SequencedFrame ε κ)}
    (h : Deliveries seen live received) {last : Int}
    (hready : Ready agent seen) (hlast : agent.highestSeq ≤ last) (hnumbered : Numbered last live)
    (hnext : agent.highestSeq = last ∨ ∀ frame ∈ live.head?, frame.isEvent = false) :
    (agent.receiveAll received).applied = agent.applied ++ live.map SequencedFrame.entry := by
  induction h generalizing agent last with
  | done seen => simp [receiveAll]
  | @next frame seen live received _ ih =>
    have hseq : frame.seq = last + 1 := by simpa using hnumbered 0 frame rfl
    have hlater : Numbered frame.seq live := by
      intro i f hf
      have := hnumbered (i + 1) f hf
      push_cast at this
      omega
    have hafter : ∀ agent' : RemoteAgent ε κ, agent'.seqInitialized = true →
        agent'.pendingEvents = [] → agent'.highestSeq = frame.seq →
        agent'.applied = agent.applied ++ [frame.entry] →
        (agent'.receiveAll received).applied =
          agent.applied ++ (frame :: live).map SequencedFrame.entry := by
      intro agent' hinit hpending hhighest happlied
      rw [ih ⟨hinit, hpending, ?_⟩ (Int.le_of_eq hhighest) hlater (.inl hhighest), happlied]
      · simp
      · intro f hf
        rcases List.mem_cons.mp hf with rfl | hf
        · omega
        · have := hready.seen f hf
          omega
    rw [receiveAll, List.foldl_cons]
    by_cases heq : agent.highestSeq = last
    · rw [receive_next hready.initialized hready.pending (by omega)]
      exact hafter _ hready.initialized hready.pending rfl rfl
    · have hpermission := hnext.resolve_left heq frame rfl
      rw [receive_permission hready.initialized hpermission (by omega)]
      exact hafter _ hready.initialized rfl rfl rfl
  | @again frame seen live received hseen _ ih =>
    rw [receiveAll, List.foldl_cons, receive_again hready.initialized (hready.seen frame hseen)]
    exact ih hready hlast hnumbered hnext

theorem receiveAll_before {seen live received : List (SequencedFrame ε κ)}
    (h : Deliveries seen live received) (hready : Ready agent seen)
    (hframe : live.head? = some frame) :
    ∃ before, before ++ [frame] <+: received ∧ agent.receiveAll before = agent := by
  induction h with
  | done seen => cases hframe
  | next _ _ =>
    cases hframe
    exact ⟨[], List.cons_prefix_cons.mpr ⟨rfl, List.nil_prefix⟩, rfl⟩
  | @again old seen live received hseen _ ih =>
    obtain ⟨before, hbefore, hsame⟩ := ih hready hframe
    refine ⟨old :: before, List.cons_prefix_cons.mpr ⟨rfl, hbefore⟩, ?_⟩
    rw [receiveAll, List.foldl_cons, receive_again hready.initialized (hready.seen old hseen)]
    exact hsame

theorem seqInitialized_drainOrderedEvents (agent : RemoteAgent ε κ) :
    agent.drainOrderedEvents.seqInitialized = agent.seqInitialized := by
  have hnext : ∀ (pending : List (PendingEvent ε)) (agent : RemoteAgent ε κ),
      (agent.drainNext pending).seqInitialized = agent.seqInitialized := by
    intro pending
    induction pending with
    | nil => exact fun _ => rfl
    | cons next rest ih =>
      intro agent
      unfold drainNext
      split
      · exact ih _
      · rfl
  exact hnext agent.pendingEvents agent

theorem seqInitialized_initializeSeq (agent : RemoteAgent ε κ) (seq : Int) :
    (agent.initializeSeq seq).seqInitialized = true := by
  unfold initializeSeq
  split
  · assumption
  · rfl

/-- A client without a baseline holds nothing back. -/
def NothingHeld (agent : RemoteAgent ε κ) : Prop :=
  agent.seqInitialized = false → agent.pendingEvents = []

theorem NothingHeld.of_initialized (h : agent.seqInitialized = true) :
    NothingHeld agent := fun hnot => by rw [h] at hnot; cases hnot

theorem nothingHeld_handleEvent (h : NothingHeld agent)
    (seq : Option Int) (data : ε) : NothingHeld (agent.handleEvent seq data) := by
  cases seq with
  | none => exact h
  | some seq =>
    have hinit := agent.seqInitialized_initializeSeq seq
    unfold handleEvent
    dsimp only
    generalize agent.initializeSeq seq = agent at hinit
    split
    · exact .of_initialized hinit
    · split
      · unfold bufferEvent
        dsimp only
        split
        · rw [drainOrderedEvents_nil rfl]
          exact fun _ => rfl
        · exact .of_initialized ((seqInitialized_drainOrderedEvents _).trans hinit)
      · exact .of_initialized ((seqInitialized_drainOrderedEvents _).trans hinit)

theorem nothingHeld_handleToolPermissionNeeded (h : NothingHeld agent)
    (seq : Option Int) (card : κ) : NothingHeld (agent.handleToolPermissionNeeded seq card) := by
  cases seq with
  | none => exact h
  | some seq =>
    have hinit : (agent.advanceTopLevelSeq seq).1.seqInitialized = true := by
      have hinit := agent.seqInitialized_initializeSeq seq
      unfold advanceTopLevelSeq
      dsimp only
      split
      · exact hinit
      · split <;> exact hinit
    unfold handleToolPermissionNeeded
    dsimp only
    split
    · rename_i heq
      rw [heq] at hinit
      exact .of_initialized hinit
    · rename_i heq
      rw [heq] at hinit
      exact .of_initialized ((seqInitialized_drainOrderedEvents _).trans hinit)

theorem nothingHeld_run (past : List (Event ε κ)) : NothingHeld (run step new past) := by
  refine inv_run (I := NothingHeld) (fun agent event h => ?_) (fun _ => rfl) past
  cases event with
  | reset => exact fun _ => rfl
  | message message =>
    cases message with
    | event seq data => exact nothingHeld_handleEvent h seq data
    | toolPermissionNeeded seq card => exact nothingHeld_handleToolPermissionNeeded h seq card
    | resumeGap lastSeq => exact fun _ => rfl
    | messages => exact h

/-- The replay of a request is the baseline of a client without one. -/
theorem receive_replay (hinit : agent.seqInitialized = false)
    (hpending : agent.pendingEvents = []) {replay : SequencedFrame ε κ}
    (hreplay : replay.isEvent = false) :
    agent.receive replay =
      { agent with
        highestSeq := replay.seq
        seqInitialized := true
        applied := agent.applied ++ [replay.entry] } := by
  obtain ⟨seq, body⟩ := replay
  cases body with
  | event data => cases hreplay
  | toolPermissionNeeded card =>
    simp only [receive, SequencedFrame.message, handleServerMessage, handleToolPermissionNeeded,
      advanceTopLevelSeq, initializeSeq, hinit, Bool.false_eq_true, if_false]
    rw [if_neg (by omega), if_neg (by omega)]
    exact drainOrderedEvents_nil hpending

/-! ## Clients that attach -/

section

variable {start : RemoteAgent ε κ} {replay : SequencedFrame ε κ} {last : Int}
  {live received : List (SequencedFrame ε κ)}

theorem ready_replay (hinit : start.seqInitialized = false) (hheld : NothingHeld start)
    (hreplay : replay.isEvent = false) :
    Ready (start.receive replay) [replay] ∧ (start.receive replay).highestSeq = replay.seq := by
  rw [receive_replay hinit (hheld hinit) hreplay]
  refine ⟨⟨rfl, hheld hinit, fun frame hframe => ?_⟩, rfl⟩
  rw [List.mem_singleton.mp hframe]

/-- Nothing is held back when the replay has the last number, or a request comes next. -/
theorem gateCorrect_of_next (hinit : start.seqInitialized = false) (hheld : NothingHeld start)
    (hreplay : replay.isEvent = false) (hlast : replay.seq ≤ last) (hnumbered : Numbered last live)
    (hreceived : Deliveries [replay] live received)
    (hnext : replay.seq = last ∨ ∀ frame ∈ live.head?, frame.isEvent = false) :
    GateCorrect start last replay received := by
  obtain ⟨hready, hhighest⟩ := ready_replay hinit hheld hreplay
  have happlied : ((start.receiveAll (replay :: received)).applied.drop start.applied.length) =
      replay.entry :: live.map SequencedFrame.entry := by
    rw [receiveAll, List.foldl_cons]
    change ((start.receive replay).receiveAll received).applied.drop _ = _
    rw [receiveAll_applied hreceived hready (hhighest ▸ hlast) hnumbered (hhighest ▸ hnext),
      receive_replay hinit (hheld hinit) hreplay]
    simp
  constructor
  · have hmap : (replay.entry :: live.map SequencedFrame.entry).filterMap (·.1) =
        replay.seq :: live.map (·.seq) := by
      simp [SequencedFrame.entry, List.filterMap_map, Function.comp_def]
    rw [happlied, hmap, List.pairwise_cons]
    refine ⟨fun seq hseq => ?_, hnumbered.increasing⟩
    obtain ⟨frame, hframe, rfl⟩ := List.mem_map.mp hseq
    exact Int.lt_of_le_of_lt hlast (hnumbered.lt hframe)
  · intro frame hframe _ hlate
    rw [happlied]
    rcases hreceived.mem_or_mem hframe with hlive | hseen
    · exact .inl (List.mem_cons_of_mem _ (List.mem_map.mpr ⟨frame, hlive, rfl⟩))
    · rw [List.mem_singleton.mp hseen] at hlate
      omega

theorem not_gateCorrect_of_event (hinit : start.seqInitialized = false) (hheld : NothingHeld start)
    (hreplay : replay.isEvent = false) (hlast : replay.seq < last) (hnumbered : Numbered last live)
    (hreceived : Deliveries [replay] live received) {frame : SequencedFrame ε κ}
    (hframe : live.head? = some frame) (hevent : frame.isEvent = true) :
    ∃ sofar, sofar <+: received ∧ ¬ GateCorrect start last replay sofar := by
  obtain ⟨hready, hhighest⟩ := ready_replay hinit hheld hreplay
  obtain ⟨before, hbefore, hsame⟩ := receiveAll_before hreceived hready hframe
  refine ⟨before ++ [frame], hbefore, fun hcorrect => ?_⟩
  have hlate : last < frame.seq := hnumbered.lt (List.mem_of_head? hframe)
  have hafter : start.receiveAll (replay :: (before ++ [frame])) =
      (start.receive replay).receive frame := by
    rw [receiveAll, List.foldl_cons, List.foldl_append]
    change ((start.receive replay).receiveAll before).receive frame = _
    rw [hsame]
  obtain ⟨happlied, hrequests⟩ := receive_early hready.initialized hready.pending hevent
    (show (start.receive replay).highestSeq + 1 < frame.seq by omega)
  have hprompt := hcorrect.prompt frame (by simp) hevent hlate
  rw [hafter, happlied, hrequests, receive_replay hinit (hheld hinit) hreplay] at hprompt
  simp only [List.drop_left, List.mem_singleton, Nat.lt_irrefl, or_false] at hprompt
  rw [show frame.isEvent = replay.isEvent by
    simp only [SequencedFrame.entry, Prod.mk.injEq] at hprompt
    simp only [SequencedFrame.isEvent, hprompt.2], hreplay] at hevent
  cases hevent

end

/-- **The sequence gate.** A client that has no baseline attaches to a session, is sent
    the request under its old number, and then receives what the session broadcasts, in
    order and with any repetitions. At every moment the numbers it has applied increase
    and every event since is applied (or a snapshot requested), exactly when the request
    has the last number of the session or no event is broadcast next. -/
theorem gate_correct_iff (maxSize maxBytes : Option Rat) (history later : List (SessionOp ε κ))
    (past : List (Event ε κ)) (hclient : (run step (new : RemoteAgent ε κ) past).seqInitialized = false)
    {request replay : SequencedFrame ε κ} (hrequest : request ∈ broadcasts (.new maxSize maxBytes) history)
    (hseq : replay.seq = request.seq) (hreplay : replay.isEvent = false)
    {received : List (SequencedFrame ε κ)}
    (hreceived : Deliveries [replay]
      (broadcasts (sessionBuffer (.new maxSize maxBytes) history) later) received) :
    (∀ sofar, sofar <+: received → GateCorrect (run step new past)
      (sessionBuffer (.new maxSize maxBytes) history).lastSeq replay sofar) ↔
      request.seq = (sessionBuffer (.new maxSize maxBytes) history).lastSeq ∨
        ∀ frame ∈ (broadcasts (sessionBuffer (.new maxSize maxBytes) history) later).head?,
          frame.isEvent = false := by
  have hheld := nothingHeld_run past
  obtain ⟨hpast, hlast⟩ := broadcasts_numbered (.new maxSize maxBytes) (Int.le_refl 0) history
  have hle : request.seq ≤ (sessionBuffer (.new maxSize maxBytes) history).lastSeq := by
    obtain ⟨i, hi⟩ := List.mem_iff_getElem?.mp hrequest
    have hlt := (List.getElem?_eq_some_iff.mp hi).1
    rw [hpast i request hi, hlast]
    omega
  have hnumbered := (broadcasts_numbered (sessionBuffer (.new maxSize maxBytes) history)
    (by rw [hlast, lastSeq_new]; omega) later).1
  rw [← hseq] at hle ⊢
  constructor
  · intro hcorrect
    by_contra hnot
    rw [not_or] at hnot
    obtain ⟨hne, hevent⟩ := hnot
    simp only [not_forall, Bool.not_eq_false] at hevent
    obtain ⟨frame, hframe, hevent⟩ := hevent
    obtain ⟨sofar, hsofar, hbad⟩ := not_gateCorrect_of_event hclient hheld hreplay
      (by omega) hnumbered hreceived hframe hevent
    exact hbad (hcorrect sofar hsofar)
  · intro hnext sofar hsofar
    obtain ⟨first, ⟨rest, hfirst⟩, hdeliveries⟩ := hreceived.of_prefix hsofar
    rw [← hfirst] at hnumbered hnext
    refine gateCorrect_of_next hclient hheld hreplay hle ?_ hdeliveries ?_
    · intro i frame hframe
      exact hnumbered i frame (by
        rw [List.getElem?_append_left (List.getElem?_eq_some_iff.mp hframe).1]
        exact hframe)
    · refine hnext.imp_right fun hhead frame hframe => hhead frame ?_
      cases first with
      | nil => cases hframe
      | cons head tail => exact hframe

/-- The request has the last number: the event after it and its repetition. -/
theorem gate_correct_lastRequest :
    GateCorrect (run step (new : RemoteAgent String String) [])
      (sessionBuffer (.new none none) [SessionOp.emitEvent (κ := String) "a" 0 none,
        .requestToolGrant "card" 0]).lastSeq ⟨2, .toolPermissionNeeded "card"⟩
      [⟨2, .toolPermissionNeeded "card"⟩, ⟨3, .event "b"⟩, ⟨3, .event "b"⟩] :=
  have hrequest : (⟨2, .toolPermissionNeeded "card"⟩ : SequencedFrame String String) ∈
      broadcasts (.new none none) [.emitEvent "a" 0 none, .requestToolGrant "card" 0] := by decide
  (gate_correct_iff none none [.emitEvent "a" 0 none, .requestToolGrant "card" 0]
    [.emitEvent "b" 0 none] [] rfl hrequest rfl rfl
    (.again (by decide) (.next (.again (by decide) (.done _))))).mpr (.inl rfl) _ (List.prefix_refl _)

/-- The request is older than the last event: the next event is held. -/
theorem late_joiner_stalls :
    Deliveries [⟨1, .toolPermissionNeeded "card"⟩]
      (broadcasts (sessionBuffer (.new none none) [.requestToolGrant "card" 0, .emitEvent "a" 0 none])
        [.emitEvent "b" 0 none]) [⟨3, .event "b"⟩] ∧
    ¬ GateCorrect (run step (new : RemoteAgent String String) [])
      (sessionBuffer (.new none none) [SessionOp.requestToolGrant "card" 0,
        .emitEvent "a" 0 none]).lastSeq ⟨1, .toolPermissionNeeded "card"⟩ [⟨3, .event "b"⟩] := by
  refine ⟨.next (.done _), fun h => ?_⟩
  let replayed : RemoteAgent String String := new.receive ⟨1, .toolPermissionNeeded "card"⟩
  let late : SequencedFrame String String := ⟨3, .event "b"⟩
  have hheld : (replayed.receive late).applied = replayed.applied ∧
      (replayed.receive late).requests = replayed.requests :=
    receive_early rfl rfl rfl (by decide)
  have hprompt := h.prompt late (List.mem_singleton_self _) rfl (by decide)
  change _ ∈ (replayed.receive late).applied ∨ 0 < (replayed.receive late).requests at hprompt
  rw [hheld.1, hheld.2] at hprompt
  revert hprompt
  decide

end RemoteAgent

end Bobbit.App
