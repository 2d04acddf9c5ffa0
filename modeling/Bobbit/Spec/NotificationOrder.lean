import Bobbit.Spec.ProjectQueueView

/-!
# Host notifications are ordered per project and lost only visibly

Seen from one project, a live queue of the dispatcher is a bounded lane, driven by that
project's own publications, drains and deliveries alone (`view_run`). What the queue delivers,
keeps and refuses is then what the lane does, whatever the other projects and the failures do.

## Key results

* `view_run` — a run moves a project's lane by that project's own actions.
* `notifications_ordered` — order, visible loss, independence and the durable subscribers.
-/

namespace Bobbit.Server

open Lib

namespace ProjectOrderedQueue

variable {q : ProjectOrderedQueue} {k : Nat} {n : HostNotification} {p : String}

/-! ## The operations of a queue -/

/-- What the microtask of a drain is to the lane of a project. -/
def startAction (q : ProjectOrderedQueue) (k : Nat) (p : String) :
    Option (LaneAction HostNotification) :=
  match q.drains[k]? with
  | none => none
  | some d => if d.projectId = p ∧ d.phase = .queued then some .start else none

/-- What the end of a delivery is to the lane of a project. -/
def deliveredAction (q : ProjectOrderedQueue) (k : Nat) (p : String) :
    Option (LaneAction HostNotification) :=
  match q.drains[k]? with
  | none => none
  | some d =>
    match d.phase with
    | .delivering _ => if d.projectId = p then some .finish else none
    | _ => none

/-- A lane after an action, if there is one. -/
def moved (capacity : Nat) (lane : Lane HostNotification) :
    Option (LaneAction HostNotification) → Lane HostNotification
  | none => lane
  | some action => Lane.step capacity lane action

theorem start_spec (hq : Holds q) (k : Nat) :
    Holds (q.start k) ∧
      ∀ p, (q.start k).view p = moved q.capacity (q.view p) (q.startAction k p) := by
  unfold start startAction
  cases hk : q.drains[k]? with
  | none => exact ⟨hq, fun p => rfl⟩
  | some d =>
    dsimp only
    cases hphase : d.phase with
    | delivering n => exact ⟨hq, fun p => by rw [if_neg (by simp)]; rfl⟩
    | ended => exact ⟨hq, fun p => by rw [if_neg (by simp)]; rfl⟩
    | queued =>
      have hd : Active d := by simp [Active, hphase]
      refine ⟨turn_holds hq hk hd, fun p => ?_⟩
      dsimp only
      rw [turn_view hq hk hd p]
      by_cases hp : d.projectId = p
      · rw [if_pos hp, if_pos ⟨hp, rfl⟩]
        subst hp
        -- the lane's loop is queued
        have hlane : (q.view d.projectId).phase = .queued := by
          show phaseIn q.drains d.projectId = _
          rw [phaseIn_of_active hq hk hd, lanePhase, hphase]
        show _ = (q.view d.projectId).start
        simp only [Lane.start, hlane]
      · rw [if_neg hp, if_neg fun h => hp h.1]
        rfl

theorem delivered_spec (hq : Holds q) (k : Nat) :
    Holds (q.delivered k) ∧
      ∀ p, (q.delivered k).view p = moved q.capacity (q.view p) (q.deliveredAction k p) := by
  unfold delivered deliveredAction
  cases hk : q.drains[k]? with
  | none => exact ⟨hq, fun p => rfl⟩
  | some d =>
    dsimp only
    cases hphase : d.phase with
    | queued => exact ⟨hq, fun p => rfl⟩
    | ended => exact ⟨hq, fun p => rfl⟩
    | delivering n =>
      have hd : Active d := by simp [Active, hphase]
      refine ⟨turn_holds hq hk hd, fun p => ?_⟩
      dsimp only
      rw [turn_view hq hk hd p]
      by_cases hp : d.projectId = p
      · rw [if_pos hp, if_pos hp]
        subst hp
        have hlane : (q.view d.projectId).phase = .busy n := by
          show phaseIn q.drains d.projectId = _
          rw [phaseIn_of_active hq hk hd, lanePhase, hphase]
        show _ = (q.view d.projectId).finish
        simp only [Lane.finish, hlane]
      · rw [if_neg hp, if_neg hp]
        rfl

/-- What an operation leaves alone: the adapter, the capacity, and the account of the refused. -/
structure SameAccount (q q' : ProjectOrderedQueue) : Prop where
  adapter : q'.adapter = q.adapter
  capacity : q'.capacity = q.capacity
  refused : q'.refused = q.refused
  refreshes : q'.refreshed ++ q'.refreshing = q.refreshed ++ q.refreshing

theorem SameAccount.refl (q : ProjectOrderedQueue) : SameAccount q q := ⟨rfl, rfl, rfl, rfl⟩

theorem turn_sameAccount (q : ProjectOrderedQueue) (k : Nat) (d : Drain) :
    SameAccount q (q.turn k d) := by
  unfold turn
  split
  · exact .refl q
  · split <;> exact ⟨rfl, rfl, rfl, rfl⟩

theorem start_sameAccount (q : ProjectOrderedQueue) (k : Nat) : SameAccount q (q.start k) := by
  unfold start
  split
  · exact .refl q
  · split
    · exact turn_sameAccount q k _
    · exact .refl q

theorem delivered_sameAccount (q : ProjectOrderedQueue) (k : Nat) :
    SameAccount q (q.delivered k) := by
  unfold delivered
  split
  · exact .refl q
  · split
    · exact turn_sameAccount q k _
    · exact .refl q

theorem refresh_sameAccount (q : ProjectOrderedQueue) : SameAccount q q.refresh := by
  unfold refresh
  split
  · exact .refl q
  · rename_i n rest hrefreshing
    exact ⟨rfl, rfl, rfl, by simp [hrefreshing]⟩

theorem refresh_spec (hq : Holds q) : Holds q.refresh ∧ ∀ p, q.refresh.view p = q.view p := by
  unfold refresh
  split
  · exact ⟨hq, fun p => rfl⟩
  · exact ⟨⟨hq.positive, hq.unique, hq.mapped, hq.running, hq.separate, hq.own⟩, fun p => rfl⟩

theorem refreshRequired_spec (hq : Holds q) (n : HostNotification) :
    Holds (q.refreshRequired n) ∧ ∀ p, (q.refreshRequired n).view p = q.view p := by
  unfold refreshRequired
  split
  · exact ⟨⟨hq.positive, hq.unique, hq.mapped, hq.running, hq.separate, hq.own⟩, fun p => rfl⟩
  · exact ⟨hq, fun p => rfl⟩

/-- An admission is accounted for: what is refused is logged as refused, and nothing else is. -/
theorem enqueue_account (hq : Holds q) (n : HostNotification) :
    (q.enqueue n).1.adapter = q.adapter ∧ (q.enqueue n).1.capacity = q.capacity ∧
      (q.enqueue n).1.refused = q.refused ++ (if (q.enqueue n).2 then [] else [n]) ∧
      (q.enqueue n).1.refreshed = q.refreshed ∧ (q.enqueue n).1.refreshing = q.refreshing := by
  obtain ⟨ref, lane, hget, hlane, hfull, h⟩ | ⟨ref, lane, hget, hlane, hroom, h⟩ | ⟨hget, h⟩ :=
    enqueue_case hq n
  · rw [h]
    exact ⟨rfl, rfl, rfl, rfl, rfl⟩
  · rw [h]
    exact ⟨rfl, rfl, (List.append_nil _).symm, rfl, rfl⟩
  · rw [h]
    exact ⟨rfl, rfl, (List.append_nil _).symm, rfl, rfl⟩

end ProjectOrderedQueue

namespace HostNotificationDispatcher

open ProjectOrderedQueue

variable {s : HostNotificationDispatcher} {n : HostNotification} {q : ProjectOrderedQueue}

/-- The notifications of the overflow diagnostics of a consumer. -/
def overflowsOf (c : HostNotificationConsumer) (ds : List HostNotificationDiagnostic) :
    List HostNotification :=
  ds.filterMap fun d =>
    if d.code = .queueOverflow ∧ d.consumer = c then some d.notification else none

theorem overflowsOf_append (c : HostNotificationConsumer)
    (ds ds' : List HostNotificationDiagnostic) :
    overflowsOf c (ds ++ ds') = overflowsOf c ds ++ overflowsOf c ds' :=
  List.filterMap_append

theorem overflowsOf_onFailure (c : HostNotificationConsumer)
    (call : Option (HostNotification × HostNotificationConsumer)) (fails : Bool) :
    overflowsOf c (onFailure call fails) = [] := by
  unfold onFailure
  split
  · rfl
  · split <;> rfl

/-- What an event is to the lane of a project in queue `i`. -/
def laneAction (i : Nat) (p : String) (s : HostNotificationDispatcher) :
    Event → Option (LaneAction HostNotification)
  | .publish projectId consumers =>
    match s.queues[i]? with
    | none => none
    | some q =>
      if q.adapter.consumer ∈ consumers ∧ projectId = p then
        some (.offer { id := s.published.length, projectId := projectId, consumers := consumers })
      else none
  | .start j k => if j = i then (s.queues[i]?).bind (·.startAction k p) else none
  | .delivered j k _ => if j = i then (s.queues[i]?).bind (·.deliveredAction k p) else none
  | .refresh _ _ => none
  | .offer _ _ => none

/-- A project's own actions along a run. -/
def laneActions (i : Nat) (p : String) :
    HostNotificationDispatcher → List Event → List (LaneAction HostNotification)
  | _, [] => []
  | s, e :: rest => (laneAction i p s e).toList ++ laneActions i p (step s e) rest

/-- The accounts of a queue: the queued and made calls of `refreshRequired`, and the overflow
    diagnostics, are those of the refused notifications, in order. -/
structure Accounted (s : HostNotificationDispatcher) (q : ProjectOrderedQueue) : Prop where
  refreshes : q.refreshed ++ q.refreshing = if q.adapter.refreshes then q.refused else []
  overflows : overflowsOf q.adapter.consumer s.diagnostics = q.refused

structure Sound (s : HostNotificationDispatcher) : Prop where
  holds : ∀ (i : Nat) q, s.queues[i]? = some q → Holds q
  accounted : ∀ (i : Nat) q, s.queues[i]? = some q → Accounted s q
  distinct : (s.queues.map (·.adapter.consumer)).Nodup
  ids : s.published.map (·.id) = List.range s.published.length

/-! ## Publications -/

theorem fanout_spec (hq : Holds q) (n : HostNotification) :
    Holds (fanout n q).1 ∧ (fanout n q).1.adapter = q.adapter ∧
      (fanout n q).1.capacity = q.capacity ∧
      ∀ p, (fanout n q).1.view p = moved q.capacity (q.view p)
        (if q.adapter.consumer ∈ n.consumers ∧ n.projectId = p then some (.offer n) else none) := by
  unfold fanout
  split
  · rename_i hconsumes
    obtain ⟨hadapter, hcapacity, _⟩ := enqueue_account hq n
    have hview : ∀ p, (q.enqueue n).1.view p = moved q.capacity (q.view p)
        (if q.adapter.consumer ∈ n.consumers ∧ n.projectId = p then some (.offer n) else none) := by
      intro p
      rw [enqueue_view hq n p]
      by_cases hp : n.projectId = p
      · rw [if_pos hp, if_pos ⟨hconsumes, hp⟩]
        rfl
      · rw [if_neg hp, if_neg fun h => hp h.2]
        rfl
    have hholds := enqueue_holds hq n
    dsimp only
    split
    · exact ⟨hholds, hadapter, hcapacity, hview⟩
    · obtain ⟨hholds', hview'⟩ := refreshRequired_spec hholds n
      have hsame : (refreshRequired (q.enqueue n).1 n).adapter = (q.enqueue n).1.adapter ∧
          (refreshRequired (q.enqueue n).1 n).capacity = (q.enqueue n).1.capacity := by
        unfold refreshRequired
        split <;> exact ⟨rfl, rfl⟩
      exact ⟨hholds', hsame.1.trans hadapter, hsame.2.trans hcapacity,
        fun p => (hview' p).trans (hview p)⟩
  · rename_i hconsumes
    refine ⟨hq, rfl, rfl, fun p => ?_⟩
    rw [if_neg fun h => hconsumes h.1]
    rfl

/-- The account of a queue after its turn in the fanout. -/
theorem fanout_account (hq : Holds q) (n : HostNotification) :
    (fanout n q).1.refused = q.refused ++ overflowsOf q.adapter.consumer (fanout n q).2 ∧
      (q.refreshed ++ q.refreshing = (if q.adapter.refreshes then q.refused else []) →
        (fanout n q).1.refreshed ++ (fanout n q).1.refreshing =
          if q.adapter.refreshes then (fanout n q).1.refused else []) := by
  unfold fanout
  split
  · obtain ⟨hadapter, _, hrefused, hrefreshed, hrefreshing⟩ := enqueue_account hq n
    dsimp only
    cases hadmitted : (q.enqueue n).2 with
    | true =>
      rw [hadmitted, if_pos rfl, List.append_nil] at hrefused
      rw [if_pos rfl]
      dsimp only
      refine ⟨?_, fun h => ?_⟩
      · rw [hrefused]
        exact (List.append_nil _).symm
      · rw [hrefreshed, hrefreshing, hrefused]
        exact h
    | false =>
      rw [hadmitted, if_neg (by simp)] at hrefused
      rw [if_neg (by simp)]
      dsimp only
      unfold refreshRequired
      rw [hadapter]
      refine ⟨?_, fun h => ?_⟩
      · have hone : overflowsOf q.adapter.consumer [{
            code := .queueOverflow
            notification := n
            consumer := q.adapter.consumer }] = [n] := by
          simp [overflowsOf]
        rw [hone]
        split <;> exact hrefused
      · split
        · rename_i hrefreshes
          rw [if_pos hrefreshes] at h
          dsimp only
          rw [hrefreshed, hrefreshing, hrefused, ← List.append_assoc, h]
        · rename_i hrefreshes
          rw [if_neg hrefreshes] at h
          rw [hrefreshed, hrefreshing, h]
  · exact ⟨(List.append_nil _).symm, fun h => h⟩

variable {i : Nat}

/-- The overflow diagnostics of a fanout for one of the queues are those of its own turn. -/
theorem overflowsOf_fanout (n : HostNotification) {qs : List ProjectOrderedQueue}
    (hnodup : (qs.map (·.adapter.consumer)).Nodup) (hi : qs[i]? = some q) :
    overflowsOf q.adapter.consumer (qs.flatMap fun q => (fanout n q).2) =
      overflowsOf q.adapter.consumer (fanout n q).2 := by
  have hother : ∀ q', q'.adapter.consumer ≠ q.adapter.consumer →
      overflowsOf q.adapter.consumer (fanout n q').2 = [] := by
    intro q' hne
    unfold fanout
    split
    · dsimp only
      split
      · rfl
      · simp [overflowsOf, hne]
    · rfl
  induction qs generalizing i with
  | nil => simp at hi
  | cons q₀ qs ih =>
    rw [List.map_cons, List.nodup_cons] at hnodup
    rw [List.flatMap_cons, overflowsOf_append]
    cases i with
    | zero =>
      rw [List.getElem?_cons_zero, Option.some.injEq] at hi
      subst hi
      -- no later queue has this consumer
      have hrest : overflowsOf q₀.adapter.consumer (qs.flatMap fun q => (fanout n q).2) = [] := by
        unfold overflowsOf
        rw [List.filterMap_eq_nil_iff]
        intro d hd
        obtain ⟨q', hq', hd⟩ := List.mem_flatMap.mp hd
        have hne : q'.adapter.consumer ≠ q₀.adapter.consumer := fun heq =>
          hnodup.1 (heq ▸ List.mem_map_of_mem hq')
        exact (List.filterMap_eq_nil_iff.mp (hother q' hne)) d hd
      rw [hrest, List.append_nil]
    | succ i =>
      rw [List.getElem?_cons_succ] at hi
      have hne : q₀.adapter.consumer ≠ q.adapter.consumer := fun heq =>
        hnodup.1 (heq ▸ List.mem_map_of_mem (List.mem_of_getElem? hi))
      rw [hother q₀ hne, List.nil_append]
      exact ih hnodup.2 hi

/-! ## Steps -/

/-- A queue after an event: its lanes moved by their own actions. -/
structure QueueStep (i : Nat) (s : HostNotificationDispatcher) (e : Event)
    (q q' : ProjectOrderedQueue) : Prop where
  holds : Holds q'
  adapter : q'.adapter = q.adapter
  capacity : q'.capacity = q.capacity
  view : ∀ p, q'.view p = moved q.capacity (q.view p) (laneAction i p s e)

theorem step_queue (hs : Sound s) (e : Event) (hi : s.queues[i]? = some q) :
    ∃ q', (step s e).queues[i]? = some q' ∧ QueueStep i s e q q' := by
  have hq := hs.holds i q hi
  cases e with
  | publish projectId consumers =>
    obtain ⟨hholds, hadapter, hcapacity, hview⟩ := fanout_spec hq
      { id := s.published.length, projectId := projectId, consumers := consumers }
    refine ⟨_, ?_, hholds, hadapter, hcapacity, fun p => ?_⟩
    · show (s.queues.map _)[i]? = _
      rw [List.getElem?_map, hi]
      rfl
    · rw [hview p]
      unfold laneAction
      rw [hi]
  | start j k =>
    show ∃ q', (s.queues.modify j (·.start k))[i]? = some q' ∧ _
    rw [List.getElem?_modify, hi]
    by_cases hj : j = i
    · obtain ⟨hholds, hview⟩ := start_spec hq k
      have haccount := start_sameAccount q k
      refine ⟨q.start k, by simp [hj], hholds, haccount.adapter, haccount.capacity, fun p => ?_⟩
      show _ = moved _ _ (if j = i then (s.queues[i]?).bind (·.startAction k p) else none)
      rw [if_pos hj, hi]
      exact hview p
    · refine ⟨q, by simp [hj], hq, rfl, rfl, fun p => ?_⟩
      show _ = moved _ _ (if j = i then (s.queues[i]?).bind (·.startAction k p) else none)
      rw [if_neg hj]
      rfl
  | delivered j k fails =>
    show ∃ q', (s.queues.modify j (·.delivered k))[i]? = some q' ∧ _
    rw [List.getElem?_modify, hi]
    by_cases hj : j = i
    · obtain ⟨hholds, hview⟩ := delivered_spec hq k
      have haccount := delivered_sameAccount q k
      refine ⟨q.delivered k, by simp [hj], hholds, haccount.adapter, haccount.capacity, fun p => ?_⟩
      show _ = moved _ _ (if j = i then (s.queues[i]?).bind (·.deliveredAction k p) else none)
      rw [if_pos hj, hi]
      exact hview p
    · refine ⟨q, by simp [hj], hq, rfl, rfl, fun p => ?_⟩
      show _ = moved _ _ (if j = i then (s.queues[i]?).bind (·.deliveredAction k p) else none)
      rw [if_neg hj]
      rfl
  | refresh j fails =>
    show ∃ q', (s.queues.modify j (·.refresh))[i]? = some q' ∧ _
    rw [List.getElem?_modify, hi]
    by_cases hj : j = i
    · obtain ⟨hholds, hview⟩ := refresh_spec hq
      have haccount := refresh_sameAccount q
      exact ⟨q.refresh, by simp [hj], hholds, haccount.adapter, haccount.capacity, hview⟩
    · exact ⟨q, by simp [hj], hq, rfl, rfl, fun p => rfl⟩
  | offer j fails => exact ⟨q, hi, hq, rfl, rfl, fun p => rfl⟩

theorem step_length (s : HostNotificationDispatcher) (e : Event) :
    (step s e).queues.length = s.queues.length := by
  cases e with
  | publish projectId consumers => exact List.length_map _
  | start j k => exact List.length_modify _ _ _
  | delivered j k fails => exact List.length_modify _ _ _
  | refresh j fails => exact List.length_modify _ _ _
  | offer j fails => rfl

variable {q' : ProjectOrderedQueue}

theorem queue_of_step (hs : Sound s) (e : Event) (hi : (step s e).queues[i]? = some q') :
    ∃ q, s.queues[i]? = some q ∧ QueueStep i s e q q' := by
  have hlt : i < s.queues.length := by
    rw [← step_length s e]
    exact (List.getElem?_eq_some_iff.mp hi).1
  have hq := List.getElem?_eq_getElem hlt
  obtain ⟨q'', hq'', hstep⟩ := step_queue hs e hq
  rw [hi, Option.some.injEq] at hq''
  subst hq''
  exact ⟨_, hq, hstep⟩

theorem step_adapters (hs : Sound s) (e : Event) :
    (step s e).queues.map (·.adapter) = s.queues.map (·.adapter) := by
  apply List.ext_getElem?
  intro i
  rw [List.getElem?_map, List.getElem?_map]
  cases hi : s.queues[i]? with
  | none =>
    have hle : s.queues.length ≤ i := List.getElem?_eq_none_iff.mp hi
    rw [List.getElem?_eq_none (by rw [step_length]; exact hle)]
  | some q =>
    obtain ⟨q', hq', hstep⟩ := step_queue hs e hi
    rw [hq', Option.map_some, Option.map_some, hstep.adapter]

theorem Accounted.congr {s' : HostNotificationDispatcher}
    (h : Accounted s q) (hsame : SameAccount q q')
    (hdiagnostics : overflowsOf q.adapter.consumer s'.diagnostics =
      overflowsOf q.adapter.consumer s.diagnostics) : Accounted s' q' := by
  refine ⟨?_, ?_⟩
  · rw [hsame.refreshes, hsame.adapter, hsame.refused]
    exact h.refreshes
  · rw [hsame.adapter, hsame.refused, hdiagnostics]
    exact h.overflows

/-- A queue of the dispatcher goes on, and at most a failure is reported. -/
theorem accounted_modify (hs : Sound s) {f : ProjectOrderedQueue → ProjectOrderedQueue} {j : Nat}
    (hf : ∀ q, SameAccount q (f q)) {s' : HostNotificationDispatcher}
    (hi : (s.queues.modify j f)[i]? = some q')
    (hdiagnostics : ∀ c, overflowsOf c s'.diagnostics = overflowsOf c s.diagnostics) :
    Accounted s' q' := by
  rw [List.getElem?_modify] at hi
  obtain ⟨q, hq, rfl⟩ := Option.map_eq_some_iff.mp hi
  split
  · exact (hs.accounted i q hq).congr (hf q) (hdiagnostics _)
  · exact (hs.accounted i q hq).congr (.refl q) (hdiagnostics _)

theorem step_accounted (hs : Sound s) (e : Event)
    (hi : (step s e).queues[i]? = some q') : Accounted (step s e) q' := by
  cases e with
  | publish projectId consumers =>
    obtain ⟨q, hq, rfl⟩ := Option.map_eq_some_iff.mp ((List.getElem?_map).symm.trans hi)
    have hholds := hs.holds i q hq
    obtain ⟨hrefreshes, hoverflows⟩ := hs.accounted i q hq
    have hspec := fanout_spec hholds
      { id := s.published.length, projectId := projectId, consumers := consumers }
    have haccount := fanout_account hholds
      { id := s.published.length, projectId := projectId, consumers := consumers }
    refine ⟨?_, ?_⟩
    · rw [hspec.2.1]
      exact haccount.2 hrefreshes
    · rw [hspec.2.1, haccount.1]
      show overflowsOf _ (s.diagnostics ++ _) = _
      rw [overflowsOf_append, hoverflows, overflowsOf_fanout _ hs.distinct hq]
  | start j k => exact accounted_modify hs (start_sameAccount · k) hi fun c => rfl
  | delivered j k fails =>
    refine accounted_modify hs (delivered_sameAccount · k) hi fun c => ?_
    show overflowsOf c (s.diagnostics ++ _) = _
    rw [overflowsOf_append, overflowsOf_onFailure, List.append_nil]
  | refresh j fails =>
    refine accounted_modify hs refresh_sameAccount hi fun c => ?_
    show overflowsOf c (s.diagnostics ++ _) = _
    rw [overflowsOf_append, overflowsOf_onFailure, List.append_nil]
  | offer j fails =>
    refine (hs.accounted i q' hi).congr (.refl q') ?_
    show overflowsOf _ (s.diagnostics ++ _) = _
    rw [overflowsOf_append, overflowsOf_onFailure, List.append_nil]

theorem step_sound (hs : Sound s) (e : Event) : Sound (step s e) where
  holds := by
    intro i q' hi
    obtain ⟨q, _, hstep⟩ := queue_of_step hs e hi
    exact hstep.holds
  accounted := fun i q' hi => step_accounted hs e hi
  distinct := by
    have hmap : ∀ qs : List ProjectOrderedQueue,
        qs.map (·.adapter.consumer) = (qs.map (·.adapter)).map (·.consumer) := fun qs => by
      rw [List.map_map]
      rfl
    rw [hmap, step_adapters hs e, ← hmap]
    exact hs.distinct
  ids := by
    cases e with
    | publish projectId consumers =>
      show (s.published ++ [_]).map HostNotification.id = List.range (s.published ++ [_]).length
      rw [List.map_append, hs.ids, List.length_append, List.length_singleton, List.range_succ]
      rfl
    | start j k => exact hs.ids
    | delivered j k fails => exact hs.ids
    | refresh j fails => exact hs.ids
    | offer j fails => exact hs.ids

/-! ## Runs -/

/-- The adapters that are not durable, in the order of their queues. -/
def liveAdapters (adapters : List HostNotificationDeliveryAdapter) :
    List HostNotificationDeliveryAdapter :=
  (firstOfEach [] adapters).filter (!·.durable)

theorem firstOfEach_spec (seen : List HostNotificationConsumer)
    (adapters : List HostNotificationDeliveryAdapter) :
    ((firstOfEach seen adapters).map (·.consumer)).Nodup ∧
      ∀ a ∈ firstOfEach seen adapters, a.consumer ∉ seen := by
  induction adapters generalizing seen with
  | nil => exact ⟨List.nodup_nil, fun a ha => by cases ha⟩
  | cons adapter rest ih =>
    unfold firstOfEach
    split
    · exact ih seen
    · rename_i hseen
      obtain ⟨hnodup, hfresh⟩ := ih (adapter.consumer :: seen)
      refine ⟨?_, ?_⟩
      · rw [List.map_cons, List.nodup_cons]
        refine ⟨fun hmem => ?_, hnodup⟩
        obtain ⟨a, ha, heq⟩ := List.mem_map.mp hmem
        exact hfresh a ha (by rw [heq]; exact List.mem_cons_self)
      · intro a ha
        rcases List.mem_cons.mp ha with rfl | ha
        · exact hseen
        · exact fun hmem => hfresh a ha (List.mem_cons_of_mem _ hmem)

theorem queueCapacity_pos (configured : Option Nat) : 0 < queueCapacity configured :=
  Nat.le_max_left 1 _

theorem queue_of_create {adapters : List HostNotificationDeliveryAdapter} {configured : Option Nat}
    (hi : (create adapters configured).queues[i]? = some q) :
    ∃ a, q = ProjectOrderedQueue.create a (queueCapacity configured) := by
  obtain ⟨a, _, rfl⟩ := Option.map_eq_some_iff.mp ((List.getElem?_map).symm.trans hi)
  exact ⟨a, rfl⟩

theorem create_adapters (adapters : List HostNotificationDeliveryAdapter)
    (configured : Option Nat) :
    (create adapters configured).queues.map (·.adapter) = liveAdapters adapters := by
  show ((liveAdapters adapters).map fun a =>
    ProjectOrderedQueue.create a (queueCapacity configured)).map (·.adapter) = _
  rw [List.map_map]
  exact List.map_id _

theorem create_sound (adapters : List HostNotificationDeliveryAdapter)
    (configured : Option Nat) : Sound (create adapters configured) where
  holds := by
    intro i q hi
    obtain ⟨a, rfl⟩ := queue_of_create hi
    exact create_holds a (queueCapacity_pos configured)
  accounted := by
    intro i q hi
    obtain ⟨a, rfl⟩ := queue_of_create hi
    refine ⟨?_, rfl⟩
    show [] ++ [] = if a.refreshes then [] else []
    split <;> rfl
  distinct := by
    have hmap : (create adapters configured).queues.map (·.adapter.consumer) =
        (liveAdapters adapters).map (·.consumer) := by
      rw [← create_adapters adapters configured, List.map_map]
      rfl
    rw [hmap]
    exact (List.filter_sublist.map _).nodup (firstOfEach_spec [] adapters).1
  ids := rfl

theorem run_sound (hs : Sound s) (events : List Event) : Sound (run step s events) :=
  inv_run (I := Sound) (fun _ e h => step_sound h e) hs events

/-- **Independence.** A run moves a project's lane by that project's own actions. -/
theorem view_run (hs : Sound s) (hi : s.queues[i]? = some q) (events : List Event) :
    ∃ q', (run step s events).queues[i]? = some q' ∧ q'.adapter = q.adapter ∧
      q'.capacity = q.capacity ∧
      ∀ p, q'.view p = run (Lane.step q.capacity) (q.view p) (laneActions i p s events) := by
  induction events generalizing s q with
  | nil => exact ⟨q, hi, rfl, rfl, fun p => rfl⟩
  | cons e rest ih =>
    obtain ⟨q₁, hq₁, hstep⟩ := step_queue hs e hi
    obtain ⟨q', hq', hadapter, hcapacity, hview⟩ := ih (step_sound hs e) hq₁
    refine ⟨q', hq', hadapter.trans hstep.adapter, hcapacity.trans hstep.capacity, fun p => ?_⟩
    rw [hview p, hstep.view p, hstep.capacity]
    show _ = run _ _ ((laneAction i p s e).toList ++ _)
    rw [run_append]
    cases laneAction i p s e <;> rfl

/-- The published notifications of a project that a consumer consumes. -/
def publishedTo (s : HostNotificationDispatcher) (c : HostNotificationConsumer) (p : String) :
    List HostNotification :=
  s.published.filter fun n => c ∈ n.consumers ∧ n.projectId = p

theorem offered_step (hi : s.queues[i]? = some q) (p : String) (e : Event) :
    publishedTo (step s e) q.adapter.consumer p =
      publishedTo s q.adapter.consumer p ++ Lane.offered (laneAction i p s e).toList := by
  cases e with
  | publish projectId consumers =>
    show (s.published ++ [_]).filter _ = _ ++ Lane.offered (Option.toList (match s.queues[i]? with
      | none => none
      | some q => _))
    rw [hi, List.filter_append]
    dsimp only
    congr 1
    by_cases h : q.adapter.consumer ∈ consumers ∧ projectId = p
    · rw [if_pos h]
      simp [Lane.offered, h]
    · rw [if_neg h]
      simp only [List.filter_cons, h, decide_false, Bool.false_eq_true, if_false, List.filter_nil]
      rfl
  | start j k =>
    have hnone : Lane.offered (laneAction i p s (.start j k)).toList = [] := by
      show Lane.offered (Option.toList (if j = i then _ else none)) = []
      split
      · rw [hi]
        show Lane.offered (Option.toList (q.startAction k p)) = []
        unfold startAction
        split
        · rfl
        · split <;> rfl
      · rfl
    rw [hnone, List.append_nil]
    rfl
  | delivered j k fails =>
    have hnone : Lane.offered (laneAction i p s (.delivered j k fails)).toList = [] := by
      show Lane.offered (Option.toList (if j = i then _ else none)) = []
      split
      · rw [hi]
        show Lane.offered (Option.toList (q.deliveredAction k p)) = []
        unfold deliveredAction
        split
        · rfl
        · split
          · split <;> rfl
          · rfl
      · rfl
    rw [hnone, List.append_nil]
    rfl
  | refresh j fails => exact (List.append_nil _).symm
  | offer j fails => exact (List.append_nil _).symm

theorem offered_run (hs : Sound s) (hi : s.queues[i]? = some q) (p : String) (events : List Event) :
    publishedTo (run step s events) q.adapter.consumer p =
      publishedTo s q.adapter.consumer p ++ Lane.offered (laneActions i p s events) := by
  induction events generalizing s q with
  | nil => exact (List.append_nil _).symm
  | cons e rest ih =>
    obtain ⟨q₁, hq₁, hstep⟩ := step_queue hs e hi
    have hrest := ih (step_sound hs e) hq₁
    rw [hstep.adapter] at hrest
    show publishedTo (run step (step s e) rest) _ _ = _
    rw [hrest, offered_step hi p e]
    show _ = _ ++ Lane.offered ((laneAction i p s e).toList ++ _)
    rw [Lane.offered_append, List.append_assoc]

/-- Every queue of a dispatcher in use is a lane, for each project, that was offered what was
    published to it. -/
theorem lane_holds (adapters : List HostNotificationDeliveryAdapter) (configured : Option Nat)
    (events : List Event)
    (hi : (run step (create adapters configured) events).queues[i]? = some q) (p : String) :
    Lane.Holds (publishedTo (run step (create adapters configured) events) q.adapter.consumer p)
      (q.view p) := by
  have hs := create_sound adapters configured
  have hlength : (run step (create adapters configured) events).queues.length =
      (create adapters configured).queues.length := by
    refine inv_run (I := fun s : HostNotificationDispatcher => s.queues.length = _)
      (fun s e h => ?_) rfl events
    rw [step_length, h]
  have hlt : i < (create adapters configured).queues.length := by
    rw [← hlength]
    exact (List.getElem?_eq_some_iff.mp hi).1
  have hi₀ := List.getElem?_eq_getElem hlt
  obtain ⟨a, hcreated⟩ := queue_of_create hi₀
  obtain ⟨q', hq', hadapter, hcapacity, hview⟩ := view_run hs hi₀ events
  rw [hi, Option.some.injEq] at hq'
  subst hq'
  have hoffered := offered_run hs hi₀ p events
  have hempty : (create adapters configured).queues[i].view p = Lane.empty := by
    rw [hcreated]
    rfl
  rw [hadapter, hoffered, hview p, hempty]
  exact Lane.holds_foldl _ _

/-! ## What a queue delivers -/

theorem published_nodup (hs : Sound s) : s.published.Nodup := by
  refine List.Nodup.of_map HostNotification.id ?_
  rw [hs.ids]
  exact List.nodup_range

/-- What a live queue has made of what was published. -/
structure Delivers (s : HostNotificationDispatcher) (q : ProjectOrderedQueue) : Prop where
  /-- a project's notifications are received in the order of their publication -/
  ordered : ∀ p, (q.received.filter fun n => n.projectId = p).Sublist
    (publishedTo s q.adapter.consumer p)
  once : q.received.Nodup
  /-- a project's deliveries are made one at a time -/
  single : ∀ (k k' : Nat) n n', q.delivering? k = some n → q.delivering? k' = some n' →
    n.projectId = n'.projectId → k = k'
  /-- what is neither received nor refused waits in its lane, and a drain of the lane runs -/
  waits : ∀ n ∈ s.published, q.adapter.consumer ∈ n.consumers → n ∉ q.received → n ∉ q.refused →
    n ∈ itemsIn q.lanes q.heap n.projectId ∧
      ∃ (k : Nat) (d : Drain), q.drains[k]? = some d ∧ Active d ∧ d.projectId = n.projectId
  refused : ∀ n ∈ q.refused, n ∈ publishedTo s q.adapter.consumer n.projectId ∧ n ∉ q.received
  /-- one overflow diagnostic for each refused notification, and none for the others -/
  diagnosed : ∀ n, (overflowsOf q.adapter.consumer s.diagnostics).count n =
    if n ∈ q.refused then 1 else 0
  /-- one call of `refreshRequired`, made or queued, for each refused notification -/
  refreshes : q.adapter.refreshes = true → ∀ n, (q.refreshed ++ q.refreshing).count n =
    if n ∈ q.refused then 1 else 0

theorem delivering_active {k : Nat} (h : q.delivering? k = some n) :
    ∃ d, q.drains[k]? = some d ∧ d.phase = .delivering n := by
  unfold delivering? at h
  split at h
  · cases h
  · rename_i d hk
    split at h
    · rename_i n' hphase
      cases h
      exact ⟨d, hk, hphase⟩
    · cases h

theorem delivering_own (hq : Holds q) {items : String → List HostNotification}
    (hlane : ∀ p, Lane.Holds (items p) (q.view p)) {k : Nat} {d : Drain}
    (hk : q.drains[k]? = some d) (hphase : d.phase = .delivering n) :
    n.projectId = d.projectId := by
  have hbusy : (q.view d.projectId).phase = .busy n := by
    show phaseIn q.drains d.projectId = _
    rw [phaseIn_of_active hq hk (by simp [Active, hphase]), lanePhase, hphase]
  have hmem := (hlane d.projectId).busy n hbusy
  have hmem : n ∈ q.received.filter fun n => n.projectId = d.projectId := hmem
  simpa using (List.mem_filter.mp hmem).2

theorem count_of_nodup {l : List HostNotification} (h : l.Nodup) (n : HostNotification) :
    l.count n = if n ∈ l then 1 else 0 := by
  split
  · rename_i hn
    exact List.count_eq_one_of_mem h hn
  · rename_i hn
    exact List.count_eq_zero_of_not_mem hn

theorem delivers (hs : Sound s) (hi : s.queues[i]? = some q)
    (hlane : ∀ p, Lane.Holds (publishedTo s q.adapter.consumer p) (q.view p)) : Delivers s q := by
  have hq := hs.holds i q hi
  have hfilter : ∀ p, (publishedTo s q.adapter.consumer p).Nodup := fun p =>
    (published_nodup hs).filter _
  have hall : ∀ p, ((q.accepted ++ q.refused).filter fun n => n.projectId = p).Perm
      (publishedTo s q.adapter.consumer p) := by
    intro p
    rw [List.filter_append]
    exact (hlane p).perm
  have hnodup : (q.accepted ++ q.refused).Nodup :=
    nodup_of_filter (f := HostNotification.projectId) fun p =>
      (hall p).nodup_iff.mpr (hfilter p)
  obtain ⟨haccepted, hrefusedNodup, hdisjoint⟩ := List.nodup_append.mp hnodup
  have hfifo : ∀ p, (q.received.filter fun n => n.projectId = p) ++ itemsIn q.lanes q.heap p =
      q.accepted.filter fun n => n.projectId = p := fun p => (hlane p).fifo
  have hreceived : ∀ p, (q.received.filter fun n => n.projectId = p).Sublist
      (q.accepted.filter fun n => n.projectId = p) := by
    intro p
    rw [← hfifo p]
    exact List.sublist_append_left _ _
  have hsubset : ∀ n ∈ q.received, n ∈ q.accepted := by
    intro n hn
    have hmem : n ∈ q.received.filter fun n' => n'.projectId = n.projectId :=
      List.mem_filter.mpr ⟨hn, by simp⟩
    exact (List.mem_filter.mp ((hreceived n.projectId).subset hmem)).1
  have haccount := hs.accounted i q hi
  refine ⟨fun p => (hreceived p).trans (hlane p).accepted, ?_, ?_, ?_, ?_, ?_, ?_⟩
  · exact nodup_of_filter (f := HostNotification.projectId) fun p =>
      (hreceived p).nodup (haccepted.filter _)
  · intro k k' n n' hk hk' hp
    obtain ⟨d, hd, hphase⟩ := delivering_active hk
    obtain ⟨d', hd', hphase'⟩ := delivering_active hk'
    refine hq.unique k k' d d' hd hd' (by simp [Active, hphase]) (by simp [Active, hphase']) ?_
    rw [← delivering_own hq hlane hd hphase, ← delivering_own hq hlane hd' hphase', hp]
  · intro n hn hconsumes hnotReceived hnotRefused
    have hmem : n ∈ publishedTo s q.adapter.consumer n.projectId :=
      List.mem_filter.mpr ⟨hn, by simp [hconsumes]⟩
    have hmem := (List.mem_filter.mp ((hall n.projectId).mem_iff.mpr hmem)).1
    -- it was admitted, and is still in its lane
    have haccept : n ∈ q.accepted := (List.mem_append.mp hmem).resolve_right hnotRefused
    have haccept : n ∈ q.accepted.filter fun n' => n'.projectId = n.projectId :=
      List.mem_filter.mpr ⟨haccept, by simp⟩
    rw [← hfifo] at haccept
    have hwaiting : n ∈ itemsIn q.lanes q.heap n.projectId :=
      (List.mem_append.mp haccept).resolve_left fun h => hnotReceived (List.mem_filter.mp h).1
    refine ⟨hwaiting, ?_⟩
    cases hget : JsMap.get? q.lanes n.projectId with
    | none =>
      rw [itemsIn_of_unmapped hget] at hwaiting
      cases hwaiting
    | some ref => exact (hq.running n.projectId ref hget).2
  · intro n hn
    have hmem : n ∈ (q.accepted ++ q.refused).filter fun n' => n'.projectId = n.projectId :=
      List.mem_filter.mpr ⟨List.mem_append_right _ hn, by simp⟩
    exact ⟨(hall n.projectId).mem_iff.mp hmem, fun h => hdisjoint n (hsubset n h) n hn rfl⟩
  · intro n
    rw [haccount.overflows]
    exact count_of_nodup hrefusedNodup n
  · intro hrefreshes n
    rw [haccount.refreshes, if_pos hrefreshes]
    exact count_of_nodup hrefusedNodup n

/-- A notification is refused when it is published to a full lane, and only then. -/
def RefusesWhenFull (s : HostNotificationDispatcher) (i : Nat) (q : ProjectOrderedQueue) : Prop :=
  ∀ projectId consumers, q.adapter.consumer ∈ consumers → ∀ q',
    (step s (.publish projectId consumers)).queues[i]? = some q' →
      ({ id := s.published.length, projectId := projectId, consumers := consumers } ∈ q'.refused ↔
        q.capacity ≤ (itemsIn q.lanes q.heap projectId).length)

theorem refusesWhenFull (hs : Sound s) (hi : s.queues[i]? = some q)
    (hd : Delivers s q) : RefusesWhenFull s i q := by
  intro projectId consumers hconsumes q' hq'
  have hq := hs.holds i q hi
  have hq' : (s.queues.map fun q => (fanout {
      id := s.published.length
      projectId := projectId
      consumers := consumers } q).1)[i]? = some q' := hq'
  rw [List.getElem?_map, hi, Option.map_some, Option.some.injEq] at hq'
  subst hq'
  have hfull := enqueue_refuses_iff hq {
    id := s.published.length
    projectId := projectId
    consumers := consumers }
  -- the notification is new
  have hnew : { id := s.published.length, projectId := projectId, consumers := consumers } ∉
      q.refused := by
    intro hmem
    have hpublished := (List.mem_filter.mp (hd.refused _ hmem).1).1
    have hid := List.mem_map_of_mem (f := HostNotification.id) hpublished
    rw [hs.ids, List.mem_range] at hid
    exact Nat.lt_irrefl _ hid
  obtain ⟨_, _, hrefused, _⟩ := enqueue_account hq {
    id := s.published.length
    projectId := projectId
    consumers := consumers }
  refine Iff.trans ?_ hfull
  unfold fanout
  rw [if_pos hconsumes]
  dsimp only
  cases hadmitted : (q.enqueue {
      id := s.published.length
      projectId := projectId
      consumers := consumers }).2 with
  | true =>
    rw [hadmitted, if_pos rfl, List.append_nil] at hrefused
    rw [if_pos rfl]
    dsimp only
    rw [hrefused]
    exact ⟨fun h => absurd h hnew, fun h => by cases h⟩
  | false =>
    rw [hadmitted, if_neg (by simp)] at hrefused
    rw [if_neg (by simp)]
    dsimp only
    unfold refreshRequired
    refine ⟨fun _ => rfl, fun _ => ?_⟩
    split
    · dsimp only
      rw [hrefused]
      exact List.mem_append_right _ (List.mem_singleton_self _)
    · rw [hrefused]
      exact List.mem_append_right _ (List.mem_singleton_self _)

/-- Whatever happens next, a project's lane moves by that project's own actions, and what waits in
    it is received when its own drain has made as many turns. -/
def Independent (s : HostNotificationDispatcher) (i : Nat) (q : ProjectOrderedQueue) : Prop :=
  ∀ more p, ∃ q', (run step s more).queues[i]? = some q' ∧
    q'.view p = run (Lane.step q.capacity) (q.view p) (laneActions i p s more) ∧
    ((itemsIn q.lanes q.heap p).length ≤
        countAlong (Lane.step q.capacity) Lane.turns (q.view p) (laneActions i p s more) →
      (q.received.filter fun n => n.projectId = p) ++ itemsIn q.lanes q.heap p <+:
        q'.received.filter fun n => n.projectId = p)

theorem independent (hs : Sound s) (hi : s.queues[i]? = some q) : Independent s i q := by
  intro more p
  obtain ⟨q', hq', _, _, hview⟩ := view_run hs hi more
  refine ⟨q', hq', hview p, fun hturns => ?_⟩
  have hfront : (q.view p).received ++ (q.view p).waiting <+:
      (run (Lane.step q.capacity) (q.view p) (laneActions i p s more)).received :=
    Lane.front_received q.capacity _ (List.prefix_refl _) hturns
  rw [← hview p] at hfront
  exact hfront

/-! ## Durable subscribers -/

/-- A durable adapter is offered all that it consumes. -/
def OfferedAll (s : HostNotificationDispatcher) (d : DurableAdapter) : Prop :=
  d.offered ++ d.offering = s.published.filter fun n => d.adapter.consumer ∈ n.consumers

theorem step_durable (h : ∀ d ∈ s.durableAdapters, OfferedAll s d) (e : Event) :
    (step s e).durableAdapters.map (·.adapter) = s.durableAdapters.map (·.adapter) ∧
      ∀ d ∈ (step s e).durableAdapters, OfferedAll (step s e) d := by
  cases e with
  | publish projectId consumers =>
    refine ⟨?_, fun d' hd' => ?_⟩
    · show (s.durableAdapters.map (offer _)).map (·.adapter) = _
      rw [List.map_map]
      apply List.map_congr_left
      intro d _
      show (offer _ d).adapter = _
      unfold offer
      split <;> rfl
    · obtain ⟨d, hd, rfl⟩ := List.mem_map.mp hd'
      have hall := h d hd
      unfold OfferedAll at hall ⊢
      show _ = (s.published ++ [_]).filter _
      rw [List.filter_append]
      unfold offer
      split
      · rename_i hconsumes
        dsimp only
        rw [← List.append_assoc, hall]
        congr 1
        simp only [List.filter_cons, hconsumes, decide_true, if_true, List.filter_nil]
      · rename_i hconsumes
        rw [hall]
        simp only [List.filter_cons, hconsumes, decide_false, Bool.false_eq_true, if_false,
          List.filter_nil, List.append_nil]
  | start j k => exact ⟨rfl, h⟩
  | delivered j k fails => exact ⟨rfl, h⟩
  | refresh j fails => exact ⟨rfl, h⟩
  | offer j fails =>
    have hnext : ∀ d, (offerNext d).adapter = d.adapter ∧
        (offerNext d).offered ++ (offerNext d).offering = d.offered ++ d.offering := by
      intro d
      unfold offerNext
      split
      · exact ⟨rfl, rfl⟩
      · rename_i n rest hoffering
        exact ⟨rfl, by simp [hoffering]⟩
    refine ⟨?_, fun d' hd' => ?_⟩
    · exact map_modify_of_eq (fun d => (hnext d).1) s.durableAdapters j
    · have hd' : d' ∈ s.durableAdapters.modify j offerNext := hd'
      rcases mem_modify hd' with hd | ⟨d, hd, rfl⟩
      · exact h d' hd
      · have hall := h d (List.mem_of_getElem? hd)
        unfold OfferedAll at hall ⊢
        rw [(hnext d).1, (hnext d).2]
        exact hall

end HostNotificationDispatcher

end Bobbit.Server
