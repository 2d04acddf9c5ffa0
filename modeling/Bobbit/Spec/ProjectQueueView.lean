import Bobbit.Lib.BoundedLane
import Bobbit.Lib.List
import Bobbit.Server.HostNotificationDispatcher

/-!
# The lanes of a project queue

A `ProjectOrderedQueue` keeps its lanes in a heap, with a map from projects to lanes and a
drain for each lane in the map. Seen from one project it is a bounded lane: `view`. Every
operation of the queue is an action on the lane of one project, and leaves the others alone.

## Key results

* `enqueue_view` — an admission is an offer to the lane of its project.
* `turn_view` — a turn of a drain is a turn of the lane of its project.
-/

namespace Bobbit.Server.ProjectOrderedQueue

open Lib

variable {q : ProjectOrderedQueue} {k : Nat} {d : Drain} {n : HostNotification} {p : String}

def Active (d : Drain) : Prop := d.phase ≠ .ended

instance (d : Drain) : Decidable (Active d) := inferInstanceAs (Decidable (_ ≠ _))

/-- Each lane of the map is running, with one drain of its project. -/
structure Holds (q : ProjectOrderedQueue) : Prop where
  positive : 0 < q.capacity
  unique : ∀ (k k' : Nat) d d', q.drains[k]? = some d → q.drains[k']? = some d' → Active d →
    Active d' → d.projectId = d'.projectId → k = k'
  mapped : ∀ (k : Nat) d, q.drains[k]? = some d → Active d →
    JsMap.get? q.lanes d.projectId = some d.lane
  running : ∀ p ref, JsMap.get? q.lanes p = some ref →
    (∃ lane, q.heap[ref]? = some lane ∧ lane.running = true) ∧
      ∃ (k : Nat) (d : Drain), q.drains[k]? = some d ∧ Active d ∧ d.projectId = p
  separate : ∀ p p' ref, JsMap.get? q.lanes p = some ref → JsMap.get? q.lanes p' = some ref → p = p'
  own : ∀ p ref lane, JsMap.get? q.lanes p = some ref → q.heap[ref]? = some lane →
    ∀ n ∈ lane.items, n.projectId = p

theorem create_holds (adapter : HostNotificationDeliveryAdapter) {capacity : Nat}
    (h : 0 < capacity) : Holds (create adapter capacity) where
  positive := h
  unique := by
    intro k k' d d' hk
    simp [create] at hk
  mapped := by
    intro k d hk
    simp [create] at hk
  running := by
    intro p ref h
    cases h
  separate := by
    intro p p' ref h
    cases h
  own := by
    intro p ref lane h
    cases h

/-! ## Views -/

def itemsIn (lanes : JsMap String Nat) (heap : List QueueLane) (p : String) :
    List HostNotification :=
  match JsMap.get? lanes p with
  | none => []
  | some ref => ((heap[ref]?).map QueueLane.items).getD []

def lanePhase (d : Drain) : LanePhase HostNotification :=
  match d.phase with
  | .queued => .queued
  | .delivering n => .busy n
  | .ended => .idle

/-- What the drain of a project is doing. -/
def phaseIn (drains : List Drain) (p : String) : LanePhase HostNotification :=
  match drains.find? fun d => d.projectId = p ∧ Active d with
  | none => .idle
  | some d => lanePhase d

/-- The queue as one project sees it. -/
def view (q : ProjectOrderedQueue) (p : String) : Lane HostNotification where
  waiting := itemsIn q.lanes q.heap p
  phase := phaseIn q.drains p
  accepted := q.accepted.filter (·.projectId = p)
  received := q.received.filter (·.projectId = p)
  refused := q.refused.filter (·.projectId = p)

theorem phaseIn_of_active (hq : Holds q) (hk : q.drains[k]? = some d) (hd : Active d) :
    phaseIn q.drains d.projectId = lanePhase d := by
  have hfound : q.drains.find? (fun d' => d'.projectId = d.projectId ∧ Active d') = some d := by
    refine find?_of_unique hk (by simp [hd]) fun k' d' hk' hd' => ?_
    simp only [decide_eq_true_eq] at hd'
    exact hq.unique k' k d' d hk' hk hd'.2 hd hd'.1
  unfold phaseIn
  rw [hfound]

theorem phaseIn_of_none {drains : List Drain}
    (h : ∀ (k : Nat) d, drains[k]? = some d → d.projectId = p → ¬ Active d) :
    phaseIn drains p = .idle := by
  have hnone : (drains.find? fun d => d.projectId = p ∧ Active d) = none := by
    rw [List.find?_eq_none]
    intro d hd
    obtain ⟨k, hk⟩ := List.getElem?_of_mem hd
    simp only [decide_eq_true_eq, not_and]
    exact h k d hk
  unfold phaseIn
  rw [hnone]

variable {lanes : JsMap String Nat} {lane : QueueLane}

theorem itemsIn_of_mapped {heap : List QueueLane} {ref : Nat}
    (h : JsMap.get? lanes p = some ref) (hlane : heap[ref]? = some lane) :
    itemsIn lanes heap p = lane.items := by
  unfold itemsIn
  rw [h]
  dsimp only
  rw [hlane]
  rfl

theorem itemsIn_of_unmapped {heap : List QueueLane}
    (h : JsMap.get? lanes p = none) : itemsIn lanes heap p = [] := by
  unfold itemsIn
  rw [h]

theorem itemsIn_set_of_ne {heap : List QueueLane} {ref : Nat}
    (h : ∀ ref', JsMap.get? lanes p = some ref' → ref ≠ ref') :
    itemsIn lanes (heap.set ref lane) p = itemsIn lanes heap p := by
  unfold itemsIn
  cases hget : JsMap.get? lanes p with
  | none => rfl
  | some ref' =>
    dsimp only
    rw [List.getElem?_set_ne (h ref' hget)]

theorem not_active_of_unmapped (hq : Holds q) (h : JsMap.get? q.lanes p = none) {k : Nat}
    {d : Drain} (hk : q.drains[k]? = some d) (hp : d.projectId = p) : ¬ Active d := by
  intro hd
  have hmapped := hq.mapped k d hk hd
  rw [hp, h] at hmapped
  cases hmapped

/-! ## Turns -/

theorem lane_of_active (hq : Holds q) (hk : q.drains[k]? = some d) (hd : Active d) :
    ∃ lane, q.heap[d.lane]? = some lane ∧ lane.running = true :=
  (hq.running d.projectId d.lane (hq.mapped k d hk hd)).1

variable {rest : List HostNotification}

theorem turn_cons (hlane : q.heap[d.lane]? = some lane) (hitems : lane.items = n :: rest) :
    q.turn k d = { q with
      heap := q.heap.set d.lane { lane with items := rest }
      drains := q.drains.set k { d with phase := .delivering n }
      received := q.received ++ [n] } := by
  unfold turn
  rw [hlane]
  dsimp only
  rw [hitems]

theorem turn_nil (hq : Holds q) (hk : q.drains[k]? = some d) (hd : Active d)
    (hlane : q.heap[d.lane]? = some lane) (hitems : lane.items = []) :
    q.turn k d = { q with
      heap := q.heap.set d.lane { lane with running := false }
      drains := q.drains.set k { d with phase := .ended }
      lanes := JsMap.erase q.lanes d.projectId } := by
  unfold turn
  rw [hlane]
  dsimp only
  rw [hitems, if_pos (hq.mapped k d hk hd)]

theorem turn_cons_holds (hq : Holds q) (hk : q.drains[k]? = some d) (hd : Active d)
    (hlane : q.heap[d.lane]? = some lane)
    (hitems : lane.items = n :: rest) : Holds (q.turn k d) := by
  have hrunning : lane.running = true := by
    obtain ⟨lane', hlane', hrunning⟩ := lane_of_active hq hk hd
    rw [hlane, Option.some.injEq] at hlane'
    rw [hlane', hrunning]
  rw [turn_cons hlane hitems]
  -- the drain keeps its project and its lane
  have hold : ∀ (k' : Nat) d', (q.drains.set k { d with phase := .delivering n })[k']? = some d' →
      Active d' → ∃ d₀, q.drains[k']? = some d₀ ∧ Active d₀ ∧ d₀.projectId = d'.projectId ∧
        d₀.lane = d'.lane := by
    intro k' d' hk' hd'
    rw [getElem?_set_of_some hk] at hk'
    split at hk'
    · rename_i heq
      subst heq
      cases hk'
      exact ⟨d, hk, hd, rfl, rfl⟩
    · exact ⟨d', hk', hd', rfl, rfl⟩
  refine ⟨hq.positive, ?_, ?_, ?_, hq.separate, ?_⟩
  · intro k₁ k₂ d₁ d₂ h₁ h₂ hd₁ hd₂ hp
    obtain ⟨e₁, he₁, ha₁, hp₁, _⟩ := hold k₁ d₁ h₁ hd₁
    obtain ⟨e₂, he₂, ha₂, hp₂, _⟩ := hold k₂ d₂ h₂ hd₂
    exact hq.unique k₁ k₂ e₁ e₂ he₁ he₂ ha₁ ha₂ (by rw [hp₁, hp₂, hp])
  · intro k' d' hk' hd'
    obtain ⟨e, he, ha, hp, hl⟩ := hold k' d' hk' hd'
    rw [← hp, ← hl]
    exact hq.mapped k' e he ha
  · intro p ref hp
    obtain ⟨⟨lane', hlane', hrun⟩, k', d', hk', hd', hp'⟩ := hq.running p ref hp
    refine ⟨?_, ?_⟩
    · show ∃ lane', (q.heap.set d.lane _)[ref]? = some lane' ∧ _
      rw [getElem?_set_of_some hlane]
      split
      · exact ⟨_, rfl, hrunning⟩
      · exact ⟨lane', hlane', hrun⟩
    · by_cases hkk : k = k'
      · subst hkk
        rw [hk, Option.some.injEq] at hk'
        subst hk'
        refine ⟨k, { d with phase := .delivering n }, ?_, by simp [Active], hp'⟩
        rw [getElem?_set_of_some hk, if_pos rfl]
      · refine ⟨k', d', ?_, hd', hp'⟩
        rw [getElem?_set_of_some hk, if_neg hkk]
        exact hk'
  · intro p ref lane' hp hlane' n' hn'
    have hset : (q.heap.set d.lane { lane with items := rest })[ref]? = some lane' := hlane'
    rw [getElem?_set_of_some hlane] at hset
    split at hset
    · rename_i href
      subst href
      cases hset
      exact hq.own p d.lane lane hp hlane n' (by rw [hitems]; exact List.mem_cons_of_mem _ hn')
    · exact hq.own p ref lane' hp hset n' hn'

theorem turn_nil_holds (hq : Holds q) (hk : q.drains[k]? = some d) (hd : Active d)
    (hlane : q.heap[d.lane]? = some lane) (hitems : lane.items = []) : Holds (q.turn k d) := by
  rw [turn_nil hq hk hd hlane hitems]
  -- the other drains are as they were, and of other projects
  have hold : ∀ (k' : Nat) d', (q.drains.set k { d with phase := .ended })[k']? = some d' →
      Active d' → q.drains[k']? = some d' ∧ d'.projectId ≠ d.projectId := by
    intro k' d' hk' hd'
    rw [getElem?_set_of_some hk] at hk'
    split at hk'
    · cases hk'
      exact absurd rfl hd'
    · rename_i hne
      exact ⟨hk', fun heq => hne (hq.unique k k' d d' hk hk' hd hd' heq.symm)⟩
  refine ⟨hq.positive, ?_, ?_, ?_, ?_, ?_⟩
  · intro k₁ k₂ d₁ d₂ h₁ h₂ hd₁ hd₂ hp
    exact hq.unique k₁ k₂ d₁ d₂ (hold k₁ d₁ h₁ hd₁).1 (hold k₂ d₂ h₂ hd₂).1 hd₁ hd₂ hp
  · intro k' d' hk' hd'
    obtain ⟨h', hne⟩ := hold k' d' hk' hd'
    show JsMap.get? (JsMap.erase q.lanes d.projectId) d'.projectId = some d'.lane
    rw [JsMap.get?_erase, if_neg hne]
    exact hq.mapped k' d' h' hd'
  · intro p ref hp
    have hp : JsMap.get? (JsMap.erase q.lanes d.projectId) p = some ref := hp
    rw [JsMap.get?_erase] at hp
    split at hp
    · cases hp
    · rename_i hne
      obtain ⟨⟨lane', hlane', hrun⟩, k', d', hk', hd', hp'⟩ := hq.running p ref hp
      refine ⟨⟨lane', ?_, hrun⟩, k', d', ?_, hd', hp'⟩
      · show (q.heap.set d.lane _)[ref]? = _
        rw [getElem?_set_of_some hlane, if_neg, hlane']
        -- lanes of different projects are different
        intro heq
        have hmapped := hq.mapped k d hk hd
        rw [heq] at hmapped
        exact hne (hq.separate p d.projectId ref hp hmapped)
      · show (q.drains.set k _)[k']? = _
        rw [getElem?_set_of_some hk, if_neg, hk']
        intro heq
        subst heq
        rw [hk, Option.some.injEq] at hk'
        subst hk'
        exact hne hp'.symm
  · intro p p' ref h h'
    have h : JsMap.get? (JsMap.erase q.lanes d.projectId) p = some ref := h
    have h' : JsMap.get? (JsMap.erase q.lanes d.projectId) p' = some ref := h'
    rw [JsMap.get?_erase] at h h'
    split at h
    · cases h
    · split at h'
      · cases h'
      · exact hq.separate p p' ref h h'
  · intro p ref lane' hp hlane' n' hn'
    have hp : JsMap.get? (JsMap.erase q.lanes d.projectId) p = some ref := hp
    have hset : (q.heap.set d.lane { lane with running := false })[ref]? = some lane' := hlane'
    rw [JsMap.get?_erase] at hp
    split at hp
    · cases hp
    · rw [getElem?_set_of_some hlane] at hset
      split at hset
      · rename_i href
        subst href
        cases hset
        exact hq.own p d.lane lane hp hlane n' hn'
      · exact hq.own p ref lane' hp hset n' hn'

theorem turn_holds (hq : Holds q) (hk : q.drains[k]? = some d) (hd : Active d) :
    Holds (q.turn k d) := by
  obtain ⟨lane, hlane, _⟩ := lane_of_active hq hk hd
  cases hitems : lane.items with
  | nil => exact turn_nil_holds hq hk hd hlane hitems
  | cons n rest => exact turn_cons_holds hq hk hd hlane hitems

/-- The drain of another project is found where it was. -/
theorem phaseIn_set_of_ne {drains : List Drain} (hk : drains[k]? = some d) {phase : DrainPhase}
    (hp : d.projectId ≠ p) :
    phaseIn (drains.set k { d with phase := phase }) p = phaseIn drains p := by
  unfold phaseIn
  rw [find?_set_of_false hk (by simp [hp]) (by simp [hp])]

theorem lane_ne_of_ne (hq : Holds q) (hk : q.drains[k]? = some d) (hd : Active d)
    (hp : d.projectId ≠ p) {ref : Nat} (href : JsMap.get? q.lanes p = some ref) : d.lane ≠ ref := by
  intro heq
  have hmapped := hq.mapped k d hk hd
  rw [heq] at hmapped
  exact hp (hq.separate d.projectId p ref hmapped href)

theorem turn_nil_view (hq : Holds q) (hk : q.drains[k]? = some d) (hd : Active d)
    (hlane : q.heap[d.lane]? = some lane) (hitems : lane.items = []) (p : String) :
    (q.turn k d).view p = if d.projectId = p then (q.view p).turn else q.view p := by
  have hafter := turn_nil_holds hq hk hd hlane hitems
  rw [turn_nil hq hk hd hlane hitems] at hafter ⊢
  split
  · rename_i hp
    subst hp
    -- the lane is gone, and so is its drain
    have hgone : JsMap.get? (JsMap.erase q.lanes d.projectId) d.projectId = none := by
      rw [JsMap.get?_erase, if_pos rfl]
    have hphase : phaseIn (q.drains.set k { d with phase := .ended }) d.projectId = .idle :=
      phaseIn_of_none fun k' d' hk' hp' => not_active_of_unmapped hafter hgone hk' hp'
    have hwaiting : (q.view d.projectId).waiting = [] := by
      show itemsIn q.lanes q.heap d.projectId = []
      rw [itemsIn_of_mapped (hq.mapped k d hk hd) hlane, hitems]
    unfold Lane.turn
    rw [hwaiting]
    unfold view
    simp only [hphase, itemsIn_of_unmapped hgone]
  · rename_i hp
    unfold view
    have hsame : itemsIn (JsMap.erase q.lanes d.projectId)
        (q.heap.set d.lane { lane with running := false }) p = itemsIn q.lanes q.heap p := by
      have hget : JsMap.get? (JsMap.erase q.lanes d.projectId) p = JsMap.get? q.lanes p := by
        rw [JsMap.get?_erase, if_neg fun h => hp h.symm]
      rw [itemsIn_set_of_ne fun ref href => lane_ne_of_ne hq hk hd hp (hget ▸ href)]
      unfold itemsIn
      rw [hget]
    simp only [hsame, phaseIn_set_of_ne hk hp]

theorem turn_cons_view (hq : Holds q) (hk : q.drains[k]? = some d) (hd : Active d)
    (hlane : q.heap[d.lane]? = some lane) (hitems : lane.items = n :: rest) (p : String) :
    (q.turn k d).view p = if d.projectId = p then (q.view p).turn else q.view p := by
  have hmapped := hq.mapped k d hk hd
  have hn : n.projectId = d.projectId :=
    hq.own _ _ lane hmapped hlane n (by rw [hitems]; exact List.mem_cons_self)
  have hafter := turn_cons_holds hq hk hd hlane hitems
  rw [turn_cons hlane hitems] at hafter ⊢
  split
  · rename_i hp
    subst hp
    have hset : (q.drains.set k { d with phase := .delivering n })[k]? =
        some { d with phase := .delivering n } := by
      rw [getElem?_set_of_some hk, if_pos rfl]
    have hphase := phaseIn_of_active hafter hset (by simp [Active])
    have hwaiting : (q.view d.projectId).waiting = n :: rest := by
      show itemsIn q.lanes q.heap d.projectId = _
      rw [itemsIn_of_mapped hmapped hlane, hitems]
    have hrest : itemsIn q.lanes (q.heap.set d.lane { lane with items := rest }) d.projectId =
        rest := by
      have hset : (q.heap.set d.lane { lane with items := rest })[d.lane]? =
          some { lane with items := rest } := by
        rw [getElem?_set_of_some hlane, if_pos rfl]
      exact itemsIn_of_mapped hmapped hset
    unfold Lane.turn
    rw [hwaiting]
    unfold view
    simp only [hrest, List.filter_append]
    have hfilter : [n].filter (fun n' => decide (n'.projectId = d.projectId)) = [n] := by
      simp [hn]
    rw [hfilter]
    have hphase : phaseIn (q.drains.set k { d with phase := .delivering n }) d.projectId =
      .busy n := hphase
    rw [hphase]
  · rename_i hp
    unfold view
    have hfilter : [n].filter (fun n' => decide (n'.projectId = p)) = [] := by
      simp [hn, hp]
    simp only [phaseIn_set_of_ne hk hp, List.filter_append, hfilter, List.append_nil,
      itemsIn_set_of_ne fun ref href => lane_ne_of_ne hq hk hd hp href]

/-- **Turns.** A turn of a drain is a turn of the lane of its project, and of no other. -/
theorem turn_view (hq : Holds q) (hk : q.drains[k]? = some d) (hd : Active d) (p : String) :
    (q.turn k d).view p = if d.projectId = p then (q.view p).turn else q.view p := by
  obtain ⟨lane, hlane, _⟩ := lane_of_active hq hk hd
  cases hitems : lane.items with
  | nil => exact turn_nil_view hq hk hd hlane hitems p
  | cons n rest => exact turn_cons_view hq hk hd hlane hitems p

/-! ## Admissions -/

/-- What an admission does: a full lane refuses; a lane with room takes the item; a project
    without a lane gets one, with its drain. -/
theorem enqueue_case (hq : Holds q) (n : HostNotification) :
    (∃ ref lane, JsMap.get? q.lanes n.projectId = some ref ∧ q.heap[ref]? = some lane ∧
      q.capacity ≤ lane.items.length ∧
      q.enqueue n = ({ q with refused := q.refused ++ [n] }, false)) ∨
    (∃ ref lane, JsMap.get? q.lanes n.projectId = some ref ∧ q.heap[ref]? = some lane ∧
      lane.items.length < q.capacity ∧
      q.enqueue n = ({ q with
        heap := q.heap.set ref { items := lane.items ++ [n], running := true }
        accepted := q.accepted ++ [n] }, true)) ∨
    (JsMap.get? q.lanes n.projectId = none ∧
      q.enqueue n = ({ q with
        lanes := JsMap.set q.lanes n.projectId q.heap.length
        heap := q.heap ++ [{ items := [n], running := true }]
        accepted := q.accepted ++ [n]
        drains := q.drains ++ [{
          projectId := n.projectId
          lane := q.heap.length
          phase := .queued }] }, true)) := by
  unfold enqueue laneOf
  cases hget : JsMap.get? q.lanes n.projectId with
  | some ref =>
    obtain ⟨⟨lane, hlane, hrunning⟩, _⟩ := hq.running n.projectId ref hget
    dsimp only
    rw [hlane]
    dsimp only
    split
    · rename_i hfull
      exact .inl ⟨ref, lane, rfl, hlane, hfull, rfl⟩
    · rename_i hroom
      exact .inr (.inl ⟨ref, lane, rfl, hlane, by omega, rfl⟩)
  | none =>
    dsimp only
    have hnew : (q.heap ++ [{ items := [], running := false }])[q.heap.length]? =
        some { items := [], running := false } := by simp
    rw [hnew]
    dsimp only
    have hpos := hq.positive
    rw [if_neg (by simp only [List.length_nil]; omega)]
    refine .inr (.inr ⟨rfl, ?_⟩)
    simp

theorem enqueue_holds (hq : Holds q) (n : HostNotification) : Holds (q.enqueue n).1 := by
  obtain ⟨ref, lane, hget, hlane, hfull, h⟩ | ⟨ref, lane, hget, hlane, hroom, h⟩ | ⟨hget, h⟩ :=
    enqueue_case hq n
  · rw [h]
    exact ⟨hq.positive, hq.unique, hq.mapped, hq.running, hq.separate, hq.own⟩
  · rw [h]
    refine ⟨hq.positive, hq.unique, hq.mapped, ?_, hq.separate, ?_⟩
    · intro p ref' hp
      obtain ⟨⟨lane', hlane', hrun⟩, hdrain⟩ := hq.running p ref' hp
      refine ⟨?_, hdrain⟩
      show ∃ lane', (q.heap.set ref _)[ref']? = some lane' ∧ _
      rw [getElem?_set_of_some hlane]
      split
      · exact ⟨_, rfl, rfl⟩
      · exact ⟨lane', hlane', hrun⟩
    · intro p ref' lane' hp hlane' n' hn'
      have hset : (q.heap.set ref { items := lane.items ++ [n], running := true })[ref']? =
        some lane' := hlane'
      rw [getElem?_set_of_some hlane] at hset
      split at hset
      · rename_i href
        subst href
        cases hset
        have hproject := hq.separate p n.projectId ref hp hget
        rcases List.mem_append.mp hn' with hn' | hn'
        · exact hq.own p ref lane hp hlane n' hn'
        · rw [List.mem_singleton.mp hn', hproject]
      · exact hq.own p ref' lane' hp hset n' hn'
  · rw [h]
    -- the new drain is the only one of its project
    have hold : ∀ (k : Nat) d, (q.drains ++ [{
        projectId := n.projectId
        lane := q.heap.length
        phase := .queued }])[k]? = some d → Active d →
        (q.drains[k]? = some d ∧ d.projectId ≠ n.projectId) ∨
        (k = q.drains.length ∧ d.projectId = n.projectId ∧ d.lane = q.heap.length) := by
      intro k d hk hd
      rw [List.getElem?_append] at hk
      split at hk
      · exact .inl ⟨hk, fun hp => not_active_of_unmapped hq hget hk hp hd⟩
      · rename_i hle
        obtain ⟨hlt, hkd⟩ := List.getElem?_eq_some_iff.mp hk
        simp only [List.length_singleton] at hlt
        rw [List.getElem_singleton] at hkd
        subst hkd
        exact .inr ⟨by omega, rfl, rfl⟩
    have hlt : ∀ p ref, JsMap.get? q.lanes p = some ref → ref < q.heap.length := by
      intro p ref hp
      obtain ⟨⟨lane, hlane, _⟩, _⟩ := hq.running p ref hp
      exact (List.getElem?_eq_some_iff.mp hlane).1
    have hmap : ∀ p, JsMap.get? (JsMap.set q.lanes n.projectId q.heap.length) p =
        if p = n.projectId then some q.heap.length else JsMap.get? q.lanes p := fun p => by
      rw [JsMap.get?_set]
    refine ⟨hq.positive, ?_, ?_, ?_, ?_, ?_⟩
    · intro k₁ k₂ d₁ d₂ h₁ h₂ hd₁ hd₂ hp
      rcases hold k₁ d₁ h₁ hd₁ with ⟨he₁, hne₁⟩ | ⟨hk₁, hp₁, _⟩
      · rcases hold k₂ d₂ h₂ hd₂ with ⟨he₂, _⟩ | ⟨_, hp₂, _⟩
        · exact hq.unique k₁ k₂ d₁ d₂ he₁ he₂ hd₁ hd₂ hp
        · exact absurd (hp.trans hp₂) hne₁
      · rcases hold k₂ d₂ h₂ hd₂ with ⟨_, hne₂⟩ | ⟨hk₂, _, _⟩
        · exact absurd (hp.symm.trans hp₁) hne₂
        · rw [hk₁, hk₂]
    · intro k d hk hd
      show JsMap.get? (JsMap.set q.lanes n.projectId q.heap.length) _ = _
      rw [hmap]
      rcases hold k d hk hd with ⟨he, hne⟩ | ⟨_, hp, hl⟩
      · rw [if_neg hne]
        exact hq.mapped k d he hd
      · rw [if_pos hp, hl]
    · intro p ref hp
      have hp : JsMap.get? (JsMap.set q.lanes n.projectId q.heap.length) p = some ref := hp
      rw [hmap] at hp
      split at hp
      · rename_i heq
        cases hp
        refine ⟨⟨{ items := [n], running := true }, ?_, rfl⟩, q.drains.length, {
          projectId := n.projectId
          lane := q.heap.length
          phase := .queued }, ?_, by simp [Active], heq.symm⟩
        · simp
        · simp
      · obtain ⟨⟨lane, hlane, hrun⟩, k, d, hk, hd, hp'⟩ := hq.running p ref hp
        refine ⟨⟨lane, ?_, hrun⟩, k, d, ?_, hd, hp'⟩
        · exact List.getElem?_append_left (List.getElem?_eq_some_iff.mp hlane).1 ▸ hlane
        · exact List.getElem?_append_left (List.getElem?_eq_some_iff.mp hk).1 ▸ hk
    · intro p p' ref hp hp'
      have hp : JsMap.get? (JsMap.set q.lanes n.projectId q.heap.length) p = some ref := hp
      have hp' : JsMap.get? (JsMap.set q.lanes n.projectId q.heap.length) p' = some ref := hp'
      rw [hmap] at hp hp'
      split at hp
      · rename_i heq
        split at hp'
        · rename_i heq'
          rw [heq, heq']
        · cases hp
          exact absurd (hlt p' _ hp') (Nat.lt_irrefl _)
      · split at hp'
        · cases hp'
          exact absurd (hlt p _ hp) (Nat.lt_irrefl _)
        · exact hq.separate p p' ref hp hp'
    · intro p ref lane hp hlane n' hn'
      have hp : JsMap.get? (JsMap.set q.lanes n.projectId q.heap.length) p = some ref := hp
      have hlane : (q.heap ++ [{ items := [n], running := true }])[ref]? = some lane := hlane
      rw [hmap] at hp
      split at hp
      · rename_i heq
        cases hp
        rw [List.getElem?_concat_length] at hlane
        cases hlane
        rw [List.mem_singleton.mp hn', heq]
      · rw [List.getElem?_append_left (hlt p ref hp)] at hlane
        exact hq.own p ref lane hp hlane n' hn'

theorem phaseIn_ne_idle (hq : Holds q) {ref : Nat} (h : JsMap.get? q.lanes p = some ref) :
    phaseIn q.drains p ≠ .idle := by
  obtain ⟨_, k, d, hk, hd, hp⟩ := hq.running p ref h
  subst hp
  rw [phaseIn_of_active hq hk hd]
  unfold lanePhase
  unfold Active at hd
  split <;> simp_all

theorem filter_own (n : HostNotification) :
    [n].filter (fun n' => decide (n'.projectId = n.projectId)) = [n] := by
  simp

theorem filter_other {n : HostNotification} (h : n.projectId ≠ p) :
    [n].filter (fun n' => decide (n'.projectId = p)) = [] := by
  simp [h]

/-- **Admissions.** An admission is an offer to the lane of its project, and to no other. -/
theorem enqueue_view (hq : Holds q) (n : HostNotification) (p : String) :
    (q.enqueue n).1.view p =
      if n.projectId = p then (q.view p).offer q.capacity n else q.view p := by
  obtain ⟨ref, lane, hget, hlane, hfull, h⟩ | ⟨ref, lane, hget, hlane, hroom, h⟩ | ⟨hget, h⟩ :=
    enqueue_case hq n
  · rw [h]
    have hwaiting := itemsIn_of_mapped hget hlane
    split
    · rename_i hp
      subst hp
      unfold Lane.offer view
      simp only [hwaiting, List.filter_append, filter_own, if_pos hfull]
    · rename_i hp
      unfold view
      simp only [List.filter_append, filter_other hp, List.append_nil]
  · rw [h]
    have hwaiting := itemsIn_of_mapped hget hlane
    split
    · rename_i hp
      subst hp
      have hafter : itemsIn q.lanes (q.heap.set ref { items := lane.items ++ [n], running := true })
          n.projectId = lane.items ++ [n] := by
        have hset : (q.heap.set ref { items := lane.items ++ [n], running := true })[ref]? =
            some { items := lane.items ++ [n], running := true } := by
          rw [getElem?_set_of_some hlane, if_pos rfl]
        exact itemsIn_of_mapped hget hset
      have hphase := phaseIn_ne_idle hq hget
      unfold Lane.offer view
      simp only [hwaiting, hafter, List.filter_append, filter_own, if_neg (Nat.not_le.mpr hroom)]
    · rename_i hp
      unfold view
      have hsame : itemsIn q.lanes
          (q.heap.set ref { items := lane.items ++ [n], running := true }) p =
          itemsIn q.lanes q.heap p := by
        refine itemsIn_set_of_ne fun ref' href' heq => ?_
        subst heq
        exact hp (hq.separate n.projectId p ref hget href')
      simp only [List.filter_append, filter_other hp, List.append_nil, hsame]
  · have hafter := enqueue_holds hq n
    rw [h] at hafter ⊢
    have hidle : phaseIn q.drains n.projectId = .idle :=
      phaseIn_of_none fun k d hk hp => not_active_of_unmapped hq hget hk hp
    split
    · rename_i hp
      subst hp
      have hwaiting : itemsIn q.lanes q.heap n.projectId = [] := itemsIn_of_unmapped hget
      have hnew : itemsIn (JsMap.set q.lanes n.projectId q.heap.length)
          (q.heap ++ [{ items := [n], running := true }]) n.projectId = [n] := by
        have hget' : JsMap.get? (JsMap.set q.lanes n.projectId q.heap.length) n.projectId =
            some q.heap.length := by
          rw [JsMap.get?_set, if_pos rfl]
        have hset : (q.heap ++ [{ items := [n], running := true }])[q.heap.length]? =
            some { items := [n], running := true } := List.getElem?_concat_length
        exact itemsIn_of_mapped hget' hset
      have hphase := phaseIn_of_active (k := q.drains.length) (d := {
        projectId := n.projectId
        lane := q.heap.length
        phase := .queued }) hafter (by simp) (by simp [Active])
      dsimp only at hphase
      have hpos := hq.positive
      unfold Lane.offer view
      simp only [hwaiting, hnew, hphase, hidle, List.filter_append, filter_own, List.length_nil,
        if_neg (Nat.not_le.mpr hpos), List.nil_append]
      rfl
    · rename_i hp
      unfold view
      have hget' : JsMap.get? (JsMap.set q.lanes n.projectId q.heap.length) p =
          JsMap.get? q.lanes p := by
        rw [JsMap.get?_set, if_neg fun h => hp h.symm]
      have hsame : itemsIn (JsMap.set q.lanes n.projectId q.heap.length)
          (q.heap ++ [{ items := [n], running := true }]) p = itemsIn q.lanes q.heap p := by
        unfold itemsIn
        rw [hget']
        cases href : JsMap.get? q.lanes p with
        | none => rfl
        | some ref =>
          obtain ⟨⟨lane, hlane, _⟩, _⟩ := hq.running p ref href
          dsimp only
          rw [List.getElem?_append_left (List.getElem?_eq_some_iff.mp hlane).1]
      have hphase : phaseIn (q.drains ++ [{
          projectId := n.projectId
          lane := q.heap.length
          phase := .queued }]) p = phaseIn q.drains p := by
        unfold phaseIn
        rw [List.find?_append]
        have hnone : List.find? (fun d => decide (d.projectId = p ∧ Active d)) [{
            projectId := n.projectId
            lane := q.heap.length
            phase := .queued }] = none := by
          simp [hp]
        rw [hnone, Option.or_none]
      simp only [hsame, hphase, List.filter_append, filter_other hp, List.append_nil]

/-- A notification is refused exactly when its lane is full. -/
theorem enqueue_refuses_iff (hq : Holds q) (n : HostNotification) :
    (q.enqueue n).2 = false ↔ q.capacity ≤ (q.view n.projectId).waiting.length := by
  show _ ↔ q.capacity ≤ (itemsIn q.lanes q.heap n.projectId).length
  obtain ⟨ref, lane, hget, hlane, hfull, h⟩ | ⟨ref, lane, hget, hlane, hroom, h⟩ | ⟨hget, h⟩ :=
    enqueue_case hq n
  · rw [h, itemsIn_of_mapped hget hlane]
    exact ⟨fun _ => hfull, fun _ => rfl⟩
  · rw [h, itemsIn_of_mapped hget hlane]
    exact ⟨fun h => (by cases h), fun h => absurd h (Nat.not_le.mpr hroom)⟩
  · rw [h, itemsIn_of_unmapped hget]
    exact ⟨fun h => (by cases h), fun h => absurd h (Nat.not_le.mpr hq.positive)⟩

end Bobbit.Server.ProjectOrderedQueue
