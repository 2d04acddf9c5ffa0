import Bobbit.Spec.AuthorSidecarOrder
import Bobbit.Spec.AuthorSidecarPhases

/-!
# Attribution over the whole array

The four phases of `mergeAuthorSidecarIntoMessages` share one pool of bindings. No phase gives away
a binding twice or a cancelled one, and only a synthetic row gets a binding that was not echoed. But
a synthetic row may consume an echoed binding before the row with its recorded id has its turn.

## Key results
- `mergeAssignments_inv`: what holds of every assignment
- `claims_iff`: the synthetic rows' choices, one after another
- `neverSteals_iff`: attribution never steals exactly when no other synthetic row claims the binding
  of an exact row
-/

namespace Bobbit.Server.AuthorSidecar

open Bobbit.Lib

variable {α : Type}

/-! ## The stages -/

def afterSynthetic (refs : List (StreamBindingRef α)) (messages : List Message) :
    Assigned × List Nat :=
  phase false (pickSynthetic refs) (unassigned messages) []

def afterExact (refs : List (StreamBindingRef α)) (messages : List Message) : Assigned × List Nat :=
  phase false (pickExact refs) (afterSynthetic refs messages).1 (afterSynthetic refs messages).2

def afterTimed (env : Platform α) (refs : List (StreamBindingRef α)) (messages : List Message) :
    Assigned × List Nat :=
  phase true (pickTimed env refs) (afterExact refs messages).1 (afterExact refs messages).2

theorem mergeAssignments_eq (env : Platform α) (entries : List (PromptAuthorBinding α))
    (messages : List Message) :
    mergeAssignments env entries messages =
      (phase true (pickText env (directPromptBindings env entries))
        (afterTimed env (directPromptBindings env entries) messages).1
        (afterTimed env (directPromptBindings env entries) messages).2).1 := rfl

/-! ## What every assignment satisfies -/

/-- A reference that a row may have: one that was not cancelled, and one that was not echoed only
    on a synthetic row that names it. -/
def Attributable (refs : List (StreamBindingRef α)) (row : Message) (order : Nat) : Prop :=
  ∃ ref ∈ refs, ref.order = order ∧
    (outcome ref.binding ≠ some .echoed →
      eligiblePromptMessage row = true ∧ row.inFlightSteer = true ∧ names row ref.binding = true)

variable {refs : List (StreamBindingRef α)} {row : Message} {consumed : List Nat} {order : Nat}

theorem pickSynthetic_eq_some (h : pickSynthetic refs row consumed = some order) :
    eligiblePromptMessage row = true ∧ row.inFlightSteer = true ∧
      ∃ ref, firstOpen refs consumed (names row) = some ref ∧ ref.order = order := by
  unfold pickSynthetic at h
  split at h
  · rename_i hrow
    obtain ⟨helig, hflight⟩ := Bool.and_eq_true_iff.mp hrow
    exact ⟨helig, hflight, by simpa using h⟩
  · cases h

theorem pickExact_eq_some (h : pickExact refs row consumed = some order) :
    eligiblePromptMessage row = true ∧ ∃ id, messageId row = some id ∧
      ∃ ref, firstOpen (echoedOf refs) consumed (settledMessageId · == some id) = some ref ∧
        ref.order = order := by
  unfold pickExact at h
  split at h
  · rename_i helig
    obtain ⟨id, hid, hpick⟩ := Option.bind_eq_some_iff.mp h
    exact ⟨helig, id, hid, by simpa using hpick⟩
  · cases h

variable {env : Platform α}

theorem pickTimed_eq_some (h : pickTimed env refs row consumed = some order) :
    ∃ passes ref, firstOpen (echoedOf refs) consumed passes = some ref ∧ ref.order = order := by
  unfold pickTimed at h
  split at h
  · split at h
    · obtain ⟨ref, hfound, horder⟩ := Option.map_eq_some_iff.mp h
      exact ⟨_, ref, hfound, horder⟩
    · cases h
  · cases h

theorem pickText_eq_some (h : pickText env refs row consumed = some order) :
    ∃ passes ref, firstOpen (echoedOf refs) consumed passes = some ref ∧ ref.order = order := by
  unfold pickText at h
  split at h
  · obtain ⟨text, -, hpick⟩ := Option.bind_eq_some_iff.mp h
    obtain ⟨ref, hfound, horder⟩ := Option.map_eq_some_iff.mp hpick
    exact ⟨_, ref, hfound, horder⟩
  · cases h

variable {ref : StreamBindingRef α}

theorem mem_echoedOf : ref ∈ echoedOf refs ↔ ref ∈ refs ∧ outcome ref.binding = some .echoed := by
  simp [echoedOf]

/-- What the transcript phases pick is open and echoed. -/
theorem open_of_echoedOf {passes : PromptAuthorBinding α → Bool}
    (h : firstOpen (echoedOf refs) consumed passes = some ref) (horder : ref.order = order) :
    order ∉ consumed ∧ Attributable refs row order := by
  obtain ⟨hmem, hopen, -⟩ := firstOpen_eq_some h
  obtain ⟨href, hechoed⟩ := mem_echoedOf.mp hmem
  rw [horder] at hopen
  exact ⟨hopen, ref, href, horder, fun hnot => absurd hechoed hnot⟩

theorem pickSynthetic_good (row : Message) (consumed : List Nat)
    (order : Nat) (h : pickSynthetic refs row consumed = some order) :
    order ∉ consumed ∧ Attributable refs row order := by
  obtain ⟨helig, hflight, ref, hfound, horder⟩ := pickSynthetic_eq_some h
  obtain ⟨hmem, hopen, hnames⟩ := firstOpen_eq_some hfound
  rw [horder] at hopen
  exact ⟨hopen, ref, hmem, horder, fun _ => ⟨helig, hflight, hnames⟩⟩

theorem pickExact_good (row : Message) (consumed : List Nat)
    (order : Nat) (h : pickExact refs row consumed = some order) :
    order ∉ consumed ∧ Attributable refs row order := by
  obtain ⟨-, id, -, ref, hfound, horder⟩ := pickExact_eq_some h
  exact open_of_echoedOf hfound horder

theorem pickTimed_good (row : Message)
    (consumed : List Nat) (order : Nat) (h : pickTimed env refs row consumed = some order) :
    order ∉ consumed ∧ Attributable refs row order := by
  obtain ⟨passes, ref, hfound, horder⟩ := pickTimed_eq_some h
  exact open_of_echoedOf hfound horder

theorem pickText_good (row : Message)
    (consumed : List Nat) (order : Nat) (h : pickText env refs row consumed = some order) :
    order ∉ consumed ∧ Attributable refs row order := by
  obtain ⟨passes, ref, hfound, horder⟩ := pickText_eq_some h
  exact open_of_echoedOf hfound horder

theorem mergeAssignments_inv (env : Platform α) (entries : List (PromptAuthorBinding α))
    (messages : List Message) :
    ∃ consumed, PhaseInv (Attributable (directPromptBindings env entries))
      (mergeAssignments env entries messages) consumed := by
  have hempty : PhaseInv (Attributable (directPromptBindings env entries))
      ([] ++ unassigned messages) [] := by
    constructor <;> simp [assignedOrders, unassigned, List.filterMap_map]
  have hsynthetic := phase_preserves false (pickSynthetic (directPromptBindings env entries))
    pickSynthetic_good [] _ [] hempty
  have hexact := phase_preserves false (pickExact (directPromptBindings env entries))
    pickExact_good [] _ _ hsynthetic
  have htimed := phase_preserves true (pickTimed env (directPromptBindings env entries))
    pickTimed_good [] _ _ hexact
  have htext := phase_preserves true (pickText env (directPromptBindings env entries))
    pickText_good [] _ _ htimed
  exact ⟨_, htext⟩

/-- The references are the entries that were not cancelled. -/
theorem mem_directPromptBindings {entries : List (PromptAuthorBinding α)}
    (h : ref ∈ directPromptBindings env entries) :
    ref.binding ∈ entries ∧ outcome ref.binding ≠ some .cancelled := by
  have hget := List.mem_of_getElem? (mem_refsOf.mp h)
  rw [sortBy, List.mem_mergeSort, List.mem_filter] at hget
  simp only [Bool.and_eq_true, decide_eq_true_eq] at hget
  exact ⟨hget.1, hget.2.2⟩

/-! ## The synthetic rows' choices -/

/-- A synthetic row claims the first binding, in the order of dispatch, that it names and that no
    earlier row claims. -/
def Claims (refs : List (StreamBindingRef α)) (messages : List Message) (j order : Nat) : Prop :=
  ∃ row ref, messages[j]? = some row ∧ eligiblePromptMessage row = true ∧
    row.inFlightSteer = true ∧ ref ∈ refs ∧ ref.order = order ∧ names row ref.binding = true ∧
    (∀ k, k < j → ¬ Claims refs messages k order) ∧
    ∀ other ∈ refs, other.order < order → names row other.binding = true →
      ∃ k, ∃ _ : k < j, Claims refs messages k other.order
termination_by j

/-- The first open reference: those before it that pass are consumed. -/
theorem mem_consumed_of_firstOpen
    {passes : PromptAuthorBinding α → Bool} {other : StreamBindingRef α}
    (hsorted : refs.Pairwise fun left right => left.order < right.order)
    (h : firstOpen refs consumed passes = some ref) (hother : other ∈ refs)
    (hlt : other.order < ref.order) (hpass : passes other.binding = true) :
    other.order ∈ consumed := by
  obtain ⟨-, front, back, hsplit, hfront⟩ := List.find?_eq_some_iff_append.mp h
  subst hsplit
  have hbefore : other ∈ front := by
    rcases List.mem_append.mp hother with hmem | hmem
    · exact hmem
    · exfalso
      have hback := (List.pairwise_append.mp hsorted).2.1
      rcases List.mem_cons.mp hmem with rfl | hmem
      · omega
      · have := (List.pairwise_cons.mp hback).1 other hmem
        omega
  have hclosed := hfront other hbefore
  simpa [hpass] using hclosed

/-- References in the order of their places are told apart by it. -/
theorem eq_of_order_eq {left right : StreamBindingRef α}
    (hsorted : refs.Pairwise fun left right => left.order < right.order) (hl : left ∈ refs)
    (hr : right ∈ refs) (h : left.order = right.order) : left = right := by
  have hnodup : (refs.map (·.order)).Nodup :=
    List.pairwise_map.mpr (hsorted.imp fun hlt => Nat.ne_of_lt hlt)
  exact List.inj_on_of_nodup_map hnodup hl hr h

/-- What phase 0 gives to a row, from what it gives to the rows before. -/
theorem afterSynthetic_getElem (refs : List (StreamBindingRef α)) (messages : List Message)
    (j : Nat) :
    (afterSynthetic refs messages).1[j]? = messages[j]?.map fun row =>
      (row, pickSynthetic refs row
        (consumedBefore false (pickSynthetic refs) (unassigned messages) [] j)) := by
  rw [afterSynthetic, phase_getElem, unassigned_getElem, Option.map_map]
  congr 1
  funext row
  simp [taken_none]

/-- The reference a row has after a stage. -/
def assignedAt (rows : Assigned) (i : Nat) : Option Nat := rows[i]?.bind (·.2)

variable {messages : List Message}

theorem mem_consumedBefore_synthetic {j : Nat} :
    order ∈ consumedBefore false (pickSynthetic refs) (unassigned messages) [] j ↔
      ∃ k, k < j ∧ assignedAt (afterSynthetic refs messages).1 k = some order := by
  rw [mem_consumedBefore]
  simp only [List.not_mem_nil, false_or, assignedAt, afterSynthetic_getElem, unassigned_getElem,
    Option.map_eq_some_iff]
  constructor
  · rintro ⟨k, _, hk, ⟨row, hrow, rfl⟩, htaken⟩
    rw [taken_none] at htaken
    exact ⟨k, hk, by simp [hrow, htaken]⟩
  · rintro ⟨k, hk, h⟩
    obtain ⟨_, hmap, hpick⟩ := Option.bind_eq_some_iff.mp h
    obtain ⟨row, hrow, rfl⟩ := Option.map_eq_some_iff.mp hmap
    exact ⟨k, (row, none), hk, ⟨row, hrow, rfl⟩, by rw [taken_none]; exact hpick⟩

/-- Phase 0 gives each synthetic row the binding that it claims. -/
theorem claims_iff
    (hsorted : refs.Pairwise fun left right => left.order < right.order) (messages : List Message)
    (j order : Nat) :
    assignedAt (afterSynthetic refs messages).1 j = some order ↔ Claims refs messages j order := by
  induction j using Nat.strong_induction_on generalizing order with
  | _ j ih =>
    -- what was consumed before is what earlier rows claim
    have hbefore : ∀ o, o ∈ consumedBefore false (pickSynthetic refs) (unassigned messages) [] j ↔
        ∃ k, ∃ _ : k < j, Claims refs messages k o := by
      intro o
      rw [mem_consumedBefore_synthetic]
      constructor
      · rintro ⟨k, hk, h⟩
        exact ⟨k, hk, (ih k hk o).mp h⟩
      · rintro ⟨k, hk, h⟩
        exact ⟨k, hk, (ih k hk o).mpr h⟩
    rw [Claims, assignedAt, afterSynthetic_getElem]
    simp only [Option.bind_map, Function.comp_def, Option.bind_eq_some_iff]
    constructor
    · rintro ⟨row, hrow, hpick⟩
      obtain ⟨helig, hflight, ref, hfound, rfl⟩ := pickSynthetic_eq_some hpick
      obtain ⟨hmem, hopen, hnames⟩ := firstOpen_eq_some hfound
      refine ⟨row, ref, hrow, helig, hflight, hmem, rfl, hnames, ?_, ?_⟩
      · intro k hk hclaims
        exact hopen ((hbefore _).mpr ⟨k, hk, hclaims⟩)
      · intro other hother hlt hpass
        exact (hbefore _).mp (mem_consumed_of_firstOpen hsorted hfound hother hlt hpass)
    · rintro ⟨row, ref, hrow, helig, hflight, hmem, rfl, hnames, hfree, hfirst⟩
      have hopen : ref.order ∉
          consumedBefore false (pickSynthetic refs) (unassigned messages) [] j := by
        intro hmem
        obtain ⟨k, hk, hclaims⟩ := (hbefore _).mp hmem
        exact hfree k hk hclaims
      refine ⟨row, hrow, ?_⟩
      simp only [pickSynthetic, helig, hflight, Bool.and_true, if_true, Option.map_eq_some_iff]
      cases hfound : firstOpen refs
          (consumedBefore false (pickSynthetic refs) (unassigned messages) [] j) (names row) with
      | none =>
        have hfails := firstOpen_eq_none.mp hfound ref hmem hopen
        rw [hnames] at hfails
        cases hfails
      | some other =>
        obtain ⟨hother, hotheropen, hothernames⟩ := firstOpen_eq_some hfound
        refine ⟨other, rfl, ?_⟩
        -- neither of the two comes before the other
        rcases Nat.lt_trichotomy other.order ref.order with hlt | heq | hgt
        · exact absurd ((hbefore _).mpr (hfirst other hother hlt hothernames)) hotheropen
        · exact heq
        · exact absurd (mem_consumed_of_firstOpen hsorted hfound hmem hgt hnames) hopen

/-! ## Exact rows -/

/-- The row at an index has the id that an echoed binding recorded, and no other eligible row and no
    other echoed binding has that id. -/
def ExactMatch (refs : List (StreamBindingRef α)) (messages : List Message) (i : Nat)
    (ref : StreamBindingRef α) : Prop :=
  ref ∈ refs ∧ outcome ref.binding = some .echoed ∧
    ∃ row id, messages[i]? = some row ∧ eligiblePromptMessage row = true ∧
      messageId row = some id ∧ settledMessageId ref.binding = some id ∧
      (∀ j other, messages[j]? = some other → eligiblePromptMessage other = true →
        messageId other = some id → j = i) ∧
      ∀ other ∈ refs, outcome other.binding = some .echoed →
        settledMessageId other.binding = some id → other = ref

variable {i : Nat}

/-- A phase gives a row either what it had or a reference that was not consumed. -/
theorem assignedAt_phase {keeps : Bool} {pick : Message → List Nat → Option Nat} {rows : Assigned}
 (hpick : ∀ row consumed order, pick row consumed = some order → order ∉ consumed)
    (h : assignedAt (phase keeps pick rows consumed).1 i = some order) :
    assignedAt rows i = some order ∨ order ∉ consumed := by
  rw [assignedAt, phase_getElem] at h
  obtain ⟨_, hmap, hgot⟩ := Option.bind_eq_some_iff.mp h
  obtain ⟨entry, hentry, rfl⟩ := Option.map_eq_some_iff.mp hmap
  rcases Option.or_eq_some_iff.mp hgot with htaken | ⟨-, hold⟩
  · right
    intro hmem
    apply hpick _ _ _ (pick_of_taken htaken)
    exact mem_consumedBefore.mpr (Or.inl hmem)
  · left
    simp [assignedAt, hentry, hold]

theorem assignedAt_phase_keeps {pick : Message → List Nat → Option Nat} {rows : Assigned}
    (h : assignedAt rows i = some order) :
    assignedAt (phase true pick rows consumed).1 i = some order := by
  obtain ⟨entry, hentry, hold⟩ := Option.bind_eq_some_iff.mp h
  obtain ⟨row, assigned⟩ := entry
  cases hold
  simp [assignedAt, phase_getElem, hentry, taken_keeps]

theorem afterSynthetic_row (refs : List (StreamBindingRef α)) (h : messages[i]? = some row) :
    ∃ assigned, (afterSynthetic refs messages).1[i]? = some (row, assigned) := by
  rw [afterSynthetic_getElem, h]
  exact ⟨_, rfl⟩

theorem row_of_afterSynthetic
    {entry : Message × Option Nat} (h : (afterSynthetic refs messages).1[i]? = some entry) :
    messages[i]? = some entry.1 := by
  rw [afterSynthetic_getElem] at h
  obtain ⟨row, hrow, rfl⟩ := Option.map_eq_some_iff.mp h
  exact hrow

/-- An exact row has its binding after phase 1 when no other row claimed that binding. -/
theorem afterExact_of_unclaimed

    (hsorted : refs.Pairwise fun left right => left.order < right.order) (hexact : ExactMatch refs messages i ref)
    (hfree : ∀ j, j ≠ i → assignedAt (afterSynthetic refs messages).1 j ≠ some ref.order) :
    assignedAt (afterExact refs messages).1 i = some ref.order := by
  obtain ⟨hmem, hechoed, row, id, hrow, helig, hid, hsettled, honlyRow, honlyRef⟩ := hexact
  obtain ⟨assigned, hentry⟩ := afterSynthetic_row refs hrow
  rw [afterExact, assignedAt, phase_getElem, hentry]
  simp only [Option.map_some, Option.bind_some, taken, Bool.false_and, Bool.false_eq_true, if_false]
  have hpick : ∀ consumed, pickExact refs row consumed =
      (firstOpen (echoedOf refs) consumed (settledMessageId · == some id)).map (·.order) := by
    intro consumed
    simp [pickExact, helig, hid]
  rw [hpick]
  by_cases hconsumed : ref.order ∈ consumedBefore false (pickExact refs)
      (afterSynthetic refs messages).1 (afterSynthetic refs messages).2 i
  · -- consumed in phase 0, by this very row: nothing else has the id, so the row keeps it
    have hnone : firstOpen (echoedOf refs) (consumedBefore false (pickExact refs)
        (afterSynthetic refs messages).1 (afterSynthetic refs messages).2 i)
        (settledMessageId · == some id) = none := by
      apply firstOpen_eq_none.mpr
      intro other hother hopen
      obtain ⟨hotherMem, hotherEchoed⟩ := mem_echoedOf.mp hother
      by_contra hpass
      have hsame := honlyRef other hotherMem hotherEchoed (by simpa using hpass)
      exact hopen (hsame ▸ hconsumed)
    rw [hnone, Option.map_none, Option.none_or]
    rcases mem_consumedBefore.mp hconsumed with h | ⟨k, entry, hk, hget, htaken⟩
    · rw [afterSynthetic] at h
      rcases mem_phase_consumed.mp h with h | ⟨j, entry, hget, htaken⟩
      · cases h
      · have hj : assignedAt (afterSynthetic refs messages).1 j = some ref.order := by
          rw [assignedAt, afterSynthetic, phase_getElem, hget]
          simp [htaken]
        have hji : j = i := not_not.mp fun hne => hfree j hne hj
        subst hji
        rw [assignedAt, hentry] at hj
        simpa using hj
    · -- an earlier row of phase 1 has another id
      exfalso
      obtain ⟨heligk, idk, hidk, other, hfound, horder⟩ := pickExact_eq_some (pick_of_taken htaken)
      obtain ⟨hother, -, hsettledk⟩ := firstOpen_eq_some hfound
      have hsame := eq_of_order_eq hsorted (mem_echoedOf.mp hother).1 hmem horder
      rw [hsame, hsettled, beq_iff_eq, Option.some.injEq] at hsettledk
      have hki := honlyRow k entry.1 (row_of_afterSynthetic hget) heligk (hsettledk ▸ hidk)
      omega
  · rw [firstOpen_eq_of_unique (mem_echoedOf.mpr ⟨hmem, hechoed⟩) hconsumed (by simpa using hsettled)
      (by
        intro other hother hpass
        obtain ⟨hotherMem, hotherEchoed⟩ := mem_echoedOf.mp hother
        exact honlyRef other hotherMem hotherEchoed (by simpa using hpass))]
    rfl

theorem consumed_of_afterSynthetic
    {j : Nat} (h : assignedAt (afterSynthetic refs messages).1 j = some order) :
    order ∈ (afterSynthetic refs messages).2 := by
  obtain ⟨entry, hentry, hgot⟩ := Option.bind_eq_some_iff.mp h
  rw [afterSynthetic_getElem] at hentry
  obtain ⟨row, hrow, rfl⟩ := Option.map_eq_some_iff.mp hentry
  apply mem_phase_consumed.mpr
  refine Or.inr ⟨j, (row, none), by rw [unassigned_getElem, hrow]; rfl, ?_⟩
  rw [taken_none]
  exact hgot

/-- A binding that another row consumed in phase 0 never reaches this row. -/
theorem not_assigned_of_claimed (env : Platform α)
 (hconsumed : order ∈ (afterSynthetic refs messages).2)
    (hother : assignedAt (afterSynthetic refs messages).1 i ≠ some order) :
    assignedAt (phase true (pickText env refs) (afterTimed env refs messages).1
      (afterTimed env refs messages).2).1 i ≠ some order := by
  have hexact : order ∈ (afterExact refs messages).2 := subset_phase_consumed _ _ _ _ hconsumed
  have htimed : order ∈ (afterTimed env refs messages).2 := subset_phase_consumed _ _ _ _ hexact
  intro h
  rcases assignedAt_phase (fun row c o ho => (pickText_good row c o ho).1) h with h | h
  · rcases assignedAt_phase (fun row c o ho => (pickTimed_good row c o ho).1) h with h | h
    · rcases assignedAt_phase (fun row c o ho => (pickExact_good row c o ho).1) h with h | h
      · exact hother h
      · exact h hconsumed
    · exact h hexact
  · exact h htimed

/-! ## The claim of the phases -/

structure NeverSteals (env : Platform α) (entries : List (PromptAuthorBinding α))
    (messages : List Message) : Prop where
  /-- Each binding goes to at most one row. -/
  once : (assignedOrders (mergeAssignments env entries messages)).Nodup
  /-- An assigned binding is an entry that was not cancelled. -/
  live : ∀ entry ∈ mergeAssignments env entries messages, ∀ order, entry.2 = some order →
    ∃ ref ∈ directPromptBindings env entries, ref.order = order ∧ ref.binding ∈ entries ∧
      outcome ref.binding ≠ some .cancelled
  /-- One that was not echoed goes to a synthetic row that names it. -/
  synthetic : ∀ entry ∈ mergeAssignments env entries messages, ∀ order, entry.2 = some order →
    ∀ ref ∈ directPromptBindings env entries, ref.order = order →
      outcome ref.binding ≠ some .echoed →
        eligiblePromptMessage entry.1 = true ∧ entry.1.inFlightSteer = true ∧
          names entry.1 ref.binding = true
  /-- A row with the recorded id of an echoed binding has that binding. -/
  exactly : ∀ i ref, ExactMatch (directPromptBindings env entries) messages i ref →
    assignedAt (mergeAssignments env entries messages) i = some ref.order

/-- No synthetic row claims the binding of another, exact row. -/
def ExactUnclaimed (env : Platform α) (entries : List (PromptAuthorBinding α))
    (messages : List Message) : Prop :=
  ∀ i ref, ExactMatch (directPromptBindings env entries) messages i ref →
    ∀ j, j ≠ i → ¬ Claims (directPromptBindings env entries) messages j ref.order

theorem directPromptBindings_pairwise (env : Platform α) (entries : List (PromptAuthorBinding α)) :
    (directPromptBindings env entries).Pairwise fun left right => left.order < right.order :=
  refsOf_pairwise _

/-- A later row of phase 0 does not get what an earlier one has. -/
theorem afterSynthetic_ne_of_lt
    {j : Nat} (hij : i < j) (hi : assignedAt (afterSynthetic refs messages).1 i = some order) :
    assignedAt (afterSynthetic refs messages).1 j ≠ some order := by
  intro hj
  have hbefore := mem_consumedBefore_synthetic.mpr ⟨i, hij, hi⟩
  obtain ⟨entry, hentry, hgot⟩ := Option.bind_eq_some_iff.mp hj
  rw [afterSynthetic_getElem] at hentry
  obtain ⟨row, -, rfl⟩ := Option.map_eq_some_iff.mp hentry
  exact (pickSynthetic_good _ _ _ hgot).1 hbefore

/-- After phase 0 no reference is assigned to two rows. -/
theorem eq_of_afterSynthetic
    {j : Nat} (hi : assignedAt (afterSynthetic refs messages).1 i = some order)
    (hj : assignedAt (afterSynthetic refs messages).1 j = some order) : i = j := by
  rcases Nat.lt_trichotomy i j with h | h | h
  · exact absurd hj (afterSynthetic_ne_of_lt h hi)
  · exact h
  · exact absurd hi (afterSynthetic_ne_of_lt h hj)

/-- Attribution never steals exactly when no synthetic row claims the binding of another row with
    that binding's recorded id. -/
theorem neverSteals_iff (env : Platform α) (entries : List (PromptAuthorBinding α))
    (messages : List Message) :
    NeverSteals env entries messages ↔ ExactUnclaimed env entries messages := by
  have hsorted := directPromptBindings_pairwise env entries
  constructor
  · intro h i ref hexact j hne hclaims
    have hj := (claims_iff hsorted messages j ref.order).mpr hclaims
    apply not_assigned_of_claimed env (consumed_of_afterSynthetic hj) _ (h.exactly i ref hexact)
    intro hi
    exact hne (eq_of_afterSynthetic hj hi)
  · intro hfree
    obtain ⟨consumed, hinv⟩ := mergeAssignments_inv env entries messages
    constructor
    · exact hinv.once
    · intro entry hentry order horder
      obtain ⟨ref, hmem, heq, -⟩ := hinv.good entry hentry order horder
      exact ⟨ref, hmem, heq, mem_directPromptBindings hmem⟩
    · intro entry hentry order horder ref hmem heq hnot
      obtain ⟨found, hfound, hfoundEq, hsynthetic⟩ := hinv.good entry hentry order horder
      have hsame := eq_of_order_eq hsorted hfound hmem (hfoundEq.trans heq.symm)
      rw [hsame] at hsynthetic
      exact hsynthetic hnot
    · intro i ref hexact
      have hafter := afterExact_of_unclaimed hsorted hexact fun j hne hj =>
        hfree i ref hexact j hne ((claims_iff hsorted messages j ref.order).mp hj)
      exact assignedAt_phase_keeps (assignedAt_phase_keeps hafter)

/-! ## A stolen binding -/

/-- The user's prompt `p` with the text "hi", echoed as the row `m`. -/
def echoedPrompt : PromptAuthorBinding Unit :=
  ⟨js "p", none, none, none, 1, some (js "hi"), none, js "user", (), none,
    some ⟨js "p", none, none, 2, .echoed, some (js "m"), none⟩, none⟩

def userRow (id : String) (inFlightSteer : Bool) : Message :=
  ⟨js "user", .text (js "hi"), some (js id), none, none, none, .other, .other, inFlightSteer, none,
    none⟩

/-- The synthetic in-flight row of the prompt is still there when its echo arrives. -/
def stolenRows : List Message := [userRow "inflight-steer:p" true, userRow "m" false]

theorem directPromptBindings_echoedPrompt :
    directPromptBindings plainPlatform [echoedPrompt] = [⟨echoedPrompt, 0⟩] := by
  have hkept : [echoedPrompt].filter (fun entry =>
      isPromptAuthorBinding plainPlatform entry && outcome entry ≠ some .cancelled) =
      [echoedPrompt] := by
    decide +kernel
  rw [directPromptBindings, hkept, sortBy, List.mergeSort_singleton]
  rfl

/-- The synthetic row takes the binding, and the row with its recorded id gets none. -/
theorem exact_row_loses :
    mergeAssignments plainPlatform [echoedPrompt] stolenRows =
        [(userRow "inflight-steer:p" true, some 0), (userRow "m" false, none)] ∧
      ¬ NeverSteals plainPlatform [echoedPrompt] stolenRows := by
  have hmerge : mergeAssignments plainPlatform [echoedPrompt] stolenRows =
      [(userRow "inflight-steer:p" true, some 0), (userRow "m" false, none)] := by
    rw [mergeAssignments_eq, directPromptBindings_echoedPrompt]
    decide +kernel
  refine ⟨hmerge, fun h => ?_⟩
  have hexact : ExactMatch (directPromptBindings plainPlatform [echoedPrompt]) stolenRows 1
      ⟨echoedPrompt, 0⟩ := by
    rw [directPromptBindings_echoedPrompt]
    refine ⟨by simp, by decide, userRow "m" false, js "m", rfl, by decide +kernel,
      by decide +kernel, by decide +kernel, ?_, by simp⟩
    intro j other hget helig hid
    have hfirst : messageId (userRow "inflight-steer:p" true) ≠ some (js "m") := by decide +kernel
    cases j with
    | zero =>
      cases hget
      exact absurd hid hfirst
    | succ j =>
      cases j with
      | zero => rfl
      | succ j => cases hget
  have hlost := h.exactly 1 _ hexact
  rw [hmerge] at hlost
  cases hlost

end Bobbit.Server.AuthorSidecar
