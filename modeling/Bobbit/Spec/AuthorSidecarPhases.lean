import Bobbit.Server.AuthorSidecar

/-!
# The phases of the prompt-author correlator

A phase goes through the rows and may give each of them a reference that nobody has consumed. What
a phase gives to a row depends on the rows before it only through the references they consumed.

## Key results
- `phase_getElem`: what a phase makes of the row at an index
- `mem_phase_consumed`: who consumed a reference
- `phase_preserves`: an invariant of one assignment holds after a phase
-/

namespace Bobbit.Server.AuthorSidecar

open Bobbit.Lib

variable {α : Type}

/-! ## References -/

variable {ref : StreamBindingRef α}

theorem mem_refsOf {bindings : List (PromptAuthorBinding α)} :
    ref ∈ refsOf bindings ↔ bindings[ref.order]? = some ref.binding := by
  simp only [refsOf, List.mem_map, Prod.exists, List.mem_zipIdx_iff_getElem?]
  constructor
  · rintro ⟨binding, order, h, rfl⟩
    exact h
  · intro h
    exact ⟨ref.binding, ref.order, h, rfl⟩

theorem refsOf_pairwise (bindings : List (PromptAuthorBinding α)) :
    (refsOf bindings).Pairwise fun left right => left.order < right.order := by
  simp only [refsOf, List.pairwise_map]
  apply List.pairwise_iff_getElem.mpr
  intro i j hi hj hij
  simpa using hij

variable {refs : List (StreamBindingRef α)} {consumed : List Nat}

theorem firstOpen_eq_some {passes : PromptAuthorBinding α → Bool}
    (h : firstOpen refs consumed passes = some ref) :
    ref ∈ refs ∧ ref.order ∉ consumed ∧ passes ref.binding = true := by
  have hpass := List.find?_some h
  simp only [Bool.and_eq_true, decide_eq_true_eq] at hpass
  exact ⟨List.mem_of_find?_eq_some h, hpass⟩

theorem firstOpen_eq_none {passes : PromptAuthorBinding α → Bool} :
    firstOpen refs consumed passes = none ↔
      ∀ ref ∈ refs, ref.order ∉ consumed → passes ref.binding = false := by
  simp [firstOpen, List.find?_eq_none]

/-- Where only one reference is open and passes, it is the one that is found. -/
theorem firstOpen_eq_of_unique {passes : PromptAuthorBinding α → Bool} (hmem : ref ∈ refs)
    (hopen : ref.order ∉ consumed) (hpass : passes ref.binding = true)
    (hunique : ∀ other ∈ refs, passes other.binding = true → other = ref) :
    firstOpen refs consumed passes = some ref := by
  cases hfound : firstOpen refs consumed passes with
  | none =>
    have hfails := firstOpen_eq_none.mp hfound ref hmem hopen
    rw [hpass] at hfails
    cases hfails
  | some other =>
    obtain ⟨hother, -, hpasses⟩ := firstOpen_eq_some hfound
    rw [hunique other hother hpasses]

variable {consumed' : List Nat}

/-! ## One phase -/

def taken (keeps : Bool) (pick : Message → List Nat → Option Nat) (entry : Message × Option Nat)
    (consumed : List Nat) : Option Nat :=
  if keeps && entry.2.isSome then none else pick entry.1 consumed

variable (keeps : Bool)

theorem taken_none (pick : Message → List Nat → Option Nat) (row : Message)
    (consumed : List Nat) : taken keeps pick (row, none) consumed = pick row consumed := by
  simp [taken]

theorem taken_keeps (pick : Message → List Nat → Option Nat) (row : Message) (order : Nat)
    (consumed : List Nat) : taken true pick (row, some order) consumed = none := by
  simp [taken]

theorem pick_of_taken {keeps : Bool} {pick : Message → List Nat → Option Nat}
    {entry : Message × Option Nat} {order : Nat}
    (h : taken keeps pick entry consumed = some order) : pick entry.1 consumed = some order := by
  unfold taken at h
  split at h
  · cases h
  · exact h

@[simp] theorem phase_nil (pick : Message → List Nat → Option Nat)
    (consumed : List Nat) : phase keeps pick [] consumed = ([], consumed) := rfl

theorem phase_cons (pick : Message → List Nat → Option Nat)
    (entry : Message × Option Nat) (rest : Assigned) (consumed : List Nat) :
    phase keeps pick (entry :: rest) consumed =
      ((entry.1, (taken keeps pick entry consumed).or entry.2) ::
          (phase keeps pick rest (consumed ++ (taken keeps pick entry consumed).toList)).1,
        (phase keeps pick rest (consumed ++ (taken keeps pick entry consumed).toList)).2) := by
  obtain ⟨row, assigned⟩ := entry
  cases hgot : taken keeps pick (row, assigned) consumed with
  | none =>
    unfold taken at hgot
    rw [phase]
    simp only [hgot, Option.none_or, Option.toList_none, List.append_nil]
  | some order =>
    unfold taken at hgot
    rw [phase]
    simp only [hgot, Option.some_or, Option.toList_some]

/-- What a phase consumes when it goes through the rows before an index. -/
def consumedBefore (keeps : Bool) (pick : Message → List Nat → Option Nat) (rows : Assigned)
    (consumed : List Nat) (i : Nat) : List Nat :=
  (phase keeps pick (rows.take i) consumed).2

@[simp] theorem consumedBefore_zero (pick : Message → List Nat → Option Nat)
    (rows : Assigned) (consumed : List Nat) : consumedBefore keeps pick rows consumed 0 = consumed := by
  simp [consumedBefore]

theorem consumedBefore_cons_succ (pick : Message → List Nat → Option Nat)
    (entry : Message × Option Nat) (rest : Assigned) (consumed : List Nat) (i : Nat) :
    consumedBefore keeps pick (entry :: rest) consumed (i + 1) =
      consumedBefore keeps pick rest (consumed ++ (taken keeps pick entry consumed).toList) i := by
  simp [consumedBefore, phase_cons]

theorem consumedBefore_length (pick : Message → List Nat → Option Nat)
    (rows : Assigned) (consumed : List Nat) :
    consumedBefore keeps pick rows consumed rows.length = (phase keeps pick rows consumed).2 := by
  simp [consumedBefore]

theorem phase_getElem (pick : Message → List Nat → Option Nat) (rows : Assigned)
    (consumed : List Nat) (i : Nat) :
    (phase keeps pick rows consumed).1[i]? = rows[i]?.map fun entry =>
      (entry.1, (taken keeps pick entry (consumedBefore keeps pick rows consumed i)).or entry.2) := by
  induction rows generalizing consumed i with
  | nil => simp
  | cons entry rest ih =>
    rw [phase_cons]
    cases i with
    | zero => simp
    | succ i => simp [ih, consumedBefore_cons_succ]

variable {rows : Assigned}

/-- Who consumed a reference: it was consumed before the phase, or an earlier row took it. -/
theorem mem_consumedBefore {keeps : Bool} {pick : Message → List Nat → Option Nat} {i order : Nat} :
    order ∈ consumedBefore keeps pick rows consumed i ↔
      order ∈ consumed ∨ ∃ j entry, j < i ∧ rows[j]? = some entry ∧
        taken keeps pick entry (consumedBefore keeps pick rows consumed j) = some order := by
  induction rows generalizing consumed i with
  | nil => simp [consumedBefore]
  | cons entry rest ih =>
    cases i with
    | zero => simp
    | succ i =>
      rw [consumedBefore_cons_succ, ih, List.mem_append, Option.mem_toList]
      constructor
      · rintro ((h | h) | ⟨j, other, hj, hget, htaken⟩)
        · exact Or.inl h
        · exact Or.inr ⟨0, entry, by omega, rfl, by simpa using h⟩
        · refine Or.inr ⟨j + 1, other, by omega, hget, ?_⟩
          rw [consumedBefore_cons_succ]
          exact htaken
      · rintro (h | ⟨j, other, hj, hget, htaken⟩)
        · exact Or.inl (Or.inl h)
        · cases j with
          | zero =>
            cases hget
            exact Or.inl (Or.inr (by simpa using htaken))
          | succ j =>
            rw [consumedBefore_cons_succ] at htaken
            exact Or.inr ⟨j, other, by omega, hget, htaken⟩

theorem mem_phase_consumed {keeps : Bool} {pick : Message → List Nat → Option Nat} {order : Nat} :
    order ∈ (phase keeps pick rows consumed).2 ↔
      order ∈ consumed ∨ ∃ j entry, rows[j]? = some entry ∧
        taken keeps pick entry (consumedBefore keeps pick rows consumed j) = some order := by
  rw [← consumedBefore_length, mem_consumedBefore]
  constructor
  · rintro (h | ⟨j, entry, -, h⟩)
    · exact Or.inl h
    · exact Or.inr ⟨j, entry, h⟩
  · rintro (h | ⟨j, entry, hget, h⟩)
    · exact Or.inl h
    · exact Or.inr ⟨j, entry, (List.getElem?_eq_some_iff.mp hget).1, hget, h⟩

theorem subset_phase_consumed (pick : Message → List Nat → Option Nat)
    (rows : Assigned) (consumed : List Nat) : consumed ⊆ (phase keeps pick rows consumed).2 :=
  fun _ h => mem_phase_consumed.mpr (Or.inl h)

def unassigned (messages : List Message) : Assigned := messages.map fun message => (message, none)

theorem unassigned_getElem (messages : List Message) (i : Nat) :
    (unassigned messages)[i]? = messages[i]?.map fun message => (message, none) := by
  simp [unassigned]

/-! ## Invariants of a phase -/

/-- The references assigned to some row. -/
def assignedOrders (rows : Assigned) : List Nat := rows.filterMap (·.2)

/-- No reference is assigned twice, every assigned one is consumed, and every assignment has a
    property. -/
structure PhaseInv (good : Message → Nat → Prop) (rows : Assigned) (consumed : List Nat) : Prop where
  once : (assignedOrders rows).Nodup
  consumed : ∀ order ∈ assignedOrders rows, order ∈ consumed
  good : ∀ entry ∈ rows, ∀ order, entry.2 = some order → good entry.1 order

theorem phaseInv_assign {good : Message → Nat → Prop} {front back : Assigned}
    {entry : Message × Option Nat} {got : Option Nat}
    (h : PhaseInv good (front ++ entry :: back) consumed)
    (hgot : ∀ order, got = some order → order ∉ consumed ∧ good entry.1 order) :
    PhaseInv good (front ++ (entry.1, got.or entry.2) :: back) (consumed ++ got.toList) := by
  cases got with
  | none => simpa using h
  | some order =>
    obtain ⟨hopen, hgood⟩ := hgot order rfl
    obtain ⟨honce, hconsumed, hall⟩ := h
    have hnew : order ∉ assignedOrders (front ++ entry :: back) :=
      fun hmem => hopen (hconsumed order hmem)
    -- the other rows' references do not change
    have hsub : (assignedOrders (front ++ back)).Sublist (assignedOrders (front ++ entry :: back)) :=
      (List.Sublist.append_left (List.sublist_cons_self entry back) front).filterMap _
    have hperm : (assignedOrders (front ++ (entry.1, some order) :: back)).Perm
        (order :: assignedOrders (front ++ back)) := by
      simp only [assignedOrders, List.filterMap_append]
      exact List.perm_middle
    simp only [Option.some_or, Option.toList_some]
    constructor
    · rw [hperm.nodup_iff, List.nodup_cons]
      exact ⟨fun hmem => hnew (hsub.subset hmem), honce.sublist hsub⟩
    · intro other hother
      rw [hperm.mem_iff, List.mem_cons] at hother
      rw [List.mem_append, List.mem_singleton]
      rcases hother with rfl | hother
      · exact Or.inr rfl
      · exact Or.inl (hconsumed other (hsub.subset hother))
    · intro other hother found hfound
      simp only [List.mem_append, List.mem_cons] at hother
      rcases hother with hother | rfl | hother
      · exact hall other (by simp [hother]) found hfound
      · cases hfound
        exact hgood
      · exact hall other (by simp [hother]) found hfound

/-- A phase keeps the invariant when it picks open references with the property. -/
theorem phase_preserves {good : Message → Nat → Prop} (pick : Message → List Nat → Option Nat)
    (hpick : ∀ row consumed order, pick row consumed = some order →
      order ∉ consumed ∧ good row order)
    (front rows : Assigned) (consumed : List Nat)
    (h : PhaseInv good (front ++ rows) consumed) :
    PhaseInv good (front ++ (phase keeps pick rows consumed).1)
      (phase keeps pick rows consumed).2 := by
  induction rows generalizing front consumed with
  | nil => simpa using h
  | cons entry rest ih =>
    have hgot : ∀ order, taken keeps pick entry consumed = some order →
        order ∉ consumed ∧ good entry.1 order :=
      fun order htaken => hpick _ _ _ (pick_of_taken htaken)
    have hstep := phaseInv_assign h hgot
    rw [phase_cons]
    have hrest := ih (front ++ [(entry.1, (taken keeps pick entry consumed).or entry.2)])
      (consumed ++ (taken keeps pick entry consumed).toList) (by simpa using hstep)
    simpa using hrest

/-! ## Comparing phases -/

end Bobbit.Server.AuthorSidecar
