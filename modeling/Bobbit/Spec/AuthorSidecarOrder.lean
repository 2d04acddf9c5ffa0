import Bobbit.Lib.TwoKeyOrder
import Bobbit.Server.AuthorSidecar

/-!
# The lifecycle order of prompt-author bindings

Two bindings with a modern identity are compared by their dispatch epoch, every other pair by the
time of the accepted message. The two keys need not agree, and then the comparison runs in a cycle:
how the ledger is sorted and which binding is the latest depends on the order of the input.

## Key results
- `comparePromptAuthorLifecycleEvidence_nonpos`: the comparison as an order with two keys
- `lifecycleOrdered_iff`: it orders a set of bindings exactly when no legacy binding lies between
  two modern ones that their epochs put the other way round
- `lifecycle_cycle`: three records that it does not order
-/

namespace Bobbit.Server.AuthorSidecar

open Bobbit.Lib Bobbit.Lib.TwoKeyOrder

variable {α : Type}

/-! ## The two keys -/

/-- What two modern bindings are compared by: epoch, settlement and append order. -/
def epochKey (binding : PromptAuthorBinding α) : Rat ×ₗ Rat ×ₗ Rat :=
  toLex (binding.dispatchEpoch.getD (-1),
    toLex ((settledAt binding).getD (binding.dispatchEpoch.getD binding.dispatchedAt),
      orderOf binding))

/-- What every other pair is compared by: accepted time, settlement and append order. -/
def dispatchKey (binding : PromptAuthorBinding α) : Rat ×ₗ Rat ×ₗ Rat :=
  toLex (binding.dispatchedAt, toLex ((settledAt binding).getD (-1), orderOf binding))

theorem chain_nonpos_iff (a b c d e f : Rat) :
    (if a - b ≠ 0 then a - b else if c - d ≠ 0 then c - d else e - f) ≤ 0 ↔
      toLex (a, toLex (c, e)) ≤ toLex (b, toLex (d, f)) := by
  rw [Prod.Lex.toLex_le_toLex, Prod.Lex.toLex_le_toLex]
  split
  · rename_i hab
    have hne : a ≠ b := sub_ne_zero.mp hab
    rw [sub_nonpos]
    simp only [le_iff_lt_or_eq, hne, false_and, or_false]
  · rename_i hab
    have heq : a = b := sub_eq_zero.mp (not_not.mp hab)
    subst heq
    split
    · rename_i hcd
      have hne : c ≠ d := sub_ne_zero.mp hcd
      rw [sub_nonpos]
      simp only [lt_irrefl, le_iff_lt_or_eq, hne, false_and, or_false, true_and, false_or]
    · rename_i hcd
      have heq : c = d := sub_eq_zero.mp (not_not.mp hcd)
      subst heq
      simp

theorem comparePromptAuthorLifecycleEvidence_nonpos (left right : PromptAuthorBinding α) :
    comparePromptAuthorLifecycleEvidence left right ≤ 0 ↔
      NotAfter (fun b : PromptAuthorBinding α => isModern b = true) epochKey dispatchKey left
        right := by
  cases hl : isModern left with
  | false =>
    rw [notAfter_of_left (by simp [hl]), dispatchKey, dispatchKey, ← chain_nonpos_iff]
    simp [comparePromptAuthorLifecycleEvidence, hl]
  | true =>
    cases hr : isModern right with
    | false =>
      rw [notAfter_of_right (by simp [hr]), dispatchKey, dispatchKey, ← chain_nonpos_iff]
      simp [comparePromptAuthorLifecycleEvidence, hr]
    | true =>
      rw [notAfter_of_mem (by exact hl) (by exact hr), epochKey, epochKey, ← chain_nonpos_iff]
      simp [comparePromptAuthorLifecycleEvidence, hl, hr]

/-- The comparison changes its sign with its arguments. -/
theorem comparePromptAuthorLifecycleEvidence_swap (left right : PromptAuthorBinding α) :
    comparePromptAuthorLifecycleEvidence right left =
      - comparePromptAuthorLifecycleEvidence left right := by
  have hzero : ∀ a b : Rat, b - a ≠ 0 ↔ a - b ≠ 0 := by
    intro a b
    rw [sub_ne_zero, sub_ne_zero]
    exact ne_comm
  simp only [comparePromptAuthorLifecycleEvidence, Bool.and_comm (isModern right), hzero]
  split <;> split <;> (try split) <;> rw [neg_sub]

/-- The left binding is the older one. -/
def older (left right : PromptAuthorBinding α) : Prop :=
  comparePromptAuthorLifecycleEvidence left right < 0

instance (left right : PromptAuthorBinding α) : Decidable (older left right) :=
  inferInstanceAs (Decidable (_ < _))

theorem older_irrefl (binding : PromptAuthorBinding α) : ¬ older binding binding := by
  have hswap := comparePromptAuthorLifecycleEvidence_swap binding binding
  unfold older
  linarith

theorem older_iff (left right : PromptAuthorBinding α) :
    older left right ↔ ¬ comparePromptAuthorLifecycleEvidence right left ≤ 0 := by
  rw [comparePromptAuthorLifecycleEvidence_swap left right, neg_nonpos, not_le]
  rfl

/-! ## Sets that the comparison orders -/

/-- No legacy binding lies, by accepted time, between two modern bindings that their epochs put the
    other way round; ties of all three apart. -/
def EpochsAgree (S : Set (PromptAuthorBinding α)) : Prop :=
  Consistent (fun b : PromptAuthorBinding α => isModern b = true) epochKey dispatchKey S

/-- The result of `selectLatestPromptAuthorBinding`: a binding that passes and that no other
    binding that passes beats, and nothing only where none passes. -/
def NotBeaten (bindings : List (PromptAuthorBinding α)) (predicate : PromptAuthorBinding α → Bool) :
    Option (PromptAuthorBinding α) → Prop
  | none => ∀ binding ∈ bindings, predicate binding = false
  | some latest => latest ∈ bindings ∧ predicate latest = true ∧
      ∀ binding ∈ bindings, predicate binding = true → ¬ older latest binding

/-- The comparison is a strict weak order on the set, every fold of records into the set is sorted
    by it, and selecting from the set's bindings, in any order, finds one that is not beaten. -/
structure LifecycleOrdered (S : Set (PromptAuthorBinding α)) : Prop where
  strictWeak : StrictWeakOn S older
  sorted : ∀ (env : Platform α) (records : List (AuthorSidecarRecord α)),
    (∀ binding ∈ foldedBindings env records, binding ∈ S) →
      (foldAuthorSidecarRecords env records).Pairwise fun earlier later => ¬ older later earlier
  selected : ∀ (bindings : List (PromptAuthorBinding α))
    (predicate : PromptAuthorBinding α → Bool), (∀ binding ∈ bindings, binding ∈ S) →
      NotBeaten bindings predicate (selectLatestPromptAuthorBinding bindings predicate)

/-- The comparison is a strict weak order on a set exactly when the epochs agree with it. -/
theorem strictWeakOn_older_iff (S : Set (PromptAuthorBinding α)) :
    StrictWeakOn S older ↔ EpochsAgree S := by
  have holder : (older : PromptAuthorBinding α → PromptAuthorBinding α → Prop) =
      fun a b => ¬ NotAfter (fun b : PromptAuthorBinding α => isModern b = true) epochKey
        dispatchKey b a := by
    funext a b
    rw [eq_iff_iff, older_iff, comparePromptAuthorLifecycleEvidence_nonpos]
  rw [holder]
  exact strictWeakOn_iff_consistent S

/-- The comparison that sorting and selecting use. -/
def notAfter (left right : PromptAuthorBinding α) : Bool :=
  comparePromptAuthorLifecycleEvidence left right ≤ 0

theorem notAfter_iff (left right : PromptAuthorBinding α) :
    notAfter left right = true ↔ ¬ older right left := by
  rw [older_iff, not_not, notAfter, decide_eq_true_eq]

theorem notAfter_total (left right : PromptAuthorBinding α) :
    notAfter left right = true ∨ notAfter right left = true := by
  simp only [notAfter, decide_eq_true_eq, comparePromptAuthorLifecycleEvidence_nonpos]
  exact TwoKeyOrder.notAfter_total left right

theorem transOn_notAfter {S : Set (PromptAuthorBinding α)} (h : EpochsAgree S) :
    TransOn S fun a b => notAfter a b = true := by
  intro a ha b hb c hc hab hbc
  simp only [notAfter, decide_eq_true_eq, comparePromptAuthorLifecycleEvidence_nonpos] at hab hbc ⊢
  exact (transOn_iff_consistent S).mpr h a ha b hb c hc hab hbc

theorem selectLatestPromptAuthorBinding_eq (bindings : List (PromptAuthorBinding α))
    (predicate : PromptAuthorBinding α → Bool) :
    selectLatestPromptAuthorBinding bindings predicate = latest notAfter predicate bindings := by
  unfold selectLatestPromptAuthorBinding latest
  congr 1
  funext found binding
  cases found <;> simp [notAfter]

theorem notBeaten_of_unbeaten {bindings : List (PromptAuthorBinding α)}
    {predicate : PromptAuthorBinding α → Bool} {found : Option (PromptAuthorBinding α)}
    (h : Unbeaten notAfter predicate bindings found) : NotBeaten bindings predicate found := by
  cases found with
  | none => exact h
  | some best =>
    obtain ⟨hmem, hpass, hbeats⟩ := h
    exact ⟨hmem, hpass, fun binding hb hp => (notAfter_iff binding best).mp (hbeats binding hb hp)⟩

/-- The comparison orders a set of bindings exactly when its two keys agree on it. -/
theorem lifecycleOrdered_iff (S : Set (PromptAuthorBinding α)) :
    LifecycleOrdered S ↔ EpochsAgree S := by
  constructor
  · intro h
    exact (strictWeakOn_older_iff S).mp h.strictWeak
  · intro hagree
    have htrans := transOn_notAfter hagree
    constructor
    · exact (strictWeakOn_older_iff S).mpr hagree
    · intro env records hmem
      have hpair := pairwise_mergeSort_of_trans notAfter_total htrans hmem
      exact hpair.imp fun hab => (notAfter_iff _ _).mp hab
    · intro bindings predicate hmem
      rw [selectLatestPromptAuthorBinding_eq]
      exact notBeaten_of_unbeaten (latest_unbeaten notAfter_total htrans predicate hmem)

/-! ## Three records in a cycle -/

/-- A platform on which every author is valid and has no prefix. -/
def plainPlatform : Platform Unit :=
  ⟨fun _ => none, fun _ => none, fun _ => true, fun _ => 0, fun _ => none⟩

def userDispatch (promptId : String) (attemptId : Option String) (dispatchEpoch : Option Rat)
    (dispatchedAt : Rat) : AuthorSidecarRecord Unit :=
  .dispatch ⟨js promptId, attemptId.map js, attemptId.map js, dispatchEpoch, dispatchedAt,
    List.replicate 43 0x41, js "user", (), none⟩

/-- A legacy dispatch between two attempts, of which the later one's message was accepted first. -/
def cycleRecords : List (AuthorSidecarRecord Unit) :=
  [userDispatch "p" (some "a") (some 1) 100, userDispatch "q" none none 50,
    userDispatch "r" (some "b") (some 2) 10]

/-- The three are older than one another in a cycle, the fold leaves a binding before an older one,
    and the latest binding depends on the order of the input. -/
theorem lifecycle_cycle :
    ¬ StrictWeakOn {binding | binding ∈ foldedBindings plainPlatform cycleRecords} older ∧
      ¬ (foldAuthorSidecarRecords plainPlatform cycleRecords).Pairwise
        (fun earlier later => ¬ older later earlier) ∧
      selectLatestPromptAuthorBinding (foldedBindings plainPlatform cycleRecords) (fun _ => true) ≠
        selectLatestPromptAuthorBinding (foldedBindings plainPlatform cycleRecords).reverse
          (fun _ => true) := by
  have hcycle : ∃ a ∈ foldedBindings plainPlatform cycleRecords,
      ∃ b ∈ foldedBindings plainPlatform cycleRecords,
      ∃ c ∈ foldedBindings plainPlatform cycleRecords, older a b ∧ older b c ∧ older c a := by
    decide +kernel
  obtain ⟨a, ha, b, hb, c, hc, hab, hbc, hca⟩ := hcycle
  refine ⟨?_, ?_, ?_⟩
  · intro hweak
    exact hweak.asymm c hc a ha hca (hweak.trans a ha b hb c hc hab hbc)
  · apply not_pairwise_of_cycle older_irrefl (List.mem_mergeSort.mpr ha) (List.mem_mergeSort.mpr hb)
      (List.mem_mergeSort.mpr hc) hab hbc hca
  · decide +kernel

end Bobbit.Server.AuthorSidecar
