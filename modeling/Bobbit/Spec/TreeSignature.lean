import Bobbit.Server.CostTracker
import Bobbit.Lib.List

/-!
# The signature of a goal tree

The signature is a text, and two trees with one signature have the same members: the same ids,
parents, roots, archived flags and times of creation, in whatever order.

## Key results

* `signaturePart_inj` — a part tells the fields of its goal.
* `perm_of_signature` — a signature tells the shapes of the members.
-/

namespace Bobbit.Server

open Lib

/-- What the signature says about a goal. -/
structure GoalShape where
  id : String
  parentGoalId : String
  rootGoalId : String
  archived : Bool
  createdAt : Nat
  deriving DecidableEq

def TreeCostGoal.shape (g : TreeCostGoal) : GoalShape where
  id := g.id
  parentGoalId := g.parentGoalId.getD ""
  rootGoalId := g.rootGoalId.getD ""
  archived := g.archived
  createdAt := g.createdAt.getD 0

/-! ## Texts without separators -/

/-- The text has none of the separators of the signature. -/
def Plain (s : List Char) : Prop := '|' ∉ s ∧ ',' ∉ s ∧ ':' ∉ s

theorem plain_repr (n : Nat) : Plain (Nat.repr n).toList := by
  have hdigit : ∀ c ∈ (Nat.repr n).toList, c.isDigit = true := by
    intro c hc
    rw [Nat.repr, String.toList_ofList] at hc
    exact Nat.isDigit_of_mem_toDigits (by decide) (by decide) hc
  refine ⟨fun h => ?_, fun h => ?_, fun h => ?_⟩ <;> exact absurd (hdigit _ h) (by decide)

theorem idField {id : Option String} (h : ∀ i, id = some i → IsGoalId i) :
    '|' ∉ (id.getD "").toList ∧ ',' ∉ (id.getD "").toList := by
  cases hid : id with
  | none => simp
  | some i => exact (h i hid).2

theorem append_cons_inj {c : Char} {a b s t : List Char} (ha : c ∉ a) (hb : c ∉ b)
    (h : a ++ c :: s = b ++ c :: t) : a = b ∧ s = t := by
  induction a generalizing b with
  | nil =>
    cases b with
    | nil => exact ⟨rfl, (List.cons.inj h).2⟩
    | cons d b => exact absurd ((List.cons.inj h).1 ▸ List.mem_cons_self) hb
  | cons d a ih =>
    cases b with
    | nil => exact absurd ((List.cons.inj h).1 ▸ List.mem_cons_self) ha
    | cons e b =>
      obtain ⟨hab, hst⟩ := ih (fun hmem => ha (List.mem_cons_of_mem _ hmem))
        (fun hmem => hb (List.mem_cons_of_mem _ hmem)) (List.cons.inj h).2
      exact ⟨by rw [(List.cons.inj h).1, hab], hst⟩

/-! ## Parts -/

def signatureFields (g : TreeCostGoal) : List (List Char) :=
  [g.id.toList, (g.parentGoalId.getD "").toList, (g.rootGoalId.getD "").toList,
    if g.archived then ['a'] else [], (Nat.repr (g.createdAt.getD 0)).toList]

theorem signaturePart_eq (g : TreeCostGoal) :
    signaturePart g = ['|'].intercalate (signatureFields g) := by
  simp [signaturePart, signatureFields, List.intercalate]

theorem fields_plain (g : TreeCostGoal) :
    ∀ field ∈ signatureFields g, '|' ∉ field ∧ ',' ∉ field := by
  have hflag : '|' ∉ (if g.archived then ['a'] else []) ∧
      ',' ∉ (if g.archived then ['a'] else []) := by
    cases g.archived <;> decide
  have hrepr := plain_repr (g.createdAt.getD 0)
  simp only [signatureFields, List.mem_cons, List.not_mem_nil, or_false]
  rintro field (rfl | rfl | rfl | rfl | rfl)
  · exact g.idOk.2
  · exact idField g.parentOk
  · exact idField g.rootOk
  · exact hflag
  · exact ⟨hrepr.1, hrepr.2.1⟩

theorem signaturePart_inj {g g' : TreeCostGoal} (h : signaturePart g = signaturePart g') :
    g.shape = g'.shape := by
  rw [signaturePart_eq, signaturePart_eq] at h
  have hsplit := congrArg (List.splitOn '|') h
  rw [List.splitOn_intercalate _ (fun f hf => (fields_plain g f hf).1) (List.cons_ne_nil _ _),
    List.splitOn_intercalate _ (fun f hf => (fields_plain g' f hf).1) (List.cons_ne_nil _ _)] at hsplit
  simp only [signatureFields, List.cons.injEq, and_true, String.toList_inj, Nat.repr_inj] at hsplit
  obtain ⟨hid, hparent, hroot, hflag, htime⟩ := hsplit
  have harchived : g.archived = g'.archived := by
    revert hflag
    cases g.archived <;> cases g'.archived <;> simp
  simp only [TreeCostGoal.shape, hid, hparent, hroot, harchived, htime]

theorem comma_not_mem_part (g : TreeCostGoal) : ',' ∉ signaturePart g := by
  have hfields := fun f hf => (fields_plain g f hf).2
  simp only [signatureFields, List.mem_cons, List.not_mem_nil, or_false, forall_eq_or_imp,
    forall_eq] at hfields
  have hbar : ',' ≠ '|' := by decide
  simp only [signaturePart, List.mem_append, List.mem_cons, hfields, hbar, or_self, not_false_eq_true]

/-! ## Signatures -/

def sortedParts (rootGoalId : String) (allGoals : List TreeCostGoal) : List (List Char) :=
  ((treeMembers rootGoalId allGoals).map signaturePart).mergeSort textLe

theorem sortedParts_perm (rootGoalId : String) (allGoals : List TreeCostGoal) :
    (sortedParts rootGoalId allGoals).Perm
      ((treeMembers rootGoalId allGoals).map signaturePart) := List.mergeSort_perm _ _

theorem comma_not_mem_sortedParts (rootGoalId : String) (allGoals : List TreeCostGoal) :
    ∀ part ∈ sortedParts rootGoalId allGoals, ',' ∉ part := by
  intro part hpart
  obtain ⟨g, -, rfl⟩ := List.mem_map.mp ((sortedParts_perm rootGoalId allGoals).mem_iff.mp hpart)
  exact comma_not_mem_part g

theorem sortedParts_of_signature {rootGoalId : String} {allGoals allGoals' : List TreeCostGoal}
    (h : computeTreeSignature rootGoalId allGoals = computeTreeSignature rootGoalId allGoals') :
    sortedParts rootGoalId allGoals = sortedParts rootGoalId allGoals' := by
  unfold computeTreeSignature at h
  dsimp only at h
  obtain ⟨hcount, hparts⟩ := append_cons_inj (plain_repr _).2.2 (plain_repr _).2.2 h
  rw [String.toList_inj, Nat.repr_inj] at hcount
  have hlength : (sortedParts rootGoalId allGoals).length =
      (sortedParts rootGoalId allGoals').length := hcount
  cases hsorted : sortedParts rootGoalId allGoals with
  | nil =>
    rw [hsorted] at hlength
    exact (List.eq_nil_of_length_eq_zero hlength.symm).symm
  | cons part rest =>
    have hne : sortedParts rootGoalId allGoals ≠ [] := by
      rw [hsorted]
      exact List.cons_ne_nil _ _
    have hne' : sortedParts rootGoalId allGoals' ≠ [] := by
      intro hnil
      rw [hnil, hsorted] at hlength
      cases hlength
    rw [← hsorted, ← List.splitOn_intercalate ',' (comma_not_mem_sortedParts _ _) hne,
      ← List.splitOn_intercalate ',' (comma_not_mem_sortedParts _ _) hne']
    exact congrArg (List.splitOn ',') hparts

theorem perm_map_of_inj {α β γ : Type} {f : α → β} {shape : α → γ} {l l' : List α}
    (hinj : ∀ a a', f a = f a' → shape a = shape a') (h : (l.map f).Perm (l'.map f)) :
    (l.map shape).Perm (l'.map shape) := by
  classical
  obtain ⟨g, hg⟩ : ∃ g : β → Option γ, ∀ a, g (f a) = some (shape a) := by
    refine ⟨fun b => if hb : ∃ a, f a = b then some (shape hb.choose) else none, fun a => ?_⟩
    have hb : ∃ a', f a' = f a := ⟨a, rfl⟩
    show (if hb : ∃ a', f a' = f a then some (shape hb.choose) else none) = some (shape a)
    rw [dif_pos hb, hinj _ _ hb.choose_spec]
  have hmap : ∀ l : List α, (l.map f).filterMap g = l.map shape := by
    intro l
    rw [List.filterMap_map]
    exact (List.filterMap_congr fun a _ => hg a).trans (by simp [List.filterMap_eq_map'])
  rw [← hmap, ← hmap]
  exact h.filterMap g

theorem perm_of_signature {rootGoalId : String} {allGoals allGoals' : List TreeCostGoal}
    (h : computeTreeSignature rootGoalId allGoals = computeTreeSignature rootGoalId allGoals') :
    ((treeMembers rootGoalId allGoals).map TreeCostGoal.shape).Perm
      ((treeMembers rootGoalId allGoals').map TreeCostGoal.shape) := by
  have hparts := sortedParts_perm rootGoalId allGoals
  rw [sortedParts_of_signature h] at hparts
  exact perm_map_of_inj (fun _ _ => signaturePart_inj) (hparts.symm.trans (sortedParts_perm _ _))

end Bobbit.Server
