import Mathlib

/-!
# Orders with two keys

A comparison that looks at one key inside a class and at another everywhere else is total, but it
need not be transitive. This file says exactly when it is a strict weak order, and what sorting and
picking a latest element give where it is one.

## Key results
- `strictWeakOn_iff_consistent`: a strict weak order on a set iff no element outside the class lies,
  by its key, between two elements of the class that the other key puts the other way round
- `pairwise_mergeSort_of_trans`, `latest_unbeaten`: sorting and selecting on such a set
-/

namespace Bobbit.Lib.TwoKeyOrder

variable {β κ ε : Type*}

/-! ## Strict weak orders on a set -/

/-- Asymmetric and transitive on the set, and so is not being comparable. -/
structure StrictWeakOn (S : Set β) (lt : β → β → Prop) : Prop where
  asymm : ∀ a ∈ S, ∀ b ∈ S, lt a b → ¬ lt b a
  trans : ∀ a ∈ S, ∀ b ∈ S, ∀ c ∈ S, lt a b → lt b c → lt a c
  incomp_trans : ∀ a ∈ S, ∀ b ∈ S, ∀ c ∈ S, ¬ lt a b → ¬ lt b a → ¬ lt b c → ¬ lt c b →
    ¬ lt a c ∧ ¬ lt c a

def TransOn (S : Set β) (le : β → β → Prop) : Prop :=
  ∀ a ∈ S, ∀ b ∈ S, ∀ c ∈ S, le a b → le b c → le a c

/-- A total relation is transitive exactly when its strict part is a strict weak order. -/
theorem strictWeakOn_iff_transOn {le : β → β → Prop} (total : ∀ a b, le a b ∨ le b a) (S : Set β) :
    StrictWeakOn S (fun a b => ¬ le b a) ↔ TransOn S le := by
  constructor
  · intro hweak a ha b hb c hc hab hbc
    by_contra hac
    by_cases hba : le b a
    · by_cases hcb : le c b
      · -- neither pair is strict, so the ends do not compare either
        have hend := hweak.incomp_trans a ha b hb c hc (not_not.mpr hba) (not_not.mpr hab)
          (not_not.mpr hcb) (not_not.mpr hbc)
        exact hend.2 hac
      · exact hweak.trans b hb c hc a ha hcb hac hab
    · exact hweak.trans c hc a ha b hb hac hba hbc
  · intro htrans
    constructor
    · intro a ha b hb hab hba
      exact (total a b).elim hba hab
    · intro a ha b hb c hc hab hbc hca
      have hbc' := (total b c).resolve_right hbc
      exact hab (htrans b hb c hc a ha hbc' hca)
    · intro a ha b hb c hc hab hba hbc hcb
      simp only [not_not] at hab hba hbc hcb ⊢
      exact ⟨htrans c hc b hb a ha hbc hab, htrans a ha b hb c hc hba hcb⟩

/-! ## Two keys -/

section Keys

variable [LinearOrder κ] [LinearOrder ε] (inClass : β → Prop) (inner : β → ε) (outer : β → κ)

/-- Not after: by the inner key inside the class, by the outer key otherwise. -/
def NotAfter (a b : β) : Prop :=
  (inClass a ∧ inClass b ∧ inner a ≤ inner b) ∨ (¬ (inClass a ∧ inClass b) ∧ outer a ≤ outer b)

/-- No element outside the class lies between two elements of the class that are the other way
    round, unless all three tie. -/
def Consistent (S : Set β) : Prop :=
  ∀ a ∈ S, ∀ x ∈ S, ∀ b ∈ S, inClass a → ¬ inClass x → inClass b →
    outer a ≤ outer x → outer x ≤ outer b → inner b ≤ inner a →
      outer a = outer x ∧ outer x = outer b ∧ inner a = inner b

variable {inClass inner outer}

theorem notAfter_of_mem {a b : β} (ha : inClass a) (hb : inClass b) :
    NotAfter inClass inner outer a b ↔ inner a ≤ inner b := by
  simp [NotAfter, ha, hb]

theorem notAfter_of_left {a b : β} (ha : ¬ inClass a) :
    NotAfter inClass inner outer a b ↔ outer a ≤ outer b := by
  simp [NotAfter, ha]

theorem notAfter_of_right {a b : β} (hb : ¬ inClass b) :
    NotAfter inClass inner outer a b ↔ outer a ≤ outer b := by
  simp [NotAfter, hb]

theorem notAfter_total (a b : β) :
    NotAfter inClass inner outer a b ∨ NotAfter inClass inner outer b a := by
  by_cases ha : inClass a
  · by_cases hb : inClass b
    · rw [notAfter_of_mem ha hb, notAfter_of_mem hb ha]
      exact le_total _ _
    · rw [notAfter_of_right hb, notAfter_of_left hb]
      exact le_total _ _
  · rw [notAfter_of_left ha, notAfter_of_right ha]
    exact le_total _ _

theorem notAfter_trans_middle {S : Set β} (h : Consistent inClass inner outer S) {a x b : β}
    (ha : a ∈ S) (hx : x ∈ S) (hb : b ∈ S) (hain : inClass a) (hxout : ¬ inClass x)
    (hbin : inClass b) (hax : outer a ≤ outer x) (hxb : outer x ≤ outer b) :
    inner a ≤ inner b := by
  rcases le_total (inner a) (inner b) with hab | hba
  · exact hab
  · exact (h a ha x hx b hb hain hxout hbin hax hxb hba).2.2.le

/-- The comparison is transitive on exactly the consistent sets. -/
theorem transOn_iff_consistent (S : Set β) :
    TransOn S (NotAfter inClass inner outer) ↔ Consistent inClass inner outer S := by
  constructor
  · intro htrans a ha x hx b hb hain hxout hbin hax hxb hba
    have hab : inner a ≤ inner b := by
      have := htrans a ha x hx b hb ((notAfter_of_right hxout).mpr hax)
        ((notAfter_of_left hxout).mpr hxb)
      exact (notAfter_of_mem hain hbin).mp this
    have hxa : outer x ≤ outer a := by
      have := htrans x hx b hb a ha ((notAfter_of_left hxout).mpr hxb)
        ((notAfter_of_mem hbin hain).mpr hba)
      exact (notAfter_of_left hxout).mp this
    have hbx : outer b ≤ outer x := by
      have := htrans b hb a ha x hx ((notAfter_of_mem hbin hain).mpr hba)
        ((notAfter_of_right hxout).mpr hax)
      exact (notAfter_of_right hxout).mp this
    exact ⟨hax.antisymm hxa, hxb.antisymm hbx, hab.antisymm hba⟩
  · intro h a ha b hb c hc hab hbc
    -- only a triple with exactly one element outside the class mixes the keys
    by_cases hain : inClass a <;> by_cases hbin : inClass b <;> by_cases hcin : inClass c
    · rw [notAfter_of_mem hain hbin] at hab
      rw [notAfter_of_mem hbin hcin] at hbc
      exact (notAfter_of_mem hain hcin).mpr (hab.trans hbc)
    · rw [notAfter_of_mem hain hbin] at hab
      rw [notAfter_of_right hcin] at hbc ⊢
      by_contra hac
      have htie := h b hb c hc a ha hbin hcin hain hbc (not_le.mp hac).le hab
      exact hac htie.2.1.ge
    · rw [notAfter_of_right hbin] at hab
      rw [notAfter_of_left hbin] at hbc
      exact (notAfter_of_mem hain hcin).mpr
        (notAfter_trans_middle h ha hb hc hain hbin hcin hab hbc)
    · rw [notAfter_of_right hbin] at hab
      rw [notAfter_of_left hbin] at hbc
      exact (notAfter_of_right hcin).mpr (hab.trans hbc)
    · rw [notAfter_of_left hain] at hab ⊢
      rw [notAfter_of_mem hbin hcin] at hbc
      by_contra hac
      have htie := h c hc a ha b hb hcin hain hbin (not_le.mp hac).le hab hbc
      exact hac htie.1.ge
    · rw [notAfter_of_left hain] at hab ⊢
      rw [notAfter_of_right hcin] at hbc
      exact hab.trans hbc
    · rw [notAfter_of_left hain] at hab ⊢
      rw [notAfter_of_left hbin] at hbc
      exact hab.trans hbc
    · rw [notAfter_of_left hain] at hab ⊢
      rw [notAfter_of_left hbin] at hbc
      exact hab.trans hbc

/-- The comparison is a strict weak order on exactly the consistent sets. -/
theorem strictWeakOn_iff_consistent (S : Set β) :
    StrictWeakOn S (fun a b => ¬ NotAfter inClass inner outer b a) ↔
      Consistent inClass inner outer S := by
  rw [strictWeakOn_iff_transOn notAfter_total, transOn_iff_consistent]

end Keys

/-! ## Sorting and selecting -/

/-- Sorting needs a transitive comparison of the list's own elements only. -/
theorem pairwise_mergeSort_of_trans {le : β → β → Bool} {S : Set β}
    (total : ∀ a b, le a b ∨ le b a) (htrans : TransOn S (le · ·)) {l : List β}
    (hl : ∀ a ∈ l, a ∈ S) : (l.mergeSort le).Pairwise (le · ·) := by
  have hsorted : (l.attach.mergeSort fun a b => le a.1 b.1).Pairwise fun a b => le a.1 b.1 := by
    apply List.pairwise_mergeSort
    · intro a b c hab hbc
      exact htrans a.1 (hl _ a.2) b.1 (hl _ b.2) c.1 (hl _ c.2) hab hbc
    · intro a b
      simpa using total a.1 b.1
  have hmap := List.pairwise_map (f := Subtype.val) (R := fun a b => le a b = true)|>.mpr hsorted
  rwa [List.map_mergeSort (s := le) (fun _ _ _ _ => rfl), List.attach_map_subtype_val] at hmap

/-- No order of a list puts the elements of a cycle so that none is before a smaller one. -/
theorem not_pairwise_of_cycle {lt : β → β → Prop} (irrefl : ∀ a, ¬ lt a a) {l : List β} {a b c : β}
    (ha : a ∈ l) (hb : b ∈ l) (hc : c ∈ l) (hab : lt a b) (hbc : lt b c) (hca : lt c a) :
    ¬ l.Pairwise fun earlier later => ¬ lt later earlier := by
  intro hpair
  have hbefore : ∀ i j (hi : i < l.length) (hj : j < l.length), lt l[i] l[j] → i < j := by
    intro i j hi hj hij
    rcases Nat.lt_trichotomy i j with h | h | h
    · exact h
    · subst h
      exact absurd hij (irrefl _)
    · exact absurd hij (List.pairwise_iff_getElem.mp hpair j i hj hi h)
  obtain ⟨i, hi, rfl⟩ := List.mem_iff_getElem.mp ha
  obtain ⟨j, hj, rfl⟩ := List.mem_iff_getElem.mp hb
  obtain ⟨k, hk, rfl⟩ := List.mem_iff_getElem.mp hc
  have hij := hbefore i j hi hj hab
  have hjk := hbefore j k hj hk hbc
  have hki := hbefore k i hk hi hca
  omega

/-- A fold that keeps the latest element that passes. -/
def latest (le : β → β → Bool) (passes : β → Bool) (l : List β) : Option β :=
  l.foldl (fun found b =>
    if ! passes b then found
    else match found with
      | none => some b
      | some best => if le best b then some b else some best) none

/-- Nothing that passes beats the result. -/
def Unbeaten (le : β → β → Bool) (passes : β → Bool) (l : List β) : Option β → Prop
  | none => ∀ a ∈ l, passes a = false
  | some best => best ∈ l ∧ passes best = true ∧ ∀ a ∈ l, passes a = true → le a best = true

theorem latest_concat (le : β → β → Bool) (passes : β → Bool) (l : List β) (b : β) :
    latest le passes (l ++ [b]) =
      if ! passes b then latest le passes l
      else match latest le passes l with
        | none => some b
        | some best => if le best b then some b else some best := by
  simp [latest]

/-- On a set where the comparison is transitive, the fold finds an unbeaten element. -/
theorem latest_unbeaten {le : β → β → Bool} {S : Set β} (total : ∀ a b, le a b ∨ le b a)
    (htrans : TransOn S (le · ·)) (passes : β → Bool) {l : List β} (hl : ∀ a ∈ l, a ∈ S) :
    Unbeaten le passes l (latest le passes l) := by
  induction l using List.reverseRecOn with
  | nil => simp [latest, Unbeaten]
  | append_singleton l b ih =>
    have hmem : ∀ a ∈ l, a ∈ S := fun a ha => hl a (List.mem_append_left _ ha)
    have hb : b ∈ S := hl b (by simp)
    have hrefl : le b b = true := (total b b).elim id id
    specialize ih hmem
    rw [latest_concat]
    cases hpass : passes b with
    | false =>
      -- an element that does not pass changes nothing
      simp only [Bool.not_false, if_true]
      cases hfound : latest le passes l with
      | none =>
        rw [hfound] at ih
        simpa [Unbeaten, or_imp, forall_and, hpass] using ih
      | some best =>
        rw [hfound] at ih
        simpa [Unbeaten, or_imp, forall_and, hpass, ih.1] using ih.2
    | true =>
      simp only [Bool.not_true, Bool.false_eq_true, if_false]
      cases hfound : latest le passes l with
      | none =>
        rw [hfound] at ih
        refine ⟨by simp, hpass, List.forall_mem_append.mpr ⟨?_, by simpa using fun _ => hrefl⟩⟩
        intro a ha hapass
        rw [ih a ha] at hapass
        cases hapass
      | some best =>
        rw [hfound] at ih
        obtain ⟨hbest, hbestpass, hbeats⟩ := ih
        cases hle : le best b with
        | true =>
          simp only [hle, if_true]
          refine ⟨by simp, hpass, List.forall_mem_append.mpr ⟨?_, by simpa using fun _ => hrefl⟩⟩
          intro a ha hapass
          exact htrans a (hmem a ha) best (hmem best hbest) b hb (hbeats a ha hapass) hle
        | false =>
          simp only [hle, Bool.false_eq_true, if_false]
          have hbeaten : le b best = true := by
            simpa [hle] using total best b
          refine ⟨List.mem_append_left _ hbest, hbestpass, List.forall_mem_append.mpr ⟨hbeats, ?_⟩⟩
          simpa using fun _ => hbeaten

end Bobbit.Lib.TwoKeyOrder
