import Mathlib

/-!
# Matching by kind

When every item of a list can be given an item of another list that admits it, no two
of them the same one, where who may be given depends on the kind of the item alone.

## Key results
- `exists_injective_of_kinds`: when no kind has more items than there are items that
  admit it, by Hall's theorem.
- `exists_matching_iff`: so for the places of two lists.
- `exists_injective_on_iff`: Hall's theorem for a part of a type.
-/

namespace Bobbit.Lib

/-! ## Finite types -/

section FiniteTypes

variable {ι β κ : Type*} [Fintype ι] [Fintype β] [DecidableEq κ]
  (kind : ι → κ) (admits : β → κ → Prop) [∀ b k, Decidable (admits b k)]

/-- The items of one kind are given to different ones that admit it. -/
theorem card_kind_le {f : ι → β} (hinj : Function.Injective f)
    (hf : ∀ i, admits (f i) (kind i)) (k : κ) :
    (Finset.univ.filter fun i => kind i = k).card ≤
      (Finset.univ.filter fun b => admits b k).card := by
  refine Finset.card_le_card_of_injOn f ?_ hinj.injOn
  intro i hi
  have hk : kind i = k := by simpa using hi
  simpa [hk] using hf i

/-- The items of a set, kind by kind, are at most as many as those that admit one of the
    kinds. -/
theorem card_le_card_biUnion [DecidableEq β]
    (hone : ∀ b k k', admits b k → admits b k' → k = k')
    (hle : ∀ i, (Finset.univ.filter fun i' => kind i' = kind i).card ≤
      (Finset.univ.filter fun b => admits b (kind i)).card) (s : Finset ι) :
    s.card ≤ (s.biUnion fun i => Finset.univ.filter fun b => admits b (kind i)).card := by
  let takers (k : κ) : Finset β := Finset.univ.filter fun b => admits b k
  have hkinds : (s.biUnion fun i => takers (kind i)) = (s.image kind).biUnion takers := by
    rw [Finset.image_biUnion]
  have hdisjoint : ((s.image kind : Finset κ) : Set κ).PairwiseDisjoint takers := by
    intro k _ k' _ hne
    refine Finset.disjoint_left.mpr ?_
    intro b hb hb'
    exact hne (hone b k k' (by simpa [takers] using hb) (by simpa [takers] using hb'))
  calc s.card = ∑ k ∈ s.image kind, (s.filter fun i => kind i = k).card :=
        Finset.card_eq_sum_card_image kind s
    _ ≤ ∑ k ∈ s.image kind, (takers k).card := by
        refine Finset.sum_le_sum ?_
        intro k hk
        obtain ⟨i, _, rfl⟩ := Finset.mem_image.mp hk
        exact (Finset.card_le_card (Finset.filter_subset_filter _ (Finset.subset_univ s))).trans
          (hle i)
    _ = ((s.image kind).biUnion takers).card := (Finset.card_biUnion hdisjoint).symm
    _ = (s.biUnion fun i => takers (kind i)).card := by rw [hkinds]

/-- Everyone is given an item of his own iff no kind is short of them. -/
theorem exists_injective_of_kinds (hone : ∀ b k k', admits b k → admits b k' → k = k') :
    (∃ f : ι → β, Function.Injective f ∧ ∀ i, admits (f i) (kind i)) ↔
      ∀ i, (Finset.univ.filter fun i' => kind i' = kind i).card ≤
        (Finset.univ.filter fun b => admits b (kind i)).card := by
  constructor
  · rintro ⟨f, hinj, hf⟩ i
    exact card_kind_le kind admits hinj hf (kind i)
  · intro hle
    have := Classical.decEq β
    obtain ⟨f, hinj, hf⟩ := (Finset.all_card_le_biUnion_card_iff_exists_injective
      fun i => Finset.univ.filter fun b => admits b (kind i)).mp
        (card_le_card_biUnion kind admits hone hle)
    exact ⟨f, hinj, fun i => by simpa using hf i⟩

end FiniteTypes

/-! ## A part of a type -/

/-- Everyone of a part is given an item that fits, no two of them the same one, iff any number of
    them have together at least as many items that fit one of them. -/
theorem exists_injective_on_iff {ι β : Type*} [Fintype β] [DecidableEq β] (p : ι → Prop)
    (fits : ι → β → Prop) [∀ i b, Decidable (fits i b)] :
    (∃ f : {i // p i} → β, Function.Injective f ∧ ∀ i : {i // p i}, fits i (f i)) ↔
      ∀ s : Finset ι, (∀ i ∈ s, p i) →
        s.card ≤ (Finset.univ.filter fun b => ∃ i ∈ s, fits i b).card := by
  have hhall := Finset.all_card_le_biUnion_card_iff_exists_injective
    fun i : {i // p i} => Finset.univ.filter fun b => fits i b
  constructor
  · rintro ⟨f, hinj, hf⟩ s hs
    -- the chosen items of the set are different and fit
    let items (i : {i // i ∈ s}) : β := f ⟨i, hs i i.2⟩
    have hitems : Function.Injective items := by
      intro i j hij
      exact Subtype.ext (Subtype.mk.inj (hinj hij))
    have hcard := Finset.card_le_card_of_injOn items
      (s := s.attach) (t := Finset.univ.filter fun b => ∃ i ∈ s, fits i b)
      (fun i _ => Finset.mem_coe.mpr (Finset.mem_filter.mpr
        ⟨Finset.mem_univ _, i, i.2, hf ⟨i, hs i i.2⟩⟩))
      hitems.injOn
    rwa [Finset.card_attach] at hcard
  · intro h
    obtain ⟨f, hinj, hf⟩ := hhall.mp fun s => by
      have hpart := h (s.map (Function.Embedding.subtype p)) (by
        intro i hi
        obtain ⟨j, -, rfl⟩ := Finset.mem_map.mp hi
        exact j.2)
      rw [Finset.card_map] at hpart
      refine hpart.trans (Finset.card_le_card ?_)
      intro b hb
      obtain ⟨-, i, hi, hfits⟩ := Finset.mem_filter.mp hb
      obtain ⟨j, hj, rfl⟩ := Finset.mem_map.mp hi
      exact Finset.mem_biUnion.mpr ⟨j, hj, Finset.mem_filter.mpr ⟨Finset.mem_univ _, hfits⟩⟩
    exact ⟨f, hinj, fun i => (Finset.mem_filter.mp (hf i)).2⟩

/-! ## Lists -/

theorem card_filter_get {α : Type*} (p : α → Bool) (xs : List α) :
    (Finset.univ.filter fun i : Fin xs.length => p (xs.get i)).card = xs.countP p := by
  induction xs with
  | nil => rfl
  | cons x rest ih =>
    rw [List.countP_cons, ← ih]
    exact (Fin.card_filter_univ_succ fun i : Fin (rest.length + 1) => p ((x :: rest).get i)).trans
      (by simp [add_comm]; split <;> omega)

/-- The places of a list can be given places of another that admit them, each its own, iff
    no kind of item is more frequent in the first than those that admit it in the second. -/
theorem exists_matching_iff {α β κ : Type*} [DecidableEq κ] (kind : α → κ)
    (admits : β → κ → Prop) [∀ b k, Decidable (admits b k)]
    (hone : ∀ b k k', admits b k → admits b k' → k = k') (xs : List α) (ys : List β) :
    (∃ f : Fin xs.length → Fin ys.length, Function.Injective f ∧
        ∀ i, admits (ys.get (f i)) (kind (xs.get i))) ↔
      ∀ x ∈ xs, (xs.countP fun x' => kind x' = kind x) ≤
        ys.countP fun y => admits y (kind x) := by
  rw [exists_injective_of_kinds (fun i : Fin xs.length => kind (xs.get i))
    (fun j : Fin ys.length => admits (ys.get j)) (fun j => hone (ys.get j))]
  have hcounts (x : α) :
      ((Finset.univ.filter fun i : Fin xs.length => kind (xs.get i) = kind x).card ≤
        (Finset.univ.filter fun j : Fin ys.length => admits (ys.get j) (kind x)).card) ↔
      (xs.countP fun x' => kind x' = kind x) ≤ ys.countP fun y => admits y (kind x) := by
    rw [← card_filter_get, ← card_filter_get]
    simp only [decide_eq_true_eq]
  constructor
  · intro h x hx
    obtain ⟨i, rfl⟩ := List.get_of_mem hx
    exact (hcounts _).mp (h i)
  · intro h i
    exact (hcounts _).mpr (h _ (List.get_mem xs i))

end Bobbit.Lib
