import Mathlib

/-!
# List lemmas

Facts about lists that the proofs use and the library does not have.
-/

namespace Bobbit.Lib

variable {α : Type*}

variable {l : List α} {i : Nat}

theorem two_le_countP {p : α → Bool} {j : Nat} (hij : i < j) (hj : j < l.length)
    (hpi : p l[i] = true) (hpj : p l[j] = true) : 2 ≤ l.countP p := by
  have hfirst : 0 < (l.take j).countP p :=
    List.countP_pos_iff.mpr ⟨l[i], List.mem_take_iff_getElem.mpr ⟨i, by omega, rfl⟩, hpi⟩
  have hsecond : 0 < (l.drop j).countP p :=
    List.countP_pos_iff.mpr ⟨l[j], List.mem_drop_iff_getElem.mpr ⟨0, by omega, by simp⟩, hpj⟩
  have hsplit := congrArg (List.countP p) (List.take_append_drop j l)
  rw [List.countP_append] at hsplit
  omega

variable {a : α}

/-- A count over concatenated lists, of which one alone has anything to count. -/
theorem countP_flatMap_of_nodup {β : Type*} [DecidableEq α] {f : α → List β} {p : β → Bool}
    (hnodup : l.Nodup) (hzero : ∀ x ∈ l, x ≠ a → (f x).countP p = 0) :
    (l.flatMap f).countP p = if a ∈ l then (f a).countP p else 0 := by
  induction l with
  | nil => rfl
  | cons x rest ih =>
    have hrest := ih hnodup.of_cons fun y hy => hzero y (List.mem_cons_of_mem _ hy)
    rw [List.flatMap_cons, List.countP_append, hrest]
    by_cases hx : x = a
    · subst hx
      simp [(List.nodup_cons.mp hnodup).1]
    · simp [hzero x List.mem_cons_self hx, Ne.symm hx]

theorem countP_modify {p : α → Bool} {f : α → α} (h : l[i]? = some a) :
    (l.modify i f).countP p + (if p a then 1 else 0) =
      l.countP p + if p (f a) then 1 else 0 := by
  induction l generalizing i with
  | nil => cases h
  | cons b rest ih =>
    cases i with
    | zero =>
      obtain rfl : b = a := by simpa using h
      rw [List.modify_zero_cons, List.countP_cons, List.countP_cons]
      omega
    | succ i =>
      have hrest := ih (i := i) (by simpa using h)
      rw [List.modify_succ_cons, List.countP_cons, List.countP_cons]
      omega

theorem filter_modify_perm {p : α → Bool} {f : α → α}
    (h : l[i]? = some a) (hpa : p a = true) (hpf : p (f a) = false) :
    (a :: (l.modify i f).filter p).Perm (l.filter p) := by
  induction l generalizing i with
  | nil => cases h
  | cons b rest ih =>
    cases i with
    | zero =>
      obtain rfl : b = a := by simpa using h
      rw [List.modify_zero_cons, List.filter_cons, List.filter_cons, hpa, hpf]
      exact .refl _
    | succ i =>
      have hrest := ih (i := i) (by simpa using h)
      rw [List.modify_succ_cons, List.filter_cons, List.filter_cons]
      cases p b with
      | true => exact (List.Perm.swap _ _ _).trans (hrest.cons b)
      | false => exact hrest

theorem filter_modify_cons_perm {p : α → Bool} {f : α → α}
    (h : l[i]? = some a) (hpa : p a = false) (hpf : p (f a) = true) :
    ((l.modify i f).filter p).Perm (f a :: l.filter p) := by
  induction l generalizing i with
  | nil => cases h
  | cons b rest ih =>
    cases i with
    | zero =>
      obtain rfl : b = a := by simpa using h
      rw [List.modify_zero_cons, List.filter_cons, List.filter_cons, hpa, hpf]
      exact .refl _
    | succ i =>
      have hrest := ih (i := i) (by simpa using h)
      rw [List.modify_succ_cons, List.filter_cons, List.filter_cons]
      cases p b with
      | true => exact (hrest.cons b).trans (List.Perm.swap _ _ _)
      | false => exact hrest

/-- A rewritten place that passes a filter as before, and shows the same there. -/
theorem map_filter_modify_of_eq {β : Type*} {p : α → Bool} {g : α → β} {f : α → α}
    (h : l[i]? = some a) (hp : p (f a) = p a) (hg : g (f a) = g a) :
    ((l.modify i f).filter p).map g = (l.filter p).map g := by
  induction l generalizing i with
  | nil => cases h
  | cons b rest ih =>
    cases i with
    | zero =>
      obtain rfl : b = a := by simpa using h
      rw [List.modify_zero_cons, List.filter_cons, List.filter_cons, hp]
      split
      · rw [List.map_cons, List.map_cons, hg]
      · rfl
    | succ i =>
      have hrest := ih (i := i) (by simpa using h)
      rw [List.modify_succ_cons, List.filter_cons, List.filter_cons]
      split
      · rw [List.map_cons, List.map_cons, hrest]
      · exact hrest

/-- A filter after a place it never passed is rewritten. -/
theorem filter_modify_of_false {p : α → Bool} {f : α → α}
    (h : ∀ a, l[i]? = some a → p a = false ∧ p (f a) = false) :
    (l.modify i f).filter p = l.filter p := by
  induction l generalizing i with
  | nil => simp
  | cons b rest ih =>
    cases i with
    | zero =>
      obtain ⟨hpa, hpf⟩ := h b rfl
      rw [List.modify_zero_cons, List.filter_cons, List.filter_cons, hpa, hpf]
      rfl
    | succ i =>
      rw [List.modify_succ_cons, List.filter_cons, List.filter_cons,
        ih fun a ha => h a (by simpa using ha)]

theorem filterMap_sublist_of_eq_or {β : Type*} {f g : α → Option β}
    (h : ∀ a, f a = none ∨ f a = g a) (l : List α) : (l.filterMap f).Sublist (l.filterMap g) := by
  induction l with
  | nil => exact .slnil
  | cons a rest ih =>
    rw [List.filterMap_cons, List.filterMap_cons]
    cases h a with
    | inl hnone =>
      rw [hnone]
      cases g a with
      | none => exact ih
      | some b => exact ih.cons b
    | inr hsame =>
      rw [hsame]
      cases g a with
      | none => exact ih
      | some b => exact ih.cons_cons b

/-- The second parts of a zip are the front of the second list. -/
theorem map_snd_zip_sublist {β : Type*} (xs : List α) (ys : List β) :
    ((xs.zip ys).map (·.2)).Sublist ys := by
  induction xs generalizing ys with
  | nil => exact List.nil_sublist ys
  | cons x xs ih =>
    cases ys with
    | nil => exact .slnil
    | cons y ys => exact (ih ys).cons_cons y

theorem sum_map_modify {g : α → Nat} {f : α → α} (h : l[i]? = some a) :
    ((l.modify i f).map g).sum + g a = (l.map g).sum + g (f a) := by
  induction l generalizing i with
  | nil => cases h
  | cons b rest ih =>
    cases i with
    | zero =>
      obtain rfl : b = a := by simpa using h
      rw [List.modify_zero_cons, List.map_cons, List.map_cons, List.sum_cons, List.sum_cons]
      omega
    | succ i =>
      have hrest := ih (i := i) (by simpa using h)
      rw [List.modify_succ_cons, List.map_cons, List.map_cons, List.sum_cons, List.sum_cons]
      omega

/-- A sum after the summand of one element has changed. -/
theorem sum_map_of_ne [DecidableEq α] {f g : α → Int} (hnodup : l.Nodup)
    (h : ∀ x ∈ l, x ≠ a → g x = f x) :
    (l.map g).sum = (l.map f).sum + if a ∈ l then g a - f a else 0 := by
  induction l with
  | nil => simp
  | cons x rest ih =>
    obtain ⟨hx, hrest⟩ := List.nodup_cons.mp hnodup
    have htail := ih hrest fun y hy => h y (List.mem_cons_of_mem _ hy)
    rw [List.map_cons, List.map_cons, List.sum_cons, List.sum_cons, htail]
    by_cases hxa : x = a
    · subst hxa
      simp [hx]
      omega
    · rw [h x List.mem_cons_self hxa]
      simp [Ne.symm hxa]
      omega

theorem sum_map_filter {f : α → Int} {p : α → Bool}
    (h : ∀ x ∈ l, p x = false → f x = 0) : ((l.filter p).map f).sum = (l.map f).sum := by
  induction l with
  | nil => rfl
  | cons x rest ih =>
    have hrest := ih fun y hy => h y (List.mem_cons_of_mem _ hy)
    rw [List.filter_cons]
    cases hp : p x with
    | true => simp [hrest]
    | false => simp [hrest, h x List.mem_cons_self hp]

/-- What a partial map over a list answers, element by element. -/
theorem forall₂_of_mapM_eq_some {α β : Type} {f : α → Option β} {l : List α} {l' : List β}
    (h : l.mapM f = some l') : List.Forall₂ (fun a b => f a = some b) l l' := by
  induction l generalizing l' with
  | nil =>
    cases h
    exact .nil
  | cons a rest ih =>
    rw [List.mapM_cons, Option.bind_eq_bind, Option.bind_eq_some_iff] at h
    obtain ⟨b, hb, h⟩ := h
    obtain ⟨rest', hrest, h⟩ := Option.bind_eq_some_iff.mp h
    cases h
    exact .cons hb (ih hrest)

/-- Mapping with a function that may fail: what the results have in common with what they were
    made from. -/
theorem map_eq_of_mapM_ok {α β γ ε : Type} {f : α → Except ε β} {l : List α} {l' : List β}
    (h : l.mapM f = .ok l') {p : α → γ} {q : β → γ}
    (hpq : ∀ a ∈ l, ∀ b, f a = .ok b → p a = q b) : l.map p = l'.map q := by
  induction l generalizing l' with
  | nil =>
    simp only [List.mapM_nil, pure, Except.pure, Except.ok.injEq] at h
    subst h
    rfl
  | cons a rest ih =>
    rw [List.mapM_cons] at h
    cases hfa : f a with
    | error e =>
      rw [hfa] at h
      cases h
    | ok b =>
      rw [hfa] at h
      cases hrest : rest.mapM f with
      | error e =>
        simp only [hrest, bind, Except.bind] at h
        cases h
      | ok rest' =>
        simp only [hrest, bind, Except.bind, pure, Except.pure, Except.ok.injEq] at h
        subst h
        rw [List.map_cons, List.map_cons, hpq a List.mem_cons_self b hfa,
          ih hrest fun x hx => hpq x (List.mem_cons_of_mem _ hx)]

theorem mem_of_mapM_ok {α β ε : Type} {f : α → Except ε β} {l : List α} {l' : List β}
    (h : l.mapM f = .ok l') {b : β} (hb : b ∈ l') : ∃ a ∈ l, f a = .ok b := by
  have hmap : l.map f = l'.map .ok := map_eq_of_mapM_ok h fun a _ b hab => hab
  have hmem : .ok b ∈ l.map f := hmap ▸ List.mem_map_of_mem hb
  obtain ⟨a, ha, hab⟩ := List.mem_map.mp hmem
  exact ⟨a, ha, hab⟩

/-- What holds of all items holds of all results, when it agrees item by item. -/
theorem forall_mem_iff_of_mapM_ok {α β ε : Type} {f : α → Except ε β} {l : List α} {l' : List β}
    (h : l.mapM f = .ok l') {p : α → Prop} {q : β → Prop}
    (hpq : ∀ a b, f a = .ok b → (p a ↔ q b)) : (∀ a ∈ l, p a) ↔ ∀ b ∈ l', q b := by
  have hmap : l.map p = l'.map q := map_eq_of_mapM_ok h fun a _ b hb => propext (hpq a b hb)
  have hforall : ∀ {γ : Type} (r : γ → Prop) (xs : List γ),
      (∀ x ∈ xs, r x) ↔ ∀ P ∈ xs.map r, P := by
    intro γ r xs
    rw [List.forall_mem_map]
  rw [hforall p, hmap, ← hforall q]

theorem filterMap_zipIdx {α β : Type} (f : α → Option β) (l : List α) (n : Nat) :
    (l.zipIdx n).filterMap (fun entry => f entry.1) = l.filterMap f := by
  conv_rhs => rw [← List.zipIdx_map_fst n l, List.filterMap_map]
  rfl

/-! ## Sorting -/

/-- An element that is the only one of its kind is found. -/
theorem find?_of_unique {P : α → Bool} {k : Nat} (hk : l[k]? = some a)
    (hP : P a = true) (h : ∀ (k' : Nat) b, l[k']? = some b → P b = true → k' = k) :
    l.find? P = some a := by
  have hsome : (l.find? P).isSome := by
    rw [List.find?_isSome]
    exact ⟨a, List.mem_of_getElem? hk, hP⟩
  obtain ⟨b, hb⟩ := Option.isSome_iff_exists.mp hsome
  obtain ⟨k', hk'⟩ := List.getElem?_of_mem (List.mem_of_find?_eq_some hb)
  have hkk := h k' b hk' (List.find?_some hb)
  rw [hkk, hk, Option.some.injEq] at hk'
  rw [hb, hk']

/-- An element that is not found may become another that is not found. -/
theorem find?_set_of_false {P : α → Bool} {b : α} {k : Nat}
    (ha : l[k]? = some a) (hPa : P a = false) (hPb : P b = false) :
    (l.set k b).find? P = l.find? P := by
  induction l generalizing k with
  | nil => rfl
  | cons x l ih =>
    cases k with
    | zero =>
      obtain rfl : x = a := by simpa using ha
      rw [List.set_cons_zero, List.find?_cons_of_neg (by simp [hPb]),
        List.find?_cons_of_neg (by simp [hPa])]
    | succ k =>
      rw [List.set_cons_succ, List.find?_cons, List.find?_cons, ih (by simpa using ha)]

/-- A list without repetitions within each kind has none. -/
theorem nodup_of_filter {β : Type*} [DecidableEq α] [DecidableEq β] {f : α → β}
    (h : ∀ b, (l.filter fun a => f a = b).Nodup) : l.Nodup := by
  rw [List.nodup_iff_count_le_one]
  intro a
  have hcount : (l.filter fun a' => f a' = f a).count a = l.count a :=
    List.count_filter (by simp)
  rw [← hcount]
  exact List.nodup_iff_count_le_one.mp (h (f a)) a

/-! ## One place of a list -/

section
variable {l : List α} {f : α → α} {i j : Nat} {a b : α}

theorem lt_length_of_getElem? (h : l[i]? = some a) : i < l.length :=
  (List.getElem?_eq_some_iff.mp h).1

/-- The places of a list one of whose places is replaced. -/
theorem getElem?_set_of_some (h : l[i]? = some a) (b : α) (j : Nat) :
    (l.set i b)[j]? = if i = j then some b else l[j]? := by
  rw [List.getElem?_set]
  split
  · rw [if_pos (lt_length_of_getElem? h)]
  · rfl

theorem getElem?_set_eq_some {c : α} (h : l[i]? = some a) (hj : (l.set i b)[j]? = some c) :
    (i = j ∧ c = b) ∨ (i ≠ j ∧ l[j]? = some c) := by
  rw [getElem?_set_of_some h] at hj
  split at hj
  · next heq => exact .inl ⟨heq, (Option.some.inj hj).symm⟩
  · next hne => exact .inr ⟨hne, hj⟩

/-- The places of a list one of whose places is rewritten. -/
theorem getElem?_modify_of_some (h : l[i]? = some a) (f : α → α) (j : Nat) :
    (l.modify i f)[j]? = if i = j then some (f a) else l[j]? := by
  rw [List.getElem?_modify]
  split
  · next heq =>
    subst heq
    rw [h]
    rfl
  · simp

theorem getElem?_modify_self (h : l[i]? = some a) : (l.modify i f)[i]? = some (f a) := by
  rw [getElem?_modify_of_some h, if_pos rfl]

theorem getElem?_modify_ne (h : j ≠ i) : (l.modify i f)[j]? = l[j]? := by
  rw [List.getElem?_modify]
  simp [Ne.symm h]

theorem getElem?_modify_eq_some (h : l[i]? = some a) (hj : (l.modify i f)[j]? = some b) :
    (j = i ∧ b = f a) ∨ (j ≠ i ∧ l[j]? = some b) := by
  rw [getElem?_modify_of_some h] at hj
  split at hj
  · next heq => exact .inl ⟨heq.symm, (Option.some.inj hj).symm⟩
  · next hne => exact .inr ⟨Ne.symm hne, hj⟩

theorem mem_modify (h : b ∈ l.modify i f) : b ∈ l ∨ ∃ a, l[i]? = some a ∧ b = f a := by
  obtain ⟨j, hj⟩ := List.mem_iff_getElem?.mp h
  rw [List.getElem?_modify] at hj
  obtain ⟨a, ha, hb⟩ := Option.map_eq_some_iff.mp hj
  split at hb
  · next heq => exact .inr ⟨a, heq ▸ ha, hb.symm⟩
  · exact .inl (hb ▸ List.mem_of_getElem? ha)

/-- A view of a list that does not show what is rewritten. -/
theorem map_modify_of_eq {β : Type*} {g : α → β} (hf : ∀ a, g (f a) = g a) (l : List α) (i : Nat) :
    (l.modify i f).map g = l.map g := by
  apply List.ext_getElem?
  intro j
  rw [List.getElem?_map, List.getElem?_modify, List.getElem?_map]
  cases l[j]? with
  | none => rfl
  | some a =>
    by_cases hij : i = j
    · simp [hij, hf]
    · simp [hij]

theorem map_zipIdx_none {β : Type*} (f g : α → β) (l : List α) :
    (l.zipIdx.map fun entry => if (none : Option Nat) = some entry.2 then g entry.1
      else f entry.1) = l.map f := by
  have hfst := congrArg (List.map f) (List.zipIdx_map_fst 0 l)
  rw [List.map_map] at hfst
  simp only [reduceCtorEq, if_false]
  exact hfst

theorem map_zipIdx_some {β : Type*} {f g : α → β} (h : l[i]? = some a) :
    (l.zipIdx.map fun entry => if some i = some entry.2 then g entry.1 else f entry.1) =
      (l.map f).set i (g a) := by
  apply List.ext_getElem?
  intro j
  rw [List.getElem?_map, List.getElem?_zipIdx, List.getElem?_set, List.getElem?_map]
  by_cases hij : i = j
  · subst hij
    obtain ⟨hlt, rfl⟩ := List.getElem?_eq_some_iff.mp h
    simp [hlt]
  · cases l[j]? with
    | none => simp [hij]
    | some b => simp [hij]

theorem getElem?_concat_eq_some : (l ++ [a])[j]? = some b ↔ l[j]? = some b ∨ j = l.length ∧ b = a := by
  rcases Nat.lt_trichotomy j l.length with h | h | h
  · rw [List.getElem?_append_left h]
    constructor
    · exact .inl
    · rintro (hd | ⟨hj, -⟩)
      · exact hd
      · omega
  · subst h
    simp [eq_comm]
  · rw [List.getElem?_eq_none (by simp; omega), List.getElem?_eq_none (by omega)]
    simp
    omega

/-- The first place that satisfies a predicate holds the first element that does. -/
theorem find?_of_findIdx? {p : α → Bool} (h : l.findIdx? p = some i) : l.find? p = l[i]? := by
  obtain ⟨hi, hp, hbefore⟩ := List.findIdx?_eq_some_iff_getElem.mp h
  rw [List.getElem?_eq_getElem hi, List.find?_eq_some_iff_getElem]
  exact ⟨hp, i, hi, rfl, fun j hj => by simpa using hbefore j hj⟩

theorem find?_of_findIdx?_none {p : α → Bool} (h : l.findIdx? p = none) : l.find? p = none := by
  rw [List.find?_eq_none]
  intro a ha
  rw [List.findIdx?_eq_none_iff.mp h a ha]
  exact Bool.false_ne_true

end

theorem exists_of_forall₂ {α β : Type} {R : α → β → Prop} {l : List α} {l' : List β}
    (h : List.Forall₂ R l l') {b : β} (hb : b ∈ l') : ∃ a ∈ l, R a b := by
  induction h with
  | nil => cases hb
  | cons hab _ ih =>
    rcases List.mem_cons.mp hb with rfl | hb
    · exact ⟨_, List.mem_cons_self, hab⟩
    · obtain ⟨a, ha, hrel⟩ := ih hb
      exact ⟨a, List.mem_cons_of_mem _ ha, hrel⟩

/-- A list without repetition filters to one item exactly when it has one such item. -/
theorem filter_eq_singleton_iff {α : Type} {l : List α} (h : l.Nodup) {p : α → Bool} {a : α} :
    l.filter p = [a] ↔ (a ∈ l ∧ p a = true) ∧ ∀ b, b ∈ l ∧ p b = true → b = a := by
  constructor
  · intro hfilter
    have hmem : ∀ b, b ∈ l ∧ p b = true ↔ b = a := by
      intro b
      rw [← List.mem_filter, hfilter, List.mem_singleton]
    exact ⟨(hmem a).mpr rfl, fun b hb => (hmem b).mp hb⟩
  · rintro ⟨ha, hunique⟩
    refine List.perm_singleton.mp ((List.perm_ext_iff_of_nodup (h.filter p)
      (List.nodup_singleton a)).mpr fun b => ?_)
    rw [List.mem_filter, List.mem_singleton]
    exact ⟨hunique b, fun hb => hb ▸ ha⟩

/-- A beginning of two lists put together is as long as the first iff it has just its members. -/
theorem length_eq_iff_of_prefix {α : Type*} {a b c : List α} (h : a <+: b ++ c)
    (hnodup : (b ++ c).Nodup) : a.length = b.length ↔ (∀ x ∈ b, x ∈ a) ∧ ∀ x ∈ c, x ∉ a := by
  constructor
  · intro hlength
    have hsame : a = b :=
      (List.prefix_of_prefix_length_le h (List.prefix_append b c) hlength.le).eq_of_length hlength
    rw [hsame]
    exact ⟨fun x hx => hx, fun x hx hb => (List.nodup_append.mp hnodup).2.2 x hb x hx rfl⟩
  · rintro ⟨hall, hnone⟩
    have ha : a.Nodup := hnodup.sublist h.sublist
    have hb : b.Nodup := hnodup.sublist (List.sublist_append_left b c)
    refine le_antisymm (ha.subperm fun x hx => ?_).length_le (hb.subperm hall).length_le
    exact (List.mem_append.mp (h.subset hx)).resolve_right fun hc => hnone x hc hx

end Bobbit.Lib
