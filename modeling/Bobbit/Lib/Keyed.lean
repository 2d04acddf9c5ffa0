import Mathlib

/-!
# Lists of records with a key

Records that carry their own key: a record is put in the place of the one with its key, or at the end.

## Key results

- `find?_key_iff`: with no key twice, the record that is found is the one there is
- `map_key_put`: the keys after a record is put
- `find?_put`: the record under a key after a record is put
- `nodup_put`, `mem_put`: no key comes twice, and nothing else comes in
-/

namespace Bobbit.Lib.Keyed

variable {α κ : Type*} [DecidableEq κ] (key : α → κ)

/-- Put a record in the place of the one with its key, or at the end. -/
def put (l : List α) (a : α) : List α :=
  if l.any (key · = key a) then l.map fun b => if key b = key a then a else b
  else l ++ [a]

variable {key}

theorem mem_of_find?_key {l : List α} {k : κ} {a : α} (h : l.find? (key · = k) = some a) :
    a ∈ l ∧ key a = k :=
  ⟨List.mem_of_find?_eq_some h, by simpa using List.find?_some h⟩

/-- With no key twice, the record that is found is the one there is. -/
theorem find?_key_iff {l : List α} (h : (l.map key).Nodup) {k : κ} {a : α} :
    l.find? (key · = k) = some a ↔ a ∈ l ∧ key a = k := by
  constructor
  · exact mem_of_find?_key
  · rintro ⟨hmem, hkey⟩
    cases hfind : l.find? (key · = k) with
    | none => exact absurd hkey (by simpa using List.find?_eq_none.mp hfind a hmem)
    | some b =>
      obtain ⟨hmemb, hb⟩ := mem_of_find?_key hfind
      rw [List.inj_on_of_nodup_map h hmemb hmem (hb.trans hkey.symm)]

/-- A record that is put is the one under its key; the others stay what they are. -/
theorem find?_put (l : List α) (a : α) (k : κ) :
    (put key l a).find? (key · = k) = if k = key a then some a else l.find? (key · = k) := by
  have hsame : ∀ b, key (if key b = key a then a else b) = key b := by
    intro b
    split
    · rename_i hkey
      exact hkey.symm
    · rfl
  unfold put
  split
  · rename_i hany
    rw [List.find?_map]
    have hkeys : ((fun b => decide (key b = k)) ∘ fun b => if key b = key a then a else b) =
        fun b => decide (key b = k) := by
      funext b
      simp only [Function.comp_apply, hsame]
    rw [hkeys]
    split
    · rename_i hk
      subst hk
      -- the record under the key of the new one is replaced
      obtain ⟨b, hb, hkey⟩ := List.any_eq_true.mp hany
      have hfound : (l.find? fun b => decide (key b = key a)).isSome :=
        List.find?_isSome.mpr ⟨b, hb, hkey⟩
      obtain ⟨c, hc⟩ := Option.isSome_iff_exists.mp hfound
      have hckey : key c = key a := by simpa using List.find?_some hc
      rw [hc, Option.map_some, if_pos hckey]
    · rename_i hk
      cases hfind : l.find? fun b => decide (key b = k) with
      | none => rfl
      | some c =>
        have hckey : key c = k := by simpa using List.find?_some hfind
        rw [Option.map_some, if_neg fun h => hk (hckey.symm.trans h)]
  · rename_i hany
    rw [List.find?_append]
    split
    · rename_i hk
      subst hk
      have hnone : l.find? (fun b => decide (key b = key a)) = none := by
        rw [List.find?_eq_none]
        intro b hb hkey
        exact hany (List.any_eq_true.mpr ⟨b, hb, hkey⟩)
      rw [hnone, Option.none_or, List.find?_cons_of_pos (by simp)]
    · rename_i hk
      rw [List.find?_cons_of_neg (by simpa using fun h => hk h.symm), List.find?_nil, Option.or_none]

theorem map_key_put (l : List α) (a : α) :
    (put key l a).map key = if key a ∈ l.map key then l.map key else l.map key ++ [key a] := by
  have hany : l.any (key · = key a) = true ↔ key a ∈ l.map key := by
    simp only [List.any_eq_true, decide_eq_true_eq, List.mem_map]
  unfold put
  simp only [hany]
  split
  · rw [List.map_map]
    refine List.map_congr_left fun b _ => ?_
    show key (if key b = key a then a else b) = key b
    split
    · rename_i hkey
      exact hkey.symm
    · rfl
  · rw [List.map_append]
    rfl

theorem nodup_put {l : List α} (h : (l.map key).Nodup) (a : α) : ((put key l a).map key).Nodup := by
  rw [map_key_put]
  split
  · exact h
  · rename_i hnew
    refine List.nodup_append.mpr ⟨h, List.nodup_singleton _, fun k hk k' hk' heq => ?_⟩
    rw [List.mem_singleton] at hk'
    exact hnew (hk' ▸ heq ▸ hk)

theorem sublist_put (l : List α) (a : α) : (l.map key).Sublist ((put key l a).map key) := by
  rw [map_key_put]
  split
  · exact List.Sublist.refl _
  · exact List.sublist_append_left _ _

theorem mem_put {l : List α} {a b : α} (h : b ∈ put key l a) : b = a ∨ b ∈ l := by
  unfold put at h
  split at h
  · obtain ⟨c, hc, rfl⟩ := List.mem_map.mp h
    split
    · exact .inl rfl
    · exact .inr hc
  · rw [List.mem_append, List.mem_singleton] at h
    exact h.symm

end Bobbit.Lib.Keyed
