import Mathlib

/-!
# JavaScript maps

A `Map` as the list of its entries in insertion order: assigning an existing key
keeps its place.
-/

namespace Bobbit.Lib

/-- The entries of a `Map`, oldest key first. -/
abbrev JsMap (κ α : Type*) := List (κ × α)

namespace JsMap

variable {κ α : Type*}

/-- Apply a function to the values. -/
def mapValues {β : Type*} (f : α → β) (m : JsMap κ α) : JsMap κ β :=
  m.map fun entry => (entry.1, f entry.2)

@[simp] theorem length_mapValues {β : Type*} (f : α → β) (m : JsMap κ α) :
    (mapValues f m).length = m.length :=
  List.length_map _

variable [DecidableEq κ]

def get? (m : JsMap κ α) (key : κ) : Option α := (m.find? (·.1 = key)).map (·.2)

def set (m : JsMap κ α) (key : κ) (value : α) : JsMap κ α :=
  if m.any (·.1 = key) then m.map fun entry => if entry.1 = key then (key, value) else entry
  else m ++ [(key, value)]

/-- `Map.prototype.delete`. -/
def erase (m : JsMap κ α) (key : κ) : JsMap κ α := m.filter (·.1 ≠ key)

@[simp] theorem get?_nil (key : κ) : get? ([] : JsMap κ α) key = none := rfl

theorem get?_cons (entry : κ × α) (m : JsMap κ α) (key : κ) :
    get? (entry :: m) key = if entry.1 = key then some entry.2 else get? m key := by
  by_cases h : entry.1 = key <;> simp [get?, h]

variable {m : JsMap κ α} {value : α}

theorem mem_of_get? {key : κ} (h : get? m key = some value) : (key, value) ∈ m := by
  obtain ⟨entry, hfind, rfl⟩ := Option.map_eq_some_iff.mp h
  have hkey : entry.1 = key := by simpa using List.find?_some hfind
  exact hkey ▸ List.mem_of_find?_eq_some hfind

theorem mem_set {key : κ} {entry : κ × α}
    (h : entry ∈ set m key value) : entry = (key, value) ∨ entry ∈ m := by
  unfold set at h
  split at h
  · obtain ⟨old, hold, rfl⟩ := List.mem_map.mp h
    split
    · exact .inl rfl
    · exact .inr hold
  · rcases List.mem_append.mp h with h | h
    · exact .inr h
    · exact .inl (List.mem_singleton.mp h)

theorem get?_set (m : JsMap κ α) (key : κ) (value : α) (k : κ) :
    get? (set m key value) k = if k = key then some value else get? m k := by
  induction m with
  | nil =>
    by_cases hk : k = key
    · simp [set, get?_cons, hk]
    · simp [set, get?_cons, hk, Ne.symm hk]
  | cons entry rest ih =>
    have hcons : get? (set (entry :: rest) key value) k =
        if entry.1 = key then get? ((key, value) :: rest.map fun e =>
          if e.1 = key then (key, value) else e) k
        else get? (entry :: set rest key value) k := by
      by_cases he : entry.1 = key
      · simp [set, he]
      · simp only [set, List.any_cons, he, decide_false, Bool.false_or, if_false]
        split <;> simp [he]
    rw [hcons]
    by_cases he : entry.1 = key
    · rw [if_pos he, get?_cons, get?_cons, he]
      by_cases hk : k = key
      · simp [hk]
      · have hmap : ∀ l : JsMap κ α, get? (l.map fun e => if e.1 = key then (key, value) else e) k =
            get? l k := by
          intro l
          induction l with
          | nil => rfl
          | cons e l ihl =>
            rw [List.map_cons, get?_cons, get?_cons, ihl]
            by_cases hek : e.1 = key
            · simp [hek, Ne.symm hk]
            · simp [hek]
        simp [Ne.symm hk, hk, hmap]
    · rw [if_neg he, get?_cons, get?_cons, ih]
      by_cases hk : k = key
      · simp [hk, he]
      · simp [hk]

theorem set_set (m : JsMap κ α) (key : κ) (value value' : α) :
    set (set m key value) key value' = set m key value' := by
  by_cases h : m.any (·.1 = key) = true
  · have hany : (m.map fun entry => if entry.1 = key then (key, value) else entry).any
        (·.1 = key) = true := by
      obtain ⟨entry, hmem, hkey⟩ := List.any_eq_true.mp h
      exact List.any_eq_true.mpr ⟨(key, value), List.mem_map.mpr ⟨entry, hmem, by
        simp [of_decide_eq_true hkey]⟩, by simp⟩
    unfold set
    rw [if_pos h, if_pos hany, if_pos h, List.map_map]
    apply List.map_congr_left
    intro entry _
    by_cases hkey : entry.1 = key <;> simp [hkey]
  · have hmap : (m.map fun entry => if entry.1 = key then (key, value') else entry) = m := by
      rw [List.map_congr_left (g := id), List.map_id]
      intro entry hmem
      rw [if_neg fun hkey => h (List.any_eq_true.mpr ⟨entry, hmem, decide_eq_true hkey⟩)]
      rfl
    unfold set
    rw [if_neg h, if_pos (by simp), if_neg h, List.map_append, hmap]
    simp

theorem get?_erase (m : JsMap κ α) (key k : κ) :
    get? (erase m key) k = if k = key then none else get? m k := by
  induction m with
  | nil => simp [erase]
  | cons entry rest ih =>
    unfold erase at ih ⊢
    rw [List.filter_cons]
    by_cases hentry : entry.1 = key
    · rw [if_neg (by simp [hentry]), ih, get?_cons]
      by_cases hk : k = key
      · simp [hk]
      · simp [hk, hentry, Ne.symm hk]
    · rw [if_pos (by simp [hentry]), get?_cons, get?_cons, ih]
      by_cases hk : entry.1 = k
      · simp [hk, show k ≠ key from hk ▸ hentry]
      · simp [hk]

theorem get?_foldl_set {β : Type*} (key : β → κ) (value : β → α) (m : JsMap κ α) {l : List β}
    (h : (l.map key).Nodup) (k : κ) :
    get? (l.foldl (fun m b => set m (key b) (value b)) m) k =
      ((l.find? (key · = k)).map value).or (get? m k) := by
  induction l generalizing m with
  | nil => rfl
  | cons b rest ih =>
    obtain ⟨hfresh, hrest⟩ := List.nodup_cons.mp h
    rw [List.foldl_cons, ih _ hrest, get?_set]
    by_cases hk : key b = k
    · have hnone : rest.find? (key · = k) = none :=
        List.find?_eq_none.mpr fun b' hb' heq =>
          hfresh (List.mem_map.mpr ⟨b', hb', (of_decide_eq_true heq).trans hk.symm⟩)
      simp [hk, hnone]
    · simp [hk, Ne.symm hk]

theorem get?_foldl_erase (m : JsMap κ α) (keys : List κ) (k : κ) :
    get? (keys.foldl erase m) k = if k ∈ keys then none else get? m k := by
  induction keys generalizing m with
  | nil => simp
  | cons key rest ih =>
    rw [List.foldl_cons, ih, get?_erase]
    by_cases hk : k = key <;> simp [hk]

/-! ## Keys -/

def keys (m : JsMap κ α) : List κ := m.map (·.1)

theorem mem_keys_of_get? {key : κ} (h : get? m key = some value) : key ∈ keys m :=
  List.mem_map.mpr ⟨_, mem_of_get? h, rfl⟩

theorem get?_eq_none_iff {key : κ} : get? m key = none ↔ key ∉ keys m := by
  simp only [get?, Option.map_eq_none_iff, List.find?_eq_none, decide_eq_true_eq, keys,
    List.mem_map, not_exists, not_and]

theorem get?_isSome_iff {key : κ} : (get? m key).isSome = true ↔ key ∈ keys m := by
  rw [← not_iff_not, ← get?_eq_none_iff, Bool.not_eq_true, Option.isSome_eq_false_iff,
    Option.isNone_iff_eq_none]

theorem set_of_not_mem {key : κ} (value : α) (h : key ∉ keys m) :
    set m key value = m ++ [(key, value)] := by
  rw [set, if_neg]
  simpa [keys] using h

theorem keys_set (m : JsMap κ α) (key : κ) (value : α) :
    keys (set m key value) = if key ∈ keys m then keys m else keys m ++ [key] := by
  have hany : (m.any (·.1 = key)) = true ↔ key ∈ keys m := by
    simp [keys, List.any_eq_true]
  unfold set
  by_cases hmem : key ∈ keys m
  · rw [if_pos (hany.mpr hmem), if_pos hmem]
    simp only [keys, List.map_map]
    refine List.map_congr_left fun entry _ => ?_
    simp only [Function.comp]
    split
    · rename_i heq
      exact heq.symm
    · rfl
  · rw [if_neg (fun h => hmem (hany.mp h)), if_neg hmem]
    simp [keys]

theorem nodup_set (h : (keys m).Nodup) (key : κ) (value : α) : (keys (set m key value)).Nodup := by
  rw [keys_set]
  split
  · exact h
  · rename_i hnot
    exact List.nodup_append.mpr ⟨h, List.nodup_singleton _, fun a ha b hb hab =>
      hnot (List.mem_singleton.mp hb ▸ hab ▸ ha)⟩

theorem nodup_erase (h : (keys m).Nodup) (key : κ) : (keys (erase m key)).Nodup :=
  h.sublist (List.filter_sublist.map _)

theorem nodup_foldl_erase (h : (keys m).Nodup) (removed : List κ) :
    (keys (removed.foldl erase m)).Nodup := by
  induction removed generalizing m with
  | nil => exact h
  | cons key rest ih => exact ih (nodup_erase h key)

theorem get?_of_mem (h : (keys m).Nodup) {key : κ}
    (hmem : (key, value) ∈ m) : get? m key = some value := by
  induction m with
  | nil => cases hmem
  | cons entry rest ih =>
    rw [keys, List.map_cons, List.nodup_cons] at h
    rw [get?_cons]
    rcases List.mem_cons.mp hmem with rfl | hmem
    · exact if_pos rfl
    · rw [if_neg, ih h.2 hmem]
      rintro rfl
      exact h.1 (List.mem_map.mpr ⟨_, hmem, rfl⟩)

theorem sum_erase (h : (keys m).Nodup) {key : κ}
    (hget : get? m key = some value) (f : κ × α → Int) :
    ((erase m key).map f).sum + f (key, value) = (m.map f).sum := by
  induction m with
  | nil => cases hget
  | cons entry rest ih =>
    rw [keys, List.map_cons, List.nodup_cons] at h
    rw [get?_cons] at hget
    unfold erase at ih ⊢
    split at hget
    · rename_i hkey
      cases hget
      have hrest : rest.filter (fun e => decide (e.1 ≠ key)) = rest := by
        rw [List.filter_eq_self]
        intro e he
        rw [decide_eq_true_eq]
        rintro rfl
        exact h.1 (hkey ▸ List.mem_map.mpr ⟨e, he, rfl⟩)
      rw [List.filter_cons_of_neg (by simp [hkey]), hrest, List.map_cons, List.sum_cons, ← hkey,
        add_comm]
    · rename_i hkey
      rw [List.filter_cons_of_pos (by simpa using hkey), List.map_cons, List.map_cons,
        List.sum_cons, List.sum_cons, ← ih h.2 hget, add_assoc]

/-! ## Maps of the values -/

variable {β : Type*} (f : α → β)

theorem set_mapValues (m : JsMap κ α) (key : κ) (value : α) :
    set (mapValues f m) key (f value) = mapValues f (set m key value) := by
  simp only [set, mapValues, List.any_map, Function.comp_def]
  split
  · simp only [List.map_map, Function.comp_def]
    refine List.map_congr_left fun entry _ => ?_
    split <;> rfl
  · simp

theorem get?_mapValues (m : JsMap κ α) (key : κ) :
    get? (mapValues f m) key = (get? m key).map f := by
  induction m with
  | nil => rfl
  | cons entry m ih =>
    rw [mapValues, List.map_cons, get?_cons, get?_cons]
    split
    · rfl
    · exact ih

end JsMap

end Bobbit.Lib
