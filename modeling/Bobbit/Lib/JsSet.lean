import Mathlib

/-!
# JavaScript sets

A `Set` as the list of its members in insertion order, each once.
-/

namespace Bobbit.Lib

/-- The members of a `Set`, oldest first. -/
structure JsSet (κ : Type*) where
  members : List κ
  nodup : members.Nodup

namespace JsSet

variable {κ : Type*}

/-- `new Set()`. -/
def empty : JsSet κ := ⟨[], List.nodup_nil⟩

def isEmpty (s : JsSet κ) : Bool := s.members.isEmpty

variable [DecidableEq κ]

def add (s : JsSet κ) (key : κ) : JsSet κ :=
  if h : key ∈ s.members then s
  else ⟨s.members ++ [key], List.nodup_append.mpr ⟨s.nodup, List.nodup_singleton key,
    fun _ ha _ hb hab => h (List.mem_singleton.mp hb ▸ hab ▸ ha)⟩⟩

def addAll (s : JsSet κ) (keys : List κ) : JsSet κ := keys.foldl add s

/-- `new Set(keys)`. -/
def ofList (keys : List κ) : JsSet κ := empty.addAll keys

theorem mem_add {s : JsSet κ} {key k : κ} : k ∈ (s.add key).members ↔ k ∈ s.members ∨ k = key := by
  unfold add
  split
  · rename_i hmem
    exact ⟨.inl, fun h => h.elim id fun hk => hk ▸ hmem⟩
  · exact List.mem_append.trans (or_congr_right List.mem_singleton)

theorem mem_addAll {s : JsSet κ} {keys : List κ} {k : κ} :
    k ∈ (s.addAll keys).members ↔ k ∈ s.members ∨ k ∈ keys := by
  induction keys generalizing s with
  | nil => simp [addAll]
  | cons key rest ih =>
    rw [addAll, List.foldl_cons, ← addAll, ih, mem_add, List.mem_cons, or_assoc]

theorem mem_ofList {keys : List κ} {k : κ} : k ∈ (ofList keys).members ↔ k ∈ keys := by
  simp [ofList, mem_addAll, empty]

end JsSet

end Bobbit.Lib
