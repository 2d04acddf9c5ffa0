import Mathlib

/-!
# Skipping a chain of keys

Some keys are out of use and say where to go on, or nowhere. `skip` follows them from a key
until it comes to one in use, to the end, or to a key that it has met before.

## Key results
- `Leads.unique`, `Leads.nodup`: a chain that ends leads to one place, by distinct keys.
- `skip_eq`: on a chain that ends, `skip` with enough fuel finds that place.
- `skip_induction`: what holds of the start and of every next key holds of the result.
-/

namespace Bobbit.Lib.SkipChain

variable {κ : Type*} [DecidableEq κ] (next : κ → Option (Option κ))

def skip : Nat → List κ → Option κ → Option κ
  | 0, _, a => a
  | _ + 1, _, none => none
  | fuel + 1, visited, some a =>
    match next a with
    | none => some a
    | some b => if a ∈ visited then some a else skip fuel (a :: visited) b

/-- The chain of keys out of use that leads from one place to another. -/
inductive Leads : Option κ → List κ → Option κ → Prop
  | none : Leads none [] none
  | stay {a : κ} (h : next a = none) : Leads (some a) [] (some a)
  | skip {a : κ} {b q : Option κ} {chain : List κ} (h : next a = some b)
      (rest : Leads b chain q) : Leads (some a) (a :: chain) q

variable {next}

variable {a q : Option κ} {chain : List κ}

omit [DecidableEq κ] in
theorem Leads.unique {q' : Option κ} {chain' : List κ} (h : Leads next a chain q)
    (h' : Leads next a chain' q') : chain = chain' ∧ q = q' := by
  induction h generalizing chain' q' with
  | none =>
    cases h'
    exact ⟨rfl, rfl⟩
  | stay hnext =>
    cases h' with
    | stay => exact ⟨rfl, rfl⟩
    | skip hnext' => cases hnext.symm.trans hnext'
  | skip hnext _ ih =>
    cases h' with
    | stay hnext' => cases hnext'.symm.trans hnext
    | skip hnext' rest' =>
      obtain rfl := Option.some.inj (hnext.symm.trans hnext')
      obtain ⟨rfl, rfl⟩ := ih rest'
      exact ⟨rfl, rfl⟩

omit [DecidableEq κ] in
theorem Leads.from_mem (h : Leads next a chain q) {x : κ}
    (hx : x ∈ chain) : ∃ rest, Leads next (some x) rest q ∧ rest.length ≤ chain.length := by
  induction h with
  | none => cases hx
  | stay => cases hx
  | skip hnext rest ih =>
    rcases List.mem_cons.mp hx with rfl | hx
    · exact ⟨_, .skip hnext rest, le_rfl⟩
    · obtain ⟨rest', hrest', hle⟩ := ih hx
      exact ⟨rest', hrest', hle.trans (Nat.le_succ _)⟩

omit [DecidableEq κ] in
theorem Leads.nodup (h : Leads next a chain q) : chain.Nodup := by
  induction h with
  | none => exact .nil
  | stay => exact .nil
  | skip hnext rest ih =>
    refine List.nodup_cons.mpr ⟨fun hmem => ?_, ih⟩
    obtain ⟨again, hagain, hle⟩ := rest.from_mem hmem
    rw [← (Leads.skip hnext rest).unique hagain |>.1, List.length_cons] at hle
    omega

omit [DecidableEq κ] in
theorem Leads.next_isSome (h : Leads next a chain q) {x : κ}
    (hx : x ∈ chain) : (next x).isSome = true := by
  induction h with
  | none => cases hx
  | stay => cases hx
  | skip hnext _ ih =>
    rcases List.mem_cons.mp hx with rfl | hx
    · rw [hnext]
      rfl
    · exact ih hx

theorem skip_of_leads (h : Leads next a chain q) {fuel : Nat}
    {visited : List κ} (hfuel : chain.length < fuel) (hvisited : ∀ x ∈ chain, x ∉ visited) :
    skip next fuel visited a = q := by
  induction h generalizing fuel visited with
  | none => cases fuel <;> rfl
  | stay hnext =>
    cases fuel with
    | zero => rfl
    | succ fuel => rw [skip, hnext]
  | skip hnext rest ih =>
    obtain ⟨fuel, rfl⟩ : ∃ n, fuel = n + 1 := ⟨fuel - 1, by omega⟩
    have hnew := (List.nodup_cons.mp (Leads.skip hnext rest).nodup).1
    rw [skip, hnext]
    dsimp only
    rw [if_neg (hvisited _ List.mem_cons_self)]
    refine ih (by simpa using hfuel) fun x hx hmem => ?_
    rcases List.mem_cons.mp hmem with rfl | hmem
    · exact hnew hx
    · exact hvisited x (List.mem_cons_of_mem _ hx) hmem

/-- On a chain that ends, with fuel for every key out of use. -/
theorem skip_eq (h : Leads next a chain q) {keys : List κ}
    (hkeys : ∀ x, (next x).isSome = true → x ∈ keys) :
    skip next (keys.length + 1) [] a = q := by
  have hle : chain.length ≤ keys.length :=
    (h.nodup.subperm fun x hx => hkeys x (h.next_isSome hx)).length_le
  exact skip_of_leads h (Nat.lt_succ_of_le hle) fun _ _ => List.not_mem_nil

/-- What holds of the start and of every next key holds of the result. -/
theorem skip_induction {P : Option κ → Prop} (hnext : ∀ a b, next a = some b → P b) (fuel : Nat)
    (visited : List κ) (ha : P a) : P (skip next fuel visited a) := by
  induction fuel generalizing visited a with
  | zero => exact ha
  | succ fuel ih =>
    cases a with
    | none => exact ha
    | some a =>
      rw [skip]
      cases hb : next a with
      | none => exact ha
      | some b =>
        dsimp only
        split
        · exact ha
        · exact ih _ (hnext a b hb)

end Bobbit.Lib.SkipChain
