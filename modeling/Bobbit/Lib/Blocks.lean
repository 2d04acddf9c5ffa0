import Mathlib

/-!
# Named blocks

Sequences of text units and of opening and closing tags that carry a name. `Forest` is what a
properly nested sequence says, `tokens` how it is written, and `placed` lists its units with the
names of the blocks around each. `Machine` reads a sequence with a stack and keeps the units that
stand in blocks of which all names are on.

## Key results

- `run_tokens`: what the machine does on a properly nested sequence
- `run_eq_empty_iff`: the machine ends with an empty stack exactly on the properly nested sequences
- `kept_eq_placed`: a unit is kept when every name around it is on
- `kept_eq_iff`: when two settings of the names keep the same units
-/

namespace Bobbit.Lib.Blocks

variable {ν α : Type}

inductive Token (ν α : Type)
  | text (a : α)
  | opening (name : ν)
  | closing (name : ν)
  deriving DecidableEq

/-- Text and blocks, nested in blocks. -/
inductive Forest (ν α : Type)
  | nil
  | text (a : α) (rest : Forest ν α)
  | block (name : ν) (body rest : Forest ν α)

namespace Forest

def tokens : Forest ν α → List (Token ν α)
  | nil => []
  | text a rest => .text a :: rest.tokens
  | block name body rest => .opening name :: (body.tokens ++ .closing name :: rest.tokens)

/-- The units with the names of the blocks around them, those of `around` first. -/
def placed (around : List ν) : Forest ν α → List (α × List ν)
  | nil => []
  | text a rest => (a, around) :: rest.placed around
  | block name body rest => body.placed (around ++ [name]) ++ rest.placed around

/-- The units that are kept, in a place where text is kept or not. -/
def kept (on : ν → Bool) (keep : Bool) : Forest ν α → List α
  | nil => []
  | text a rest => (if keep then [a] else []) ++ rest.kept on keep
  | block name body rest => body.kept on (keep && on name) ++ rest.kept on keep

theorem kept_eq_placed (on : ν → Bool) (around : List ν) (f : Forest ν α) :
    f.kept on (around.all on) =
      ((f.placed around).filter fun x => x.2.all on).map Prod.fst := by
  induction f generalizing around with
  | nil => rfl
  | text a rest ih =>
    rw [kept, placed, ih, List.filter_cons]
    cases around.all on with
    | false => rfl
    | true => rfl
  | block name body rest ihb ihr =>
    have hbody := ihb (around ++ [name])
    rw [List.all_append, List.all_cons, List.all_nil, Bool.and_true] at hbody
    simp only [kept, placed, List.filter_append, List.map_append, ihr, hbody]

/-- Two settings, the second with fewer names on, keep the same units exactly when every unit that
the first one keeps has only names around it that are on in the second. -/
theorem kept_eq_iff {on on' : ν → Bool} (hle : ∀ name, on' name = true → on name = true)
    (f : Forest ν α) :
    f.kept on true = f.kept on' true ↔
      ∀ x ∈ f.placed [], x.2.all on = true → x.2.all on' = true := by
  have hon : f.kept on true = _ := kept_eq_placed on [] f
  have hon' : f.kept on' true = _ := kept_eq_placed on' [] f
  have hall : ∀ names : List ν, names.all on' = true → names.all on = true := fun names h =>
    List.all_eq_true.mpr fun name hname => hle name (List.all_eq_true.mp h name hname)
  -- what the second keeps is found among what the first keeps
  have hsub : ((f.placed []).filter fun x => x.2.all on).filter (fun x => x.2.all on') =
      (f.placed []).filter fun x => x.2.all on' := by
    rw [List.filter_filter]
    refine List.filter_congr fun x _ => ?_
    cases h : x.2.all on' with
    | false => rfl
    | true => rw [hall _ h]; rfl
  rw [hon, hon']
  constructor
  · intro h x hx hkeep
    have hlength := congrArg List.length h
    rw [List.length_map, List.length_map, ← hsub] at hlength
    exact List.length_filter_eq_length_iff.mp hlength.symm x (List.mem_filter.mpr ⟨hx, hkeep⟩)
  · intro h
    rw [List.filter_congr fun x hx => ?_]
    cases hkeep : x.2.all on with
    | false =>
      cases hkeep' : x.2.all on' with
      | false => rfl
      | true => rw [hall _ hkeep'] at hkeep; cases hkeep
    | true => exact (h x hx hkeep).symm

end Forest

/-- The sequence is properly nested. -/
def Nested (ts : List (Token ν α)) : Prop := ∃ f : Forest ν α, f.tokens = ts

/-! ## The machine -/

/-- The text so far, whether text is kept at this place, and the open blocks, each with whether text
was kept before it. -/
structure Machine (ν α : Type) where
  out : List α
  keeping : Bool
  stack : List (ν × Bool)

namespace Machine

variable [DecidableEq ν]

/-- One token, if it does not close what is not open. -/
def step (on : ν → Bool) (m : Machine ν α) : Token ν α → Option (Machine ν α)
  | .text a => some { m with out := if m.keeping then m.out ++ [a] else m.out }
  | .opening name =>
    some { m with keeping := m.keeping && on name, stack := (name, m.keeping) :: m.stack }
  | .closing name =>
    match m.stack with
    | [] => none
    | (name', keeping) :: stack =>
      if name' = name then some { m with keeping := keeping, stack := stack } else none

def run (on : ν → Bool) (m : Machine ν α) (ts : List (Token ν α)) : Option (Machine ν α) :=
  ts.foldlM (step on) m

@[simp] theorem run_nil (on : ν → Bool) (m : Machine ν α) : run on m [] = some m := rfl

theorem run_cons (on : ν → Bool) (m : Machine ν α) (t : Token ν α) (ts : List (Token ν α)) :
    run on m (t :: ts) = (step on m t).bind fun m' => run on m' ts := List.foldlM_cons

theorem run_append (on : ν → Bool) (m : Machine ν α) (ts ts' : List (Token ν α)) :
    run on m (ts ++ ts') = (run on m ts).bind fun m' => run on m' ts' := List.foldlM_append

/-- What the machine does on a properly nested sequence. -/
theorem run_tokens (on : ν → Bool) (m : Machine ν α) (f : Forest ν α) :
    run on m f.tokens = some { m with out := m.out ++ f.kept on m.keeping } := by
  induction f generalizing m with
  | nil => simp [Forest.tokens, Forest.kept]
  | text a rest ih =>
    rw [Forest.tokens, run_cons]
    simp only [step, Option.bind_some, ih, Forest.kept]
    cases m.keeping <;> simp
  | block name body rest ihb ihr =>
    rw [Forest.tokens, run_cons]
    simp only [step, Option.bind_some, run_append, ihb, run_cons, if_true, ihr, Forest.kept,
      List.append_assoc]

/-- What closes the open blocks: after a properly nested part, each is closed in its turn. -/
def Closes : List (ν × Bool) → List (Token ν α) → Prop
  | [], ts => Nested ts
  | (name, _) :: stack, ts =>
    ∃ (f : Forest ν α) (ts' : List (Token ν α)),
      ts = f.tokens ++ .closing name :: ts' ∧ Closes stack ts'

variable {ts : List (Token ν α)}

omit [DecidableEq ν] in
theorem Closes.text {stack : List (ν × Bool)} (h : Closes stack ts)
    (a : α) : Closes stack (.text a :: ts) := by
  cases stack with
  | nil =>
    obtain ⟨f, rfl⟩ := h
    exact ⟨.text a f, rfl⟩
  | cons entry stack =>
    obtain ⟨f, ts', rfl, hrest⟩ := h
    exact ⟨.text a f, ts', rfl, hrest⟩

omit [DecidableEq ν] in
theorem Closes.block {stack : List (ν × Bool)} (h : Closes stack ts)
    (name : ν) (body : Forest ν α) :
    Closes stack (.opening name :: (body.tokens ++ .closing name :: ts)) := by
  cases stack with
  | nil =>
    obtain ⟨f, rfl⟩ := h
    exact ⟨.block name body f, rfl⟩
  | cons entry stack =>
    obtain ⟨f, ts', rfl, hrest⟩ := h
    exact ⟨.block name body f, ts', by simp [Forest.tokens], hrest⟩

/-- A run that ends with an empty stack has closed what was open. -/
theorem closes_of_run {on : ν → Bool} {m m' : Machine ν α}
    (h : run on m ts = some m') (hempty : m'.stack = []) : Closes m.stack ts := by
  induction ts generalizing m with
  | nil =>
    rw [run_nil, Option.some.injEq] at h
    rw [h, hempty]
    exact ⟨.nil, rfl⟩
  | cons t ts ih =>
    rw [run_cons] at h
    obtain ⟨m₁, hstep, hrun⟩ := Option.bind_eq_some_iff.mp h
    have hrest := ih hrun
    cases t with
    | text a =>
      rw [step, Option.some.injEq] at hstep
      rw [← hstep] at hrest
      exact hrest.text a
    | opening name =>
      rw [step, Option.some.injEq] at hstep
      rw [← hstep] at hrest
      obtain ⟨f, ts', rfl, hclosed⟩ := hrest
      exact hclosed.block name f
    | closing name =>
      rw [step] at hstep
      split at hstep
      · cases hstep
      · rename_i name' keeping stack hstack
        split at hstep
        · rename_i hname
          rw [Option.some.injEq] at hstep
          rw [← hstep] at hrest
          rw [hstack, ← hname]
          exact ⟨.nil, ts, rfl, hrest⟩
        · cases hstep

/-- The machine starts with nothing open and keeps what it reads. -/
def start : Machine ν α := ⟨[], true, []⟩

/-- The machine ends with an empty stack exactly on the properly nested sequences. -/
theorem run_eq_empty_iff (on : ν → Bool) (ts : List (Token ν α)) :
    (∃ m, run on start ts = some m ∧ m.stack = []) ↔ Nested ts := by
  constructor
  · rintro ⟨m, hrun, hempty⟩
    exact closes_of_run hrun hempty
  · rintro ⟨f, rfl⟩
    exact ⟨_, run_tokens on start f, rfl⟩

end Machine

end Bobbit.Lib.Blocks
