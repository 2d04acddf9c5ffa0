import Bobbit.Lib.Keyed
import Bobbit.Lib.Run
import Bobbit.Server.PlanMutationStore

/-!
# Correctness of the plan-mutation store

The operations queued on one goal refine their atomic versions: whatever the environment does
to reads, writes and callbacks, the answers and the file are those of the operations run one
after another in call order (`replay`). A request whose decision has resolved is then out of
the file, unless the write that removes it failed and left the old file behind.

## Key results

- `planOf_ids`: an operation brings in no request but the one it puts
- `step_queue`: every step keeps the queue in line with `replay`
- `step_decisions`: every step keeps what is known of resolved decisions
- `decided_once`: both, over every run
-/

namespace Bobbit.Server.PlanMutationStore

open Bobbit.Lib

variable {ρ : Type}

/-! ## Statements -/

def ids (file : File ρ) : List String :=
  (readFile file true).map PendingMutation.requestId

/-- The request was put by a call after the `i`-th and before the `j`-th. -/
def PutBetween (g : Goal ρ) (i j : Nat) (requestId : String) : Prop :=
  ∃ k m, i < k ∧ k < j ∧ g.calls[k]? = some (.put m) ∧ m.requestId = requestId

/-- The write of the `i`-th call failed and left the file as it was. -/
def Kept (g : Goal ρ) (i : Nat) : Prop :=
  ∃ s, g.settled[i]? = some s ∧ s.outcome.landed = false ∧ s.outcome.truncated = false

/-- The queued operations take effect one at a time in call order, and a `get` reads the file
    between two of them, after all that were queued before it. -/
structure Serial (file : File ρ) (g : Goal ρ) : Prop where
  in_order : g.calls = g.settled.map Settled.op ++ (g.active.map Prod.fst).toList ++ g.waiting
  answers : AnswersFrom file g.settled
  file_eq : g.active = none → g.file = replay file g.settled
  gets : ∀ e ∈ g.got, e.ahead ≤ e.seen ∧ e.seen ≤ g.settled.length ∧
    e.found = if e.whole then
      (readFile (replay file (g.settled.take e.seen)) true).find?
        (fun m => m.requestId = e.requestId) else none

/-- No decision is run for a request after a decision on it has resolved, unless the request was
    put again or the write that was to remove it left the old file in place. -/
def DecidedOnce (g : Goal ρ) : Prop :=
  ∀ i j requestId, (i, requestId) ∈ g.resolved → (j, requestId) ∈ g.asked → i < j →
    PutBetween g i j requestId ∨ Kept g i

/-! ## One operation -/

theorem readFile_ids (file : File ρ) (ok : Bool) :
    ∀ id ∈ (readFile file ok).map PendingMutation.requestId, id ∈ ids file := by
  intro id hid
  cases ok with
  | true => exact hid
  | false => simp [readFile] at hid

variable {file : File ρ}

theorem readFile_nodup (h : (ids file).Nodup) (ok : Bool) :
    ((readFile file ok).map PendingMutation.requestId).Nodup := by
  cases ok with
  | true => exact h
  | false => simp [readFile]

variable {list : List (PendingMutation ρ)} {requestId : String}

theorem position_some {i : Nat} (h : position list requestId = some i) :
    (list.map PendingMutation.requestId)[i]? = some requestId := by
  simp only [position, List.findIdx?_eq_some_iff_getElem] at h
  obtain ⟨hi, hp, -⟩ := h
  simp only [List.getElem?_map, List.getElem?_eq_getElem hi, Option.map_some]
  simpa using hp

theorem position_none (h : position list requestId = none) :
    requestId ∉ list.map PendingMutation.requestId := by
  simp only [position, List.findIdx?_eq_none_iff, decide_eq_false_iff_not] at h
  simp only [List.mem_map, not_exists, not_and]
  exact h

/-- The list an operation writes, asking first or not. -/
def Writes (op : Operation ρ) (read list : List (PendingMutation ρ)) : Prop :=
  (∃ answer, planOf op read = .rewrite list answer) ∨ ∃ pending, planOf op read = .ask pending list

variable {op : Operation ρ} {read : List (PendingMutation ρ)}

/-- The rows an operation writes: distinct when those read were, and no request among them but
    the ones read and the one put. -/
theorem planOf_ids (h : Writes op read list) :
    ((read.map PendingMutation.requestId).Nodup → (list.map PendingMutation.requestId).Nodup) ∧
      ∀ id ∈ list.map PendingMutation.requestId, id ∈ read.map PendingMutation.requestId ∨
        ∃ m, op = .put m ∧ m.requestId = id := by
  have hsub : ∀ {list' : List (PendingMutation ρ)}, list'.Sublist read →
      ((read.map PendingMutation.requestId).Nodup →
        (list'.map PendingMutation.requestId).Nodup) ∧
      ∀ id ∈ list'.map PendingMutation.requestId, id ∈ read.map PendingMutation.requestId ∨
        ∃ m, op = .put m ∧ m.requestId = id := by
    intro list' hs
    have hmap := hs.map PendingMutation.requestId
    exact ⟨fun hn => hn.sublist hmap, fun id hid => .inl (hmap.subset hid)⟩
  simp only [Writes, planOf] at h
  cases op with
  | put m =>
    dsimp only at h
    split at h
    · -- the row of the same request is replaced: the requests stay the same
      rename_i i hpos
      have hlist : read.set i m = list := by simpa using h
      have hsame : list.map PendingMutation.requestId = read.map PendingMutation.requestId := by
        rw [← hlist, List.map_set]
        have hget := position_some hpos
        obtain ⟨hlt, hval⟩ := List.getElem?_eq_some_iff.mp hget
        rw [← hval, List.set_getElem_self]
      rw [hsame]
      exact ⟨id, fun id hid => .inl hid⟩
    · rename_i hpos
      have hlist : read ++ [m] = list := by simpa using h
      rw [← hlist, List.map_append, List.map_singleton]
      constructor
      · intro hn
        exact List.nodup_append.mpr ⟨hn, List.nodup_singleton _, by
          intro a ha b hb hab
          rw [List.mem_singleton] at hb
          exact position_none hpos (hb ▸ hab ▸ ha)⟩
      · intro id hid
        rw [List.mem_append, List.mem_singleton] at hid
        cases hid with
        | inl hid => exact .inl hid
        | inr hid => exact .inr ⟨m, rfl, hid.symm⟩
  | remove requestId =>
    dsimp only at h
    split at h
    · simp at h
    · rename_i i _
      have hlist : read.eraseIdx i = list := by simpa using h
      rw [← hlist]
      exact hsub (List.eraseIdx_sublist _ _)
  | decide requestId =>
    dsimp only at h
    split at h
    · rename_i pending i _ _
      have hlist : read.eraseIdx i = list := by simpa using h
      rw [← hlist]
      exact hsub (List.eraseIdx_sublist _ _)
    · simp at h
  | prune now =>
    dsimp only at h
    split at h
    · have hlist : read.filter (fun m => now < m.expiresAt) = list := by simpa using h
      rw [← hlist]
      exact hsub List.filter_sublist
    · simp at h

/-- Only `decide` asks, about a row it read under its own request. -/
theorem planOf_ask {pending : PendingMutation ρ} (h : planOf op read = .ask pending list) :
    op = .decide pending.requestId ∧ pending.requestId ∈ read.map PendingMutation.requestId ∧
      ((read.map PendingMutation.requestId).Nodup →
        pending.requestId ∉ list.map PendingMutation.requestId) := by
  simp only [planOf] at h
  cases op with
  | decide requestId =>
    dsimp only at h
    split at h
    · rename_i found i hfind hpos
      simp only [Plan.ask.injEq] at h
      obtain ⟨rfl, rfl⟩ := h
      obtain ⟨hmem, hid⟩ := Keyed.mem_of_find?_key hfind
      refine ⟨by rw [hid], List.mem_map_of_mem hmem, ?_⟩
      intro hn
      -- the one row of the request is the row taken out
      have hget := position_some hpos
      rw [hid, ← List.eraseIdx_map]
      intro hmem'
      obtain ⟨j, hj, hother⟩ := List.mem_eraseIdx_iff_getElem?.mp hmem'
      have hlt := (List.getElem?_eq_some_iff.mp hother).1
      exact hj ((List.getElem?_inj hlt hn).mp (hother.trans hget.symm))
    · simp at h
  | put m =>
    dsimp only at h
    split at h <;> simp at h
  | remove requestId =>
    dsimp only at h
    split at h <;> simp at h
  | prune now =>
    dsimp only at h
    split at h <;> simp at h

variable {answer : Answer ρ}

/-- An operation that asks nobody does not answer with a decision. -/
theorem planOf_rewrite (h : planOf op read = .rewrite list answer) (pending : PendingMutation ρ) :
    answer ≠ .decided pending := by
  simp only [planOf] at h
  cases op with
  | put m =>
    dsimp only at h
    split at h <;> simp only [Plan.rewrite.injEq] at h <;> simp [← h.2]
  | remove requestId =>
    dsimp only at h
    split at h
    · simp at h
    · simp only [Plan.rewrite.injEq] at h
      simp [← h.2]
  | decide requestId =>
    dsimp only at h
    split at h <;> simp at h
  | prune now =>
    dsimp only at h
    split at h
    · simp only [Plan.rewrite.injEq] at h
      simp [← h.2]
    · simp at h

theorem ids_written (list : List (PendingMutation ρ)) :
    ids (written list) = list.map PendingMutation.requestId := by
  cases list with
  | nil => rfl
  | cons m rest => rfl

/-- An operation that never gets to write leaves the file alone; one that does leaves its list, the
    old file or an unreadable one. -/
theorem atomically_file (file : File ρ) (op : Operation ρ) (o : Outcome) :
    (atomically file op o).2 = file ∨ (atomically file op o).2 = .unreadable ∨
      ∃ list, Writes op (readFile file o.readOk) list ∧ (atomically file op o).2 = written list := by
  have hcases : ∀ list : List (PendingMutation ρ), rewritten file list o = file ∨
      rewritten file list o = .unreadable ∨ rewritten file list o = written list := by
    intro list
    simp only [rewritten]
    split
    · exact .inr (.inr rfl)
    · split
      · exact .inr (.inl rfl)
      · exact .inl rfl
  simp only [atomically]
  cases hplan : planOf op (readFile file o.readOk) with
  | settle answer => exact .inl rfl
  | rewrite list answer =>
    cases hcases list with
    | inl h => exact .inl h
    | inr h => exact .inr (h.imp id fun h => ⟨list, .inl ⟨answer, hplan⟩, h⟩)
  | ask pending list =>
    dsimp only
    split
    · cases hcases list with
      | inl h => exact .inl h
      | inr h => exact .inr (h.imp id fun h => ⟨list, .inr ⟨pending, hplan⟩, h⟩)
    · exact .inl rfl

theorem atomically_nodup (h : (ids file).Nodup) (op : Operation ρ) (o : Outcome) :
    (ids (atomically file op o).2).Nodup := by
  obtain hsame | hcut | ⟨list, hw, hnew⟩ := atomically_file file op o
  · rw [hsame]
    exact h
  · rw [hcut]
    exact List.nodup_nil
  · rw [hnew, ids_written]
    exact (planOf_ids hw).1 (readFile_nodup h _)

/-- A request that was not in the file is there afterwards only when it was put. -/
theorem atomically_absent (h : requestId ∉ ids file) (op : Operation ρ) (o : Outcome) :
    requestId ∉ ids (atomically file op o).2 ∨ ∃ m, op = .put m ∧ m.requestId = requestId := by
  obtain hsame | hcut | ⟨list, hw, hnew⟩ := atomically_file file op o
  · rw [hsame]
    exact .inl h
  · rw [hcut]
    exact .inl List.not_mem_nil
  · rw [hnew, ids_written]
    by_cases hmem : requestId ∈ list.map PendingMutation.requestId
    · cases (planOf_ids hw).2 requestId hmem with
      | inl hread => exact absurd (readFile_ids file _ requestId hread) h
      | inr hput => exact .inr hput
    · exact .inl hmem

/-! ## Replaying -/

theorem replay_concat (file : File ρ) (settled : List (Settled ρ)) (s : Settled ρ) :
    replay file (settled ++ [s]) = (atomically (replay file settled) s.op s.outcome).2 := by
  simp [replay]

theorem answersFrom_concat {settled : List (Settled ρ)} {s : Settled ρ}
    (h : AnswersFrom file settled)
    (hs : s.answer = (atomically (replay file settled) s.op s.outcome).1) :
    AnswersFrom file (settled ++ [s]) := by
  induction settled generalizing file with
  | nil => exact ⟨hs, trivial⟩
  | cons t rest ih => exact ⟨h.1, ih h.2 hs⟩

theorem replay_nodup (h : (ids file).Nodup) (settled : List (Settled ρ)) :
    (ids (replay file settled)).Nodup := by
  induction settled generalizing file with
  | nil => exact h
  | cons s rest ih => exact ih (atomically_nodup h s.op s.outcome)

/-! ## The queue -/

/-- How the operation in progress stands to the file it read, `before`. -/
def Running (before now : File ρ) (op : Operation ρ) (o : Outcome) : Phase ρ → Prop
  | .deciding pending list =>
    now = before ∧ o = .reading o.readOk ∧ planOf op (readFile before o.readOk) = .ask pending list
  | .writing list answer =>
    now = (if o.truncated then .unreadable else before) ∧ o.landed = false ∧
      (planOf op (readFile before o.readOk) = .rewrite list answer ∨
        ∃ pending, planOf op (readFile before o.readOk) = .ask pending list ∧
          answer = .decided pending ∧ o.resolved = true)

/-- The queue in line with `replay`. -/
structure Queue (file : File ρ) (g : Goal ρ) : Prop where
  in_order : g.calls = g.settled.map Settled.op ++ (g.active.map Prod.fst).toList ++ g.waiting
  answers : AnswersFrom file g.settled
  idle : g.active = none → g.file = replay file g.settled
  running : ∀ op o phase, g.active = some (op, o, phase) →
    Running (replay file g.settled) g.file op o phase

theorem queue_start (file : File ρ) : Queue file (start file) :=
  ⟨rfl, trivial, fun _ => rfl, by simp [start]⟩

variable {g g' : Goal ρ}

/-- Settling the operation in progress as its atomic version would. -/
theorem Queue.settle (h : Queue file g) {o : Outcome}
    (hcalls : g.calls = g.settled.map Settled.op ++ op :: g'.waiting) (hc : g'.calls = g.calls)
    (hs : g'.settled = g.settled ++ [⟨op, o, answer⟩]) (ha : g'.active = none)
    (heffect : (answer, g'.file) = atomically (replay file g.settled) op o) : Queue file g' := by
  refine ⟨?_, ?_, ?_, by simp [ha]⟩
  · simp [hc, hcalls, hs, ha]
  · rw [hs]
    exact answersFrom_concat h.answers (by rw [← heffect])
  · intro _
    rw [hs, replay_concat, ← heffect]

theorem Running.write {before now : File ρ} {o : Outcome}
 (h : Running before now op o (.writing list answer)) (landed : Bool) :
    (answer, if landed then written list else now) =
      atomically before op { o with landed } := by
  obtain ⟨hnow, -, hplan⟩ := h
  have hfile : (if landed then written list else now) =
      rewritten before list { o with landed } := by
    rw [hnow]
    rfl
  rw [hfile]
  cases hplan with
  | inl hplan => simp only [atomically, hplan]
  | inr hplan =>
    obtain ⟨pending, hplan, rfl, hres⟩ := hplan
    simp only [atomically, hplan, hres, if_true]

/-- **One step of the queue.** -/
theorem step_queue (g : Goal ρ) (e : Event ρ) (h : Queue file g) : Queue file (step g e) := by
  cases e with
  | call op =>
    refine ⟨?_, h.answers, h.idle, h.running⟩
    simp only [step, h.in_order, List.append_assoc]
  | read ok =>
    simp only [step]
    split
    · rename_i op rest hactive hwaiting
      have hfile := h.idle hactive
      have hcalls : g.calls = g.settled.map Settled.op ++ op :: rest := by
        have := h.in_order
        simpa [hactive, hwaiting] using this
      cases hplan : planOf op (readFile g.file ok) with
      | settle answer =>
        have heffect : (answer, g.file) =
            atomically (replay file g.settled) op (.reading ok) := by
          simp only [atomically, Outcome.reading, ← hfile, hplan]
        exact h.settle hcalls rfl rfl rfl heffect
      | rewrite list answer =>
        refine ⟨by simp [hcalls], h.answers, by simp, ?_⟩
        intro op' o phase hsome
        simp only [Option.some.injEq, Prod.mk.injEq] at hsome
        obtain ⟨rfl, rfl, rfl⟩ := hsome
        exact ⟨hfile, rfl, .inl (by rw [← hfile]; exact hplan)⟩
      | ask pending list =>
        refine ⟨by simp [hcalls], h.answers, by simp, ?_⟩
        intro op' o phase hsome
        simp only [Option.some.injEq, Prod.mk.injEq] at hsome
        obtain ⟨rfl, rfl, rfl⟩ := hsome
        exact ⟨hfile, rfl, by rw [← hfile]; exact hplan⟩
    · exact h
  | answer resolves =>
    simp only [step]
    split
    · rename_i op o pending list hactive
      obtain ⟨hnow, ho, hplan⟩ := h.running _ _ _ hactive
      have hcalls : g.calls = g.settled.map Settled.op ++ op :: g.waiting := by
        have := h.in_order
        simpa [hactive] using this
      split
      · refine ⟨by simp [hcalls], h.answers, by simp, ?_⟩
        intro op' o' phase hsome
        simp only [Option.some.injEq, Prod.mk.injEq] at hsome
        obtain ⟨rfl, rfl, rfl⟩ := hsome
        refine ⟨?_, by rw [ho]; rfl, .inr ⟨pending, hplan, rfl, rfl⟩⟩
        rw [ho]
        exact hnow
      · have heffect : (.rejected, g.file) = atomically (replay file g.settled) op o := by
          have hres : o.resolved = false := by
            rw [ho]
            rfl
          simp only [atomically, hplan, hnow, hres, Bool.false_eq_true, if_false]
        exact h.settle hcalls rfl rfl rfl heffect
    · exact h
  | truncate =>
    simp only [step]
    split
    · rename_i op o list answer hactive
      obtain ⟨hnow, hlanded, hplan⟩ := h.running _ _ _ hactive
      split
      · exact h
      · refine ⟨?_, h.answers, by simp, ?_⟩
        · have := h.in_order
          simpa [hactive] using this
        · intro op' o' phase hsome
          simp only [Option.some.injEq, Prod.mk.injEq] at hsome
          obtain ⟨rfl, rfl, rfl⟩ := hsome
          exact ⟨rfl, hlanded, hplan⟩
    · exact h
  | write landed =>
    simp only [step]
    split
    · rename_i op o list answer hactive
      have heffect := (h.running _ _ _ hactive).write landed
      have hcalls : g.calls = g.settled.map Settled.op ++ op :: g.waiting := by
        have := h.in_order
        simpa [hactive] using this
      split
      · rename_i hl
        rw [if_pos hl] at heffect
        exact h.settle hcalls rfl rfl rfl heffect
      · rename_i hl
        rw [if_neg hl] at heffect
        exact h.settle hcalls rfl rfl rfl heffect
    · exact h
  | get requestId => exact ⟨h.in_order, h.answers, h.idle, h.running⟩
  | getReads i ok =>
    simp only [step]
    split
    · split
      · exact ⟨h.in_order, h.answers, h.idle, h.running⟩
      · exact h
    · exact h

/-! ## Reads that bypass the queue -/

/-- What is known of the `get`s that have returned. -/
def Gets (file : File ρ) (g : Goal ρ) : Prop :=
  ∀ e ∈ g.got, e.ahead ≤ e.seen ∧ e.seen ≤ g.settled.length ∧
    e.found = if e.whole then
      (readFile (replay file (g.settled.take e.seen)) true).find?
        (fun m => m.requestId = e.requestId) else none

/-- The reads made so far keep their meaning when more operations settle. -/
theorem Gets.mono (h : Gets file g) (hgot : g'.got = g.got)
    {more : List (Settled ρ)} (hs : g'.settled = g.settled ++ more) : Gets file g' := by
  intro e he
  rw [hgot] at he
  obtain ⟨hahead, hseen, hfound⟩ := h e he
  refine ⟨hahead, ?_, ?_⟩
  · rw [hs, List.length_append]
    omega
  · rw [hs, List.take_append_of_le_length hseen]
    exact hfound

theorem step_settled (g : Goal ρ) (e : Event ρ) :
    ∃ more, (step g e).settled = g.settled ++ more := by
  have hsame : ∃ more, g.settled = g.settled ++ more := ⟨[], (List.append_nil _).symm⟩
  cases e with
  | call op => exact hsame
  | read ok =>
    simp only [step]
    split
    · split
      · exact ⟨_, rfl⟩
      · exact hsame
      · exact hsame
    · exact hsame
  | answer resolves =>
    simp only [step]
    split
    · split
      · exact hsame
      · exact ⟨_, rfl⟩
    · exact hsame
  | truncate =>
    simp only [step]
    split
    · split
      · exact hsame
      · exact hsame
    · exact hsame
  | write landed =>
    simp only [step]
    split
    · split
      · exact ⟨_, rfl⟩
      · exact ⟨_, rfl⟩
    · exact hsame
  | get requestId => exact hsame
  | getReads i ok =>
    simp only [step]
    split
    · split
      · exact hsame
      · exact hsame
    · exact hsame

/-- While nothing has been cut short the file is the one the settled operations left. -/
theorem Queue.file_eq (h : Queue file g)
    (hcut : ∀ op o phase, g.active = some (op, o, phase) → o.truncated = false) :
    g.file = replay file g.settled := by
  cases hactive : g.active with
  | none => exact h.idle hactive
  | some running =>
    obtain ⟨op, o, phase⟩ := running
    have hrun := h.running op o phase hactive
    cases phase with
    | deciding pending list => exact hrun.1
    | writing list answer =>
      have hnow := hrun.1
      rw [hcut op o _ hactive] at hnow
      exact hnow

theorem Queue.cut (h : Queue file g)
    {o : Outcome} {phase : Phase ρ} (hactive : g.active = some (op, o, phase))
    (hcut : o.truncated = true) : g.file = .unreadable := by
  have hrun := h.running op o phase hactive
  cases phase with
  | deciding pending list =>
    have ho := hrun.2.1
    rw [ho] at hcut
    simp [Outcome.reading] at hcut
  | writing list answer =>
    have hnow := hrun.1
    rw [hcut] at hnow
    exact hnow

/-- **One step of the reads.** A `get` reads the file as some number of settled operations left
    it, at least those queued before it. -/
theorem step_gets (g : Goal ρ) (e : Event ρ) (hq : Queue file g)
    (h : Gets file g) : Gets file (step g e) := by
  have hsame : (step g e).got = g.got → Gets file (step g e) := by
    intro hgot
    obtain ⟨more, hs⟩ := step_settled g e
    exact h.mono hgot hs
  cases e with
  | getReads i ok =>
    simp only [step] at hsame ⊢
    split
    · rename_i ahead requestId _
      split
      · rename_i hready
        intro e he
        simp only [List.mem_append, List.mem_singleton] at he
        cases he with
        | inl he => exact h e he
        | inr he =>
          subst he
          refine ⟨hready, Nat.le_refl _, ?_⟩
          dsimp only
          rw [List.take_length]
          cases hactive : g.active with
          | none =>
            rw [hq.idle hactive]
            cases ok <;> simp [readFile]
          | some running =>
            obtain ⟨op, o, phase⟩ := running
            cases hcut : o.truncated with
            | true =>
              rw [hq.cut hactive hcut]
              cases ok <;> simp [readFile, hcut]
            | false =>
              rw [hq.file_eq (by
                intro op' o' phase' hsome
                rw [hactive] at hsome
                cases hsome
                exact hcut)]
              cases ok <;> simp [readFile, hcut]
      · exact h
    · exact h
  | call op => exact hsame rfl
  | read ok =>
    apply hsame
    simp only [step]
    split
    · split <;> rfl
    · rfl
  | answer resolves =>
    apply hsame
    simp only [step]
    split
    · split <;> rfl
    · rfl
  | truncate =>
    apply hsame
    simp only [step]
    split
    · split <;> rfl
    · rfl
  | write landed =>
    apply hsame
    simp only [step]
    split
    · split <;> rfl
    · rfl
  | get requestId => exact hsame rfl

/-! ## Decisions -/

/-- What is known of the decision callbacks that were run. -/
structure Decisions (file : File ρ) (g : Goal ρ) : Prop where
  asked_lt : ∀ j requestId, (j, requestId) ∈ g.asked →
    j < g.settled.length ∨ (j = g.settled.length ∧ g.active.isSome)
  resolved_asked : ∀ p ∈ g.resolved, p ∈ g.asked
  /-- the callback of the operation in progress is running -/
  running : ∀ op o pending list, g.active = some (op, o, .deciding pending list) →
    (g.settled.length, pending.requestId) ∈ g.asked
  /-- the callback of the operation in progress has resolved -/
  now : ∀ requestId, (g.settled.length, requestId) ∈ g.resolved →
    ∃ op o pending list, g.active = some (op, o, .writing list (.decided pending)) ∧
      pending.requestId = requestId
  /-- the callback of a settled operation has resolved: the request is gone -/
  gone : ∀ i requestId, (i, requestId) ∈ g.resolved → i < g.settled.length →
    requestId ∉ ids (replay file g.settled) ∨ PutBetween g i g.settled.length requestId ∨ Kept g i
  once : DecidedOnce g

theorem decisions_start (file : File ρ) : Decisions file (start file) :=
  ⟨by simp [start], by simp [start], by simp [start], by simp [start], by simp [start],
    by simp [DecidedOnce, start]⟩

theorem PutBetween.mono {i j j' : Nat}
    (h : PutBetween g i j requestId) (hj : j ≤ j') {more : List (Operation ρ)}
    (hc : g'.calls = g.calls ++ more) : PutBetween g' i j' requestId := by
  obtain ⟨k, m, hik, hkj, hget, hm⟩ := h
  refine ⟨k, m, hik, Nat.lt_of_lt_of_le hkj hj, ?_, hm⟩
  rw [hc, List.getElem?_append_left (List.getElem?_eq_some_iff.mp hget).1]
  exact hget

theorem Kept.mono {i : Nat} (h : Kept g i) {more : List (Settled ρ)}
    (hs : g'.settled = g.settled ++ more) : Kept g' i := by
  obtain ⟨s, hget, hout⟩ := h
  refine ⟨s, ?_, hout⟩
  rw [hs, List.getElem?_append_left (List.getElem?_eq_some_iff.mp hget).1]
  exact hget

/-- A step that settles nothing, runs no callback and keeps what is in progress. -/
theorem Decisions.of_same (h : Decisions file g)
    (hs : g'.settled = g.settled) (hasked : g'.asked = g.asked) (hres : g'.resolved = g.resolved)
    {more : List (Operation ρ)} (hc : g'.calls = g.calls ++ more)
    (ha : g.active.isSome → g'.active.isSome)
    (hrun : ∀ op o pending list, g'.active = some (op, o, .deciding pending list) →
      ∃ o', g.active = some (op, o', .deciding pending list))
    (hnow : ∀ op o pending list, g.active = some (op, o, .writing list (.decided pending)) →
      ∃ o', g'.active = some (op, o', .writing list (.decided pending))) : Decisions file g' := by
  refine ⟨?_, ?_, ?_, ?_, ?_, ?_⟩
  · intro j requestId hj
    rw [hasked] at hj
    rw [hs]
    exact (h.asked_lt j requestId hj).imp id fun hnow => ⟨hnow.1, ha hnow.2⟩
  · rw [hres, hasked]
    exact h.resolved_asked
  · intro op o pending list hactive
    obtain ⟨o', hactive'⟩ := hrun op o pending list hactive
    rw [hs, hasked]
    exact h.running op o' pending list hactive'
  · intro requestId hr
    rw [hs, hres] at hr
    obtain ⟨op, o, pending, list, hactive, hid⟩ := h.now requestId hr
    obtain ⟨o', hactive'⟩ := hnow op o pending list hactive
    exact ⟨op, o', pending, list, hactive', hid⟩
  · intro i requestId hi hlt
    rw [hres] at hi
    rw [hs] at hlt ⊢
    exact (h.gone i requestId hi hlt).imp id fun hcase =>
      hcase.imp (fun hput => hput.mono (Nat.le_refl _) hc)
        (fun hkept => hkept.mono (by rw [hs, List.append_nil]))
  · intro i j requestId hi hj hij
    rw [hres] at hi
    rw [hasked] at hj
    exact (h.once i j requestId hi hj hij).imp (fun hput => hput.mono (Nat.le_refl _) hc)
      (fun hkept => hkept.mono (by rw [hs, List.append_nil]))

/-- An operation settles: a request whose decision had resolved stays out of the file unless it
    is put, and the request of this operation is out of it unless the write failed. -/
theorem Decisions.settle (hfile : (ids file).Nodup) (h : Decisions file g) {o : Outcome}
    (hs : g'.settled = g.settled ++ [⟨op, o, answer⟩]) (ha : g'.active = none)
    (hc : g'.calls = g.calls) (hop : g.calls[g.settled.length]? = some op) (hasked : g'.asked = g.asked)
    (hres : g'.resolved = g.resolved)
    (hmine : ∀ requestId, (g.settled.length, requestId) ∈ g.resolved →
      ∃ pending list, pending.requestId = requestId ∧ o.resolved = true ∧
        planOf op (readFile (replay file g.settled) o.readOk) = .ask pending list) :
    Decisions file g' := by
  have hlen : g'.settled.length = g.settled.length + 1 := by
    rw [hs, List.length_append, List.length_singleton]
  have hcalls : g'.calls = g.calls ++ [] := by rw [hc, List.append_nil]
  refine ⟨?_, ?_, by simp [ha], ?_, ?_, ?_⟩
  · intro j requestId hj
    rw [hasked] at hj
    have := h.asked_lt j requestId hj
    omega
  · rw [hres, hasked]
    exact h.resolved_asked
  · intro requestId hr
    rw [hlen, hres] at hr
    have := h.asked_lt _ _ (h.resolved_asked _ hr)
    omega
  · intro i requestId hi hlt
    rw [hres] at hi
    rw [hlen] at hlt ⊢
    have hreplay : replay file g'.settled = (atomically (replay file g.settled) op o).2 := by
      rw [hs, replay_concat]
    by_cases hnew : i = g.settled.length
    · -- the operation that settles is the decision itself
      subst hnew
      obtain ⟨pending, list, hid, hresolved, hplan⟩ := hmine requestId hi
      have hgone := (planOf_ask hplan).2.2 (readFile_nodup (replay_nodup hfile _) _)
      have heffect : (atomically (replay file g.settled) op o).2 =
          rewritten (replay file g.settled) list o := by
        simp only [atomically, hplan, hresolved, if_true]
      cases hlanded : o.landed with
      | true =>
        left
        rw [hreplay, heffect, rewritten, if_pos hlanded, ids_written, ← hid]
        exact hgone
      | false =>
        cases hcut : o.truncated with
        | true =>
          left
          rw [hreplay, heffect, rewritten, if_neg (by simp [hlanded]), if_pos hcut]
          exact List.not_mem_nil
        | false =>
          right; right
          refine ⟨⟨op, o, answer⟩, ?_, hlanded, hcut⟩
          rw [hs, List.getElem?_append_right (Nat.le_refl _), Nat.sub_self]
          rfl
    · have hlt' : i < g.settled.length := by omega
      cases h.gone i requestId hi hlt' with
      | inl habsent =>
        cases atomically_absent habsent op o with
        | inl hstill =>
          left
          rw [hreplay]
          exact hstill
        | inr hput =>
          obtain ⟨m, rfl, hm⟩ := hput
          right; left
          exact ⟨g.settled.length, m, hlt', by omega, by rw [hc]; exact hop, hm⟩
      | inr hcase =>
        right
        exact hcase.imp (fun hput => hput.mono (Nat.le_succ _) hcalls) (fun hkept => hkept.mono hs)
  · intro i j requestId hi hj hij
    rw [hres] at hi
    rw [hasked] at hj
    exact (h.once i j requestId hi hj hij).imp (fun hput => hput.mono (Nat.le_refl _) hcalls)
      (fun hkept => hkept.mono hs)

/-- The operation at the head of the queue is the next call. -/
theorem Queue.head (h : Queue file g)
    (hop : (g.active.map Prod.fst).toList ++ g.waiting = op :: g.waiting ∨
      (g.active = none ∧ ∃ rest, g.waiting = op :: rest)) :
    g.calls[g.settled.length]? = some op := by
  have hlen : (g.settled.map Settled.op).length = g.settled.length := List.length_map _
  rw [h.in_order, List.append_assoc, List.getElem?_append_right (by rw [hlen]), hlen,
    Nat.sub_self]
  cases hop with
  | inl hop =>
    rw [hop]
    rfl
  | inr hop =>
    obtain ⟨hnone, rest, hw⟩ := hop
    rw [hnone, hw]
    rfl

/-- **One step of the decisions.** -/
theorem step_decisions (hfile : (ids file).Nodup) (g : Goal ρ) (e : Event ρ)
    (hq : Queue file g) (h : Decisions file g) : Decisions file (step g e) := by
  cases e with
  | call op =>
    exact h.of_same rfl rfl rfl rfl id (fun _ o _ _ hactive => ⟨o, hactive⟩)
        (fun _ o _ _ hactive => ⟨o, hactive⟩)
  | get requestId =>
    exact h.of_same rfl rfl rfl (List.append_nil _).symm id (fun _ o _ _ hactive => ⟨o, hactive⟩)
        (fun _ o _ _ hactive => ⟨o, hactive⟩)
  | getReads i ok =>
    simp only [step]
    split
    · split
      · exact h.of_same rfl rfl rfl (List.append_nil _).symm id
          (fun _ o _ _ hactive => ⟨o, hactive⟩) (fun _ o _ _ hactive => ⟨o, hactive⟩)
      · exact h
    · exact h
  | truncate =>
    simp only [step]
    split
    · rename_i op o list answer hactive
      split
      · exact h
      · refine h.of_same rfl rfl rfl (List.append_nil _).symm (fun _ => rfl) (by simp) ?_
        intro op' o' pending list' hsome
        rw [hactive] at hsome
        simp only [Option.some.injEq, Prod.mk.injEq, Phase.writing.injEq] at hsome
        obtain ⟨rfl, rfl, rfl, rfl⟩ := hsome
        exact ⟨_, rfl⟩
    · exact h
  | read ok =>
    simp only [step]
    split
    · rename_i op rest hactive hwaiting
      have hop := hq.head (.inr ⟨hactive, rest, hwaiting⟩)
      -- nothing is in progress, so no callback of this call has resolved
      have hnone : ∀ requestId, (g.settled.length, requestId) ∉ g.resolved := by
        intro requestId hr
        obtain ⟨_, _, _, _, hsome, -⟩ := h.now requestId hr
        rw [hactive] at hsome
        cases hsome
      cases hplan : planOf op (readFile g.file ok) with
      | settle answer =>
        exact h.settle hfile rfl rfl rfl hop rfl rfl fun requestId hr => absurd hr (hnone requestId)
      | rewrite list answer =>
        refine h.of_same rfl rfl rfl (List.append_nil _).symm (fun _ => rfl) (by simp) ?_
        intro op' o pending list' hsome
        rw [hactive] at hsome
        cases hsome
      | ask pending list =>
        have hmem : pending.requestId ∈ ids g.file := readFile_ids _ _ _ (planOf_ask hplan).2.1
        rw [hq.idle hactive] at hmem
        refine ⟨?_, ?_, ?_, ?_, h.gone, ?_⟩
        · intro j requestId hj
          simp only [List.mem_append, List.mem_singleton] at hj
          cases hj with
          | inl hj =>
            left
            have := h.asked_lt j requestId hj
            simpa [hactive] using this
          | inr hj =>
            cases hj
            exact .inr ⟨rfl, rfl⟩
        · intro p hp
          exact List.mem_append_left _ (h.resolved_asked p hp)
        · intro op' o pending' list' hsome
          simp only [Option.some.injEq, Prod.mk.injEq, Phase.deciding.injEq] at hsome
          obtain ⟨rfl, rfl, rfl, rfl⟩ := hsome
          exact List.mem_append_right _ (List.mem_singleton.mpr rfl)
        · intro requestId hr
          exact absurd hr (hnone requestId)
        · intro i j requestId hi hj hij
          simp only [List.mem_append, List.mem_singleton] at hj
          cases hj with
          | inl hj => exact h.once i j requestId hi hj hij
          | inr hj =>
            -- the new callback: its request is in the file
            simp only [Prod.mk.injEq] at hj
            obtain ⟨rfl, rfl⟩ := hj
            exact (h.gone i _ hi hij).resolve_left fun hgone => hgone hmem
    · exact h
  | answer resolves =>
    simp only [step]
    split
    · rename_i op o pending list hactive
      have hop := hq.head (.inl (by rw [hactive]; rfl))
      have hnone : ∀ requestId, (g.settled.length, requestId) ∉ g.resolved := by
        intro requestId hr
        obtain ⟨_, _, _, _, hsome, -⟩ := h.now requestId hr
        rw [hactive] at hsome
        cases hsome
      split
      · -- the callback resolves; no later call has run one yet
        refine ⟨?_, ?_, by simp, ?_, ?_, ?_⟩
        · intro j requestId hj
          exact (h.asked_lt j requestId hj).imp id fun hnow => ⟨hnow.1, rfl⟩
        · intro p hp
          simp only [List.mem_append, List.mem_singleton] at hp
          cases hp with
          | inl hp => exact h.resolved_asked p hp
          | inr hp =>
            rw [hp]
            exact h.running _ _ _ _ hactive
        · intro requestId hr
          simp only [List.mem_append, List.mem_singleton, Prod.mk.injEq] at hr
          cases hr with
          | inl hr => exact absurd hr (hnone requestId)
          | inr hr => exact ⟨_, _, _, _, rfl, hr.2.symm⟩
        · intro i requestId hi hlt
          simp only [List.mem_append, List.mem_singleton, Prod.mk.injEq] at hi
          cases hi with
          | inl hi => exact h.gone i requestId hi hlt
          | inr hi =>
            have : i < g.settled.length := hlt
            omega
        · intro i j requestId hi hj hij
          simp only [List.mem_append, List.mem_singleton, Prod.mk.injEq] at hi
          cases hi with
          | inl hi => exact h.once i j requestId hi hj hij
          | inr hi =>
            have := h.asked_lt j requestId hj
            omega
      · exact h.settle hfile rfl rfl rfl hop rfl rfl fun requestId hr => absurd hr (hnone requestId)
    · exact h
  | write landed =>
    simp only [step]
    split
    · rename_i op o list answer hactive
      have hop := hq.head (.inl (by rw [hactive]; rfl))
      have hmine : ∀ requestId, (g.settled.length, requestId) ∈ g.resolved →
          ∃ pending list, pending.requestId = requestId ∧ o.resolved = true ∧
            planOf op (readFile (replay file g.settled) o.readOk) = .ask pending list := by
        intro requestId hr
        obtain ⟨op', o', pending, list', hsome, hid⟩ := h.now requestId hr
        rw [hactive] at hsome
        simp only [Option.some.injEq, Prod.mk.injEq, Phase.writing.injEq] at hsome
        obtain ⟨rfl, rfl, rfl, rfl⟩ := hsome
        cases (hq.running _ _ _ hactive).2.2 with
        | inl hplan => exact absurd rfl (planOf_rewrite hplan pending)
        | inr hplan =>
          obtain ⟨pending', hplan, hanswer, hresolved⟩ := hplan
          rw [Answer.decided.injEq] at hanswer
          subst hanswer
          exact ⟨pending, list, hid, hresolved, hplan⟩
      split
      · exact h.settle hfile rfl rfl rfl hop rfl rfl hmine
      · exact h.settle hfile rfl rfl rfl hop rfl rfl hmine
    · exact h

/-! ## Runs -/

/-- **Decided once.** Over every run from a file with distinct requests: the queued operations
    take effect one at a time in call order, each `get` reads the file between two of them, and
    after a decision has resolved no later call runs one for that request, unless the request was
    put again or the write that was to remove it failed and left the file as it was. -/
theorem decided_once (file : File ρ) (hfile : (ids file).Nodup) (events : List (Event ρ)) :
    Serial file (run step (start file) events) ∧ DecidedOnce (run step (start file) events) := by
  have hinv : Queue file (run step (start file) events) ∧
      Gets file (run step (start file) events) ∧
      Decisions file (run step (start file) events) := by
    apply inv_run (I := fun g => Queue file g ∧ Gets file g ∧ Decisions file g)
    · intro g e h
      exact ⟨step_queue g e h.1, step_gets g e h.1 h.2.1, step_decisions hfile g e h.1 h.2.2⟩
    · exact ⟨queue_start file, by simp [Gets, start], decisions_start file⟩
  obtain ⟨hq, hg, hd⟩ := hinv
  exact ⟨⟨hq.in_order, hq.answers, hq.idle, hg⟩, hd.once⟩

/-- A request as a test would put it. -/
def exampleMutation : PendingMutation Unit := ⟨"g", "r", 10, ()⟩

theorem decided_once_retry :
    Serial .absent (run step (start .absent) [.call (.put exampleMutation), .read true,
      .write true, .call (.decide "r"), .read true, .answer true, .write true,
      .call (.decide "r"), .read true]) ∧
    DecidedOnce (run step (start .absent) [.call (.put exampleMutation), .read true,
      .write true, .call (.decide "r"), .read true, .answer true, .write true,
      .call (.decide "r"), .read true]) :=
  decided_once .absent (by decide) _

/-- The write after a resolved decision fails: the next call decides the request again. And a
    `get` called before a `remove` reads the file after it. -/
theorem decided_twice :
    let g := run step (start .absent) [.call (.put exampleMutation), .read true, .write true,
      .call (.decide "r"), .read true, .answer true, .write false,
      .call (.decide "r"), .read true, .answer true, .write false,
      .get "r", .call (.remove "r"), .read true, .write true, .getReads 0 true]
    g.resolved = [(1, "r"), (2, "r")] ∧
      g.calls = [.put exampleMutation, .decide "r", .decide "r", .remove "r"] ∧
      g.settled.map Settled.answer =
        [.stored, .decided exampleMutation, .decided exampleMutation, .removed true] ∧
      g.got = [⟨3, 4, true, "r", none⟩] := by
  decide

end Bobbit.Server.PlanMutationStore
