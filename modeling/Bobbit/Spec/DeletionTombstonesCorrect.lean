import Bobbit.Lib.Run
import Bobbit.Server.DeletionTombstones
import Bobbit.Spec.SessionDeletionCorrect

/-!
# Deletion tombstones are not lost

Only the writer in `asyncWriters` changes the file while there is one, so what it has read is the
file until it writes, and what it writes extends the file. A tombstone that is recorded meanwhile
waits with the writer for its next round.

## Key results

* `held_step` — what is in the file or with the writer stays there.
* `sound_step` — what a step keeps.
* `within_step` — every step of the drain brings a tombstone nearer to the file.
* `tombstones_kept` — every recorded tombstone ends in the file once, before its promise settles.
-/

namespace Bobbit.Server

open Lib

namespace TombstoneStore

/-! ## Tombstone files -/

/-- How often a file has a tombstone. -/
def tombstoneCount (all : Tombstones) (entry : PendingTombstone) : Nat :=
  ((JsMap.get? all entry.1).getD []).count entry.2

theorem hasTombstone_iff_count {all : Tombstones} {entry : PendingTombstone} :
    hasTombstone all entry = true ↔ 0 < tombstoneCount all entry := by
  rw [hasTombstone, tombstoneCount, List.count_pos_iff, List.contains_eq_mem, decide_eq_true_eq]

theorem tombstoneCount_push (all : Tombstones) (entry other : PendingTombstone) :
    tombstoneCount (pushTombstone all entry) other =
      tombstoneCount all other + if other = entry then 1 else 0 := by
  obtain ⟨file, key⟩ := entry
  obtain ⟨file', key'⟩ := other
  unfold tombstoneCount pushTombstone
  rw [JsMap.get?_set]
  by_cases hfile : file' = file
  · subst hfile
    rw [if_pos rfl, Option.getD_some, List.count_append, List.count_singleton]
    by_cases hkey : key' = key
    · simp [hkey]
    · simp [hkey, Ne.symm hkey]
  · simp [hfile]

/-- The file has what it had, and what has come since it has once. -/
def GrownFrom (init all : Tombstones) : Prop :=
  ∀ entry, tombstoneCount init entry ≤ tombstoneCount all entry ∧
    tombstoneCount all entry ≤ max 1 (tombstoneCount init entry)

theorem GrownFrom.refl (all : Tombstones) : GrownFrom all all :=
  fun _ => ⟨le_refl _, le_max_right _ _⟩

theorem GrownFrom.count {init all : Tombstones} (h : GrownFrom init all) {entry : PendingTombstone}
    (hhas : hasTombstone all entry = true) :
    tombstoneCount all entry = max 1 (tombstoneCount init entry) := by
  have hpos := hasTombstone_iff_count.mp hhas
  have := h entry
  omega

/-- A tombstone is pushed when the file does not have it. -/
theorem GrownFrom.push {init all : Tombstones} (h : GrownFrom init all) {entry : PendingTombstone}
    (hnew : ¬ hasTombstone all entry = true) : GrownFrom init (pushTombstone all entry) := by
  intro other
  rw [hasTombstone_iff_count] at hnew
  have hother := h other
  rw [tombstoneCount_push]
  split
  · next heq =>
    subst heq
    omega
  · omega

theorem GrownFrom.apply {init all : Tombstones} (h : GrownFrom init all)
    (batch : List PendingTombstone) : GrownFrom init (applyTombstones all batch).1 := by
  have hfold : ∀ (batch : List PendingTombstone) (state : Tombstones × Bool),
      GrownFrom init state.1 →
      GrownFrom init (batch.foldl (fun state entry =>
        if hasTombstone state.1 entry then state else (pushTombstone state.1 entry, true))
        state).1 := by
    intro batch
    induction batch with
    | nil => exact fun state hstate => hstate
    | cons entry rest ih =>
      intro state hstate
      rw [List.foldl_cons]
      apply ih
      split
      · exact hstate
      · next hnew => exact hstate.push hnew
  exact hfold batch (all, false) h

end TombstoneStore

/-! ## Phases -/

/-- The phase has the tombstone in its batch, or in what it is about to write. -/
def TombstoneDrain.Holds (phase : TombstoneDrain) (entry : PendingTombstone) : Prop :=
  match phase with
  | .mkdir batch | .readFile batch | .readDone batch _ => entry ∈ batch
  | .writeFile all => hasTombstone all entry = true
  | .writeDone => False

open TombstoneStore in
/-- What the drain has read is the file, and what it is about to write extends it. -/
def TombstoneDrain.Sound (init file : Tombstones) : TombstoneDrain → Prop
  | .mkdir _ | .readFile _ | .writeDone => True
  | .readDone _ all => all = file
  | .writeFile all => GrownFrom init all ∧
    ∀ entry, hasTombstone file entry = true → hasTombstone all entry = true

/-- The event is a call for the tombstone; the empty key is not recorded. -/
def TombstoneEvent.Records (event : TombstoneEvent) (entry : PendingTombstone) : Prop :=
  entry.2 ≠ "" ∧ (event = .record entry.1 entry.2 ∨ event = .recordAsync entry.1 entry.2)

/-- The steps of the drain until its batch is in the file, at most. -/
def TombstoneDrain.left : TombstoneDrain → Nat
  | .mkdir _ => 4
  | .readFile _ => 3
  | .readDone _ _ => 2
  | .writeFile _ => 1
  | .writeDone => 0

namespace TombstoneStore

/-! ## Where a tombstone is -/

def Durable (s : TombstoneStore) (entry : PendingTombstone) : Prop :=
  hasTombstone s.file entry = true

def InMemory (s : TombstoneStore) (entry : PendingTombstone) : Prop :=
  ∃ writer, s.writer = some writer ∧ (entry ∈ writer.pending ∨ writer.phase.Holds entry)

def Held (s : TombstoneStore) (entry : PendingTombstone) : Prop :=
  s.Durable entry ∨ s.InMemory entry

/-- The invariant of the runs that begin with the file `init`. -/
structure Sound (init : Tombstones) (s : TombstoneStore) : Prop where
  grown : GrownFrom init s.file
  phase : ∀ writer, s.writer = some writer → writer.phase.Sound init s.file
  recorded : ∀ entry ∈ s.recorded, s.Held entry
  returned : ∀ p ∈ s.returned, p.2 ∈ s.recorded
  unsettled : ∀ writer, s.writer = some writer →
    writer.inFlight ∉ s.settled ∧ writer.inFlight < s.promises
  settled : ∀ promise ∈ s.settled, promise < s.promises
  durable : ∀ p ∈ s.returned, p.1 ∈ s.settled → s.Durable p.2
  settles : ∀ p ∈ s.returned, p.1 ∈ s.settled ∨
    ∃ writer, s.writer = some writer ∧ writer.inFlight = p.1

variable {init : Tombstones} {s : TombstoneStore} {writer : DrainWriter}

theorem sound_started (init : Tombstones) : Sound init (started init) where
  grown := GrownFrom.refl init
  phase := fun _ h => by cases h
  recorded := fun _ h => absurd h List.not_mem_nil
  returned := fun _ h => absurd h List.not_mem_nil
  unsettled := fun _ h => by cases h
  settled := fun _ h => absurd h List.not_mem_nil
  durable := fun _ h => absurd h List.not_mem_nil
  settles := fun _ h => absurd h List.not_mem_nil

/-! ## The loop test -/

theorem drainLoop_nil (h : writer.pending = []) :
    s.drainLoop writer = { s with writer := none, settled := s.settled ++ [writer.inFlight] } := by
  rw [drainLoop, if_pos h, retire, if_pos h]

theorem drainLoop_cons (h : writer.pending ≠ []) :
    s.drainLoop writer =
      { s with writer := some { writer with pending := [], phase := .mkdir writer.pending } } := by
  rw [drainLoop, if_neg h]

theorem drainLoop_frame : (s.drainLoop writer).file = s.file ∧
    (s.drainLoop writer).recorded = s.recorded ∧ (s.drainLoop writer).returned = s.returned := by
  by_cases hpending : writer.pending = []
  · rw [drainLoop_nil hpending]
    exact ⟨rfl, rfl, rfl⟩
  · rw [drainLoop_cons hpending]
    exact ⟨rfl, rfl, rfl⟩

/-- The loop test keeps the invariant when the last batch is in the file. -/
theorem sound_drainLoop (h : Sound init s) (hwriter : s.writer = some writer)
    (hbatch : ∀ entry, writer.phase.Holds entry → s.Durable entry) :
    Sound init (s.drainLoop writer) := by
  have hheld : ∀ entry ∈ s.recorded, s.Durable entry ∨ entry ∈ writer.pending := by
    intro entry hentry
    rcases h.recorded entry hentry with hdurable | ⟨w, hw, hpending | hholds⟩
    · exact .inl hdurable
    · cases hwriter.symm.trans hw
      exact .inr hpending
    · cases hwriter.symm.trans hw
      exact .inl (hbatch entry hholds)
  by_cases hpending : writer.pending = []
  · rw [drainLoop_nil hpending]
    have hdurable : ∀ entry ∈ s.recorded, s.Durable entry := by
      intro entry hentry
      rcases hheld entry hentry with hdurable | hmem
      · exact hdurable
      · rw [hpending] at hmem
        exact absurd hmem List.not_mem_nil
    exact {
      grown := h.grown
      phase := fun _ hw => by cases hw
      recorded := fun entry hentry => .inl (hdurable entry hentry)
      returned := h.returned
      unsettled := fun _ hw => by cases hw
      settled := fun promise hp => by
        rcases List.mem_append.mp hp with hp | hp
        · exact h.settled promise hp
        · rw [List.mem_singleton.mp hp]
          exact (h.unsettled writer hwriter).2
      durable := fun p hp _ => hdurable p.2 (h.returned p hp)
      settles := fun p hp => by
        rcases h.settles p hp with hsettled | ⟨w, hw, hflight⟩
        · exact .inl (List.mem_append_left _ hsettled)
        · cases hwriter.symm.trans hw
          exact .inl (List.mem_append_right _ (List.mem_singleton.mpr hflight.symm)) }
  · rw [drainLoop_cons hpending]
    exact {
      grown := h.grown
      phase := fun w hw => by
        cases hw
        trivial
      recorded := fun entry hentry => by
        rcases hheld entry hentry with hdurable | hmem
        · exact .inl hdurable
        · exact .inr ⟨_, rfl, .inr hmem⟩
      returned := h.returned
      unsettled := fun w hw => by
        cases hw
        exact h.unsettled writer hwriter
      settled := h.settled
      durable := h.durable
      settles := fun p hp => by
        rcases h.settles p hp with hsettled | ⟨w, hw, hflight⟩
        · exact .inl hsettled
        · cases hwriter.symm.trans hw
          exact .inr ⟨_, rfl, hflight⟩ }

/-! ## The steps of the drain -/

/-- The drain goes on to another phase with the same tombstones in memory or on disk. -/
theorem sound_phase (h : Sound init s) (hwriter : s.writer = some writer) {phase : TombstoneDrain}
    {file : Tombstones} (hphase : phase.Sound init file) (hgrown : GrownFrom init file)
    (hfile : ∀ entry, s.Durable entry → hasTombstone file entry = true)
    (hholds : ∀ entry, writer.phase.Holds entry →
      phase.Holds entry ∨ hasTombstone file entry = true) :
    Sound init { s with file := file, writer := some { writer with phase := phase } } where
  grown := hgrown
  phase := fun w hw => by
    cases hw
    exact hphase
  recorded := fun entry hentry => by
    rcases h.recorded entry hentry with hdurable | ⟨w, hw, hpending | hin⟩
    · exact .inl (hfile entry hdurable)
    · cases hwriter.symm.trans hw
      exact .inr ⟨_, rfl, .inl hpending⟩
    · cases hwriter.symm.trans hw
      rcases hholds entry hin with hin | hdurable
      · exact .inr ⟨_, rfl, .inr hin⟩
      · exact .inl hdurable
  returned := h.returned
  unsettled := fun w hw => by
    cases hw
    exact h.unsettled writer hwriter
  settled := h.settled
  durable := fun p hp hsettled => hfile p.2 (h.durable p hp hsettled)
  settles := fun p hp => by
    rcases h.settles p hp with hsettled | ⟨w, hw, hflight⟩
    · exact .inl hsettled
    · cases hwriter.symm.trans hw
      exact .inr ⟨_, rfl, hflight⟩

theorem sound_advance (h : Sound init s) : Sound init s.advance := by
  cases hw : s.writer with
  | none => simpa [advance, hw] using h
  | some writer =>
    obtain ⟨pending, phase, inFlight⟩ := writer
    have hphase := h.phase _ hw
    rw [advance, hw]
    dsimp only
    cases phase with
    | mkdir batch => exact sound_phase h hw trivial h.grown (fun _ hd => hd) fun _ hin => .inl hin
    | readFile batch => exact sound_phase h hw rfl h.grown (fun _ hd => hd) fun _ hin => .inl hin
    | readDone batch all =>
      have hall : all = s.file := hphase
      subst hall
      dsimp only
      split
      · refine sound_phase h hw ⟨h.grown.apply batch, fun entry hin => ?_⟩ h.grown
          (fun _ hd => hd) fun entry hin => .inl ?_
        · exact hasTombstone_applyTombstones (.inl hin)
        · exact hasTombstone_applyTombstones (.inr hin)
      · next hunchanged =>
        -- nothing has changed: the batch was in the file
        refine sound_drainLoop h hw fun entry hin => ?_
        have hall := @hasTombstone_applyTombstones _ _ s.file (.inr hin)
        rwa [applyTombstones_unchanged (by simpa using hunchanged)] at hall
    | writeFile all =>
      exact sound_phase h hw trivial hphase.1 hphase.2 fun entry hin => .inr hin
    | writeDone => exact sound_drainLoop h hw fun entry hin => hin.elim

/-! ## The calls -/

/-- A tombstone is added to what is pending; its call may get the promise of the drain. -/
theorem sound_pending (h : Sound init s) (hwriter : s.writer = some writer)
    (entry : PendingTombstone) {added : List (Nat × PendingTombstone)}
    (hadded : ∀ p ∈ added, p = (writer.inFlight, entry)) :
    Sound init { s with
      writer := some { writer with pending := writer.pending ++ [entry] }
      recorded := s.recorded ++ [entry]
      returned := s.returned ++ added } where
  grown := h.grown
  phase := fun w hw => by
    cases hw
    exact h.phase writer hwriter
  recorded := fun other hother => by
    rcases List.mem_append.mp hother with hother | hother
    · rcases h.recorded other hother with hdurable | ⟨w, hw, hpending | hin⟩
      · exact .inl hdurable
      · cases hwriter.symm.trans hw
        exact .inr ⟨_, rfl, .inl (List.mem_append_left _ hpending)⟩
      · cases hwriter.symm.trans hw
        exact .inr ⟨_, rfl, .inr hin⟩
    · exact .inr ⟨_, rfl, .inl (List.mem_append_right _ hother)⟩
  returned := fun p hp => by
    rcases List.mem_append.mp hp with hp | hp
    · exact List.mem_append_left _ (h.returned p hp)
    · rw [hadded p hp]
      exact List.mem_append_right _ (List.mem_singleton_self _)
  unsettled := fun w hw => by
    cases hw
    exact h.unsettled writer hwriter
  settled := h.settled
  durable := fun p hp hsettled => by
    rcases List.mem_append.mp hp with hp | hp
    · exact h.durable p hp hsettled
    · rw [hadded p hp] at hsettled
      exact absurd hsettled (h.unsettled writer hwriter).1
  settles := fun p hp => by
    rcases List.mem_append.mp hp with hp | hp
    · rcases h.settles p hp with hsettled | ⟨w, hw, hflight⟩
      · exact .inl hsettled
      · cases hwriter.symm.trans hw
        exact .inr ⟨_, rfl, hflight⟩
    · rw [hadded p hp]
      exact .inr ⟨_, rfl, rfl⟩

theorem durable_of_idle (h : Sound init s) (hwriter : s.writer = none) {entry : PendingTombstone}
    (hentry : entry ∈ s.recorded) : s.Durable entry := by
  rcases h.recorded entry hentry with hdurable | ⟨w, hw, -⟩
  · exact hdurable
  · cases hwriter.symm.trans hw

/-- A synchronous call without a writer writes the file itself. -/
theorem sound_write (h : Sound init s) (hwriter : s.writer = none) (entry : PendingTombstone)
    {file : Tombstones} (hgrown : GrownFrom init file)
    (hfile : ∀ other, s.Durable other ∨ other = entry → hasTombstone file other = true) :
    Sound init { s with file := file, writer := none, recorded := s.recorded ++ [entry] } where
  grown := hgrown
  phase := fun w hw => by cases hw
  recorded := fun other hother => by
    rcases List.mem_append.mp hother with hother | hother
    · exact .inl (hfile other (.inl (durable_of_idle h hwriter hother)))
    · exact .inl (hfile other (.inr (List.mem_singleton.mp hother)))
  returned := fun p hp => List.mem_append_left _ (h.returned p hp)
  unsettled := fun w hw => by cases hw
  settled := h.settled
  durable := fun p hp hsettled => hfile p.2 (.inl (h.durable p hp hsettled))
  settles := fun p hp => by
    rcases h.settles p hp with hsettled | ⟨w, hw, -⟩
    · exact .inl hsettled
    · cases hwriter.symm.trans hw

theorem sound_record (h : Sound init s) (fileName key : String) :
    Sound init (s.recordDeletionTombstone fileName key) := by
  unfold recordDeletionTombstone
  split
  · exact h
  · cases hw : s.writer with
    | some writer =>
      have hsound := @sound_pending _ _ _ h hw (fileName, key) [] fun p hp => by cases hp
      rw [List.append_nil] at hsound
      exact hsound
    | none =>
      dsimp only
      split
      · next hhas =>
        refine sound_write h hw (fileName, key) h.grown fun other hother => ?_
        rcases hother with hdurable | rfl
        · exact hdurable
        · exact hhas
      · next hnew =>
        exact sound_write h hw (fileName, key) (h.grown.push hnew) fun other hother =>
          hasTombstone_pushTombstone.mpr hother

theorem sound_recordAsync (h : Sound init s) (fileName key : String) :
    Sound init (s.recordDeletionTombstoneAsync fileName key) := by
  unfold recordDeletionTombstoneAsync
  split
  · exact h
  · cases hw : s.writer with
    | some writer =>
      exact sound_pending h hw (fileName, key) fun p hp => List.mem_singleton.mp hp
    | none =>
      -- the promise of the new drain is a new one
      have hnew : s.promises ∉ s.settled := fun hin => Nat.lt_irrefl _ (h.settled _ hin)
      exact {
        grown := h.grown
        phase := fun w hw' => by
          cases hw'
          trivial
        recorded := fun other hother => by
          rcases List.mem_append.mp hother with hother | hother
          · exact .inl (durable_of_idle h hw hother)
          · exact .inr ⟨_, rfl, .inr hother⟩
        returned := fun p hp => by
          rcases List.mem_append.mp hp with hp | hp
          · exact List.mem_append_left _ (h.returned p hp)
          · rw [List.mem_singleton.mp hp]
            exact List.mem_append_right _ (List.mem_singleton_self _)
        unsettled := fun w hw' => by
          cases hw'
          exact ⟨hnew, Nat.lt_succ_self _⟩
        settled := fun promise hp => Nat.lt_succ_of_lt (h.settled promise hp)
        durable := fun p hp hsettled => by
          rcases List.mem_append.mp hp with hp | hp
          · exact h.durable p hp hsettled
          · rw [List.mem_singleton.mp hp] at hsettled
            exact absurd hsettled hnew
        settles := fun p hp => by
          rcases List.mem_append.mp hp with hp | hp
          · rcases h.settles p hp with hsettled | ⟨w, hw', -⟩
            · exact .inl hsettled
            · cases hw.symm.trans hw'
          · rw [List.mem_singleton.mp hp]
            exact .inr ⟨_, rfl, rfl⟩ }

theorem sound_step (h : Sound init s) (event : TombstoneEvent) : Sound init (s.step event) := by
  cases event with
  | record fileName key => exact sound_record h fileName key
  | recordAsync fileName key => exact sound_recordAsync h fileName key
  | advance => exact sound_advance h

/-! ## On the way to the file -/

/-- At most `n` steps of the drain are left until the tombstone is in the file. A pending one has
the rest of this round to wait for, and the round that it is in. -/
def Within (s : TombstoneStore) (entry : PendingTombstone) (n : Nat) : Prop :=
  s.Durable entry ∨ ∃ writer, s.writer = some writer ∧
    ((entry ∈ writer.pending ∧ writer.phase.left + 5 ≤ n) ∨
      (writer.phase.Holds entry ∧ writer.phase.left ≤ n))

theorem left_le (phase : TombstoneDrain) : phase.left ≤ 4 := by
  cases phase <;> simp [TombstoneDrain.left]

theorem Within.mono {entry : PendingTombstone} {n m : Nat} (h : s.Within entry n) (hnm : n ≤ m) :
    s.Within entry m := by
  rcases h with hdurable | ⟨w, hw, ⟨hpending, hleft⟩ | ⟨hin, hleft⟩⟩
  · exact .inl hdurable
  · exact .inr ⟨w, hw, .inl ⟨hpending, le_trans hleft hnm⟩⟩
  · exact .inr ⟨w, hw, .inr ⟨hin, le_trans hleft hnm⟩⟩

/-- Whatever is in the file or with the writer is at most nine steps from the file. -/
theorem within_of_held {entry : PendingTombstone} (h : s.Held entry) : s.Within entry 9 := by
  rcases h with hdurable | ⟨w, hw, hpending | hin⟩
  · exact .inl hdurable
  · have := left_le w.phase
    exact .inr ⟨w, hw, .inl ⟨hpending, by omega⟩⟩
  · have := left_le w.phase
    exact .inr ⟨w, hw, .inr ⟨hin, by omega⟩⟩

theorem durable_of_within {entry : PendingTombstone} (h : s.Within entry 0) : s.Durable entry := by
  rcases h with hdurable | ⟨w, -, ⟨-, hleft⟩ | ⟨hin, hleft⟩⟩
  · exact hdurable
  · omega
  · cases hphase : w.phase with
    | writeDone =>
      rw [hphase] at hin
      exact hin.elim
    | _ =>
      rw [hphase] at hleft
      simp [TombstoneDrain.left] at hleft

theorem within_writer (hwriter : s.writer = some writer) {entry : PendingTombstone} {n : Nat} :
    s.Within entry n ↔ s.Durable entry ∨ (entry ∈ writer.pending ∧ writer.phase.left + 5 ≤ n) ∨
      (writer.phase.Holds entry ∧ writer.phase.left ≤ n) := by
  unfold Within
  simp only [hwriter, Option.some.injEq, exists_eq_left']

/-- Another phase with the same tombstones in memory or on disk, a step nearer to the file. -/
theorem within_phase (hwriter : s.writer = some writer) {phase : TombstoneDrain}
    {file : Tombstones} {entry : PendingTombstone} {n : Nat}
    (hleft : writer.phase.left = phase.left + 1)
    (hfile : s.Durable entry → hasTombstone file entry = true)
    (hholds : writer.phase.Holds entry → phase.Holds entry ∨ hasTombstone file entry = true)
    (hwithin : s.Within entry (n + 1)) :
    Within { s with file := file, writer := some { writer with phase := phase } } entry n := by
  rw [within_writer hwriter, hleft] at hwithin
  refine (within_writer rfl).mpr ?_
  rcases hwithin with hdurable | ⟨hpending, hn⟩ | ⟨hin, hn⟩
  · exact .inl (hfile hdurable)
  · exact .inr (.inl ⟨hpending, by dsimp only; omega⟩)
  · rcases hholds hin with hin | hdurable
    · exact .inr (.inr ⟨hin, by dsimp only; omega⟩)
    · exact .inl hdurable

/-- The loop test, when the last batch is in the file: what is pending is the next batch, and has
the four steps of a whole round left. -/
theorem within_drainLoop (hwriter : s.writer = some writer) {entry : PendingTombstone} {n : Nat}
    (hbatch : writer.phase.Holds entry → s.Durable entry) (hwithin : s.Within entry (n + 1)) :
    (s.drainLoop writer).Within entry n := by
  have hrest : s.Durable entry ∨ (entry ∈ writer.pending ∧ 4 ≤ n) := by
    rcases (within_writer hwriter).mp hwithin with hdurable | ⟨hpending, hn⟩ | ⟨hin, -⟩
    · exact .inl hdurable
    · exact .inr ⟨hpending, by omega⟩
    · exact .inl (hbatch hin)
  rcases hrest with hdurable | ⟨hpending, hn⟩
  · refine .inl ?_
    unfold Durable at hdurable ⊢
    rwa [drainLoop_frame.1]
  · rw [drainLoop_cons fun hnil => by rw [hnil] at hpending; cases hpending]
    exact .inr ⟨_, rfl, .inr ⟨hpending, hn⟩⟩

theorem within_advance (h : Sound init s) {entry : PendingTombstone} {n : Nat}
    (hwithin : s.Within entry (n + 1)) : s.advance.Within entry n := by
  cases hw : s.writer with
  | none =>
    rcases hwithin with hdurable | ⟨w, hw', -⟩
    · rw [advance, hw]
      exact .inl hdurable
    · cases hw.symm.trans hw'
  | some writer =>
    obtain ⟨pending, phase, inFlight⟩ := writer
    have hphase := h.phase _ hw
    rw [advance, hw]
    dsimp only
    cases phase with
    | mkdir batch => exact within_phase hw rfl id (fun hin => .inl hin) hwithin
    | readFile batch => exact within_phase hw rfl id (fun hin => .inl hin) hwithin
    | readDone batch all =>
      have hall : all = s.file := hphase
      subst hall
      dsimp only
      split
      · exact within_phase hw rfl id (fun hin => .inl (hasTombstone_applyTombstones (.inr hin)))
          hwithin
      · next hunchanged =>
        -- nothing has changed: the batch was in the file
        refine within_drainLoop hw (fun hin => ?_) hwithin
        have hall := @hasTombstone_applyTombstones _ _ s.file (.inr hin)
        rwa [applyTombstones_unchanged (by simpa using hunchanged)] at hall
    | writeFile all => exact within_phase hw rfl (hphase.2 entry) (fun hin => .inr hin) hwithin
    | writeDone => exact within_drainLoop hw (fun hin => hin.elim) hwithin

/-! ## What the calls leave alone -/

/-- A call leaves the file and the writer's tombstones alone, and records its own. -/
theorem call_frame (s : TombstoneStore) {event : TombstoneEvent} (hcall : event ≠ .advance) :
    (∀ entry, s.Durable entry → (s.step event).Durable entry) ∧
      ∀ writer, s.writer = some writer → ∃ writer', (s.step event).writer = some writer' ∧
        writer'.phase = writer.phase ∧ ∀ entry ∈ writer.pending, entry ∈ writer'.pending := by
  cases event with
  | advance => exact absurd rfl hcall
  | record fileName key =>
    unfold step recordDeletionTombstone
    dsimp only
    split
    · exact ⟨fun _ h => h, fun w hw => ⟨w, hw, rfl, fun _ h => h⟩⟩
    · cases hw : s.writer with
      | some writer =>
        refine ⟨fun _ h => h, fun w hw' => ?_⟩
        cases hw'
        exact ⟨_, rfl, rfl, fun _ h => List.mem_append_left _ h⟩
      | none =>
        refine ⟨fun entry h => ?_, fun w hw' => by cases hw'⟩
        dsimp only
        split
        · exact h
        · exact hasTombstone_pushTombstone.mpr (.inl h)
  | recordAsync fileName key =>
    unfold step recordDeletionTombstoneAsync
    dsimp only
    split
    · exact ⟨fun _ h => h, fun w hw => ⟨w, hw, rfl, fun _ h => h⟩⟩
    · cases hw : s.writer with
      | some writer =>
        refine ⟨fun _ h => h, fun w hw' => ?_⟩
        cases hw'
        exact ⟨_, rfl, rfl, fun _ h => List.mem_append_left _ h⟩
      | none => exact ⟨fun _ h => h, fun w hw' => by cases hw'⟩

theorem inMemory_call {event : TombstoneEvent} (hcall : event ≠ .advance)
    {entry : PendingTombstone} (h : s.InMemory entry) : (s.step event).InMemory entry := by
  obtain ⟨w, hw, hin⟩ := h
  obtain ⟨w', hw', hphase, hpending⟩ := (call_frame s hcall).2 w hw
  refine ⟨w', hw', hin.imp (hpending entry) fun hin => ?_⟩
  rwa [hphase]

theorem within_call {event : TombstoneEvent} (hcall : event ≠ .advance)
    {entry : PendingTombstone} {n : Nat} (h : s.Within entry n) :
    (s.step event).Within entry n := by
  rcases h with hdurable | ⟨w, hw, hin⟩
  · exact .inl ((call_frame s hcall).1 entry hdurable)
  · obtain ⟨w', hw', hphase, hpending⟩ := (call_frame s hcall).2 w hw
    refine .inr ⟨w', hw', ?_⟩
    rw [hphase]
    exact hin.imp_left fun hin => ⟨hpending entry hin.1, hin.2⟩

/-- Every step of the drain brings a tombstone nearer to the file, no call takes it away. -/
theorem durable_after (h : Sound init s) {entry : PendingTombstone} {n : Nat}
    (hwithin : s.Within entry n) (later : List TombstoneEvent) (hn : n ≤ later.count .advance) :
    (run step s later).Durable entry := by
  induction later generalizing s n with
  | nil =>
    have hzero : n = 0 := Nat.le_zero.mp hn
    subst hzero
    exact durable_of_within hwithin
  | cons event later ih =>
    have hsound := sound_step h event
    by_cases hadvance : event = .advance
    · subst hadvance
      rw [List.count_cons_self] at hn
      cases n with
      | zero => exact ih hsound (within_advance h (hwithin.mono (Nat.zero_le _))) (Nat.zero_le _)
      | succ n => exact ih hsound (within_advance h hwithin) (by omega)
    · rw [List.count_cons_of_ne hadvance] at hn
      exact ih hsound (within_call hadvance hwithin) hn

/-! ## The calls of a run -/

theorem advance_frame (s : TombstoneStore) :
    s.advance.recorded = s.recorded ∧ s.advance.returned = s.returned := by
  unfold advance
  split
  · exact ⟨rfl, rfl⟩
  · split
    · exact ⟨rfl, rfl⟩
    · exact ⟨rfl, rfl⟩
    · dsimp only
      split
      · exact ⟨rfl, rfl⟩
      · exact drainLoop_frame.2
    · exact ⟨rfl, rfl⟩
    · exact drainLoop_frame.2

theorem recorded_step (s : TombstoneStore) (event : TombstoneEvent) {entry : PendingTombstone}
    (h : entry ∈ s.recorded ∨ event.Records entry) : entry ∈ (s.step event).recorded := by
  cases event with
  | advance =>
    rw [step, (advance_frame s).1]
    rcases h with h | ⟨-, h | h⟩
    · exact h
    · cases h
    · cases h
  | record fileName key =>
    have hentry : entry ∈ s.recorded ∨ key ≠ "" ∧ entry = (fileName, key) := by
      rcases h with h | ⟨hkey, h | h⟩
      · exact .inl h
      · cases h
        exact .inr ⟨hkey, rfl⟩
      · cases h
    unfold step recordDeletionTombstone
    dsimp only
    split
    · next hempty => exact hentry.resolve_right fun h => h.1 hempty
    · have hmem : entry ∈ s.recorded ++ [(fileName, key)] := by
        rw [List.mem_append, List.mem_singleton]
        exact hentry.imp_right fun h => h.2
      split
      · exact hmem
      · split <;> exact hmem
  | recordAsync fileName key =>
    have hentry : entry ∈ s.recorded ∨ key ≠ "" ∧ entry = (fileName, key) := by
      rcases h with h | ⟨hkey, h | h⟩
      · exact .inl h
      · cases h
      · cases h
        exact .inr ⟨hkey, rfl⟩
    unfold step recordDeletionTombstoneAsync
    dsimp only
    split
    · next hempty => exact hentry.resolve_right fun h => h.1 hempty
    · have hmem : entry ∈ s.recorded ++ [(fileName, key)] := by
        rw [List.mem_append, List.mem_singleton]
        exact hentry.imp_right fun h => h.2
      split <;> exact hmem

theorem recorded_run {events : List TombstoneEvent} {entry : PendingTombstone}
    (h : entry ∈ s.recorded ∨ ∃ event ∈ events, event.Records entry) :
    entry ∈ (run step s events).recorded := by
  induction events generalizing s with
  | nil => exact h.resolve_right fun h => by obtain ⟨_, h, -⟩ := h; cases h
  | cons event events ih =>
    refine ih ?_
    rcases h with h | ⟨event', hmem, hrecords⟩
    · exact .inl (recorded_step s event (.inl h))
    · rcases List.mem_cons.mp hmem with rfl | hmem
      · exact .inl (recorded_step s _ (.inr hrecords))
      · exact .inr ⟨event', hmem, hrecords⟩

/-! ## The end of the drain -/

/-- The steps until the writer is retired when nothing more is recorded, at most. -/
def busy (s : TombstoneStore) : Nat :=
  match s.writer with
  | none => 0
  | some writer => writer.phase.left + 1 + if writer.pending = [] then 0 else 5

theorem busy_le (s : TombstoneStore) : s.busy ≤ 10 := by
  unfold busy
  split
  · exact Nat.zero_le _
  · next w _ =>
    have := left_le w.phase
    split <;> omega

theorem busy_drainLoop (s : TombstoneStore) (writer : DrainWriter) :
    (s.drainLoop writer).busy ≤ if writer.pending = [] then 0 else 5 := by
  by_cases hpending : writer.pending = []
  · rw [drainLoop_nil hpending]
    exact Nat.zero_le _
  · rw [drainLoop_cons hpending, if_neg hpending]
    simp [busy, TombstoneDrain.left]

theorem busy_advance (s : TombstoneStore) : s.advance.busy ≤ s.busy - 1 := by
  unfold advance
  split
  · next hw => simp [busy, hw]
  · next w hw =>
    have hloop := busy_drainLoop s w
    have hbusy : s.busy = w.phase.left + 1 + if w.pending = [] then 0 else 5 := by
      rw [busy, hw]
    rw [hbusy]
    split
    · next hphase => simp [busy, hphase, TombstoneDrain.left]
    · next hphase => simp [busy, hphase, TombstoneDrain.left]
    · next hphase =>
      dsimp only
      split
      · simp [busy, hphase, TombstoneDrain.left]
      · rw [hphase, TombstoneDrain.left]
        omega
    · next hphase => simp [busy, hphase, TombstoneDrain.left]
    · omega

/-- Ten steps of the drain, and nothing recorded meanwhile, retire the writer. -/
theorem retired_after (s : TombstoneStore) :
    (run step s (List.replicate 10 .advance)).writer = none := by
  have hrun : ∀ (n : Nat) (s : TombstoneStore),
      (run step s (List.replicate n .advance)).busy ≤ s.busy - n := by
    intro n
    induction n with
    | zero => exact fun s => le_refl _
    | succ n ih =>
      intro s
      have hnext := ih (s.step .advance)
      have hone : (s.step .advance).busy ≤ s.busy - 1 := busy_advance s
      rw [List.replicate_succ, run_cons]
      omega
  have hzero : (run step s (List.replicate 10 .advance)).busy = 0 := by
    have := hrun 10 s
    have := busy_le s
    omega
  unfold busy at hzero
  split at hzero
  · assumption
  · omega

/-! ## Whole runs -/

/-- For every order of calls and steps of the drain: a tombstone of a call is in the file, once,
after nine further steps of the drain, whatever else is called meanwhile; a promise that has
settled has its tombstone in the file; a synchronous call takes nothing from the file or from the
writer; and ten steps of the drain without a call settle every promise. -/
theorem tombstones_kept (file : Tombstones) (events : List TombstoneEvent) :
    let s := run step (started file) events
    (∀ (fileName key : String), key ≠ "" →
      (.record fileName key ∈ events ∨ .recordAsync fileName key ∈ events) →
      ∀ later : List TombstoneEvent, 9 ≤ later.count .advance →
        (run step s later).Durable (fileName, key) ∧
        tombstoneCount (run step s later).file (fileName, key) =
          max 1 (tombstoneCount file (fileName, key))) ∧
    (∀ p ∈ s.returned, p.1 ∈ s.settled → s.Durable p.2) ∧
    (∀ (fileName key : String) (entry : PendingTombstone),
      (s.Durable entry → (s.recordDeletionTombstone fileName key).Durable entry) ∧
      (s.InMemory entry → (s.recordDeletionTombstone fileName key).InMemory entry)) ∧
    (let quiet := run step s (List.replicate 10 .advance);
      quiet.writer = none ∧ ∀ p ∈ s.returned, p.1 ∈ quiet.settled) := by
  have hrun : ∀ events : List TombstoneEvent, Sound file (run step (started file) events) :=
    inv_run (I := Sound file) (fun _ event h => sound_step h event) (sound_started file)
  dsimp only
  refine ⟨?_, (hrun events).durable, ?_, retired_after _, ?_⟩
  · intro fileName key hkey hcall later hlater
    have hrecorded : (fileName, key) ∈ (run step (started file) events).recorded := by
      refine recorded_run (.inr ?_)
      rcases hcall with hcall | hcall
      · exact ⟨_, hcall, hkey, .inl rfl⟩
      · exact ⟨_, hcall, hkey, .inr rfl⟩
    have hdurable := durable_after (hrun events)
      (within_of_held ((hrun events).recorded _ hrecorded)) later hlater
    have hgrown : GrownFrom file (run step (run step (started file) events) later).file := by
      rw [← run_append]
      exact (hrun (events ++ later)).grown
    exact ⟨hdurable, hgrown.count hdurable⟩
  · intro fileName key entry
    have hcall : TombstoneEvent.record fileName key ≠ .advance := fun h => by cases h
    exact ⟨(call_frame _ hcall).1 entry, inMemory_call hcall⟩
  · intro p hp
    have hquiet := hrun (events ++ List.replicate 10 .advance)
    rw [run_append] at hquiet
    have hreturned : ∀ (n : Nat) (s : TombstoneStore),
        (run step s (List.replicate n .advance)).returned = s.returned := by
      intro n
      induction n with
      | zero => exact fun s => rfl
      | succ n ih =>
        intro s
        rw [List.replicate_succ, run_cons, ih]
        exact (advance_frame s).2
    rcases hquiet.settles p (by rw [hreturned]; exact hp) with hsettled | ⟨w, hw, -⟩
    · exact hsettled
    · cases (retired_after _).symm.trans hw

end TombstoneStore

end Bobbit.Server
