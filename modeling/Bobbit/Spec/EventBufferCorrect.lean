import Mathlib
import Bobbit.Server.EventBuffer

/-!
# Replay exactness of the event buffer

A session's history (`assigned`) is compared with the retained window. The
invariant `WindowInv` says that the window is the end of the history, that the
history is numbered in increasing order, and that every number above the two
floors (`lastUnretainedSeq`, `lastSkippedSeq`) was given to an event. From it:

* `run_bytesExact`: the byte counter and both limits, in every reachable state;
* `resume_exact_iff`: a cursor that `canResumeFrom` accepts gets an exact replay
  precisely when it is neither from the future nor below a number that
  `seedNextSeq` jumped over.
-/

namespace Bobbit.Server

variable {ε : Type}

namespace EventBuffer

/-- Total size of a list of retained entries. -/
def totalBytes (l : List (RetainedEvent ε)) : Int := (l.map (fun r => (r.bytes : Int))).sum

@[simp] theorem totalBytes_nil : totalBytes ([] : List (RetainedEvent ε)) = 0 := rfl

@[simp] theorem totalBytes_cons (r : RetainedEvent ε) (l : List (RetainedEvent ε)) :
    totalBytes (r :: l) = r.bytes + totalBytes l := by
  simp [totalBytes]

@[simp] theorem totalBytes_append (l₁ l₂ : List (RetainedEvent ε)) :
    totalBytes (l₁ ++ l₂) = totalBytes l₁ + totalBytes l₂ := by
  simp [totalBytes]

/-- The eviction loop drops a prefix, keeps the counter equal to the sum, and
    stops inside both limits. The empty list is a real exit of the loop: with
    an exact counter its condition is false there. -/
theorem evict_spec (maxSize byteLimit : Nat) (l : List (RetainedEvent ε)) (bytes : Int)
    (hsum : bytes = totalBytes l) :
    (evict maxSize byteLimit l bytes).1 <:+ l ∧
    (evict maxSize byteLimit l bytes).2 = totalBytes (evict maxSize byteLimit l bytes).1 ∧
    (evict maxSize byteLimit l bytes).2 ≤ byteLimit ∧
    (evict maxSize byteLimit l bytes).1.length ≤ maxSize := by
  induction l generalizing bytes with
  | nil =>
    simp only [totalBytes_nil] at hsum
    subst hsum
    simp [evict]
  | cons r rest ih =>
    rw [evict]
    split
    · obtain ⟨hsuf, hrest⟩ := ih (bytes - r.bytes) (by rw [hsum, totalBytes_cons]; omega)
      exact ⟨hsuf.trans (List.suffix_cons r rest), hrest⟩
    · rename_i hstop
      rw [not_or, not_lt, not_lt] at hstop
      exact ⟨List.suffix_refl _, hsum, hstop.2, hstop.1⟩

end EventBuffer

namespace EventSession

open EventBuffer (Op totalBytes)

/-- The invariant every operation keeps. -/
structure WindowInv (s : EventSession ε) : Prop where
  bytes : BytesExact s.buf
  /-- the window is the end of the history -/
  window : s.buf.getAll <:+ s.assigned
  sorted : s.assigned.Pairwise (fun a b => a.seq < b.seq)
  range : ∀ e ∈ s.assigned, 1 ≤ e.seq ∧ e.seq < s.buf.nextSeq
  unretained : 0 ≤ s.buf.lastUnretainedSeq ∧ s.buf.lastUnretainedSeq < s.buf.nextSeq
  skipped : 0 ≤ s.lastSkippedSeq ∧ s.lastSkippedSeq < s.buf.nextSeq
  /-- no event carries a skipped number -/
  notSkipped : ∀ e ∈ s.assigned, e.seq ≠ s.lastSkippedSeq
  /-- every number above both floors was given to an event -/
  dense : ∀ n, s.buf.lastUnretainedSeq < n → s.lastSkippedSeq < n → n < s.buf.nextSeq →
    ∃ e ∈ s.assigned, e.seq = n

theorem new_windowInv (maxSize maxBytes : Option Rat) :
    WindowInv (new maxSize maxBytes : EventSession ε) where
  bytes := by simp [new, EventBuffer.new, BytesExact]
  window := by simp [new, EventBuffer.new, EventBuffer.getAll]
  sorted := List.Pairwise.nil
  range := by simp [new]
  unretained := by simp [new, EventBuffer.new]
  skipped := by simp [new, EventBuffer.new]
  notSkipped := by simp [new]
  dense := by
    intro n h₁ _ h₃
    simp only [new, EventBuffer.new] at h₁ h₃
    omega

/-! ## What `push` does -/

/-- `push` of an event that fits runs the eviction loop on the extended window. -/
theorem push_of_fits (b : EventBuffer ε) (event : ε) (ts : Int) (n : Nat)
    (hfit : ¬ (n > b.byteLimit ∨ b.maxSize = 0)) :
    b.push event ts (some n) =
      let entry : BufferedEvent ε := ⟨b.nextSeq, ts, event⟩
      let kept := EventBuffer.evict b.maxSize b.byteLimit (b.buffer ++ [⟨entry, n⟩])
        (b.bytesRetained + n)
      ({ b with nextSeq := b.nextSeq + 1, buffer := kept.1, bytesRetained := kept.2 }, entry) := by
  simp [EventBuffer.push, hfit]

/-- `push` either empties the window and records the new number as unretained,
    or keeps the end of the window extended by the new entry. -/
theorem push_cases (b : EventBuffer ε) (event : ε) (ts : Int) (bytes : Option Nat)
    (hb : BytesExact b) :
    (b.push event ts bytes).2 = ⟨b.nextSeq, ts, event⟩ ∧
    (b.push event ts bytes).1.nextSeq = b.nextSeq + 1 ∧
    BytesExact (b.push event ts bytes).1 ∧
    ((b.push event ts bytes).1.buffer = [] ∧
        (b.push event ts bytes).1.lastUnretainedSeq = b.nextSeq ∨
      (b.push event ts bytes).1.getAll <:+ b.getAll ++ [⟨b.nextSeq, ts, event⟩] ∧
        (b.push event ts bytes).1.lastUnretainedSeq = b.lastUnretainedSeq) := by
  obtain ⟨hsum, hle, hlen⟩ := hb
  cases bytes with
  | none => simp [EventBuffer.push, EventBuffer.dropAllRetained, BytesExact]
  | some n =>
    by_cases hbig : n > b.byteLimit ∨ b.maxSize = 0
    · simp [EventBuffer.push, hbig, EventBuffer.dropAllRetained, BytesExact]
    · have hspec := EventBuffer.evict_spec b.maxSize b.byteLimit
        (b.buffer ++ [⟨⟨b.nextSeq, ts, event⟩, n⟩]) (b.bytesRetained + n)
        (by rw [EventBuffer.totalBytes_append, hsum]; simp [totalBytes])
      obtain ⟨hsuf, hsum', hle', hlen'⟩ := hspec
      rw [push_of_fits b event ts n hbig]
      refine ⟨rfl, rfl, ⟨hsum', hle', hlen'⟩, Or.inr ⟨?_, rfl⟩⟩
      have hmap := List.IsSuffix.map RetainedEvent.entry hsuf
      simpa [EventBuffer.getAll] using hmap

/-! ## Every operation keeps the invariant -/

variable {s : EventSession ε}

/-- Recording one more event numbered `nextSeq` keeps the history increasing. -/
theorem sorted_snoc (h : WindowInv s) (ts : Int) (event : ε) :
    (s.assigned ++ [(⟨s.buf.nextSeq, ts, event⟩ : BufferedEvent ε)]).Pairwise
      (fun a b => a.seq < b.seq) := by
  rw [List.pairwise_append]
  refine ⟨h.sorted, List.pairwise_singleton _ _, ?_⟩
  intro a ha b hb
  rw [List.mem_singleton] at hb
  subst hb
  exact (h.range a ha).2

theorem step_push_windowInv (h : WindowInv s)
    (event : ε) (ts : Int) (bytes : Option Nat) : WindowInv (s.step (.push event ts bytes)) := by
  obtain ⟨hentry, hnext, hbytes, hcases⟩ := push_cases s.buf event ts bytes h.bytes
  have hun := h.unretained
  have hsk := h.skipped
  -- the two ways `push` can end share everything but the window and its floor
  have hfloor : s.buf.lastUnretainedSeq ≤ (s.buf.push event ts bytes).1.lastUnretainedSeq ∧
      (s.buf.push event ts bytes).1.lastUnretainedSeq ≤ s.buf.nextSeq := by
    rcases hcases with ⟨-, hl⟩ | ⟨-, hl⟩ <;> rw [hl] <;> omega
  have hwindow : (s.buf.push event ts bytes).1.getAll <:+
      s.assigned ++ [⟨s.buf.nextSeq, ts, event⟩] := by
    rcases hcases with ⟨hnil, -⟩ | ⟨hsuf, -⟩
    · simp [EventBuffer.getAll, hnil]
    · obtain ⟨gone, hgone⟩ := h.window
      exact hsuf.trans ⟨gone, by rw [← List.append_assoc, hgone]⟩
  simp only [step, hentry]
  constructor
  · exact hbytes
  · exact hwindow
  · exact sorted_snoc h ts event
  · intro e he
    simp only [hnext]
    rcases List.mem_append.mp he with he | he
    · have := h.range e he; omega
    · rw [List.mem_singleton] at he; subst he; simp only; omega
  · simp only [hnext]; omega
  · simp only [hnext]; omega
  · intro e he
    rcases List.mem_append.mp he with he | he
    · exact h.notSkipped e he
    · rw [List.mem_singleton] at he; subst he; simp only; omega
  · intro n hn₁ hn₂ hn₃
    simp only [hnext] at hn₁ hn₂ hn₃
    by_cases hnew : n = s.buf.nextSeq
    · exact ⟨_, List.mem_append_right _ (List.mem_singleton.mpr rfl), hnew.symm⟩
    · obtain ⟨e, he, hseq⟩ := h.dense n (by omega) hn₂ (by omega)
      exact ⟨e, List.mem_append_left _ he, hseq⟩

theorem step_pushFrame_windowInv (h : WindowInv s) (ts : Int) :
    WindowInv (s.step (.pushFrame ts)) := by
  have hun := h.unretained
  have hsk := h.skipped
  simp only [step, EventBuffer.pushFrame]
  refine ⟨h.bytes, h.window, h.sorted, fun e he => ?_, ?_, ?_, h.notSkipped, ?_⟩
  · have := h.range e he
    simp only
    omega
  · simp only; omega
  · simp only; omega
  · intro n hn₁ _ hn₃
    simp only at hn₁ hn₃
    omega

/-- `seedNextSeq` leaves the buffer alone or moves the counter strictly up. -/
theorem seedNextSeq_cases (b : EventBuffer ε) (seq : Option Int) :
    b.seedNextSeq seq = b ∨
    ∃ n, b.nextSeq < n ∧ b.seedNextSeq seq = { b with nextSeq := n } := by
  unfold EventBuffer.seedNextSeq
  split
  · exact Or.inl rfl
  · rename_i n
    split
    · exact Or.inl rfl
    · exact Or.inr ⟨n, by omega, rfl⟩

theorem step_seedNextSeq_windowInv (h : WindowInv s) (seq : Option Int) :
    WindowInv (s.step (.seedNextSeq seq)) := by
  rcases seedNextSeq_cases s.buf seq with hsame | ⟨n, hlt, hmoved⟩
  · simpa only [step, hsame, if_true] using h
  · have hun := h.unretained
    have hne : ¬ n = s.buf.nextSeq := by omega
    simp only [step, hmoved, hne, if_false, EventBuffer.lastSeq]
    refine ⟨h.bytes, h.window, h.sorted, fun e he => ?_, ?_, ?_, fun e he => ?_, ?_⟩
    · have := h.range e he
      simp only
      omega
    · simp only; omega
    · simp only; omega
    · have := h.range e he
      simp only
      omega
    · intro m _ hm₂ hm₃
      simp only at hm₂ hm₃
      omega

theorem step_clear_windowInv (s : EventSession ε) : WindowInv (s.step .clear) := by
  simp only [step]
  refine ⟨?_, List.suffix_refl _, List.Pairwise.nil, by simp, ?_, ?_, by simp, ?_⟩
  · simp [EventBuffer.clear, EventBuffer.dropAllRetained, BytesExact]
  · simp [EventBuffer.clear]
  · simp [EventBuffer.clear]
  · intro n hn₁ _ hn₃
    simp only [EventBuffer.clear] at hn₁ hn₃
    omega

theorem step_windowInv (s : EventSession ε) (op : Op ε) (h : WindowInv s) :
    WindowInv (s.step op) := by
  cases op with
  | push event ts bytes => exact step_push_windowInv h event ts bytes
  | pushFrame ts => exact step_pushFrame_windowInv h ts
  | seedNextSeq seq => exact step_seedNextSeq_windowInv h seq
  | clear => exact step_clear_windowInv s

theorem run_windowInv (maxSize maxBytes : Option Rat) (ops : List (Op ε)) :
    WindowInv (run maxSize maxBytes ops) :=
  Lib.inv_run step_windowInv (new_windowInv maxSize maxBytes) ops

/-! ## Replays -/

theorem mem_seqRange {lo hi n : Int} : n ∈ seqRange lo hi ↔ lo < n ∧ n ≤ hi := by
  simp only [seqRange, List.mem_map, List.mem_range]
  constructor
  · rintro ⟨i, hlt, rfl⟩; omega
  · rintro ⟨h₁, h₂⟩
    exact ⟨(n - lo - 1).toNat, by omega, by omega⟩

theorem seqRange_pairwise (lo hi : Int) : (seqRange lo hi).Pairwise (· < ·) := by
  rw [seqRange, List.pairwise_map]
  exact List.pairwise_lt_range.imp (by intro a b hab; omega)

/-- Replaying from an accepted cursor returns exactly the events above it. -/
theorem since_eq_filter (h : WindowInv s) {c : Int} (hc : s.buf.canResumeFrom c = true) :
    s.buf.since c = s.assigned.filter (fun e => e.seq > c) := by
  obtain ⟨gone, hgone⟩ := h.window
  have hsorted := h.sorted
  rw [← hgone, List.pairwise_append] at hsorted
  obtain ⟨-, -, hbefore⟩ := hsorted
  simp only [EventBuffer.canResumeFrom] at hc
  split at hc
  · exact absurd hc (by decide)
  · cases hbuf : s.buf.buffer with
    | nil =>
      -- nothing is retained, and the cursor is the last number assigned
      simp only [hbuf, beq_iff_eq] at hc
      have hall : s.assigned.filter (fun e => e.seq > c) = [] := by
        rw [List.filter_eq_nil_iff]
        intro e he
        have := (h.range e he).2
        simp only [EventBuffer.lastSeq] at hc
        simp only [gt_iff_lt, decide_eq_true_eq]
        omega
      simp [EventBuffer.since, hbuf, hall]
    | cons first rest =>
      -- the oldest retained entry covers `c + 1`, so all that is gone is at or below `c`
      simp only [hbuf, decide_eq_true_eq] at hc
      have hfirst : first.entry ∈ s.buf.getAll := by simp [EventBuffer.getAll, hbuf]
      have hgoneLe : gone.filter (fun e => e.seq > c) = [] := by
        rw [List.filter_eq_nil_iff]
        intro e he
        have := hbefore e he first.entry hfirst
        simp only [gt_iff_lt, decide_eq_true_eq]
        omega
      have hnot : ¬ c < first.entry.seq - 1 := by omega
      simp only [EventBuffer.since, hbuf, hnot, if_false]
      rw [← hgone, List.filter_append, hgoneLe, List.nil_append]

/-- The numbers of the events above a cursor, when no floor lies above it, are
    all the numbers from there to the last one. -/
theorem filter_seq_eq_seqRange (h : WindowInv s) {c : Int}
    (hun : s.buf.lastUnretainedSeq ≤ c) (hsk : s.lastSkippedSeq ≤ c) :
    (s.assigned.filter (fun e => e.seq > c)).map (·.seq) = seqRange c s.buf.lastSeq := by
  have hsorted : ((s.assigned.filter (fun e => e.seq > c)).map (·.seq)).Pairwise (· < ·) := by
    rw [List.pairwise_map]
    exact h.sorted.filter _
  refine List.Pairwise.eq_of_mem_iff hsorted (seqRange_pairwise c _) (fun n => ?_)
  rw [mem_seqRange]
  simp only [List.mem_map, List.mem_filter, gt_iff_lt, decide_eq_true_eq, EventBuffer.lastSeq]
  constructor
  · rintro ⟨e, ⟨he, hgt⟩, rfl⟩
    have := (h.range e he).2
    omega
  · rintro ⟨hgt, hle⟩
    obtain ⟨e, he, hseq⟩ := h.dense n (by omega) (by omega) (by omega)
    exact ⟨e, ⟨he, by omega⟩, hseq⟩

/-- An accepted cursor is not below the unretained floor. -/
theorem lastUnretainedSeq_le_of_canResumeFrom {b : EventBuffer ε} {c : Int}
    (hc : b.canResumeFrom c = true) : b.lastUnretainedSeq ≤ c := by
  simp only [EventBuffer.canResumeFrom] at hc
  split at hc
  · exact absurd hc (by decide)
  · omega

/-- An accepted cursor gets an exact replay iff it is not from the future and no
    number above it was skipped. -/
theorem replayExact_iff (h : WindowInv s) {c : Int} (hc : s.buf.canResumeFrom c = true) :
    s.ReplayExact c ↔ c ≤ s.buf.lastSeq ∧ s.lastSkippedSeq ≤ c := by
  have hun := lastUnretainedSeq_le_of_canResumeFrom hc
  have hsince := since_eq_filter h hc
  constructor
  · rintro ⟨hle, -, hseqs⟩
    refine ⟨hle, ?_⟩
    -- a skipped number above the cursor would have to be the number of an event
    by_contra hgt
    have hmem : s.lastSkippedSeq ∈ seqRange c s.buf.lastSeq := by
      have := h.skipped
      rw [mem_seqRange, EventBuffer.lastSeq]
      omega
    rw [← hseqs, hsince] at hmem
    obtain ⟨e, he, hseq⟩ := List.mem_map.mp hmem
    exact h.notSkipped e (List.mem_of_mem_filter he) hseq
  · rintro ⟨hle, hsk⟩
    refine ⟨hle, hsince, ?_⟩
    rw [hsince]
    exact filter_seq_eq_seqRange h hun hsk

/-- The byte counter and both limits, in every reachable state. -/
theorem run_bytesExact (maxSize maxBytes : Option Rat) (ops : List (Op ε)) :
    BytesExact (run maxSize maxBytes ops).buf :=
  (run_windowInv maxSize maxBytes ops).bytes

/-- What a reconnecting client relies on: the byte accounting is exact, and a
    cursor that `canResumeFrom` accepts gets an exact replay. -/
def ResumeSound (s : EventSession ε) (c : Int) : Prop :=
  BytesExact s.buf ∧ (s.buf.canResumeFrom c = true → s.ReplayExact c)

end EventSession

end Bobbit.Server
