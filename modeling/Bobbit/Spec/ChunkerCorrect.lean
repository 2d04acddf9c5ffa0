import Bobbit.Server.Chunker

/-!
# Search chunks

A run of the loop is a walk over the words: the longest window that fits (or one word that does
not), then back to where the words behind count the overlap. The walk always ends and leaves no
word out. What a chunk counts is another matter: its `tokenCount` is the sum of its words'
counts, and a window may stop short at the end of the one before.

## Key results
- `windows_walk`: the loop ends, and what it returns is the walk.
- `chunksWell_iff`: the chunks are as promised iff the text fits as a whole, or the counter is
  additive on every window and no word is too large to fit beside the overlap.
-/

namespace Bobbit.Server.Chunker

open Lib Lib.JsString

/-! ## Sums of word counts -/

def total (counts : List ℚ) : ℚ := counts.foldr (· + ·) 0

@[simp] theorem total_nil : total [] = 0 := rfl

@[simp] theorem total_cons (t : ℚ) (rest : List ℚ) : total (t :: rest) = t + total rest := rfl

theorem total_concat (counts : List ℚ) (t : ℚ) : total (counts ++ [t]) = total counts + t := by
  induction counts with
  | nil => rw [List.nil_append, total_cons, total_nil, zero_add, add_zero]
  | cons u rest ih => rw [List.cons_append, total_cons, total_cons, ih, add_assoc]

/-- What the words from `i` up to, not including, `j` count together. -/
def sumOf (tokens : List ℚ) (i j : Nat) : ℚ := total ((tokens.take j).drop i)

variable {tokens : List ℚ} {maxTokens overlap : ℚ} {s e : Nat}

@[simp] theorem sumOf_self (tokens : List ℚ) (i : Nat) : sumOf tokens i i = 0 := by
  rw [sumOf, List.drop_eq_nil_of_le (List.length_take_le i tokens), total_nil]

theorem sumOf_succ {i j : Nat} (hij : i ≤ j) (hj : j < tokens.length) :
    sumOf tokens i (j + 1) = sumOf tokens i j + tokens.getD j 0 := by
  have hlength : (tokens.take j).length = j := by
    rw [List.length_take]
    omega
  rw [sumOf, sumOf, List.take_succ_eq_append_getElem hj, List.drop_append_of_le_length (by omega),
    total_concat, List.getD_eq_getElem _ _ hj]

theorem sumOf_cons {i j : Nat} (hij : i < j) (hj : j ≤ tokens.length) :
    sumOf tokens i j = tokens.getD i 0 + sumOf tokens (i + 1) j := by
  have hi : i < (tokens.take j).length := by
    rw [List.length_take]
    omega
  rw [sumOf, sumOf, List.drop_eq_getElem_cons hi, total_cons, List.getElem_take,
    List.getD_eq_getElem _ _ (by omega)]

/-- The counts from `s` on, read off the rest of the list. -/
theorem sumOf_eq_take (tokens : List ℚ) (s k : Nat) :
    sumOf tokens s (s + k) = total ((tokens.drop s).take k) := by
  rw [sumOf, List.drop_take, Nat.add_sub_cancel_left]

/-- Positive counts add up the further the window reaches. -/
theorem sumOf_le_of_le (hpos : ∀ t ∈ tokens, 0 ≤ t) {i j k : Nat} (hij : i ≤ j) (hjk : j ≤ k)
    (hk : k ≤ tokens.length) : sumOf tokens i j ≤ sumOf tokens i k := by
  induction k, hjk using Nat.le_induction with
  | base => exact le_refl _
  | succ k hjk ih =>
    have hterm : 0 ≤ tokens.getD k 0 := by
      rw [List.getD_eq_getElem _ _ (by omega)]
      exact hpos _ (List.getElem_mem _)
    have := ih (by omega)
    rw [sumOf_succ (by omega) (by omega)]
    linarith

/-! ## The walk -/

/-- The longest window from `s` that fits, or one word. -/
structure IsWindow (maxTokens : ℚ) (tokens : List ℚ) (s e : Nat) : Prop where
  nonempty : s < e
  within : e ≤ tokens.length
  fits : sumOf tokens s e ≤ maxTokens ∨ e = s + 1
  longest : e < tokens.length → maxTokens < sumOf tokens s (e + 1)

/-- Where the window behind the one from `s` to `e` begins: the last place from which the words up
    to `e` count the overlap, but behind `s`. -/
structure Rewinds (overlap : ℚ) (tokens : List ℚ) (s e s' : Nat) : Prop where
  behind : s < s'
  within : s' ≤ e
  reaches : s' = s + 1 ∨ overlap ≤ sumOf tokens s' e
  last : ∀ j, s' < j → j ≤ e → sumOf tokens j e < overlap

/-- The windows from `s` on. -/
inductive Walk (maxTokens overlap : ℚ) (tokens : List ℚ) : Nat → List Window → Prop
  | last {s : Nat} (hwindow : IsWindow maxTokens tokens s tokens.length) :
    Walk maxTokens overlap tokens s [⟨s, tokens.length, sumOf tokens s tokens.length⟩]
  | next {s e s' : Nat} {ws : List Window} (hwindow : IsWindow maxTokens tokens s e)
    (hmore : e < tokens.length) (hback : Rewinds overlap tokens s e s')
    (hrest : Walk maxTokens overlap tokens s' ws) :
    Walk maxTokens overlap tokens s (⟨s, e, sumOf tokens s e⟩ :: ws)

/-- The places at which a window begins. -/
inductive Visited (maxTokens overlap : ℚ) (tokens : List ℚ) : Nat → Prop
  | zero : Visited maxTokens overlap tokens 0
  | next {s e s' : Nat} (hs : Visited maxTokens overlap tokens s)
    (hwindow : IsWindow maxTokens tokens s e) (hmore : e < tokens.length)
    (hback : Rewinds overlap tokens s e s') : Visited maxTokens overlap tokens s'

theorem IsWindow.unique (hpos : ∀ t ∈ tokens, 0 ≤ t) {e' : Nat} (h : IsWindow maxTokens tokens s e)
    (h' : IsWindow maxTokens tokens s e') : e = e' := by
  -- the shorter of two windows could have taken one word more
  have hle : ∀ {a b : Nat}, IsWindow maxTokens tokens s a → IsWindow maxTokens tokens s b → b ≤ a := by
    intro a b ha hb
    by_contra hlt
    have hlonger := ha.longest (by have := hb.within; omega)
    have hmono := sumOf_le_of_le hpos (i := s) (by have := ha.nonempty; omega)
      (show a + 1 ≤ b by omega) hb.within
    rcases hb.fits with hfits | hone
    · linarith
    · have := ha.nonempty
      omega
  exact le_antisymm (hle h' h) (hle h h')

theorem Rewinds.unique {r r' : Nat} (h : Rewinds overlap tokens s e r)
    (h' : Rewinds overlap tokens s e r') : r = r' := by
  have hle : ∀ {a b : Nat}, Rewinds overlap tokens s e a → Rewinds overlap tokens s e b → b ≤ a := by
    intro a b ha hb
    by_contra hlt
    have hshort := ha.last b (by omega) hb.within
    rcases hb.reaches with hone | hreaches
    · have := ha.behind
      omega
    · linarith
  exact le_antisymm (hle h' h) (hle h h')

/-! ## The loops -/

theorem grow_spec (maxTokens acc : ℚ) (l : List ℚ) :
    (grow maxTokens acc l).1 ≤ l.length ∧
    (grow maxTokens acc l).2 = acc + total (l.take (grow maxTokens acc l).1) ∧
    (0 < (grow maxTokens acc l).1 → (grow maxTokens acc l).2 ≤ maxTokens) ∧
    ((grow maxTokens acc l).1 < l.length →
      maxTokens < acc + total (l.take ((grow maxTokens acc l).1 + 1))) := by
  induction l generalizing acc with
  | nil => simp [grow]
  | cons t rest ih =>
    rw [grow]
    split
    · rename_i hfits
      obtain ⟨hlength, hsum, hle, hmore⟩ := ih (acc + t)
      dsimp only
      refine ⟨by simpa using hlength, ?_, fun _ => ?_, fun hlt => ?_⟩
      · rw [hsum, List.take_succ_cons, total_cons]
        ring
      · rcases Nat.eq_zero_or_pos (grow maxTokens (acc + t) rest).1 with hzero | hpos
        · rw [hsum, hzero, List.take_zero, total_nil]
          linarith
        · exact hle hpos
      · have := hmore (by simpa using hlt)
        rw [List.take_succ_cons, total_cons]
        linarith
    · rename_i hfull
      simpa using hfull

theorem windowAt_spec (maxTokens : ℚ) (hpos : ∀ t ∈ tokens, 0 ≤ t) (hs : s < tokens.length) :
    IsWindow maxTokens tokens s (windowAt maxTokens tokens s).stop ∧
    windowAt maxTokens tokens s =
      ⟨s, (windowAt maxTokens tokens s).stop, sumOf tokens s (windowAt maxTokens tokens s).stop⟩ := by
  obtain ⟨hlength, hsum, hle, hmore⟩ := grow_spec maxTokens 0 (tokens.drop s)
  rw [List.length_drop] at hlength hmore
  rw [zero_add, ← sumOf_eq_take] at hsum hmore
  unfold windowAt
  dsimp only
  split
  · rename_i hnone
    have hone : sumOf tokens s (s + 1) = tokens.getD s 0 := by
      rw [sumOf_succ (le_refl s) hs, sumOf_self, zero_add]
    refine ⟨⟨Nat.lt_succ_self s, hs, .inr rfl, fun hlt => ?_⟩, by rw [hone]⟩
    -- the first word alone is too much already
    have hlt' : s + 1 < tokens.length := hlt
    have hfirst := hmore (by omega)
    rw [hnone, Nat.zero_add] at hfirst
    exact lt_of_lt_of_le hfirst (sumOf_le_of_le hpos
      (show s ≤ s + 1 by omega) (show s + 1 ≤ s + 1 + 1 by omega) hlt)
  · rename_i hsome
    refine ⟨⟨by dsimp only; omega, by dsimp only; omega, .inl ?_, fun hlt => ?_⟩, by rw [hsum]⟩
    · rw [← hsum]
      exact hle (by omega)
    · exact hmore (by dsimp only at hlt; omega)

/-- The loop that backs off stops where the next window begins. -/
theorem backOff_spec (overlap : ℚ) (he : e ≤ tokens.length) (k : Nat) (hk : s < k) (hke : k ≤ e)
    (hlast : ∀ j, k < j → j ≤ e → sumOf tokens j e < overlap) :
    Rewinds overlap tokens s e (backOff overlap tokens s k (sumOf tokens k e)) := by
  induction k with
  | zero => omega
  | succ k ih =>
    rw [backOff]
    split
    · rename_i hmore
      have hterm : sumOf tokens (k + 1) e + tokens.getD k 0 = sumOf tokens k e := by
        rw [sumOf_cons (i := k) (by omega) he]
        ring
      rw [hterm]
      refine ih (by omega) (by omega) fun j hj hje => ?_
      rcases Nat.eq_or_lt_of_le (Nat.succ_le_of_lt hj) with rfl | hlt
      · exact hmore.2
      · exact hlast j hlt hje
    · rename_i hstop
      refine ⟨hk, hke, ?_, hlast⟩
      by_cases hone : k + 1 = s + 1
      · exact .inl hone
      · exact .inr (not_lt.mp fun hlt => hstop ⟨by omega, hlt⟩)

theorem windows_walk (maxTokens overlap : ℚ) (hpos : ∀ t ∈ tokens, 0 ≤ t) (fuel : Nat) (hs : s < tokens.length)
    (hfuel : tokens.length < s + fuel) :
    ∃ ws, windows maxTokens overlap tokens fuel s = some ws ∧
      Walk maxTokens overlap tokens s ws := by
  induction fuel generalizing s with
  | zero => omega
  | succ fuel ih =>
    obtain ⟨hwindow, heq⟩ := windowAt_spec maxTokens hpos hs
    have hwithin := hwindow.within
    rw [windows, if_pos hs]
    dsimp only
    split
    · rename_i hlast
      have hstop : (windowAt maxTokens tokens s).stop = tokens.length := le_antisymm hwithin hlast
      rw [hstop] at hwindow heq
      rw [heq]
      exact ⟨_, rfl, .last hwindow⟩
    · rename_i hmore
      have hback : Rewinds overlap tokens s (windowAt maxTokens tokens s).stop
          (backOff overlap tokens s (windowAt maxTokens tokens s).stop 0) := by
        have hspec := backOff_spec overlap hwithin _ hwindow.nonempty (le_refl _)
          fun j hj hje => by omega
        rwa [sumOf_self] at hspec
      -- the guard against a stall is never needed
      rw [if_neg (not_le.mpr hback.behind)]
      have := hback.behind
      have := hback.within
      obtain ⟨ws, hws, hwalk⟩ := ih (show backOff overlap tokens s (windowAt maxTokens tokens s).stop 0 < tokens.length by omega)
        (by omega)
      rw [hws, heq]
      exact ⟨_, rfl, .next hwindow (not_le.mp hmore) hback hwalk⟩

/-! ## What a walk covers -/

/-- A run of words: from the first number up to, not including, the second. -/
abbrev WordRun := Nat × Nat

def Window.run (w : Window) : WordRun := (w.start, w.stop)

/-- The runs begin at `s`, end at `n`, leave no word out and go on. -/
inductive Covers (n : Nat) : Nat → List WordRun → Prop
  | last {s : Nat} (hs : s < n) : Covers n s [(s, n)]
  | next {s e s' : Nat} {runs : List WordRun} (he : s < e) (hn : e ≤ n) (hs : s < s')
    (hgap : s' ≤ e) (hrest : Covers n s' runs) : Covers n s ((s, e) :: runs)

theorem Walk.covers {ws : List Window} (h : Walk maxTokens overlap tokens s ws) :
    Covers tokens.length s (ws.map Window.run) := by
  induction h with
  | last hwindow => exact .last hwindow.nonempty
  | next hwindow hmore hback hrest ih =>
    exact .next hwindow.nonempty hwindow.within hback.behind hback.within ih

/-- A walk from a place that is visited visits its windows. -/
theorem Walk.visited {ws : List Window} (h : Walk maxTokens overlap tokens s ws)
    (hs : Visited maxTokens overlap tokens s) {w : Window} (hw : w ∈ ws) :
    Visited maxTokens overlap tokens w.start ∧ IsWindow maxTokens tokens w.start w.stop ∧
      w.acc = sumOf tokens w.start w.stop := by
  induction h with
  | last hwindow =>
    obtain rfl := List.mem_singleton.mp hw
    exact ⟨hs, hwindow, rfl⟩
  | next hwindow hmore hback hrest ih =>
    rcases List.mem_cons.mp hw with rfl | hw
    · exact ⟨hs, hwindow, rfl⟩
    · exact ih (hs.next hwindow hmore hback) hw

/-- The windows at the places from `s` on are those of the walk. -/
theorem Walk.exists_window {ws : List Window} (hpos : ∀ t ∈ tokens, 0 ≤ t)
    (h : Walk maxTokens overlap tokens 0 ws) (hs : Visited maxTokens overlap tokens s) :
    ∃ front rest, ws = front ++ rest ∧ Walk maxTokens overlap tokens s rest := by
  induction hs with
  | zero => exact ⟨[], ws, rfl, h⟩
  | next hs hwindow hmore hback ih =>
    obtain ⟨front, rest, rfl, hwalk⟩ := ih
    cases hwalk with
    | last hlast =>
      have := hlast.unique hpos hwindow
      omega
    | next hwindow' hmore' hback' hrest =>
      obtain rfl := hwindow.unique hpos hwindow'
      obtain rfl := hback.unique hback'
      exact ⟨front ++ [_], _, (List.append_cons _ _ _), hrest⟩

/-! ## Windows that go on -/

/-- The next window reaches beyond the end of this one iff it begins there or the next word fits
    beside the words stepped back. -/
theorem IsWindow.onwards_iff (hpos : ∀ t ∈ tokens, 0 ≤ t) {s' e' : Nat} (hmore : e < tokens.length)
    (hback : Rewinds overlap tokens s e s') (h : IsWindow maxTokens tokens s' e') :
    e < e' ↔ s' = e ∨ sumOf tokens s' (e + 1) ≤ maxTokens := by
  have hwithin := hback.within
  have hnonempty := h.nonempty
  constructor
  · intro hlt
    rcases h.fits with hfits | hone
    · exact .inr ((sumOf_le_of_le hpos (by omega) hlt h.within).trans hfits)
    · exact .inl (by omega)
  · rintro (rfl | hfits)
    · exact hnonempty
    · by_contra hle
      have hlonger := h.longest (by omega)
      have := sumOf_le_of_le hpos (i := s') (show s' ≤ e' + 1 by omega)
        (show e' + 1 ≤ e + 1 by omega) hmore
      linarith

/-- Each run ends behind the end of the one before. -/
abbrev Onwards (runs : List WordRun) : Prop := runs.IsChain fun a b => a.2 < b.2

/-- No word is too large to stand beside the overlap. -/
def OverlapFits (maxTokens overlap : ℚ) (tokens : List ℚ) : Prop :=
  ∀ s e s', Visited maxTokens overlap tokens s → IsWindow maxTokens tokens s e →
    e < tokens.length → Rewinds overlap tokens s e s' →
      s' = e ∨ sumOf tokens s' (e + 1) ≤ maxTokens

theorem Walk.head {ws : List Window} (h : Walk maxTokens overlap tokens s ws) :
    ∃ e rest, ws = ⟨s, e, sumOf tokens s e⟩ :: rest ∧ IsWindow maxTokens tokens s e := by
  cases h with
  | last hwindow => exact ⟨_, _, rfl, hwindow⟩
  | next hwindow hmore hback hrest => exact ⟨_, _, rfl, hwindow⟩

theorem Walk.onwards {ws : List Window} (hpos : ∀ t ∈ tokens, 0 ≤ t)
    (hfits : OverlapFits maxTokens overlap tokens) (h : Walk maxTokens overlap tokens s ws)
    (hs : Visited maxTokens overlap tokens s) : Onwards (ws.map Window.run) := by
  induction h with
  | last hwindow => exact List.isChain_singleton _
  | next hwindow hmore hback hrest ih =>
    have hrun := ih (hs.next hwindow hmore hback)
    obtain ⟨e', rest, rfl, hwindow'⟩ := hrest.head
    refine List.isChain_cons_cons.mpr ⟨?_, hrun⟩
    exact (hwindow'.onwards_iff hpos hmore hback).mpr (hfits _ _ _ hs hwindow hmore hback)

theorem Walk.overlapFits {ws : List Window} (hpos : ∀ t ∈ tokens, 0 ≤ t)
    (h : Walk maxTokens overlap tokens 0 ws) (honwards : Onwards (ws.map Window.run)) :
    OverlapFits maxTokens overlap tokens := by
  intro s e s' hs hwindow hmore hback
  obtain ⟨front, rest, rfl, hwalk⟩ := h.exists_window hpos hs
  cases hwalk with
  | last hlast =>
    have := hlast.unique hpos hwindow
    omega
  | next hwindow' hmore' hback' hrest =>
    obtain rfl := hwindow.unique hpos hwindow'
    obtain rfl := hback.unique hback'
    obtain ⟨e', rest, rfl, hnext⟩ := hrest.head
    rw [List.map_append] at honwards
    have hlt := (List.isChain_cons_cons.mp honwards.right_of_append).1
    exact (hnext.onwards_iff hpos hmore hback).mp hlt

/-! ## Words -/

theorem not_mem_of_mem_splitOnP {α : Type} {p : α → Bool} {l w : List α} (h : w ∈ l.splitOnP p) :
    ∀ c ∈ w, p c = false := by
  induction l generalizing w with
  | nil =>
    obtain rfl := List.mem_singleton.mp (by simpa using h)
    simp
  | cons a l ih =>
    rw [List.splitOnP_cons_eq_if_modifyHead] at h
    split at h
    · rcases List.mem_cons.mp h with rfl | h
      · simp
      · exact ih h
    · rename_i ha
      cases hl : l.splitOnP p with
      | nil => exact absurd hl (List.splitOnP_ne_nil p l)
      | cons first rest =>
        rw [hl, List.modifyHead_cons] at h
        rw [hl] at ih
        rcases List.mem_cons.mp h with rfl | h
        · intro c hc
          rcases List.mem_cons.mp hc with rfl | hc
          · simpa using ha
          · exact ih List.mem_cons_self c hc
        · exact ih (List.mem_cons_of_mem first h)

/-- A word: not empty, without white space. -/
def IsWord (w : JsString) : Prop := w ≠ [] ∧ ∀ c ∈ w, isTrimmed c = false

theorem isWord_of_mem {text w : JsString} (h : w ∈ splitWords text) : IsWord w := by
  obtain ⟨hmem, hne⟩ := List.mem_filter.mp h
  exact ⟨by simpa using hne, not_mem_of_mem_splitOnP hmem⟩

theorem splitWords_joinWords {words : List JsString} (h : ∀ w ∈ words, IsWord w) :
    splitWords (joinWords words) = words := by
  induction words with
  | nil => rfl
  | cons w rest ih =>
    obtain ⟨hne, hword⟩ := h w List.mem_cons_self
    have hrest := ih fun v hv => h v (List.mem_cons_of_mem w hv)
    cases rest with
    | nil =>
      rw [joinWords, List.intercalate_singleton, splitWords, List.splitOnP_eq_singleton hword]
      simp [hne]
    | cons v rest =>
      have hjoin : joinWords (w :: v :: rest) = w ++ 0x20 :: joinWords (v :: rest) := by
        rw [joinWords, List.intercalate_cons_cons, List.append_assoc]
        rfl
      rw [hjoin, splitWords, List.splitOnP_append_cons_of_forall_mem hword _ (by decide),
        List.filter_cons_of_pos (by simpa using hne)]
      exact congrArg (w :: ·) hrest

theorem exists_piece {α : Type} {p : α → Bool} {l : List α} {c : α} (hc : c ∈ l)
    (hp : p c = false) : ∃ w ∈ l.splitOnP p, c ∈ w := by
  induction l with
  | nil => cases hc
  | cons a l ih =>
    rw [List.splitOnP_cons_eq_if_modifyHead]
    rcases List.mem_cons.mp hc with rfl | hc
    · rw [if_neg (by simp [hp])]
      cases hl : l.splitOnP p with
      | nil => exact absurd hl (List.splitOnP_ne_nil p l)
      | cons first rest => exact ⟨_, List.mem_cons_self, List.mem_cons_self⟩
    · obtain ⟨w, hw, hmem⟩ := ih hc
      split
      · exact ⟨w, List.mem_cons_of_mem _ hw, hmem⟩
      · cases hl : l.splitOnP p with
        | nil => exact absurd hl (List.splitOnP_ne_nil p l)
        | cons first rest =>
          rw [hl] at hw
          rcases List.mem_cons.mp hw with rfl | hw
          · exact ⟨_, List.mem_cons_self, List.mem_cons_of_mem a hmem⟩
          · exact ⟨w, List.mem_cons_of_mem _ hw, hmem⟩

theorem pieces_of_forall {α : Type} {p : α → Bool} {l : List α} (h : ∀ c ∈ l, p c = true) :
    ∀ w ∈ l.splitOnP p, w = [] := by
  induction l with
  | nil => simp
  | cons a l ih =>
    rw [List.splitOnP_cons_eq_if_modifyHead, if_pos (h a List.mem_cons_self)]
    intro w hw
    rcases List.mem_cons.mp hw with rfl | hw
    · rfl
    · exact ih (fun c hc => h c (List.mem_cons_of_mem a hc)) w hw

theorem trim_eq_nil_iff (text : JsString) : trim text = [] ↔ ∀ c ∈ text, isTrimmed c = true := by
  constructor
  · intro h
    have hall := List.rdropWhile_eq_nil_iff.mp h
    cases hd : text.dropWhile isTrimmed with
    | nil => exact List.dropWhile_eq_nil_iff.mp hd
    | cons c rest =>
      have hc := List.dropWhile_get_zero_not isTrimmed text (by simp [hd])
      simp only [hd, List.get_eq_getElem, List.getElem_cons_zero] at hc
      exact absurd (hall c (by simp [hd])) hc
  · intro h
    rw [trim, List.dropWhile_eq_nil_iff.mpr h, List.rdropWhile_nil]

theorem splitWords_eq_nil_iff (text : JsString) : splitWords text = [] ↔ trim text = [] := by
  rw [trim_eq_nil_iff]
  constructor
  · intro h c hc
    by_contra hne
    obtain ⟨w, hw, hmem⟩ := exists_piece hc (by simpa using hne)
    have hnil := List.filter_eq_nil_iff.mp h w hw
    simp only [ne_eq, decide_not, Bool.not_eq_true', decide_eq_false_iff_not, not_not] at hnil
    rw [hnil] at hmem
    cases hmem
  · intro h
    refine List.filter_eq_nil_iff.mpr fun w hw => ?_
    simp [pieces_of_forall h w hw]

/-! ## The chunks -/

variable {text parentId : JsString} {opts : ChunkOptions}

/-- The counts of the words of the text. -/
def tokensOf (text : JsString) (opts : ChunkOptions) : List ℚ :=
  wordTokens opts.countTokens (splitWords text)

@[simp] theorem tokensOf_length (text : JsString) (opts : ChunkOptions) :
    (tokensOf text opts).length = (splitWords text).length := List.length_map _

theorem tokensOf_nonneg (text : JsString) (opts : ChunkOptions) : ∀ t ∈ tokensOf text opts, 0 ≤ t := by
  intro t ht
  obtain ⟨w, -, rfl⟩ := List.mem_map.mp ht
  exact zero_le_one.trans (le_max_left 1 _)

def slice (text : JsString) (run : WordRun) : List JsString :=
  ((splitWords text).take run.2).drop run.1

/-- The runs that the chunks were cut from: the whole text, or the windows of the loop. -/
def chunkRuns (text : JsString) (opts : ChunkOptions) : List WordRun :=
  if trim text = [] then []
  else if opts.countTokens text ≤ opts.maxTokens then [(0, (splitWords text).length)]
  else
    ((windows opts.maxTokens opts.overlap (tokensOf text opts) ((splitWords text).length + 1)
      0).getD []).map Window.run

/-- What chunks of a text are to be. -/
structure CutsWell (text : JsString) (opts : ChunkOptions) (chunks : List Chunk) : Prop where
  /-- a chunk is a run of the text's words -/
  words : List.Forall₂ (fun c run => splitWords c.text = slice text run) chunks (chunkRuns text opts)
  /-- the runs cover every word in order -/
  covers : splitWords text = [] ∧ chunks = [] ∨
    Covers (splitWords text).length 0 (chunkRuns text opts)
  /-- no chunk is contained in the one before -/
  onwards : Onwards (chunkRuns text opts)
  bounded : ∀ c ∈ chunks, 1 < (splitWords c.text).length → opts.countTokens c.text ≤ opts.maxTokens
  counted : ∀ c ∈ chunks, c.tokenCount = opts.countTokens c.text

/-- The text fits as a whole, or at every window the walk comes to the counter is additive and the
    word behind it stands beside the overlap. -/
def Suits (text : JsString) (opts : ChunkOptions) : Prop :=
  trim text = [] ∨ opts.countTokens text ≤ opts.maxTokens ∨
  (∀ s e, Visited opts.maxTokens opts.overlap (tokensOf text opts) s →
    IsWindow opts.maxTokens (tokensOf text opts) s e →
      opts.countTokens (joinWords (slice text (s, e))) = sumOf (tokensOf text opts) s e) ∧
  OverlapFits opts.maxTokens opts.overlap (tokensOf text opts)

/-- The options that `chunkText` accepts. -/
def Valid (opts : ChunkOptions) : Prop := 0 ≤ opts.overlap ∧ opts.overlap < opts.maxTokens

theorem slice_isWord (text : JsString) (run : WordRun) : ∀ w ∈ slice text run, IsWord w :=
  fun _ hw => isWord_of_mem (List.mem_of_mem_take (List.mem_of_mem_drop hw))

theorem slice_length {s e : Nat} (hse : s ≤ e) (he : e ≤ (splitWords text).length) :
    (slice text (s, e)).length = e - s := by
  rw [slice, List.length_drop, List.length_take]
  omega

theorem chunkText_walk (parentId : JsString) (hvalid : Valid opts) (hblank : trim text ≠ [])
    (hlong : ¬ opts.countTokens text ≤ opts.maxTokens) :
    ∃ ws, Walk opts.maxTokens opts.overlap (tokensOf text opts) 0 ws ∧
      chunkRuns text opts = ws.map Window.run ∧
      chunkText text parentId opts =
        .returned (ws.zipIdx.map fun p => p.1.chunk parentId (splitWords text) p.2) := by
  have hpos : 0 < (tokensOf text opts).length := by
    rw [tokensOf_length]
    exact List.length_pos_iff.mpr fun hnil => hblank ((splitWords_eq_nil_iff text).mp hnil)
  obtain ⟨ws, hws, hwalk⟩ := windows_walk opts.maxTokens opts.overlap (tokensOf_nonneg text opts)
    ((splitWords text).length + 1) hpos (by simp)
  refine ⟨ws, hwalk, ?_, ?_⟩
  · rw [chunkRuns, if_neg hblank, if_neg hlong, hws, Option.getD_some]
  · obtain ⟨hoverlap, hmax⟩ := hvalid
    rw [chunkText, if_neg (by linarith), if_neg (by rintro (h | h) <;> linarith), if_neg hblank]
    dsimp only
    rw [if_neg hlong, show wordTokens opts.countTokens (splitWords text) = tokensOf text opts from rfl,
      hws]

/-- The chunks of a walk have the words of its windows. -/
theorem forall₂_words (ws : List Window) (text parentId : JsString) (k : Nat) :
    List.Forall₂ (fun c run => splitWords c.text = slice text run)
      ((ws.zipIdx k).map fun p => p.1.chunk parentId (splitWords text) p.2) (ws.map Window.run) := by
  induction ws generalizing k with
  | nil => exact .nil
  | cons w ws ih => exact .cons (splitWords_joinWords (slice_isWord text w.run)) (ih (k + 1))

theorem mem_chunks {ws : List Window} {words : List JsString} {c : Chunk} :
    c ∈ ws.zipIdx.map (fun p => p.1.chunk parentId words p.2) ↔
      ∃ w ∈ ws, ∃ i, (w, i) ∈ ws.zipIdx ∧ w.chunk parentId words i = c := by
  rw [List.mem_map]
  constructor
  · rintro ⟨p, hp, rfl⟩
    exact ⟨p.1, List.fst_mem_of_mem_zipIdx hp, p.2, hp, rfl⟩
  · rintro ⟨w, -, i, hi, rfl⟩
    exact ⟨(w, i), hi, rfl⟩

/-- The loop's chunks are cut well iff the counter and the overlap suit the walk. -/
theorem cutsWell_walk_iff (parentId : JsString) {ws : List Window}
    (hwalk : Walk opts.maxTokens opts.overlap (tokensOf text opts) 0 ws)
    (hruns : chunkRuns text opts = ws.map Window.run) :
    CutsWell text opts (ws.zipIdx.map fun p => p.1.chunk parentId (splitWords text) p.2) ↔
      (∀ s e, Visited opts.maxTokens opts.overlap (tokensOf text opts) s →
        IsWindow opts.maxTokens (tokensOf text opts) s e →
          opts.countTokens (joinWords (slice text (s, e))) = sumOf (tokensOf text opts) s e) ∧
      OverlapFits opts.maxTokens opts.overlap (tokensOf text opts) := by
  have hpos := tokensOf_nonneg text opts
  constructor
  · intro h
    refine ⟨fun s e hs hwindow => ?_, hwalk.overlapFits hpos (hruns ▸ h.onwards)⟩
    obtain ⟨front, rest, rfl, hrest⟩ := hwalk.exists_window hpos hs
    obtain ⟨e', rest, rfl, hwindow'⟩ := hrest.head
    obtain rfl := hwindow.unique hpos hwindow'
    have hmem : ⟨s, e, sumOf (tokensOf text opts) s e⟩ ∈ front ++ _ :: rest :=
      List.mem_append_right front List.mem_cons_self
    obtain ⟨i, hi⟩ := List.getElem?_of_mem hmem
    exact (h.counted _ (mem_chunks.mpr
      ⟨_, hmem, i, List.mem_zipIdx_iff_getElem?.mpr hi, rfl⟩)).symm
  · rintro ⟨hcount, hfits⟩
    have hcounted : ∀ w ∈ ws, w.acc = opts.countTokens (joinWords (slice text w.run)) ∧
        IsWindow opts.maxTokens (tokensOf text opts) w.start w.stop := by
      intro w hw
      obtain ⟨hs, hwindow, hacc⟩ := hwalk.visited .zero hw
      exact ⟨hacc.trans (hcount _ _ hs hwindow).symm, hwindow⟩
    refine ⟨hruns ▸ forall₂_words ws text parentId 0, .inr ?_, ?_, fun c hc hmany => ?_,
      fun c hc => ?_⟩
    · rw [hruns, ← tokensOf_length text opts]
      exact hwalk.covers
    · rw [hruns]
      exact hwalk.onwards hpos hfits .zero
    · obtain ⟨w, hw, i, -, rfl⟩ := mem_chunks.mp hc
      obtain ⟨hs, hwindow, hacc⟩ := hwalk.visited .zero hw
      rw [show (w.chunk parentId (splitWords text) i).text = joinWords (slice text w.run) from rfl]
        at hmany ⊢
      have hwithin := hwindow.within
      rw [tokensOf_length] at hwithin
      have hnonempty := hwindow.nonempty
      rw [splitWords_joinWords (slice_isWord text w.run), Window.run,
        slice_length hnonempty.le hwithin] at hmany
      rw [Window.run, hcount _ _ hs hwindow]
      rcases hwindow.fits with hfits | hone
      · exact hfits
      · omega
    · obtain ⟨w, hw, i, -, rfl⟩ := mem_chunks.mp hc
      exact (hcounted w hw).1

/-- **`chunkText`.** For every text, counter and valid limits the chunks are consecutive runs of the
    words that cover them, each chunk ends behind the one before, every chunk of more than one word
    counts at most `maxTokens` and `tokenCount` is what it counts, exactly when the text fits as a
    whole or the counter and the overlap suit it. -/
theorem chunksWell_iff (text parentId : JsString) (opts : ChunkOptions) (hvalid : Valid opts) :
    (∃ chunks, chunkText text parentId opts = .returned chunks ∧ CutsWell text opts chunks) ↔
      Suits text opts := by
  by_cases hblank : trim text = []
  · refine iff_of_true ⟨[], ?_, ?_⟩ (.inl hblank)
    · rw [chunkText, if_neg (by linarith [hvalid.1, hvalid.2]),
        if_neg (by rintro (h | h) <;> linarith [hvalid.1, hvalid.2]), if_pos hblank]
    · have hruns : chunkRuns text opts = [] := if_pos hblank
      exact ⟨hruns ▸ .nil, .inl ⟨(splitWords_eq_nil_iff text).mpr hblank, rfl⟩, hruns ▸ .nil,
        by simp, by simp⟩
  by_cases hwhole : opts.countTokens text ≤ opts.maxTokens
  · refine iff_of_true ⟨[⟨parentId ++ js ":chunk:" ++ numberText 0, text, 0, opts.countTokens text⟩],
      ?_, ?_⟩ (.inr (.inl hwhole))
    · rw [chunkText, if_neg (by linarith [hvalid.1, hvalid.2]),
        if_neg (by rintro (h | h) <;> linarith [hvalid.1, hvalid.2]), if_neg hblank]
      dsimp only
      rw [if_pos hwhole]
    · have hruns : chunkRuns text opts = [(0, (splitWords text).length)] := by
        rw [chunkRuns, if_neg hblank, if_pos hwhole]
      have hpos : 0 < (splitWords text).length :=
        List.length_pos_iff.mpr fun hnil => hblank ((splitWords_eq_nil_iff text).mp hnil)
      refine ⟨hruns ▸ .cons ?_ .nil, .inr (hruns ▸ .last hpos), hruns ▸ .singleton _, ?_, ?_⟩
      · rw [slice, List.take_length, List.drop_zero]
      · intro c hc _
        obtain rfl := List.mem_singleton.mp hc
        exact hwhole
      · intro c hc
        obtain rfl := List.mem_singleton.mp hc
        rfl
  · obtain ⟨ws, hwalk, hruns, heq⟩ := chunkText_walk parentId hvalid hblank hwhole
    rw [Suits, or_iff_right hblank, or_iff_right hwhole, heq,
      ← cutsWell_walk_iff parentId hwalk hruns]
    constructor
    · rintro ⟨chunks, hchunks, hwell⟩
      rw [Outcome.returned.injEq] at hchunks
      exact hchunks ▸ hwell
    · exact fun hwell => ⟨_, rfl, hwell⟩

/-- A counter that counts code units, on a text that fits as a whole. -/
theorem short_text_chunked :
    ∃ chunks, chunkText (js "to be") (js "m") ⟨8, 2, fun text => text.length⟩ = .returned chunks ∧
      CutsWell (js "to be") ⟨8, 2, fun text => text.length⟩ chunks :=
  (chunksWell_iff (js "to be") (js "m") ⟨8, 2, fun text => text.length⟩
    ⟨by norm_num, by norm_num⟩).mpr (.inr (.inl (by decide +kernel)))

/-- Two words of one token each, which `approxTokenCount` counts as three once they are joined: the
    chunk is larger than it says, and larger than `maxTokens`. -/
theorem joined_words_count_more :
    ¬ ∃ chunks, chunkText (js "rose bush") (js "m") ⟨2, 0, approxTokenCount⟩ = .returned chunks ∧
      CutsWell (js "rose bush") ⟨2, 0, approxTokenCount⟩ chunks := by
  rintro ⟨chunks, hchunks, hwell⟩
  have hrun : chunkText (js "rose bush") (js "m") ⟨2, 0, approxTokenCount⟩ =
      .returned [⟨js "m:chunk:0", js "rose bush", 0, 2⟩] := by decide +kernel
  rw [hrun, Outcome.returned.injEq] at hchunks
  subst hchunks
  have hcount := hwell.counted _ List.mem_cons_self
  revert hcount
  decide +kernel

end Bobbit.Server.Chunker
