import Mathlib

/-!
# Merging ranges of numbers

Closed ranges are sorted and put together where they overlap or touch. What is left lists each
number of the ranges once, in order.

## Key results
- `mem_numbers_mergeRanges`: the numbers are those of the ranges.
- `pairwise_numbers_mergeRanges`: they increase.
-/

namespace Bobbit.Lib

/-- The numbers from `first` to `last`. -/
structure NumberRange where
  first : Nat
  last : Nat
  deriving DecidableEq, Repr

namespace NumberRange

def numbers (r : NumberRange) : List Nat := List.range' r.first (r.last + 1 - r.first)

theorem mem_numbers {r : NumberRange} {n : Nat} : n ∈ r.numbers ↔ r.first ≤ n ∧ n ≤ r.last := by
  rw [numbers, List.mem_range'_1]
  omega

/-- The order of sorting: by the first number, then by the last. -/
def before (a b : NumberRange) : Bool :=
  a.first < b.first || (a.first = b.first && a.last ≤ b.last)

/-- A range is added to merged ones: it extends the last one or comes behind it. -/
def absorb (merged : List NumberRange) (r : NumberRange) : List NumberRange :=
  match merged.getLast? with
  | none => [r]
  | some last =>
    if r.first ≤ last.last + 1 then merged.dropLast ++ [⟨last.first, max last.last r.last⟩]
    else merged ++ [r]

def mergeRanges (ranges : List NumberRange) : List NumberRange :=
  (ranges.mergeSort before).foldl absorb []

/-- Ranges in order, with a number between each and the next. -/
structure Spread (merged : List NumberRange) : Prop where
  nonempty : ∀ a ∈ merged, a.first ≤ a.last
  gaps : merged.Pairwise fun a b => a.last + 1 < b.first

theorem absorb_cases (merged : List NumberRange) (r : NumberRange) :
    (merged = [] ∧ absorb merged r = [r]) ∨
      (∃ init last, merged = init ++ [last] ∧ r.first ≤ last.last + 1 ∧
        absorb merged r = init ++ [⟨last.first, max last.last r.last⟩]) ∨
      ∃ init last, merged = init ++ [last] ∧ last.last + 1 < r.first ∧
        absorb merged r = merged ++ [r] := by
  rcases List.eq_nil_or_concat merged with rfl | ⟨init, last, rfl⟩
  · exact .inl ⟨rfl, rfl⟩
  · right
    by_cases h : r.first ≤ last.last + 1
    · exact .inl ⟨init, last, List.concat_eq_append, h, by simp [absorb, h]⟩
    · exact .inr ⟨init, last, List.concat_eq_append, by omega, by simp [absorb, h]⟩

/-- Ranges stay spread when one is added that begins no earlier. -/
theorem Spread.absorb {merged : List NumberRange} {r : NumberRange} (h : Spread merged)
    (hr : r.first ≤ r.last) (hlate : ∀ a ∈ merged, a.first ≤ r.first) :
    Spread (absorb merged r) ∧ (∀ a ∈ NumberRange.absorb merged r, a.first ≤ r.first) ∧
      ∀ n, (∃ a ∈ NumberRange.absorb merged r, a.first ≤ n ∧ n ≤ a.last) ↔
        (∃ a ∈ merged, a.first ≤ n ∧ n ≤ a.last) ∨ r.first ≤ n ∧ n ≤ r.last := by
  rcases absorb_cases merged r with ⟨rfl, heq⟩ | ⟨init, last, rfl, htouch, heq⟩ |
    ⟨init, last, rfl, hgap, heq⟩
  · rw [heq]
    exact ⟨⟨by simpa using hr, List.pairwise_singleton _ _⟩, by simp, by simp⟩
  · rw [heq]
    obtain ⟨hne, hgaps⟩ := h
    rw [List.pairwise_append] at hgaps
    have hlast := hne last (by simp)
    have hle := hlate last (by simp)
    refine ⟨⟨?_, ?_⟩, ?_, fun n => ?_⟩
    · intro a ha
      rcases List.mem_append.mp ha with ha | ha
      · exact hne a (by simp [ha])
      · rw [List.mem_singleton.mp ha]
        exact hlast.trans (le_max_left _ _)
    · refine List.pairwise_append.mpr ⟨hgaps.1, List.pairwise_singleton _ _, fun a ha b hb => ?_⟩
      rw [List.mem_singleton.mp hb]
      exact hgaps.2.2 a ha last (by simp)
    · intro a ha
      rcases List.mem_append.mp ha with ha | ha
      · exact hlate a (by simp [ha])
      · rw [List.mem_singleton.mp ha]
        exact hle
    · simp only [List.mem_append, List.mem_singleton, or_and_right, exists_or, exists_eq_left,
        or_assoc]
      refine or_congr_right ?_
      rw [le_max_iff]
      omega
  · rw [heq]
    obtain ⟨hne, hgaps⟩ := h
    refine ⟨⟨?_, ?_⟩, ?_, fun n => ?_⟩
    · intro a ha
      rcases List.mem_append.mp ha with ha | ha
      · exact hne a ha
      · rwa [List.mem_singleton.mp ha]
    · refine List.pairwise_append.mpr ⟨hgaps, List.pairwise_singleton _ _, fun a ha b hb => ?_⟩
      rw [List.mem_singleton.mp hb]
      rcases List.mem_append.mp ha with ha | ha
      · have hbefore := (List.pairwise_append.mp hgaps).2.2 a ha last (by simp)
        have hlast := hne last (by simp)
        omega
      · rwa [List.mem_singleton.mp ha]
    · intro a ha
      rcases List.mem_append.mp ha with ha | ha
      · exact hlate a ha
      · rw [List.mem_singleton.mp ha]
    · simp only [List.mem_append, List.mem_singleton, or_and_right, exists_or, exists_eq_left]

theorem spread_foldl {ranges merged : List NumberRange} (h : Spread merged)
    (hranges : ∀ r ∈ ranges, r.first ≤ r.last)
    (hsorted : ranges.Pairwise fun a b => a.first ≤ b.first)
    (hlate : ∀ r ∈ ranges, ∀ a ∈ merged, a.first ≤ r.first) :
    Spread (ranges.foldl NumberRange.absorb merged) ∧
      ∀ n, (∃ a ∈ ranges.foldl NumberRange.absorb merged, a.first ≤ n ∧ n ≤ a.last) ↔
        (∃ a ∈ merged, a.first ≤ n ∧ n ≤ a.last) ∨ ∃ r ∈ ranges, r.first ≤ n ∧ n ≤ r.last := by
  induction ranges generalizing merged with
  | nil => exact ⟨h, fun n => by simp⟩
  | cons r rest ih =>
    rw [List.pairwise_cons] at hsorted
    obtain ⟨hspread, hfirst, hmem⟩ := h.absorb (hranges r (by simp)) (hlate r (by simp))
    obtain ⟨hspread', hmem'⟩ := ih hspread (fun q hq => hranges q (by simp [hq])) hsorted.2
      fun q hq a ha => (hfirst a ha).trans (hsorted.1 q hq)
    refine ⟨hspread', fun n => ?_⟩
    rw [List.foldl_cons, hmem' n, hmem n, or_assoc]
    simp

variable {ranges : List NumberRange}

theorem mergeRanges_spec (h : ∀ r ∈ ranges, r.first ≤ r.last) :
    Spread (mergeRanges ranges) ∧ ∀ n, (∃ a ∈ mergeRanges ranges, a.first ≤ n ∧ n ≤ a.last) ↔
      ∃ r ∈ ranges, r.first ≤ n ∧ n ≤ r.last := by
  have hsorted : (ranges.mergeSort before).Pairwise fun a b => a.first ≤ b.first := by
    have htrans : ∀ a b c, before a b = true → before b c = true → before a c = true := by
      intro a b c hab hbc
      simp only [before, Bool.or_eq_true, Bool.and_eq_true, decide_eq_true_eq] at hab hbc ⊢
      omega
    have htotal : ∀ a b, (before a b || before b a) = true := by
      intro a b
      simp only [before, Bool.or_eq_true, Bool.and_eq_true, decide_eq_true_eq]
      omega
    refine (List.pairwise_mergeSort htrans htotal ranges).imp fun hab => ?_
    · simp only [before, Bool.or_eq_true, Bool.and_eq_true, decide_eq_true_eq] at hab
      omega
  have hnil : Spread [] := ⟨by simp, List.Pairwise.nil⟩
  obtain ⟨hspread, hmem⟩ := spread_foldl hnil (fun r hr => h r (List.mem_mergeSort.mp hr)) hsorted
    (by simp)
  refine ⟨hspread, fun n => ?_⟩
  rw [mergeRanges, hmem n]
  simp

theorem mem_numbers_mergeRanges (h : ∀ r ∈ ranges, r.first ≤ r.last) {n : Nat} :
    n ∈ (mergeRanges ranges).flatMap numbers ↔ ∃ r ∈ ranges, r.first ≤ n ∧ n ≤ r.last := by
  rw [List.mem_flatMap, ← (mergeRanges_spec h).2 n]
  simp only [mem_numbers]

theorem pairwise_numbers_mergeRanges (h : ∀ r ∈ ranges, r.first ≤ r.last) :
    ((mergeRanges ranges).flatMap numbers).Pairwise (· < ·) := by
  obtain ⟨hne, hgaps⟩ := (mergeRanges_spec h).1
  refine List.pairwise_flatMap.mpr ⟨fun r _ => List.pairwise_lt_range',
    hgaps.imp fun hgap x hx y hy => ?_⟩
  rw [mem_numbers] at hx hy
  omega

end NumberRange

end Bobbit.Lib
