import Bobbit.Spec.CronExpression

/-!
# When a cron expression matches what it denotes

The first four fields match their values. In the field for the day of the week every 7 is rewritten
to 0 before the field is parsed, the 7 of a step and the 7 at the end of a range among them: such an
element loses days that it denotes, or gains others.

## Key results

* `range_days` — the days of a range, and what its rewriting makes of them.
* `element_days` — the same for every element: what it misses and what it gains.
* `cron_matches_iff` — when a match says what the expression denotes.
* `friday_missed` — `5-7` does not match a Friday.
-/

namespace Bobbit.Server.StaffTrigger

open Lib Lib.JsString

/-! ## Elements as ranges -/

def CronElement.first : CronElement → Option Numeral
  | .star | .starStep _ => none
  | .number n => some n
  | .range lo _ | .rangeStep lo _ _ => some lo

def CronElement.last : CronElement → Option Numeral
  | .star | .starStep _ => none
  | .number n => some n
  | .range _ hi | .rangeStep _ hi _ => some hi

def CronElement.step : CronElement → Option Numeral
  | .star | .number _ | .range _ _ => none
  | .starStep step | .rangeStep _ _ step => some step

def CronElement.stepValue (e : CronElement) : Nat := e.step.elim 1 (·.value)

/-- An element loses the days that it denotes: its step is a 7; or the day is a Sunday, and the
first number is neither 0 nor a plain 7; or it is another day, and the last number is 0 or a plain
7, or the first one is a 7 that is written with a zero before it. -/
def CronElement.Misses (e : CronElement) (d : Nat) : Prop :=
  (∃ step, e.step = some step ∧ step.IsSeven) ∨
    (d = 0 ∧ ∃ lo, e.first = some lo ∧ lo.value ≠ 0 ∧ ¬ lo.IsSeven) ∨
    (d ≠ 0 ∧ ∃ lo hi, e.first = some lo ∧ e.last = some hi ∧
      (hi.value = 0 ∨ hi.IsSeven ∨ (lo.value = 7 ∧ ¬ lo.IsSeven)))

/-- An element gains a day other than Sunday: its first number is a plain 7, its last one is not
below 7 and no plain 7, and the day is a multiple of the step, which is no plain 7. -/
def CronElement.Gains (e : CronElement) (d : Nat) : Prop :=
  d ≠ 0 ∧ (∃ lo hi, e.first = some lo ∧ e.last = some hi ∧ lo.IsSeven ∧ 7 ≤ hi.value ∧
    ¬ hi.IsSeven) ∧ (∀ step, e.step = some step → ¬ step.IsSeven) ∧ 0 < e.stepValue ∧
    e.stepValue ∣ d

/-! ## The value of a rewritten numeral -/

theorem value_of_isSeven {n : Numeral} (h : n.IsSeven) : n.value = 7 := by
  rw [Numeral.value, h]
  rfl

theorem rewritten_of_isSeven {n : Numeral} (h : n.IsSeven) : n.rewritten.value = 0 := by
  rw [Numeral.rewritten, if_pos h]
  rfl

theorem rewritten_of_not_isSeven {n : Numeral} (h : ¬ n.IsSeven) : n.rewritten.value = n.value := by
  rw [Numeral.rewritten, if_neg h]

/-! ## Ranges of days -/

theorem mem_stepped {lo hi step v : Nat} :
    v ∈ stepped lo hi step ↔ lo ≤ v ∧ v ≤ hi ∧ 0 < step ∧ step ∣ v - lo := Iff.rfl

theorem dayEnds_cases (lo hi : Nat) :
    (lo ≤ hi ∧ dayEnds lo hi = (lo, hi)) ∨ (lo = 7 ∧ hi < 7 ∧ dayEnds lo hi = (0, hi)) ∨
      (lo ≠ 7 ∧ 0 < lo ∧ hi = 0 ∧ dayEnds lo hi = (lo, 7)) ∨
      (lo ≠ 7 ∧ hi ≠ 0 ∧ hi < lo ∧ dayEnds lo hi = (lo, hi)) := by
  unfold dayEnds
  split
  · exact .inl ⟨by assumption, rfl⟩
  · split
    · exact .inr (.inl ⟨by assumption, by omega, rfl⟩)
    · split
      · exact .inr (.inr (.inl ⟨by assumption, by omega, by assumption, rfl⟩))
      · exact .inr (.inr (.inr ⟨by assumption, by assumption, by omega, rfl⟩))

/-- The days of a range of numerals, and what its rewriting makes of them. -/
theorem range_days (lo hi : Numeral) {step d : Nat} (hstep : 0 < step) (hd : d < 7) :
    (d ∈ stepped lo.rewritten.value hi.rewritten.value step ↔
      ((d ∈ stepped (dayEnds lo.value hi.value).1 (dayEnds lo.value hi.value).2 step ∨
          d = 0 ∧ 7 ∈ stepped (dayEnds lo.value hi.value).1 (dayEnds lo.value hi.value).2 step) ∧
        ¬ ((d = 0 ∧ lo.value ≠ 0 ∧ ¬ lo.IsSeven) ∨
          (d ≠ 0 ∧ (hi.value = 0 ∨ hi.IsSeven ∨ (lo.value = 7 ∧ ¬ lo.IsSeven))))) ∨
      (d ≠ 0 ∧ lo.IsSeven ∧ 7 ≤ hi.value ∧ ¬ hi.IsSeven ∧ step ∣ d)) := by
  have hzero : step ∣ 0 := dvd_zero step
  have hself : d ≤ lo.value → step ∣ d - lo.value := fun h => by
    rw [Nat.sub_eq_zero_of_le h]
    exact hzero
  rcases dayEnds_cases lo.value hi.value with ⟨hup, h⟩ | ⟨hlo7, hhi7, h⟩ | ⟨hlo7, hpos, hhi0, h⟩ |
    ⟨hlo7, hhi0, hdown, h⟩
  all_goals
    simp only [h, mem_stepped]
    by_cases hlo : lo.IsSeven
    · have hlov := value_of_isSeven hlo
      by_cases hhi : hi.IsSeven
      · have hhiv := value_of_isSeven hhi
        simp only [rewritten_of_isSeven hlo, rewritten_of_isSeven hhi, hlo, hhi, hlov, hhiv,
          Nat.sub_zero, Nat.sub_self] at *
        grind
      · simp only [rewritten_of_isSeven hlo, rewritten_of_not_isSeven hhi, hlo, hhi, hlov,
          Nat.sub_zero, Nat.sub_self] at *
        grind
    · by_cases hhi : hi.IsSeven
      · have hhiv := value_of_isSeven hhi
        simp only [rewritten_of_not_isSeven hlo, rewritten_of_isSeven hhi, hlo, hhi, hhiv,
          Nat.sub_zero] at *
        grind
      · simp only [rewritten_of_not_isSeven hlo, rewritten_of_not_isSeven hhi, hlo, hhi,
          Nat.sub_zero] at *
        grind

/-! ## Elements -/

theorem number_days (n : Numeral) {d : Nat} (hd : d < 7) :
    d = n.rewritten.value ↔
      (d = n.value ∨ d = 0 ∧ 7 = n.value) ∧ ¬ (d = 0 ∧ n.value ≠ 0 ∧ ¬ n.IsSeven) := by
  by_cases hn : n.IsSeven
  · simp only [rewritten_of_isSeven hn, value_of_isSeven hn, hn, not_true_eq_false, and_false,
      not_false_eq_true, and_true]
    omega
  · simp only [rewritten_of_not_isSeven hn, hn, not_false_eq_true, and_true]
    omega

section
variable {e : CronElement} {lo hi : Numeral} {d : Nat}

/-- What an element with two ends misses, when its step is no plain 7. -/
theorem misses_of_ends (hlo : e.first = some lo) (hhi : e.last = some hi)
    (hstep : ∀ step, e.step = some step → ¬ step.IsSeven) :
    e.Misses d ↔ d = 0 ∧ lo.value ≠ 0 ∧ ¬ lo.IsSeven ∨
      d ≠ 0 ∧ (hi.value = 0 ∨ hi.IsSeven ∨ (lo.value = 7 ∧ ¬ lo.IsSeven)) := by
  have hnone : ¬ ∃ step, e.step = some step ∧ step.IsSeven :=
    fun h => h.elim fun step hs => hstep step hs.1 hs.2
  unfold CronElement.Misses
  rw [or_iff_right hnone, hlo, hhi]
  simp only [Option.some.injEq, exists_eq_left', exists_and_left]

theorem gains_of_ends (hlo : e.first = some lo) (hhi : e.last = some hi)
    (hstep : ∀ step, e.step = some step → ¬ step.IsSeven) :
    e.Gains d ↔ d ≠ 0 ∧ (lo.IsSeven ∧ 7 ≤ hi.value ∧ ¬ hi.IsSeven) ∧ 0 < e.stepValue ∧
      e.stepValue ∣ d := by
  unfold CronElement.Gains
  rw [and_iff_right hstep, hlo, hhi]
  simp only [Option.some.injEq, exists_eq_left', exists_and_left]

/-- An element without ends misses something for its step only. -/
theorem misses_without_ends (hfirst : e.first = none) :
    e.Misses d ↔ ∃ step, e.step = some step ∧ step.IsSeven := by
  simp [CronElement.Misses, hfirst]

theorem not_gains_without_ends (hfirst : e.first = none) : ¬ e.Gains d := by
  rintro ⟨-, ⟨lo, hi, hlo, -⟩, -⟩
  cases hfirst.symm.trans hlo

end

/-- What the rewriting of an element makes of its days. -/
theorem element_days (e : CronElement) {d : Nat} (hd : d < 7) :
    d ∈ e.rewritten.values ↔ (d ∈ e.days ∧ ¬ e.Misses d) ∨ e.Gains d := by
  cases e with
  | star =>
    simp [CronElement.rewritten, CronElement.values, CronElement.valuesBy, CronElement.days,
      CronElement.Misses, CronElement.step, CronElement.first]
  | number n =>
    have hstep : ∀ step, (CronElement.number n).step = some step → ¬ step.IsSeven := by
      intro step h
      cases h
    -- one number cannot be a plain 7 and no plain 7
    have hgains : ¬ (CronElement.number n).Gains d :=
      fun h => ((gains_of_ends rfl rfl hstep).mp h).2.1.2.2
        ((gains_of_ends rfl rfl hstep).mp h).2.1.1
    have hseven := value_of_isSeven (n := n)
    rw [or_iff_left hgains, misses_of_ends rfl rfl hstep]
    show d = n.rewritten.value ↔ (d = n.value ∨ d = 0 ∧ 7 = n.value) ∧ _
    rw [number_days n hd]
    grind
  | range lo hi =>
    have hstep : ∀ step, (CronElement.range lo hi).step = some step → ¬ step.IsSeven := by
      intro step h
      cases h
    have hone : 0 < (CronElement.range lo hi).stepValue := Nat.one_pos
    rw [misses_of_ends rfl rfl hstep, gains_of_ends rfl rfl hstep, and_iff_right hone, and_assoc,
      and_assoc]
    exact range_days lo hi Nat.one_pos hd
  | starStep step =>
    have hmisses : (CronElement.starStep step).Misses d ↔ step.IsSeven := by
      rw [misses_without_ends rfl]
      simp only [CronElement.step, Option.some.injEq, exists_eq_left']
    have hzero : step.value ∣ 0 := dvd_zero _
    rw [or_iff_left (not_gains_without_ends rfl), hmisses]
    show 0 < step.rewritten.value ∧ step.rewritten.value ∣ d ↔
      ((0 < step.value ∧ step.value ∣ d) ∨ d = 0 ∧ 0 < step.value ∧ step.value ∣ 7) ∧ _
    by_cases hstep : step.IsSeven
    · rw [rewritten_of_isSeven hstep]
      grind
    · rw [rewritten_of_not_isSeven hstep]
      grind
  | rangeStep lo hi step =>
    by_cases hstep : step.IsSeven
    · -- a step that is rewritten to 0 denotes nothing
      have hnone : d ∉ (CronElement.rangeStep lo hi step).rewritten.values := by
        intro h
        have hpos : 0 < step.rewritten.value := h.2.2.1
        rw [rewritten_of_isSeven hstep] at hpos
        omega
      have hmisses : (CronElement.rangeStep lo hi step).Misses d := .inl ⟨step, rfl, hstep⟩
      have hgains : ¬ (CronElement.rangeStep lo hi step).Gains d :=
        fun h => h.2.2.1 step rfl hstep
      exact iff_of_false hnone (not_or.mpr ⟨fun h => h.2 hmisses, hgains⟩)
    · have hsteps : ∀ s, (CronElement.rangeStep lo hi step).step = some s → ¬ s.IsSeven := by
        intro s hs
        cases hs
        exact hstep
      rw [misses_of_ends rfl rfl hsteps, gains_of_ends rfl rfl hsteps, and_assoc, and_assoc]
      show d ∈ stepped lo.rewritten.value hi.rewritten.value step.rewritten.value ↔
        ((d ∈ stepped (dayEnds lo.value hi.value).1 (dayEnds lo.value hi.value).2 step.value ∨
          d = 0 ∧ 7 ∈ stepped (dayEnds lo.value hi.value).1 (dayEnds lo.value hi.value).2
            step.value) ∧ _) ∨
          (d ≠ 0 ∧ lo.IsSeven ∧ 7 ≤ hi.value ∧ ¬ hi.IsSeven ∧ 0 < step.value ∧ step.value ∣ d)
      rw [rewritten_of_not_isSeven hstep]
      rcases Nat.eq_zero_or_pos step.value with hzero | hpos
      · -- neither reading of a step of 0 denotes anything
        have hempty : ∀ a b v : Nat, v ∉ stepped a b 0 := fun a b v h => absurd h.2.2.1 (by omega)
        simp only [hzero, hempty, Nat.lt_irrefl, false_and, and_false, or_false]
      · rw [range_days lo hi hpos hd, and_iff_right hpos]

/-! ## Expressions -/

theorem rewritten_days (field : CronField) {d : Nat} (hd : d < 7) :
    d ∈ field.rewritten.values ↔
      ∃ e ∈ field.elements, (d ∈ e.days ∧ ¬ e.Misses d) ∨ e.Gains d := by
  show (∃ e ∈ field.elements.map (·.rewritten), d ∈ e.values) ↔ _
  constructor
  · rintro ⟨e, he, hd'⟩
    obtain ⟨e', he', rfl⟩ := List.mem_map.mp he
    exact ⟨e', he', (element_days e' hd).mp hd'⟩
  · rintro ⟨e, he, hd'⟩
    exact ⟨e.rewritten, List.mem_map_of_mem he, (element_days e hd).mpr hd'⟩

/-- The field is right about a day: an element denotes it and does not miss it, or some element
denotes it and some element gains it, or none does either. -/
def CronField.RightAbout (field : CronField) (d : Nat) : Prop :=
  (∃ e ∈ field.elements, d ∈ e.days ∧ ¬ e.Misses d) ∨
    (d ∈ field.days ∧ ∃ e ∈ field.elements, e.Gains d) ∨
    (d ∉ field.days ∧ ∀ e ∈ field.elements, ¬ e.Gains d)

theorem rightAbout_iff (field : CronField) {d : Nat} (hd : d < 7) :
    (d ∈ field.rewritten.values ↔ d ∈ field.days) ↔ field.RightAbout d := by
  rw [rewritten_days field hd]
  unfold CronField.RightAbout
  constructor
  · intro h
    by_cases hday : d ∈ field.days
    · obtain ⟨e, he, hkept | hgains⟩ := h.mpr hday
      · exact .inl ⟨e, he, hkept⟩
      · exact .inr (.inl ⟨hday, e, he, hgains⟩)
    · exact .inr (.inr ⟨hday, fun e he hgains => hday (h.mp ⟨e, he, .inr hgains⟩)⟩)
  · rintro (⟨e, he, hkept⟩ | ⟨hday, e, he, hgains⟩ | ⟨hday, hnone⟩)
    · exact iff_of_true ⟨e, he, .inl hkept⟩ ⟨e, he, hkept.1⟩
    · exact iff_of_true ⟨e, he, .inr hgains⟩ hday
    · refine iff_of_false ?_ hday
      rintro ⟨e, he, hkept | hgains⟩
      · exact hday ⟨e, he, hkept.1⟩
      · exact hnone e he hgains

/-- A match says what the expression denotes exactly when another field excludes the date, or the
field for the day of the week is right about its day. -/
theorem cron_matches_iff (expr : CronExpression) (date : CronDate) :
    (cronMatches expr.text date = true ↔ expr.Denotes date) ↔
      (expr.CalendarMatches date → expr.dayOfWeek.RightAbout date.getDay.val) := by
  rw [cronMatches_text, CronExpression.Denotes, ← rightAbout_iff _ date.getDay.isLt]
  tauto

def starField : CronField := ⟨[.star], List.cons_ne_nil _ _⟩

def digitNumeral (u : UInt16) (h : isDigit u = true) : Numeral :=
  ⟨[u], List.cons_ne_nil _ _, List.forall_mem_singleton.mpr h⟩

/-- `* * * * 5-7`. -/
def fridayToSunday : CronExpression where
  minute := starField
  hour := starField
  dayOfMonth := starField
  month := starField
  dayOfWeek := ⟨[.range (digitNumeral 0x35 rfl) (digitNumeral 0x37 rfl)], List.cons_ne_nil _ _⟩
  before := none
  blank₁ := ⟨js " ", List.cons_ne_nil _ _, List.forall_mem_singleton.mpr rfl⟩
  blank₂ := ⟨js " ", List.cons_ne_nil _ _, List.forall_mem_singleton.mpr rfl⟩
  blank₃ := ⟨js " ", List.cons_ne_nil _ _, List.forall_mem_singleton.mpr rfl⟩
  blank₄ := ⟨js " ", List.cons_ne_nil _ _, List.forall_mem_singleton.mpr rfl⟩
  after := none

/-- From Friday to Sunday, the expression does not match on a Friday. -/
theorem friday_missed :
    fridayToSunday.text = js "* * * * 5-7" ∧
      ¬ ∀ (expr : CronExpression) (date : CronDate),
        cronMatches expr.text date = true ↔ expr.Denotes date := by
  refine ⟨by decide, fun h => ?_⟩
  have hmatch := (h fridayToSunday ⟨30, 9, 6, 2, 5⟩).mpr
    ⟨⟨⟨.star, List.mem_cons_self, trivial⟩, ⟨.star, List.mem_cons_self, trivial⟩,
        ⟨.star, List.mem_cons_self, trivial⟩, ⟨.star, List.mem_cons_self, trivial⟩⟩,
      _, List.mem_cons_self, .inl ⟨by decide, by decide, by decide, by decide⟩⟩
  exact absurd hmatch (by decide)

end Bobbit.Server.StaffTrigger
