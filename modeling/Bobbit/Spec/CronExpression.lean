import Bobbit.Server.StaffTriggerEngine

/-!
# Cron expressions and what they denote

The documented grammar: a field is a list of elements, an element is a star, a number, a range, or
a star or a range with a step. `values` are the numbers that an element denotes. In the field for
the day of the week 7 and 0 are both Sunday, also at the ends of a range: a range that runs
downwards as it is written is read with its 7 as 0, or its 0 as 7 (`dayEnds`).

## Key results

* `partMatches_text`, `fieldMatches_text` — an element and a field match their values.
* `replaceSevens_text` — the rewriting of a field is a rewriting of its numerals.
* `splitWhite_text` — an expression is split into its fields.
* `cronMatches_text` — a match of an expression, by the values of its fields.
-/

namespace Bobbit.Server.StaffTrigger

open Lib Lib.JsString

/-! ## The grammar -/

/-- A number as it is written, leading zeros included. -/
structure Numeral where
  digits : JsString
  nonempty : digits ≠ []
  decimal : ∀ u ∈ digits, isDigit u = true

def Numeral.value (n : Numeral) : Nat := digitsValue n.digits

/-- The numeral is a 7 with nothing before it. -/
def Numeral.IsSeven (n : Numeral) : Prop := n.digits = [seven]

instance decidableIsSeven (n : Numeral) : Decidable n.IsSeven :=
  inferInstanceAs (Decidable (n.digits = [seven]))

inductive CronElement
  | star
  | number (n : Numeral)
  | range (lo hi : Numeral)
  | starStep (step : Numeral)
  | rangeStep (lo hi step : Numeral)

def CronElement.text : CronElement → JsString
  | .star => js "*"
  | .number n => n.digits
  | .range lo hi => lo.digits ++ dash :: hi.digits
  | .starStep step => js "*" ++ slash :: step.digits
  | .rangeStep lo hi step => lo.digits ++ dash :: (hi.digits ++ slash :: step.digits)

structure CronField where
  elements : List CronElement
  nonempty : elements ≠ []

def CronField.text (field : CronField) : JsString :=
  [comma].intercalate (field.elements.map (·.text))

/-- White space between two fields. -/
structure Blank where
  units : JsString
  nonempty : units ≠ []
  white : ∀ u ∈ units, isTrimmed u = true

/-- Five fields with white space between them, and perhaps around them. -/
structure CronExpression where
  minute : CronField
  hour : CronField
  dayOfMonth : CronField
  month : CronField
  dayOfWeek : CronField
  before : Option Blank
  blank₁ : Blank
  blank₂ : Blank
  blank₃ : Blank
  blank₄ : Blank
  after : Option Blank

def CronExpression.text (expr : CronExpression) : JsString :=
  expr.before.elim [] (·.units) ++ (expr.minute.text ++ expr.blank₁.units ++ (expr.hour.text ++
    expr.blank₂.units ++ (expr.dayOfMonth.text ++ expr.blank₃.units ++ (expr.month.text ++
      expr.blank₄.units ++ expr.dayOfWeek.text)))) ++ expr.after.elim [] (·.units)

/-! ## What is denoted -/

/-- The values from `lo` to `hi`, `step` apart. A step of zero denotes nothing. -/
def stepped (lo hi step : Nat) : Set Nat :=
  {v | lo ≤ v ∧ v ≤ hi ∧ 0 < step ∧ step ∣ v - lo}

/-- The values of an element, for a reading of the ends of its range. -/
def CronElement.valuesBy (ends : Nat → Nat → Nat × Nat) : CronElement → Set Nat
  | .star => Set.univ
  | .number n => {n.value}
  | .range lo hi => stepped (ends lo.value hi.value).1 (ends lo.value hi.value).2 1
  | .starStep step => {v | 0 < step.value ∧ step.value ∣ v}
  | .rangeStep lo hi step =>
    stepped (ends lo.value hi.value).1 (ends lo.value hi.value).2 step.value

/-- The values of an element: its numbers are what they are. -/
def CronElement.values (e : CronElement) : Set Nat := e.valuesBy Prod.mk

def CronField.values (field : CronField) : Set Nat := {v | ∃ e ∈ field.elements, v ∈ e.values}

/-- The ends of a range of days: when it runs downwards, a 7 at its start is a 0, or a 0 at its end
is a 7. -/
def dayEnds (lo hi : Nat) : Nat × Nat :=
  if lo ≤ hi then (lo, hi)
  else if lo = 7 then (0, hi)
  else if hi = 0 then (lo, 7)
  else (lo, hi)

/-- The days of the week that an element denotes, Sunday being 0. -/
def CronElement.days (e : CronElement) : Set Nat :=
  {d | d ∈ e.valuesBy dayEnds ∨ d = 0 ∧ 7 ∈ e.valuesBy dayEnds}

def CronField.days (field : CronField) : Set Nat := {d | ∃ e ∈ field.elements, d ∈ e.days}

/-- The first four fields have the value of the date. -/
def CronExpression.CalendarMatches (expr : CronExpression) (date : CronDate) : Prop :=
  date.getMinutes.val ∈ expr.minute.values ∧ date.getHours.val ∈ expr.hour.values ∧
    date.getDate.val ∈ expr.dayOfMonth.values ∧ date.getMonth.val + 1 ∈ expr.month.values

/-- The date belongs to the values of all five fields. -/
def CronExpression.Denotes (expr : CronExpression) (date : CronDate) : Prop :=
  expr.CalendarMatches date ∧ date.getDay.val ∈ expr.dayOfWeek.days

/-! ## Units -/

theorem digit_bounds {u : UInt16} (h : isDigit u = true) : 0x30 ≤ u ∧ u ≤ 0x39 := by
  simpa [isDigit] using h

theorem ne_of_digit {u v : UInt16} (h : isDigit u = true) (hv : isDigit v = false) : u ≠ v := by
  rintro rfl
  rw [h] at hv
  cases hv

theorem digit_not_trimmed {u : UInt16} (h : isDigit u = true) : isTrimmed u = false := by
  obtain ⟨hlo, hhi⟩ := digit_bounds h
  simp only [UInt16.le_iff_toNat_le, UInt16.toNat_ofNat] at hlo hhi
  simp only [isTrimmed, Bool.or_eq_false_iff, decide_eq_false_iff_not, Bool.and_eq_false_iff,
    List.mem_cons, List.not_mem_nil, or_false, not_or, ← UInt16.toNat_inj, UInt16.le_iff_toNat_le,
    UInt16.toNat_ofNat]
  omega

/-! ## Numerals -/

theorem parseDigits_numeral (n : Numeral) {rest : JsString}
    (hrest : rest.head?.any isDigit = false) : parseDigits (n.digits ++ rest) = some n.value := by
  have htake : (n.digits ++ rest).takeWhile isDigit = n.digits := by
    rw [List.takeWhile_append_of_pos n.decimal]
    cases rest with
    | nil => simp
    | cons u rest => rw [List.takeWhile_cons, if_neg (by simpa using hrest), List.append_nil]
  rw [parseDigits, htake, if_neg n.nonempty, Numeral.value]

theorem parseInt_numeral (n : Numeral) : parseInt n.digits = some (n.value : Int) := by
  have hdigits := @parseDigits_numeral n [] rfl
  rw [List.append_nil] at hdigits
  have hhead := n.decimal
  cases hn : n.digits with
  | nil => exact absurd hn n.nonempty
  | cons u rest =>
    rw [hn] at hdigits hhead
    have hu := hhead u List.mem_cons_self
    have hminus : u ≠ 0x2D := ne_of_digit hu (by decide)
    have hplus : u ≠ 0x2B := ne_of_digit hu (by decide)
    rw [parseInt, List.dropWhile_cons, if_neg (by rw [digit_not_trimmed hu]; decide)]
    split
    · next h => exact absurd (List.cons.inj h).1 hminus
    · next h => exact absurd (List.cons.inj h).1 hplus
    · rw [hdigits]
      rfl

theorem not_mem_digits (n : Numeral) {u : UInt16} (hu : isDigit u = false) : u ∉ n.digits :=
  fun h => ne_of_digit (n.decimal u h) hu rfl

/-! ## Elements -/

theorem splitPair_append {sep : UInt16} {a b : JsString} (ha : sep ∉ a) (hb : sep ∉ b) :
    splitPair sep (a ++ sep :: b) = (a, b) := by
  have hsplit : (a ++ sep :: b).splitOn sep = [a, b] := by
    have h := List.splitOn_intercalate sep
      (show ∀ l ∈ [a, b], sep ∉ l by
        simp only [List.mem_cons, List.not_mem_nil, or_false]
        rintro l (rfl | rfl) <;> assumption)
      (List.cons_ne_nil _ _)
    simpa [List.intercalate] using h
  rw [splitPair, hsplit]
  rfl

theorem inRange_iff {lo hi v : Nat} :
    inRange (some (lo : Int)) (some (hi : Int)) (v : Int) = true ↔ lo ≤ v ∧ v ≤ hi := by
  simp only [inRange, Bool.and_eq_true, decide_eq_true_eq, Int.ofNat_le]

theorem tmod_eq_zero_iff {v step : Nat} : ((v : Int).tmod (step : Int) == 0) = true ↔ step ∣ v := by
  rw [beq_iff_eq, Int.tmod_eq_emod_of_nonneg (Int.natCast_nonneg v), ← Int.dvd_iff_emod_eq_zero,
    Int.natCast_dvd_natCast]

theorem partMatches_text (e : CronElement) (v : Nat) :
    partMatches e.text v = true ↔ v ∈ e.values := by
  have hstar : ∀ n : Numeral, n.digits ≠ js "*" := by
    intro n h
    exact not_mem_digits n (u := 0x2A) (by decide) (by rw [h]; decide)
  have hslash : ∀ n : Numeral, slash ∉ n.digits := fun n => not_mem_digits n (by decide)
  have hdash : ∀ n : Numeral, dash ∉ n.digits := fun n => not_mem_digits n (by decide)
  have hnestar : ∀ (n : Numeral) (rest : JsString), n.digits ++ rest ≠ js "*" := by
    intro n rest h
    cases hn : n.digits with
    | nil => exact n.nonempty hn
    | cons u tail =>
      rw [hn] at h
      have hu := n.decimal u (by rw [hn]; exact List.mem_cons_self)
      exact ne_of_digit hu (by decide) (List.cons.inj h).1
  cases e with
  | star => simp [CronElement.text, partMatches, CronElement.values, CronElement.valuesBy]
  | number n =>
    rw [CronElement.text, partMatches, if_neg (hstar n), if_neg (hslash n), if_neg (hdash n),
      parseInt_numeral, beq_iff_eq, Option.some.injEq]
    show ((n.value : Int) = v) ↔ v = n.value
    omega
  | range lo hi =>
    have hnoslash : slash ∉ lo.digits ++ dash :: hi.digits := by
      simp [hslash, show slash ≠ dash by decide]
    rw [CronElement.text, partMatches, if_neg (hnestar _ _), if_neg hnoslash,
      if_pos (by simp), splitPair_append (hdash lo) (hdash hi)]
    dsimp only
    rw [parseInt_numeral, parseInt_numeral, inRange_iff]
    simp [CronElement.values, CronElement.valuesBy, stepped]
  | starStep step =>
    have hpair := @splitPair_append slash (js "*") step.digits (by decide) (hslash step)
    rw [CronElement.text, partMatches, if_neg (by simp [js, utf16]), if_pos (by simp), hpair]
    dsimp only
    rw [parseInt_numeral]
    dsimp only
    show _ ↔ 0 < step.value ∧ step.value ∣ v
    split
    · next hle => exact ⟨fun h => by simp at h, fun h => by omega⟩
    · next hpos =>
      rw [if_pos rfl, tmod_eq_zero_iff]
      exact ⟨fun h => ⟨by omega, h⟩, fun h => h.2⟩
  | rangeStep lo hi step =>
    have hleft : slash ∉ lo.digits ++ dash :: hi.digits := by
      simp [hslash, show slash ≠ dash by decide]
    have hpair := splitPair_append hleft (hslash step)
    have htext : lo.digits ++ dash :: (hi.digits ++ slash :: step.digits) =
        lo.digits ++ dash :: hi.digits ++ slash :: step.digits := by simp
    rw [CronElement.text, partMatches, if_neg (hnestar _ _), htext, if_pos (by simp), hpair]
    dsimp only
    rw [parseInt_numeral]
    dsimp only
    show _ ↔ lo.value ≤ v ∧ v ≤ hi.value ∧ 0 < step.value ∧ step.value ∣ v - lo.value
    split
    · next hle => exact ⟨fun h => by simp at h, fun h => by omega⟩
    · next hpos =>
      rw [if_neg (hnestar _ _), if_pos (by simp), splitPair_append (hdash lo) (hdash hi)]
      dsimp only
      rw [parseInt_numeral, parseInt_numeral, Bool.and_eq_true, inRange_iff, Option.getD_some]
      constructor
      · rintro ⟨⟨hlo, hhi⟩, hmod⟩
        rw [← Int.ofNat_sub hlo, tmod_eq_zero_iff] at hmod
        exact ⟨hlo, hhi, by omega, hmod⟩
      · rintro ⟨hlo, hhi, -, hdvd⟩
        rw [← Int.ofNat_sub hlo, tmod_eq_zero_iff]
        exact ⟨⟨hlo, hhi⟩, hdvd⟩

/-! ## Fields -/

/-- The units of an element: no comma and no white space among them. -/
theorem element_units (e : CronElement) {u : UInt16} (hu : u ∈ e.text) :
    isDigit u = true ∨ u = 0x2A ∨ u = dash ∨ u = slash := by
  have hn : ∀ n : Numeral, u ∈ n.digits → isDigit u = true := fun n h => n.decimal u h
  have hs : js "*" = [0x2A] := rfl
  cases e <;> simp only [CronElement.text, hs, List.mem_append, List.mem_cons, List.not_mem_nil,
    or_false] at hu <;> grind

theorem comma_not_mem (e : CronElement) : comma ∉ e.text := by
  intro h
  rcases element_units e h with h | h | h | h <;> revert h <;> decide

theorem element_not_trimmed (e : CronElement) {u : UInt16} (hu : u ∈ e.text) :
    isTrimmed u = false := by
  rcases element_units e hu with h | rfl | rfl | rfl
  · exact digit_not_trimmed h
  all_goals decide

theorem element_ne_nil (e : CronElement) : e.text ≠ [] := by
  cases e with
  | number n => exact n.nonempty
  | _ => simp [CronElement.text, js, utf16]

/-- A text without white space is its own trimmed text. -/
theorem trim_of_not_trimmed {s : JsString} (h : ∀ u ∈ s, isTrimmed u = false) : trim s = s := by
  have hdrop : s.dropWhile isTrimmed = s := by
    cases s with
    | nil => rfl
    | cons u rest => rw [List.dropWhile_cons, if_neg (by rw [h u List.mem_cons_self]; decide)]
  rw [trim, hdrop, List.rdropWhile_eq_self_iff]
  intro hne hlast
  rw [h _ (List.getLast_mem hne)] at hlast
  cases hlast

theorem splitOn_text (field : CronField) :
    field.text.splitOn comma = field.elements.map (·.text) := by
  refine List.splitOn_intercalate comma (fun part hpart => ?_) ?_
  · obtain ⟨e, -, rfl⟩ := List.mem_map.mp hpart
    exact comma_not_mem e
  · rw [Ne, List.map_eq_nil_iff]
    exact field.nonempty

theorem fieldMatches_text (field : CronField) (v : Nat) :
    fieldMatches field.text v = true ↔ v ∈ field.values := by
  rw [fieldMatches, splitOn_text, List.any_map, List.any_eq_true]
  show (∃ e ∈ field.elements, partMatches (trim e.text) v = true) ↔
    ∃ e ∈ field.elements, v ∈ e.values
  refine exists_congr fun e => and_congr_right fun _ => ?_
  rw [trim_of_not_trimmed fun u hu => element_not_trimmed e hu, partMatches_text]

/-! ## The rewriting of Sundays -/

def Numeral.rewritten (n : Numeral) : Numeral :=
  if n.IsSeven then ⟨[0x30], List.cons_ne_nil _ _, List.forall_mem_singleton.mpr rfl⟩ else n

/-- Every numeral is rewritten, also a step. -/
def CronElement.rewritten : CronElement → CronElement
  | .star => .star
  | .number n => .number n.rewritten
  | .range lo hi => .range lo.rewritten hi.rewritten
  | .starStep step => .starStep step.rewritten
  | .rangeStep lo hi step => .rangeStep lo.rewritten hi.rewritten step.rewritten

def CronField.rewritten (field : CronField) : CronField where
  elements := field.elements.map (·.rewritten)
  nonempty := fun h => field.nonempty (List.map_eq_nil_iff.mp h)

/-- The text does not begin with a word unit. -/
def AtBoundary (text : JsString) : Prop := text.head?.any isWordUnit = false

/-- What stands before a text matters only when the text begins with a word unit. -/
theorem replaceSevens_before {text : JsString} (h : AtBoundary text) (before : Bool) :
    replaceSevens before text = replaceSevens false text := by
  cases text with
  | nil => rfl
  | cons u rest =>
    have hu : u ≠ seven := by
      rintro rfl
      cases h
    simp [replaceSevens, hu]

theorem replaceSevens_cons {u : UInt16} (hu : isWordUnit u = false) (before : Bool)
    (rest : JsString) : replaceSevens before (u :: rest) = u :: replaceSevens false rest := by
  have hne : u ≠ seven := by
    rintro rfl
    exact absurd hu (by decide)
  simp [replaceSevens, hne, hu]

theorem digit_wordUnit {u : UInt16} (h : isDigit u = true) : isWordUnit u = true := by
  simp [isWordUnit, h]

theorem replaceSevens_digits {digits : JsString} (hdigits : ∀ u ∈ digits, isDigit u = true)
    (rest : JsString) :
    replaceSevens true (digits ++ rest) = digits ++ replaceSevens true rest := by
  induction digits with
  | nil => rfl
  | cons u digits ih =>
    have hu := digit_wordUnit (hdigits u List.mem_cons_self)
    rw [List.cons_append, replaceSevens, hu, ih fun v hv => hdigits v (List.mem_cons_of_mem _ hv)]
    simp

theorem replaceSevens_numeral (n : Numeral) {rest : JsString} (hrest : AtBoundary rest) :
    replaceSevens false (n.digits ++ rest) = n.rewritten.digits ++ replaceSevens false rest := by
  have hdecimal := n.decimal
  unfold Numeral.rewritten
  cases hn : n.digits with
  | nil => exact absurd hn n.nonempty
  | cons u digits =>
    rw [hn] at hdecimal
    have hu := digit_wordUnit (hdecimal u List.mem_cons_self)
    have hdigits : ∀ v ∈ digits, isDigit v = true :=
      fun v hv => hdecimal v (List.mem_cons_of_mem _ hv)
    rw [List.cons_append, replaceSevens, hu, replaceSevens_digits hdigits,
      replaceSevens_before hrest true]
    cases digits with
    | nil =>
      -- a single digit: it is replaced when it is a 7
      rw [List.nil_append, hrest]
      by_cases hseven : u = seven <;> simp [Numeral.IsSeven, hn, hseven]
    | cons v digits =>
      have hv := digit_wordUnit (hdigits v List.mem_cons_self)
      simp [Numeral.IsSeven, hn, hv]

theorem replaceSevens_element (e : CronElement) {rest : JsString} (hrest : AtBoundary rest) :
    replaceSevens false (e.text ++ rest) = e.rewritten.text ++ replaceSevens false rest := by
  have hdash : ∀ tail : JsString, AtBoundary (dash :: tail) := fun _ => rfl
  have hslash : ∀ tail : JsString, AtBoundary (slash :: tail) := fun _ => rfl
  have hstar : js "*" = [0x2A] := rfl
  cases e with
  | star => exact replaceSevens_cons (by decide) _ _
  | number n => exact replaceSevens_numeral n hrest
  | range lo hi =>
    simp only [CronElement.text, CronElement.rewritten, List.append_assoc, List.cons_append]
    rw [replaceSevens_numeral lo (hdash _), replaceSevens_cons (by decide),
      replaceSevens_numeral hi hrest]
  | starStep step =>
    simp only [CronElement.text, CronElement.rewritten, hstar, List.cons_append, List.nil_append]
    rw [replaceSevens_cons (by decide), replaceSevens_cons (by decide),
      replaceSevens_numeral step hrest]
  | rangeStep lo hi step =>
    simp only [CronElement.text, CronElement.rewritten, List.append_assoc, List.cons_append]
    rw [replaceSevens_numeral lo (hdash _), replaceSevens_cons (by decide),
      replaceSevens_numeral hi (hslash _), replaceSevens_cons (by decide),
      replaceSevens_numeral step hrest]

/-- The rewriting of a field is the rewriting of its elements. -/
theorem replaceSevens_text (field : CronField) :
    replaceSevens false field.text = field.rewritten.text := by
  obtain ⟨elements, hne⟩ := field
  unfold CronField.text CronField.rewritten
  dsimp only
  induction elements with
  | nil => exact absurd rfl hne
  | cons e elements ih =>
    cases elements with
    | nil =>
      have h := @replaceSevens_element e [] rfl
      rw [List.append_nil] at h
      simpa [List.intercalate, replaceSevens] using h
    | cons e' elements =>
      have hcons : ∀ (a b : JsString) (l : List JsString),
          [comma].intercalate (a :: b :: l) = a ++ comma :: [comma].intercalate (b :: l) := by
        intro a b l
        simp [List.intercalate]
      have hrest := ih (List.cons_ne_nil _ _)
      simp only [List.map_cons] at hrest ⊢
      rw [hcons, hcons, @replaceSevens_element e (comma :: _) rfl,
        replaceSevens_cons (by decide), hrest]

/-! ## Splitting an expression -/

theorem mem_commaList {parts : List JsString} {u : UInt16} (hu : u ∈ [comma].intercalate parts) :
    u = comma ∨ ∃ part ∈ parts, u ∈ part := by
  induction parts with
  | nil => exact absurd hu List.not_mem_nil
  | cons part parts ih =>
    cases parts with
    | nil =>
      rw [List.intercalate_singleton] at hu
      exact .inr ⟨part, List.mem_cons_self, hu⟩
    | cons part' parts =>
      rw [List.intercalate_cons_cons, List.mem_append, List.mem_append, List.mem_singleton] at hu
      rcases hu with (hu | hu) | hu
      · exact .inr ⟨part, List.mem_cons_self, hu⟩
      · exact .inl hu
      · rcases ih hu with h | ⟨p, hp, hup⟩
        · exact .inl h
        · exact .inr ⟨p, List.mem_cons_of_mem _ hp, hup⟩

theorem field_not_trimmed (field : CronField) {u : UInt16} (hu : u ∈ field.text) :
    isTrimmed u = false := by
  rcases mem_commaList hu with rfl | ⟨part, hpart, hup⟩
  · decide
  · obtain ⟨e, -, rfl⟩ := List.mem_map.mp hpart
    exact element_not_trimmed e hup

theorem field_ne_nil (field : CronField) : field.text ≠ [] := by
  obtain ⟨elements, hne⟩ := field
  unfold CronField.text
  cases elements with
  | nil => exact absurd rfl hne
  | cons e elements =>
    have htext := element_ne_nil e
    cases elements with
    | nil => simpa using htext
    | cons e' elements => simp [List.intercalate_cons_cons]

theorem head_field (field : CronField) (rest : JsString) :
    (field.text ++ rest).head?.any isTrimmed = false := by
  cases h : field.text with
  | nil => exact absurd h (field_ne_nil field)
  | cons u tail => simpa using field_not_trimmed field (by rw [h]; exact List.mem_cons_self)

theorem splitWhite_last {part : JsString} (hpart : ∀ u ∈ part, isTrimmed u = false) :
    splitWhite part = [part] := by
  induction part with
  | nil => rfl
  | cons u part ih =>
    rw [splitWhite, if_neg (by rw [hpart u List.mem_cons_self]; decide),
      ih fun v hv => hpart v (List.mem_cons_of_mem _ hv)]

theorem splitWhite_blank {blank rest : JsString} (hne : blank ≠ [])
    (hwhite : ∀ u ∈ blank, isTrimmed u = true) (hrest : rest.head?.any isTrimmed = false) :
    splitWhite (blank ++ rest) = [] :: splitWhite rest := by
  induction blank with
  | nil => exact absurd rfl hne
  | cons u blank ih =>
    have hu := hwhite u List.mem_cons_self
    rw [List.cons_append, splitWhite, if_pos hu]
    cases blank with
    | nil => rw [List.nil_append, if_neg (by rw [hrest]; decide)]
    | cons v blank =>
      have hv := hwhite v (List.mem_cons_of_mem _ List.mem_cons_self)
      rw [if_pos (by simpa using hv),
        ih (List.cons_ne_nil _ _) fun w hw => hwhite w (List.mem_cons_of_mem _ hw)]

theorem splitWhite_part {part blank rest : JsString} (hpart : ∀ u ∈ part, isTrimmed u = false)
    (hne : blank ≠ []) (hwhite : ∀ u ∈ blank, isTrimmed u = true)
    (hrest : rest.head?.any isTrimmed = false) :
    splitWhite (part ++ blank ++ rest) = part :: splitWhite rest := by
  induction part with
  | nil => rw [List.nil_append, splitWhite_blank hne hwhite hrest]
  | cons u part ih =>
    rw [List.cons_append, List.cons_append, splitWhite,
      if_neg (by rw [hpart u List.mem_cons_self]; decide),
      ih fun v hv => hpart v (List.mem_cons_of_mem _ hv)]

/-- White space around a text that begins and ends with other units. -/
theorem trim_around {before after core : JsString} (hbefore : ∀ u ∈ before, isTrimmed u = true)
    (hafter : ∀ u ∈ after, isTrimmed u = true) (hhead : core.head?.any isTrimmed = false)
    (hlast : core.getLast?.any isTrimmed = false) : trim (before ++ core ++ after) = core := by
  cases core with
  | nil =>
    have hall : ∀ u ∈ before ++ after, isTrimmed u = true := by
      intro u hu
      rcases List.mem_append.mp hu with hu | hu
      · exact hbefore u hu
      · exact hafter u hu
    rw [List.append_nil, trim, List.dropWhile_eq_nil_iff.mpr hall]
    rfl
  | cons u rest =>
    have hu : isTrimmed u = false := by simpa using hhead
    have hdrop : (before ++ (u :: rest) ++ after).dropWhile isTrimmed = u :: rest ++ after := by
      rw [List.append_assoc, List.dropWhile_append_of_pos hbefore, List.cons_append,
        List.dropWhile_cons, if_neg (by rw [hu]; decide)]
    have hself : (u :: rest).rdropWhile isTrimmed = u :: rest := by
      rw [List.rdropWhile_eq_self_iff]
      intro hne h
      rw [List.getLast?_eq_some_getLast hne] at hlast
      exact absurd h (by simpa using hlast)
    rw [trim, hdrop, List.rdropWhile, List.reverse_append, List.dropWhile_append_of_pos fun v hv =>
      hafter v (List.mem_reverse.mp hv)]
    exact hself

theorem last_field (field : CronField) (front : JsString) :
    (front ++ field.text).getLast?.any isTrimmed = false := by
  have hne := field_ne_nil field
  rw [List.getLast?_append, List.getLast?_eq_some_getLast hne]
  simpa using field_not_trimmed field (List.getLast_mem hne)

theorem outer_white (blank : Option Blank) : ∀ u ∈ blank.elim [] (·.units), isTrimmed u = true := by
  cases blank with
  | none => exact fun u hu => absurd hu List.not_mem_nil
  | some blank => exact blank.white

theorem splitWhite_field (field : CronField) (blank : Blank) {rest : JsString}
    (hrest : rest.head?.any isTrimmed = false) :
    splitWhite (field.text ++ blank.units ++ rest) = field.text :: splitWhite rest :=
  splitWhite_part (fun _ hu => field_not_trimmed field hu) blank.nonempty blank.white hrest

theorem splitWhite_text (expr : CronExpression) :
    splitWhite (trim expr.text) = [expr.minute.text, expr.hour.text, expr.dayOfMonth.text,
      expr.month.text, expr.dayOfWeek.text] := by
  have hfront : ∀ (field : CronField) (blank : Blank) (rest : JsString),
      (field.text ++ blank.units ++ rest).head?.any isTrimmed = false := by
    intro field blank rest
    rw [List.append_assoc]
    exact head_field field _
  have hlast : (expr.dayOfWeek.text).head?.any isTrimmed = false := by
    simpa using head_field expr.dayOfWeek []
  unfold CronExpression.text
  rw [trim_around (outer_white _) (outer_white _) (hfront _ _ _)
      (by simp only [← List.append_assoc]; exact last_field _ _),
    splitWhite_field _ _ (hfront _ _ _), splitWhite_field _ _ (hfront _ _ _),
    splitWhite_field _ _ (hfront _ _ _), splitWhite_field _ _ hlast,
    splitWhite_last fun u hu => field_not_trimmed expr.dayOfWeek hu]

/-- A match of an expression, by the values of its fields. -/
theorem cronMatches_text (expr : CronExpression) (date : CronDate) :
    cronMatches expr.text date = true ↔
      expr.CalendarMatches date ∧ date.getDay.val ∈ expr.dayOfWeek.rewritten.values := by
  -- a lone star is not rewritten, and matches every day
  have hday : (expr.dayOfWeek.text ≠ js "*" && ! fieldMatches
      (replaceSevens false expr.dayOfWeek.text) date.getDay.val) = true ↔
      date.getDay.val ∉ expr.dayOfWeek.rewritten.values := by
    rw [replaceSevens_text, ← fieldMatches_text]
    by_cases hstar : expr.dayOfWeek.text = js "*"
    · have hrewritten : expr.dayOfWeek.rewritten.text = js "*" := by
        rw [← replaceSevens_text, hstar]
        rfl
      have hmatch : fieldMatches (js "*") (date.getDay.val : Int) = true := rfl
      simp [hstar, hrewritten, hmatch]
    · simp [hstar]
  have hmonth : ((date.getMonth.val : Int) + 1) = ((date.getMonth.val + 1 : Nat) : Int) := rfl
  have hnot : ∀ (field : CronField) (v : Nat),
      (! fieldMatches field.text v) = true ↔ v ∉ field.values := by
    intro field v
    rw [Bool.not_eq_true', Bool.eq_false_iff, Ne, fieldMatches_text]
  unfold CronExpression.CalendarMatches
  have hfalse : ∀ {p : Prop}, ¬ p → (false = true ↔ p) :=
    fun hp => ⟨fun h => absurd h Bool.false_ne_true, fun h => absurd h hp⟩
  rw [cronMatches, splitWhite_text]
  dsimp only
  rw [hmonth]
  split
  · next h => exact hfalse fun hall => (hnot _ _).mp h hall.1.1
  next hminute =>
  split
  · next h => exact hfalse fun hall => (hnot _ _).mp h hall.1.2.1
  next hhour =>
  split
  · next h => exact hfalse fun hall => (hnot _ _).mp h hall.1.2.2.1
  next hdate =>
  split
  · next h => exact hfalse fun hall => (hnot _ _).mp h hall.1.2.2.2
  next hmonthOk =>
  split
  · next h => exact hfalse fun hall => hday.mp h hall.2
  next hdayOk =>
  rw [hnot, not_not] at hminute hhour hdate hmonthOk
  rw [hday, not_not] at hdayOk
  exact ⟨fun _ => ⟨⟨hminute, hhour, hdate, hmonthOk⟩, hdayOk⟩, fun _ => rfl⟩

end Bobbit.Server.StaffTrigger
