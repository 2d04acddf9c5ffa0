import Bobbit.Lib.JsonRoundTrip
import Bobbit.Server.GateSnapshot
import Bobbit.Spec.TextSelectionCorrect

/-!
# What the budgets leave of an output

A text is cut behind its last line that fits, or inside the one after it, so that what is left
begins the text. The steps of a gate are cut one after the other, each to what the ones before it
have left of the budget.

## Key results
- `keepFrom_spec`: where one text is cut.
- `outputs_within_budget`: the outputs of all steps fit together, and nothing is cut that fits.
-/

namespace Bobbit.Server.TextSelection

open Lib Lib.JsString

/-! ## One text -/

theorem unlines_concat (kept : List JsString) (line : JsString) :
    unlines (kept ++ [line]) =
      unlines kept ++ ((if kept.isEmpty then [] else [lineFeed]) ++ line) := by
  induction kept with
  | nil => simp [unlines]
  | cons first rest ih =>
    cases rest with
    | nil => simp [unlines]
    | cons next rest =>
      simp only [unlines, List.cons_append, List.intercalate_cons_cons] at ih ⊢
      simp [ih]

theorem unlines_prefix (kept rest : List JsString) : unlines kept <+: unlines (kept ++ rest) := by
  induction rest generalizing kept with
  | nil => simp
  | cons line rest ih =>
    have hmore := ih (kept ++ [line])
    rw [List.append_assoc, List.singleton_append] at hmore
    exact (unlines_concat kept line ▸ List.prefix_append _ _).trans hmore

theorem byteLength_unlines_concat (kept : List JsString) (line : JsString) :
    byteLength (unlines (kept ++ [line])) =
      byteLength (unlines kept) + (if kept.isEmpty then 0 else 1) + byteLength line := by
  simpa [joinSelectedLines, rendered, Function.comp_def] using
    byteLength_join_concat false (kept.map (⟨0, ·⟩)) ⟨0, line⟩

theorem byteLength_unlines_mono (kept rest : List JsString) :
    byteLength (unlines kept) ≤ byteLength (unlines (kept ++ rest)) := by
  induction rest generalizing kept with
  | nil => simp
  | cons line rest ih =>
    have hmore := ih (kept ++ [line])
    rw [byteLength_unlines_concat, List.append_assoc, List.singleton_append] at hmore
    omega

structure Keeps (maxLines maxBytes : Nat) (all kept : List JsString) : Prop where
  lines_le : kept.length ≤ maxLines
  bytes_le : byteLength (unlines kept) ≤ maxBytes
  begins : unlines kept <+: unlines all
  units : ∀ line ∈ kept, ∃ whole ∈ all, line <+: whole

theorem keeps_front {maxLines maxBytes : Nat} {kept : List JsString} (rest : List JsString)
    (hlines : kept.length ≤ maxLines) (hbytes : byteLength (unlines kept) ≤ maxBytes) :
    Keeps maxLines maxBytes (kept ++ rest) kept :=
  ⟨hlines, hbytes, unlines_prefix _ _,
    fun line h => ⟨line, List.mem_append_left _ h, List.prefix_refl _⟩⟩

theorem keeps_cut {maxLines maxBytes remaining : Nat} {kept : List JsString} {line : JsString}
    (rest : List JsString) (hlines : kept.length < maxLines)
    (hbytes : byteLength (unlines kept) + (if kept.isEmpty then 0 else 1) + remaining ≤ maxBytes) :
    Keeps maxLines maxBytes (kept ++ line :: rest)
      (kept ++ [truncateStringToBytes line remaining]) := by
  obtain ⟨hcut, hcutBytes⟩ := truncateStringToBytes_spec line remaining
  constructor
  · simpa using hlines
  · rw [byteLength_unlines_concat]
    omega
  · have hall := unlines_prefix (kept ++ [line]) rest
    rw [List.append_assoc, List.singleton_append, unlines_concat] at hall
    rw [unlines_concat]
    exact ((List.prefix_append_right_inj _).mpr
      ((List.prefix_append_right_inj _).mpr hcut)).trans hall
  · intro other hother
    rcases List.mem_append.mp hother with hother | hother
    · exact ⟨other, List.mem_append_left _ hother, List.prefix_refl _⟩
    · cases List.mem_singleton.mp hother
      exact ⟨line, by simp, hcut⟩

theorem keepFrom_spec {maxLines maxBytes : Nat} (kept rest : List JsString)
    (hlines : kept.length ≤ maxLines) (hbytes : byteLength (unlines kept) ≤ maxBytes) :
    ∃ out reason, keepFrom maxLines maxBytes kept (byteLength (unlines kept)) rest = (out, reason) ∧
      Keeps maxLines maxBytes (kept ++ rest) out ∧ (reason = none → out = kept ++ rest) ∧
      (reason = none ↔
        (kept ++ rest).length ≤ maxLines ∧ byteLength (unlines (kept ++ rest)) ≤ maxBytes) := by
  induction rest generalizing kept with
  | nil => exact ⟨kept, none, rfl, keeps_front [] hlines hbytes, by simp, by simp [hlines, hbytes]⟩
  | cons line rest ih =>
    rw [keepFrom]
    split
    · rename_i hfull
      refine ⟨_, _, rfl, keeps_front _ hlines hbytes, nofun, ?_⟩
      simp only [reduceCtorEq, List.length_append, List.length_cons, false_iff]
      omega
    · rename_i hfull
      dsimp only
      rw [← byteLength_unlines_concat]
      have hsnoc : kept ++ line :: rest = (kept ++ [line]) ++ rest := by simp
      split
      · rename_i hover
        refine ⟨_, _, rfl, ?_, nofun, ?_⟩
        · by_cases hleft : maxBytes - byteLength (unlines kept) -
            (if kept.isEmpty then 0 else 1) = 0
          · rw [if_pos hleft]
            exact keeps_front _ hlines hbytes
          · rw [if_neg hleft]
            exact keeps_cut rest (by omega) (by omega)
        · have hmore := byteLength_unlines_mono (kept ++ [line]) rest
          rw [hsnoc]
          simp only [reduceCtorEq, false_iff]
          omega
      · rename_i hfits
        rw [hsnoc]
        exact ih (kept ++ [line]) (by simp; omega) (by omega)

theorem lineFeed_not_mem_splitLines {text line : JsString} (h : line ∈ splitLines text) :
    lineFeed ∉ line := by
  have hpieces : ∀ piece ∈ text.splitOn lineFeed, lineFeed ∉ piece := lineFeed_not_mem_lines text
  rw [splitLines] at h
  split at h
  · cases h
  · rcases List.mem_append.mp h with h | h
    · obtain ⟨piece, hpiece, rfl⟩ := List.mem_map.mp h
      have hplain := hpieces piece (List.mem_of_mem_dropLast hpiece)
      rw [stripReturn]
      split
      · exact fun hmem => hplain (List.mem_of_mem_dropLast hmem)
      · exact hplain
    · exact hpieces line (List.mem_of_getLast? (Option.mem_toList.mp h))

theorem length_splitLines {text : JsString} (h : text ≠ []) :
    (splitLines text).length = (text.splitOn lineFeed).length := by
  have hne : text.splitOn lineFeed ≠ [] := List.splitOn_ne_nil _ _
  have hpos := List.length_pos_iff.mpr hne
  rw [splitLines, if_neg h]
  simp only [List.length_append, List.length_map, List.length_dropLast,
    List.getLast?_eq_some_getLast hne, Option.toList_some, List.length_singleton]
  omega

theorem length_splitLines_unlines {kept : List JsString} (h : ∀ line ∈ kept, lineFeed ∉ line) :
    (splitLines (unlines kept)).length ≤ kept.length := by
  by_cases hne : unlines kept = []
  · simp [hne, splitLines]
  · have hkept : kept ≠ [] := by
      rintro rfl
      exact hne rfl
    rw [length_splitLines hne, unlines, List.splitOn_intercalate _ h hkept]

def shown (text : JsString) : JsString := unlines (splitLines text)

theorem byteLength_pos {s : JsString} (h : s ≠ []) : 0 < byteLength s := by
  have hchars : chars s ≠ [] := by
    unfold chars
    split
    · exact absurd rfl h
    · exact List.cons_ne_nil _ _
    · split <;> exact List.cons_ne_nil _ _
  obtain ⟨c, rest, hcons⟩ := List.exists_cons_of_ne_nil hchars
  rw [byteLength, utf8, hcons, List.flatMap_cons, List.length_append,
    String.length_utf8EncodeChar]
  exact Nat.add_pos_left c.utf8Size_pos _

theorem shown_ne_nil {text : JsString} (h : text ≠ []) : shown text ≠ [] := by
  intro hnil
  have hlength := length_splitLines h
  have hjoin : [lineFeed].intercalate (text.splitOn lineFeed) = text := List.intercalate_splitOn _
  cases hpieces : text.splitOn lineFeed with
  | nil => exact List.splitOn_ne_nil _ _ hpieces
  | cons piece rest =>
    cases rest with
    | nil =>
      -- a text of one line is shown as it is
      rw [hpieces, List.intercalate_singleton] at hjoin
      rw [shown, splitLines, if_neg h, hpieces] at hnil
      simp only [unlines, List.dropLast_singleton, List.map_nil, List.getLast?_singleton,
        Option.toList_some, List.nil_append, List.intercalate_singleton] at hnil
      exact h (hjoin ▸ hnil)
    | cons next rest =>
      rw [hpieces] at hlength
      cases hlines : splitLines text with
      | nil => simp [hlines] at hlength
      | cons line more =>
        cases more with
        | nil => simp [hlines] at hlength
        | cons other more => simp [shown, unlines, hlines, List.intercalate_cons_cons] at hnil

theorem truncateTextToBudget_spec (text : JsString) (maxLines maxBytes : Nat) :
    ∃ out reason, truncateTextToBudget text maxLines maxBytes =
        ⟨unlines out, Option.isSome reason, reason, out.length, byteLength (unlines out)⟩ ∧
      (out.length ≤ maxLines ∧ byteLength (unlines out) ≤ maxBytes) ∧
      (splitLines (unlines out)).length ≤ out.length ∧ unlines out <+: shown text ∧
      (reason = none → out = splitLines text) ∧
      (reason = none ↔
        (splitLines text).length ≤ maxLines ∧ byteLength (shown text) ≤ maxBytes) := by
  obtain ⟨out, reason, hkept, hkeeps, hall, hfits⟩ :=
    keepFrom_spec [] (splitLines text) (Nat.zero_le maxLines) (Nat.zero_le maxBytes)
  refine ⟨out, reason, ?_, ⟨hkeeps.lines_le, hkeeps.bytes_le⟩, ?_, hkeeps.begins, hall, hfits⟩
  · have hstart : byteLength (unlines []) = 0 := rfl
    rw [hstart] at hkept
    simp only [truncateTextToBudget, hkept]
  · refine length_splitLines_unlines fun line hline hfeed => ?_
    obtain ⟨whole, hwhole, hpre⟩ := hkeeps.units line hline
    exact lineFeed_not_mem_splitLines hwhole (hpre.subset hfeed)

end Bobbit.Server.TextSelection

namespace Bobbit.Server.GateSnapshot

open Lib Lib.JsString TextSelection

/-! ## All steps -/

variable {b : OutputBudget} {step : GateInspectOutputStep}

def linesOf (step : GateInspectOutputStep) : Nat := (splitLines (step.output.getD [])).length

def bytesOf (step : GateInspectOutputStep) : Nat := byteLength (step.output.getD [])

/-- The bytes that a step's output has as it is shown. -/
def shownBytes (step : GateInspectOutputStep) : Nat := byteLength (shown (step.output.getD []))

/-- What may become of a step: its output is whole, or cut somewhere, and its metadata say so. -/
structure Limited (step limited : GateInspectOutputStep) : Prop where
  output : limited.output.isSome = step.output.isSome
  begins : limited.output.getD [] <+: shown (step.output.getD [])
  marked : limited.output.getD [] = shown (step.output.getD []) ∨
    ∀ selection ∈ limited.selection, selection.truncated = true

/-- What a step takes from the budget, and when it is cut. -/
structure Takes (b b' : OutputBudget) (step limited : GateInspectOutputStep) : Prop where
  lines_le : linesOf limited + b'.remainingLines ≤ b.remainingLines
  bytes_le : bytesOf limited + b'.remainingBytes ≤ b.remainingBytes
  truncated : b'.truncated = false ↔
    b.truncated = false ∧ linesOf step ≤ b.remainingLines ∧ shownBytes step ≤ b.remainingBytes
  left : b'.truncated = false → b'.remainingLines = b.remainingLines - linesOf step ∧
    b'.remainingBytes = b.remainingBytes - shownBytes step

theorem marked_markTruncated (output reason : JsString) :
    ∀ selection ∈ (markTruncated step output reason).selection, selection.truncated = true := by
  intro selection hselection
  obtain ⟨_, -, rfl⟩ := Option.map_eq_some_iff.mp hselection
  rfl

theorem limitStep_empty (hout : step.output.getD [] = []) :
    Limited step step ∧ Takes b b step step := by
  have hshown : shown [] = [] := rfl
  have hlines : splitLines [] = [] := rfl
  have hbytes : byteLength [] = 0 := rfl
  exact ⟨⟨rfl, by rw [hout, hshown], .inl (by rw [hout, hshown])⟩,
    by simp [linesOf, hout, hlines], by simp [bytesOf, hout, hbytes],
    by simp [linesOf, shownBytes, hout, hlines, hshown, hbytes],
    by simp [linesOf, shownBytes, hout, hlines, hshown, hbytes]⟩

theorem limitStep_full {output : JsString} (houtput : step.output = some output)
    (hnil : output ≠ []) (hfull : b.remainingLines = 0 ∨ b.remainingBytes = 0) :
    Limited step (limitStep b step).1 ∧ Takes b (limitStep b step).2 step (limitStep b step).1 := by
  have hlines : 0 < linesOf step := by
    rw [linesOf, houtput, Option.getD_some, length_splitLines hnil]
    exact List.length_pos_iff.mpr (List.splitOn_ne_nil _ _)
  have hbytes : 0 < shownBytes step := by
    simpa [shownBytes, houtput] using byteLength_pos (shown_ne_nil hnil)
  have hzero : byteLength [] = 0 := rfl
  simp only [limitStep, houtput, if_neg hnil, if_pos hfull]
  refine ⟨⟨by simp [markTruncated, houtput], by simp [markTruncated],
      .inr (marked_markTruncated _ _)⟩,
    by simp [markTruncated, linesOf, splitLines], by simp [markTruncated, bytesOf, hzero], ?_, nofun⟩
  simp only [Bool.true_eq_false, false_iff]
  omega

theorem limitStep_room {output : JsString} (houtput : step.output = some output)
    (hnil : output ≠ []) (hroom : ¬(b.remainingLines = 0 ∨ b.remainingBytes = 0)) :
    Limited step (limitStep b step).1 ∧ Takes b (limitStep b step).2 step (limitStep b step).1 := by
  have hlines : linesOf step = (splitLines output).length := by simp [linesOf, houtput]
  have hbytes : shownBytes step = byteLength (shown output) := by simp [shownBytes, houtput]
  obtain ⟨out, reason, hcapped, hfit, hkept, hbegins, hall, hreason⟩ :=
    truncateTextToBudget_spec output b.remainingLines b.remainingBytes
  simp only [limitStep, houtput, if_neg hnil, if_neg hroom, hcapped]
  cases reason with
  | none =>
    have hout := hall rfl
    have hwhole := hreason.mp rfl
    simp only [Option.isSome_none, Bool.false_eq_true, if_false]
    refine ⟨⟨by simp [houtput], by simpa [houtput] using hbegins,
      .inl (by simp [houtput, hout, shown])⟩, ?_, ?_, ?_, fun _ => ?_⟩
    · simp only [linesOf, Option.getD_some]
      omega
    · simp only [bytesOf, Option.getD_some]
      omega
    · rw [hlines, hbytes]
      exact ⟨fun h => ⟨h, hwhole⟩, fun h => h.1⟩
    · rw [hlines, hbytes, hout]
      exact ⟨rfl, rfl⟩
  | some reason =>
    simp only [Option.isSome_some, if_true]
    refine ⟨⟨by simp [markTruncated, houtput], by simpa [markTruncated, houtput] using hbegins,
      .inr (marked_markTruncated _ _)⟩, ?_, ?_, ?_, nofun⟩
    · simp only [markTruncated, linesOf, Option.getD_some]
      omega
    · simp only [markTruncated, bytesOf, Option.getD_some]
      omega
    · rw [hlines, hbytes]
      simp only [reduceCtorEq, Bool.true_eq_false, false_iff] at hreason ⊢
      exact fun h => hreason h.2

theorem limitStep_spec (b : OutputBudget) (step : GateInspectOutputStep) :
    Limited step (limitStep b step).1 ∧ Takes b (limitStep b step).2 step (limitStep b step).1 := by
  cases houtput : step.output with
  | none =>
    rw [limitStep, houtput]
    exact limitStep_empty (by rw [houtput]; rfl)
  | some output =>
    by_cases hnil : output = []
    · rw [limitStep, houtput, hnil]
      exact limitStep_empty (by rw [houtput, hnil]; rfl)
    · by_cases hfull : b.remainingLines = 0 ∨ b.remainingBytes = 0
      · exact limitStep_full houtput hnil hfull
      · exact limitStep_room houtput hnil hfull

theorem limitSteps_spec (b : OutputBudget) (steps : List GateInspectOutputStep) :
    List.Forall₂ Limited steps (limitSteps b steps).1 ∧
      ((limitSteps b steps).1.map linesOf).sum ≤ b.remainingLines ∧
      ((limitSteps b steps).1.map bytesOf).sum ≤ b.remainingBytes ∧
      ((limitSteps b steps).2.truncated = false ↔ b.truncated = false ∧
        (steps.map linesOf).sum ≤ b.remainingLines ∧
        (steps.map shownBytes).sum ≤ b.remainingBytes) := by
  induction steps generalizing b with
  | nil => exact ⟨.nil, by simp [limitSteps], by simp [limitSteps], by simp [limitSteps]⟩
  | cons step rest ih =>
    obtain ⟨hlimited, htakes⟩ := limitStep_spec b step
    obtain ⟨hrest, hlines, hbytes, htruncated⟩ := ih (limitStep b step).2
    have htaken := htakes.lines_le
    have htakenBytes := htakes.bytes_le
    refine ⟨.cons hlimited hrest, ?_, ?_, ?_⟩
    · simp only [limitSteps, List.map_cons, List.sum_cons]
      omega
    · simp only [limitSteps, List.map_cons, List.sum_cons]
      omega
    · simp only [limitSteps, List.map_cons, List.sum_cons]
      rw [htruncated]
      constructor
      · rintro ⟨hfalse, hfitLines, hfitBytes⟩
        obtain ⟨hleft, hleftBytes⟩ := htakes.left hfalse
        obtain ⟨hb, hstep⟩ := htakes.truncated.mp hfalse
        exact ⟨hb, by omega, by omega⟩
      · rintro ⟨hb, hfitLines, hfitBytes⟩
        have hfalse := htakes.truncated.mpr ⟨hb, by omega, by omega⟩
        obtain ⟨hleft, hleftBytes⟩ := htakes.left hfalse
        exact ⟨hfalse, by omega, by omega⟩

end Bobbit.Server.GateSnapshot
