import Bobbit.Server.TemplateVars

/-!
# Skipped verification commands

The replacer sees inherited properties as values, and the skip is decided on the text after
substitution, where the values meet the pattern a second time.

## Key results
- `firstMatch_isSome_iff`: when a text holds a match.
- `faithful_iff`: when the values are put in as they are and a step is skipped for what its own
  template leaves open.
-/

namespace Bobbit.Server.TemplateVars

open Lib Lib.JsString

/-! ## The pattern -/

/-- A group: not empty, without a closing brace. -/
def IsKey (key : JsString) : Prop := key ≠ [] ∧ closeBrace ∉ key

/-- Somewhere in the text stands a placeholder. -/
def Spells (text : JsString) : Prop :=
  ∃ before key after, text = before ++ (placeholderText key ++ after) ∧ IsKey key

theorem matchAt_sound {text key after : JsString} (h : matchAt text = some (key, after)) :
    text = placeholderText key ++ after ∧ IsKey key := by
  unfold matchAt at h
  split at h
  · rename_i a b rest
    split at h
    · rename_i hopen
      dsimp only at h
      split at h
      · rename_i c d rest' hrest
        split at h
        · rename_i hkey
          obtain ⟨rfl, rfl⟩ := Prod.mk.inj (Option.some.inj h)
          have hc : c = closeBrace := by
            have hfirst := List.head?_dropWhile_not (fun u => decide (u ≠ closeBrace)) rest
            rw [hrest] at hfirst
            simpa using hfirst
          refine ⟨?_, hkey.1, fun hmem => ?_⟩
          · have hsplit := List.takeWhile_append_dropWhile (p := fun u => decide (u ≠ closeBrace)) (l := rest)
            rw [hrest, hc, hkey.2] at hsplit
            rw [hopen.1, hopen.2]
            conv_lhs => rw [← hsplit]
            simp [placeholderText]
          · have := List.mem_takeWhile_imp hmem
            simp at this
        · cases h
      · cases h
    · cases h
  · cases h

theorem matchAt_placeholder {key : JsString} (h : IsKey key) (after : JsString) :
    matchAt (placeholderText key ++ after) = some (key, after) := by
  have hall : ∀ u ∈ key, decide (u ≠ closeBrace) = true := by
    intro u hu
    simpa using fun heq : u = closeBrace => h.2 (heq ▸ hu)
  have htext : placeholderText key ++ after =
      openBrace :: openBrace :: (key ++ closeBrace :: closeBrace :: after) := by
    simp [placeholderText]
  have htake : (key ++ closeBrace :: closeBrace :: after).takeWhile (· ≠ closeBrace) = key := by
    rw [List.takeWhile_append_of_pos hall]
    simp
  have hdrop : (key ++ closeBrace :: closeBrace :: after).dropWhile (· ≠ closeBrace) =
      closeBrace :: closeBrace :: after := by
    rw [List.dropWhile_append_of_pos hall]
    simp
  rw [htext, matchAt, if_pos ⟨rfl, rfl⟩]
  dsimp only
  rw [hdrop, htake]
  simp [h.1]

/-- There is a match iff a placeholder stands somewhere in the text. -/
theorem firstMatch_isSome_iff (text : JsString) : (firstMatch text).isSome ↔ Spells text := by
  induction text with
  | nil => simp [firstMatch, Spells, placeholderText]
  | cons c rest ih =>
    rw [firstMatch]
    cases hmatch : matchAt (c :: rest) with
    | some p =>
      obtain ⟨heq, hkey⟩ := matchAt_sound hmatch
      exact iff_of_true rfl ⟨[], p.1, p.2, heq, hkey⟩
    | none =>
      dsimp only
      rw [ih]
      constructor
      · rintro ⟨before, key, after, rfl, hkey⟩
        exact ⟨c :: before, key, after, rfl, hkey⟩
      · rintro ⟨before, key, after, heq, hkey⟩
        cases before with
        | nil =>
          rw [List.nil_append] at heq
          rw [heq, matchAt_placeholder hkey] at hmatch
          cases hmatch
        | cons d before =>
          obtain ⟨-, rfl⟩ := List.cons.inj heq
          exact ⟨before, key, after, rfl, hkey⟩

/-! ## Trimming -/

theorem dropWhile_append_cons {α : Type} {p : α → Bool} {c : α} (hc : p c = false)
    (before rest : List α) :
    (before ++ c :: rest).dropWhile p = before.dropWhile p ++ c :: rest := by
  induction before with
  | nil => simp [hc]
  | cons b before ih =>
    rw [List.cons_append, List.dropWhile_cons, List.dropWhile_cons]
    split
    · exact ih
    · rfl

theorem rdropWhile_append_cons {α : Type} {p : α → Bool} {c : α} (hc : p c = false)
    (front after : List α) :
    (front ++ c :: after).rdropWhile p = front ++ c :: after.rdropWhile p := by
  rw [List.rdropWhile, List.reverse_append, List.reverse_cons, List.append_assoc, List.singleton_append,
    dropWhile_append_cons hc]
  simp [List.rdropWhile]

theorem spells_trim_iff (text : JsString) : Spells (trim text) ↔ Spells text := by
  constructor
  · rintro ⟨before, key, after, heq, hkey⟩
    refine ⟨text.takeWhile isTrimmed ++ before, key,
      after ++ (text.dropWhile isTrimmed).rtakeWhile isTrimmed, ?_, hkey⟩
    have hback := List.rdropWhile_append_rtakeWhile (p := isTrimmed) (l := text.dropWhile isTrimmed)
    have hfront := List.takeWhile_append_dropWhile (p := isTrimmed) (l := text)
    rw [← hback, show (text.dropWhile isTrimmed).rdropWhile isTrimmed = trim text from rfl,
      heq] at hfront
    exact hfront.symm.trans (by simp)
  · rintro ⟨before, key, after, rfl, hkey⟩
    refine ⟨before.dropWhile isTrimmed, key, after.rdropWhile isTrimmed, ?_, hkey⟩
    have hfront : before ++ (placeholderText key ++ after) =
        before ++ openBrace :: (openBrace :: (key ++ [closeBrace, closeBrace]) ++ after) := by
      simp [placeholderText]
    have hback : before.dropWhile isTrimmed ++
          openBrace :: (openBrace :: (key ++ [closeBrace, closeBrace]) ++ after) =
        (before.dropWhile isTrimmed ++ (openBrace :: openBrace :: (key ++ [closeBrace]))) ++
          closeBrace :: after := by
      simp
    rw [trim, hfront, dropWhile_append_cons (by decide), hback, rdropWhile_append_cons (by decide)]
    simp [placeholderText]

/-! ## The pieces of a template -/

theorem isKey_of_mem_piecesWithin {fuel : Nat} {template key : JsString}
    (h : .placeholder key ∈ piecesWithin fuel template) : IsKey key := by
  induction fuel generalizing template with
  | zero => cases h
  | succ fuel ih =>
    cases template with
    | nil => cases h
    | cons c rest =>
      rw [piecesWithin] at h
      cases hmatch : matchAt (c :: rest) with
      | some p =>
        obtain ⟨first, after⟩ := p
        rw [hmatch] at h
        rcases List.mem_cons.mp h with heq | h
        · rw [Piece.placeholder.injEq] at heq
          exact heq ▸ (matchAt_sound hmatch).2
        · exact ih h
      | none =>
        rw [hmatch] at h
        rcases List.mem_cons.mp h with heq | h
        · cases heq
        · exact ih h

/-! ## Values -/

/-- The value of a placeholder: an own entry of the map its namespace selects. -/
def valueOf (vars : Vars) (key : JsString) : Option JsString :=
  (select vars (trim key)).bind fun p => p.1.get? p.2

/-- The template with the values in the places of their placeholders. -/
def filled (template : JsString) (vars : Vars) : JsString :=
  (pieces template).flatMap (Piece.render (valueOf vars))

/-- Some placeholder of the template has no value. -/
def LeavesOpen (template : JsString) (vars : Vars) : Prop :=
  ∃ key, .placeholder key ∈ pieces template ∧ valueOf vars key = none

/-- What substitution and skipping are to do. -/
structure Faithful (template : JsString) (vars : Vars) : Prop where
  substitutes : substituteVars template vars = filled template vars
  skips : (isCommandStepSkippable (substituteVars template vars)).isSome ↔
    trim (substituteVars template vars) = [] ∨ LeavesOpen template vars

/-- A placeholder without a value names a property that objects inherit. -/
def NamesInherited (template : JsString) (vars : Vars) : Prop :=
  ∃ key, .placeholder key ∈ pieces template ∧ valueOf vars key = none ∧
    ∃ p ∈ select vars (trim key), p.2 ∈ inheritedProperties.map Prod.fst

theorem lookup_isSome_iff {β : Type} (l : List (JsString × β)) (name : JsString) :
    (l.lookup name).isSome ↔ name ∈ l.map Prod.fst := by
  rw [List.lookup_isSome_iff, List.mem_map]
  refine exists_congr fun p => and_congr_right fun _ => ?_
  rw [beq_iff_eq, eq_comm]

/-- An answer that is no value comes from an inherited property. -/
theorem resolve_cases (vars : Vars) (key : JsString) :
    resolve vars key = valueOf vars key ∨
      valueOf vars key = none ∧ (∃ p ∈ select vars (trim key), p.2 ∈ inheritedProperties.map Prod.fst) ∧
        ∃ text, resolve vars key = some text ∧ text.head? ≠ some openBrace ∧ text ≠ [] := by
  unfold resolve valueOf lookIn
  cases hselect : select vars (trim key) with
  | none => exact .inl rfl
  | some p =>
    rw [Option.bind_some, Option.bind_some]
    cases hown : p.1.get? p.2 with
    | some value => exact .inl rfl
    | none =>
      rw [Option.none_or]
      cases hlookup : inheritedProperties.lookup p.2 with
      | none => exact .inl rfl
      | some text =>
        refine .inr ⟨rfl, ⟨p, rfl, (lookup_isSome_iff _ _).mp (by rw [hlookup]; rfl)⟩, text, rfl, ?_⟩
        have hall : ∀ p ∈ inheritedProperties, p.2.head? ≠ some openBrace ∧ p.2 ≠ [] := by
          decide +kernel
        have hmem : (p.2, text) ∈ inheritedProperties := by
          obtain ⟨before, after, hsplit, -⟩ := List.lookup_eq_some_iff.mp hlookup
          rw [hsplit]
          exact List.mem_append_right before List.mem_cons_self
        exact hall _ hmem

/-- Texts that two answers give are the same only when the answers are, where an answer that is not
    the other's cannot begin as a placeholder does. -/
theorem answers_of_render_eq {answer value : JsString → Option JsString} {ps : List Piece}
    (hcases : ∀ key, answer key = value key ∨
      value key = none ∧ ∃ text, answer key = some text ∧ text.head? ≠ some openBrace ∧ text ≠ [])
    (h : ps.flatMap (Piece.render answer) = ps.flatMap (Piece.render value)) :
    ∀ key, .placeholder key ∈ ps → answer key = value key := by
  induction ps with
  | nil => simp
  | cons piece ps ih =>
    rw [List.flatMap_cons, List.flatMap_cons] at h
    cases piece with
    | unit c =>
      intro key hmem
      rcases List.mem_cons.mp hmem with heq | hmem
      · cases heq
      · exact ih (List.append_cancel_left h) key hmem
    | placeholder first =>
      have hfirst : answer first = value first := by
        rcases hcases first with heq | ⟨hnone, text, htext, hhead, hne⟩
        · exact heq
        · -- the first piece at which the two texts part
          obtain ⟨c, rest, rfl⟩ := List.exists_cons_of_ne_nil hne
          simp only [Piece.render, htext, hnone, Option.getD_some, Option.getD_none, placeholderText,
            List.cons_append, List.cons.injEq] at h
          exact absurd (congrArg some h.1) hhead
      intro key hmem
      rcases List.mem_cons.mp hmem with heq | hmem
      · rw [Piece.placeholder.injEq] at heq
        exact heq ▸ hfirst
      · rw [Piece.render, Piece.render, hfirst] at h
        exact ih (List.append_cancel_left h) key hmem

/-- Nothing inherited is put in iff what is put in are the values. -/
theorem substituteVars_eq_iff (template : JsString) (vars : Vars) :
    substituteVars template vars = filled template vars ↔ ¬ NamesInherited template vars := by
  constructor
  · rintro h ⟨key, hmem, hnone, p, hp, hinherited⟩
    have heq := answers_of_render_eq (fun key => (resolve_cases vars key).imp_right
      fun hcase => ⟨hcase.1, hcase.2.2⟩) h key hmem
    rw [resolve, Option.mem_def.mp hp, Option.bind_some, hnone, lookIn, Option.or_eq_none_iff] at heq
    rw [← lookup_isSome_iff, heq.2] at hinherited
    cases hinherited
  · intro h
    refine List.flatMap_congr fun piece hpiece => ?_
    cases piece with
    | unit c => rfl
    | placeholder key =>
      rcases resolve_cases vars key with heq | ⟨hnone, hinherited, -⟩
      · rw [Piece.render, Piece.render, heq]
      · exact absurd ⟨key, hpiece, hnone, hinherited⟩ h

/-! ## The skip -/

theorem isCommandStepSkippable_isSome_iff (resolvedCmd : JsString) :
    (isCommandStepSkippable resolvedCmd).isSome ↔ trim resolvedCmd = [] ∨ Spells resolvedCmd := by
  unfold isCommandStepSkippable
  dsimp only
  split
  · rename_i hblank
    exact iff_of_true rfl (.inl hblank)
  · rename_i hblank
    rw [Option.isSome_map, firstMatch_isSome_iff, spells_trim_iff, or_iff_right hblank]

theorem spells_filled {template : JsString} {vars : Vars} (h : LeavesOpen template vars) :
    Spells (filled template vars) := by
  obtain ⟨key, hmem, hnone⟩ := h
  obtain ⟨before, after, heq⟩ := List.append_of_mem hmem
  refine ⟨before.flatMap (Piece.render (valueOf vars)), key,
    after.flatMap (Piece.render (valueOf vars)), ?_, isKey_of_mem_piecesWithin hmem⟩
  rw [filled, heq, List.flatMap_append, List.flatMap_cons, Piece.render, hnone, Option.getD_none]

/-- **Template variables.** For every template and every variable maps the values are put in as they
    are, and a step is skipped exactly when the text is blank or a placeholder of the template had no
    value, iff no placeholder without a value names an inherited property, and the values, where
    each placeholder has one, do not spell a placeholder once they are in their places. -/
theorem faithful_iff (template : JsString) (vars : Vars) :
    Faithful template vars ↔
      ¬ NamesInherited template vars ∧
      (¬ LeavesOpen template vars → ¬ Spells (filled template vars)) := by
  constructor
  · rintro ⟨hsubst, hskips⟩
    refine ⟨(substituteVars_eq_iff template vars).mp hsubst, fun hclosed hspells => ?_⟩
    rw [isCommandStepSkippable_isSome_iff, hsubst] at hskips
    rcases hskips.mp (.inr hspells) with hblank | hopen
    · have hnil := (spells_trim_iff _).mpr hspells
      rw [hblank] at hnil
      simp [Spells, placeholderText] at hnil
    · exact hclosed hopen
  · rintro ⟨hown, hspell⟩
    have hsubst := (substituteVars_eq_iff template vars).mpr hown
    refine ⟨hsubst, ?_⟩
    rw [isCommandStepSkippable_isSome_iff, hsubst]
    refine or_congr_right ⟨fun hspells => ?_, spells_filled⟩
    by_contra hclosed
    exact hspell hclosed hspells

/-- An agent's value that looks like a placeholder: the command is skipped, and counts as passed,
    although every placeholder of its template has a value. -/
theorem value_skips_command :
    ¬ Faithful (js "echo \x7b\x7bagent.note\x7d\x7d")
      ⟨[], [(js "note", js "\x7b\x7btbd\x7d\x7d")], none⟩ := by
  intro h
  have hpieces : pieces (js "echo \x7b\x7bagent.note\x7d\x7d") =
      (js "echo ").map .unit ++ [.placeholder (js "agent.note")] := by decide +kernel
  rcases h.skips.mp (by decide +kernel) with hblank | ⟨key, hmem, hnone⟩
  · revert hblank
    decide +kernel
  · rw [hpieces] at hmem
    obtain rfl : key = js "agent.note" := by simpa [js, utf16] using hmem
    revert hnone
    decide +kernel

end Bobbit.Server.TemplateVars
