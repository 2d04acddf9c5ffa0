import Bobbit.Spec.TranscriptText

/-!
# Blank user messages

The second half of the sanitizer gives blank user messages a text. It rewrites
the records one by one, keeps what branch selection and the orphan search read,
and leaves nothing to rewrite.

Key results:

- `records_blank`: the records after the blank repair, one by one.
- `blankRecord_sameNode`, `entryRole_blankEntry`: what it keeps.
- `mutateBlankUser_blankEntry`: a rewritten entry is not rewritten again.
-/

namespace Bobbit.Server

open Lib Lib.JsString Lib.Json

variable {ν : Type}

/-! ## Properties that are read as strings -/

theorem fieldIs_setField {entry : JsonObject ν} {key other : String} (h : js other ≠ js key)
    (value : Json ν) (literal : String) :
    fieldIs (setField entry (js key) value) other literal = fieldIs entry other literal := by
  simp only [fieldIs, getField_setField, if_neg h]

section Reread

variable [JsNumber ν]

theorem nonEmptyString_reread (value : Option (Json ν)) :
    nonEmptyString (value.map reread) = nonEmptyString value := by
  cases value with
  | none => rfl
  | some value =>
    cases value with
    | num n =>
      rw [Option.map_some, reread]
      cases JsNumber.write n <;> rfl
    | _ => simp [reread, nonEmptyString]

theorem fieldIs_rereadEntry (entry : JsonObject ν) (key literal : String) :
    fieldIs (rereadEntry entry) key literal = fieldIs entry key literal := by
  simp only [fieldIs, rereadEntry, getField_reread]
  cases getField entry (js key) with
  | none => rfl
  | some value =>
    cases value with
    | num n =>
      rw [Option.map_some, reread]
      cases JsNumber.write n <;> rfl
    | _ => simp [reread]

theorem blockText_reread (block : Json ν) : blockText (reread block) = blockText block := by
  cases block with
  | obj fields =>
    rw [reread]
    have hfields : ofMembers (rereadFields fields) = rereadEntry fields := rfl
    simp only [blockText, hfields, fieldIs_rereadEntry]
    split
    · rw [← hfields, getField_reread]
      cases getField fields (js "text") with
      | none => rfl
      | some value =>
        cases value with
        | num n =>
          rw [Option.map_some, reread]
          cases JsNumber.write n <;> rfl
        | _ => simp [reread]
    · rfl
  | num n =>
    rw [reread]
    cases JsNumber.write n <;> rfl
  | _ => simp [reread, blockText]

theorem effectiveText_reread (content : Option (Json ν)) :
    effectiveText (content.map reread) = effectiveText content := by
  cases content with
  | none => rfl
  | some content =>
    cases content with
    | num n =>
      rw [Option.map_some, reread]
      cases JsNumber.write n <;> rfl
    | arr blocks =>
      have htext : (blocks.map reread).filterMap blockText = blocks.filterMap blockText := by
        rw [List.filterMap_map]
        exact List.filterMap_congr fun block _ => blockText_reread block
      rw [Option.map_some, reread, rereadItems_eq_map, effectiveText, effectiveText, htext]
    | _ => simp [reread, effectiveText]

end Reread

/-! ## The text of a rewritten message -/

theorem blockText_rewritten {fields : JsonObject ν} (h : fieldIs fields "type" "text" = true) :
    blockText (.obj (setField fields (js "text") (.str attachmentOnlyText))) =
      some attachmentOnlyText := by
  simp only [blockText, fieldIs_setField (show js "type" ≠ js "text" by decide), h, if_true,
    getField_setField]

theorem rewriteFirstText_text {blocks next : List (Json ν)}
    (h : rewriteFirstText blocks = some next) :
    attachmentOnlyText ∈ next.filterMap blockText := by
  induction blocks generalizing next with
  | nil => simp [rewriteFirstText] at h
  | cons block rest ih =>
    have hrest : ∀ b : Json ν, (rewriteFirstText rest).map (b :: ·) = some next →
        attachmentOnlyText ∈ next.filterMap blockText := by
      intro b hb
      obtain ⟨tail, htail, rfl⟩ := Option.map_eq_some_iff.mp hb
      rw [List.mem_filterMap]
      obtain ⟨t, ht, htext⟩ := List.mem_filterMap.mp (ih htail)
      exact ⟨t, List.mem_cons_of_mem b ht, htext⟩
    cases block with
    | obj fields =>
      rw [rewriteFirstText] at h
      split at h
      · rename_i htype
        obtain rfl := Option.some.inj h
        exact List.mem_filterMap.mpr ⟨_, List.mem_cons_self, blockText_rewritten htype⟩
      · exact hrest _ h
    | _ => exact hrest _ (by simpa [rewriteFirstText] using h)

theorem trim_ne_nil {s : JsString} {c : UInt16} (hmem : c ∈ s) (hc : isTrimmed c = false) :
    s.trim ≠ [] := by
  intro hnil
  have hall := List.rdropWhile_eq_nil_iff.mp hnil
  have hdrop : s.dropWhile isTrimmed = [] := by
    cases hs : s.dropWhile isTrimmed with
    | nil => rfl
    | cons d rest =>
      have hd : isTrimmed d = false := by
        have h := List.head_dropWhile_not isTrimmed (l := s) (by simp [hs])
        simpa [hs] using h
      rw [hall d (by simp [hs])] at hd
      contradiction
  rw [List.dropWhile_eq_nil_iff.mp hdrop c hmem] at hc
  contradiction

theorem effectiveText_rewrite (content : Option (Json ν)) :
    (effectiveText (some (rewriteBlankUserContent content))).trim ≠ [] := by
  have hblocks : ∀ blocks : List (Json ν), attachmentOnlyText ∈ blocks.filterMap blockText →
      (effectiveText (some (.arr blocks))).trim ≠ [] := by
    intro blocks h
    refine trim_ne_nil (c := 0x41) (List.mem_flatten.mpr ⟨_, h, by decide⟩) (by decide)
  have hlead : ∀ rest : List (Json ν),
      attachmentOnlyText ∈ (attachmentBlock :: rest).filterMap blockText := fun rest =>
    List.mem_filterMap.mpr ⟨attachmentBlock, List.mem_cons_self, rfl⟩
  have hother := hblocks _ (hlead [])
  cases content with
  | none => exact hother
  | some content =>
    cases content with
    | str s => exact trim_ne_nil (s := attachmentOnlyText) (c := 0x41) (by decide) (by decide)
    | arr blocks =>
      rw [rewriteBlankUserContent]
      cases hnext : rewriteFirstText blocks with
      | some next => exact hblocks _ (rewriteFirstText_text hnext)
      | none => exact hblocks _ (hlead blocks)
    | _ => exact hother

/-! ## Rewritten entries -/

structure UserMessage (entry message : JsonObject ν) : Prop where
  type : fieldIs entry "type" "message" = true
  body : getField entry (js "message") = some (.obj message)
  role : fieldIs message "role" "user" = true

theorem mutateBlankUser_cases {value mutated : Json ν} (h : mutateBlankUser value = some mutated) :
    ∃ entry message, value = .obj entry ∧ UserMessage entry message ∧
      mutated = .obj (setField entry (js "message") (.obj (setField message (js "content")
        (rewriteBlankUserContent (getField message (js "content")))))) := by
  cases value with
  | obj entry =>
    simp only [mutateBlankUser] at h
    split at h
    · rename_i htype
      split at h
      · rename_i message hmessage
        split at h
        · cases h
        · rename_i hrole
          split at h
          · cases h
          · split at h
            · cases h
            · exact ⟨entry, message, rfl, ⟨htype, hmessage, by simpa using hrole⟩,
                (Option.some.inj h).symm⟩
      · cases h
    · cases h
  | _ => simp [mutateBlankUser] at h

theorem UserMessage.not_mutated {entry message : JsonObject ν} (h : UserMessage entry message)
    (htext : (effectiveText (getField message (js "content"))).trim ≠ []) :
    mutateBlankUser (.obj entry) = none := by
  simp [mutateBlankUser, h.type, h.body, h.role, htext]

section Blank

variable [JsNumber ν]

def blankEntry (entry : JsonObject ν) : JsonObject ν :=
  match mutateBlankUser (.obj entry) with
  | some (.obj mutated) => rereadEntry mutated
  | _ => entry

variable {entry : JsonObject ν}

theorem blankEntry_of_none (h : mutateBlankUser (.obj entry) = none) :
    blankEntry entry = entry := by
  rw [blankEntry, h]

theorem blankEntry_of_some {mutated : Json ν} (h : mutateBlankUser (.obj entry) = some mutated) :
    ∃ message, UserMessage entry message ∧
      blankEntry entry = rereadEntry (setField entry (js "message") (.obj (setField message
        (js "content") (rewriteBlankUserContent (getField message (js "content")))))) := by
  obtain ⟨entry', message, hentry, hmessage, rfl⟩ := mutateBlankUser_cases h
  cases hentry
  exact ⟨message, hmessage, by rw [blankEntry, h]⟩

theorem blankEntry_userMessage {mutated : Json ν}
    (h : mutateBlankUser (.obj entry) = some mutated) :
    ∃ message, UserMessage (blankEntry entry) message ∧
      (effectiveText (getField message (js "content"))).trim ≠ [] := by
  obtain ⟨message, ⟨htype, -, hrole⟩, hblank⟩ := blankEntry_of_some h
  rw [hblank]
  refine ⟨rereadEntry (setField message (js "content")
    (rewriteBlankUserContent (getField message (js "content")))), ⟨?_, ?_, ?_⟩, ?_⟩
  · rw [fieldIs_rereadEntry, fieldIs_setField (by decide), htype]
  · rw [rereadEntry, getField_reread, getField_setField, if_pos rfl]
    simp [reread, rereadEntry]
  · rw [fieldIs_rereadEntry, fieldIs_setField (by decide), hrole]
  · rw [rereadEntry, getField_reread, getField_setField, if_pos rfl, effectiveText_reread]
    exact effectiveText_rewrite _

theorem mutateBlankUser_blankEntry (entry : JsonObject ν) :
    mutateBlankUser (.obj (blankEntry entry)) = none := by
  cases h : mutateBlankUser (.obj entry) with
  | none => rw [blankEntry_of_none h, h]
  | some mutated =>
    obtain ⟨message, hmessage, htext⟩ := blankEntry_userMessage h
    exact hmessage.not_mutated htext

/-! ## What the blank repair keeps -/

theorem fieldIs_blankEntry (entry : JsonObject ν) {key : String} (hkey : js key ≠ js "message")
    (literal : String) : fieldIs (blankEntry entry) key literal = fieldIs entry key literal := by
  cases h : mutateBlankUser (.obj entry) with
  | none => rw [blankEntry_of_none h]
  | some mutated =>
    obtain ⟨message, -, hblank⟩ := blankEntry_of_some h
    rw [hblank, fieldIs_rereadEntry, fieldIs_setField hkey]

theorem nonEmptyString_blankEntry (entry : JsonObject ν) {key : String}
    (hkey : js key ≠ js "message") :
    nonEmptyString (getField (blankEntry entry) (js key)) =
      nonEmptyString (getField entry (js key)) := by
  cases h : mutateBlankUser (.obj entry) with
  | none => rw [blankEntry_of_none h]
  | some mutated =>
    obtain ⟨message, -, hblank⟩ := blankEntry_of_some h
    rw [hblank, rereadEntry, getField_reread, nonEmptyString_reread, getField_setField, if_neg hkey]

def blankRecord (r : ParsedTranscriptLine ν) : ParsedTranscriptLine ν :=
  { r with entry := blankEntry r.entry }

theorem blankRecord_sameNode : SameNode (blankRecord : ParsedTranscriptLine ν → _) := by
  intro r
  have hleaf : (blankRecord r).isLeaf = r.isLeaf := fieldIs_blankEntry r.entry (by decide) _
  refine ⟨rfl, rfl, fieldIs_blankEntry r.entry (by decide) _, ?_⟩
  rw [designated, designated, hleaf]
  exact congrArg (fun target => if r.isLeaf then target else r.id)
    (nonEmptyString_blankEntry r.entry (by decide))

theorem recordAt_blankEntry (i : Nat) (entry : JsonObject ν) :
    recordAt i (blankEntry entry) = blankRecord (recordAt i entry) := by
  simp only [recordAt, blankRecord, nonEmptyString_blankEntry entry (show js "id" ≠ _ by decide),
    nonEmptyString_blankEntry entry (show js "parentId" ≠ _ by decide)]

theorem UserMessage.boundary {message : JsonObject ν} (h : UserMessage entry message) :
    entryRole entry = .boundary := by
  have hrole := h.role
  simp only [fieldIs] at hrole
  split at hrole
  · rename_i role hget
    have hrole : role = js "user" := by simpa using hrole
    have hget : Json.get (.obj message) (js "role") = some (.str (js "user")) := hget.trans (by rw [hrole])
    have hmessage : messageRole (.obj message) = .boundary := by
      rw [messageRole, isMessageLevelToolResultRole, hget]
      rfl
    rw [entryRole, if_pos h.type, h.body]
    exact hmessage
  · cases hrole

/-- The blank repair does not change what an entry is to the tool results. -/
theorem entryRole_blankEntry (entry : JsonObject ν) :
    entryRole (blankEntry entry) = entryRole entry := by
  cases h : mutateBlankUser (.obj entry) with
  | none => rw [blankEntry_of_none h]
  | some mutated =>
    obtain ⟨message, hmessage, -⟩ := blankEntry_of_some h
    obtain ⟨message', hmessage', -⟩ := blankEntry_userMessage h
    rw [hmessage.boundary, hmessage'.boundary]

/-! ## Lines -/

def blankLine (ν : Type) [JsNumber ν] (line : JsString) : JsString :=
  (transformLine (mutateBlankUser (ν := ν)) line).getD line

theorem transformLine_cases {line out : JsString}
    (h : transformLine (mutateBlankUser (ν := ν)) line = some out) :
    ∃ entry mutated, (lineEntry line : Option (JsonObject ν)) = some entry ∧
      mutateBlankUser (.obj entry) = some (.obj mutated) ∧ out = stringify (.obj mutated) := by
  simp only [transformLine] at h
  split at h
  · cases h
  · rename_i htrim
    obtain ⟨value, hvalue, rfl⟩ := Option.map_eq_some_iff.mp h
    obtain ⟨parsed, hparse, hmutate⟩ := Option.bind_eq_some_iff.mp hvalue
    obtain ⟨entry, message, rfl, -, rfl⟩ := mutateBlankUser_cases hmutate
    exact ⟨entry, _, by simp [lineEntry, htrim, hparse], hmutate, rfl⟩

/-- The object on a line that is not rewritten is not rewritten either. -/
theorem mutateBlankUser_lineEntry {line : JsString}
    (h : transformLine (mutateBlankUser (ν := ν)) line = none)
    (hentry : lineEntry line = some entry) : mutateBlankUser (.obj entry) = none := by
  simp only [lineEntry] at hentry
  split at hentry
  · cases hentry
  · rename_i htrim
    split at hentry
    · rename_i hparse
      obtain rfl := Option.some.inj hentry
      simpa [transformLine, htrim, hparse] using h
    · cases hentry

theorem lineEntry_blankLine (line : JsString) :
    lineEntry (blankLine ν line) = (lineEntry line).map (blankEntry (ν := ν)) := by
  cases h : transformLine (mutateBlankUser (ν := ν)) line with
  | none =>
    rw [blankLine, h, Option.getD_none]
    cases hentry : (lineEntry line : Option (JsonObject ν)) with
    | none => rfl
    | some entry =>
      rw [Option.map_some, blankEntry_of_none (mutateBlankUser_lineEntry h hentry)]
  | some out =>
    obtain ⟨entry, mutated, hentry, hmutate, rfl⟩ := transformLine_cases h
    rw [blankLine, h, Option.getD_some, lineEntry_stringify, hentry, Option.map_some, blankEntry,
      hmutate]

theorem transformLine_blankLine (line : JsString) :
    transformLine (mutateBlankUser (ν := ν)) (blankLine ν line) = none := by
  cases h : transformLine (mutateBlankUser (ν := ν)) (blankLine ν line) with
  | none => rfl
  | some out =>
    obtain ⟨entry, mutated, hentry, hmutate, -⟩ := transformLine_cases h
    rw [lineEntry_blankLine] at hentry
    obtain ⟨original, -, rfl⟩ := Option.map_eq_some_iff.mp hentry
    rw [mutateBlankUser_blankEntry] at hmutate
    cases hmutate

theorem lineFeed_not_mem_blankLine {line : JsString} (hline : lineFeed ∉ line) :
    lineFeed ∉ blankLine ν line := by
  cases h : transformLine (mutateBlankUser (ν := ν)) line with
  | none => rwa [blankLine, h]
  | some out =>
    obtain ⟨-, mutated, -, -, rfl⟩ := transformLine_cases h
    rw [blankLine, h]
    exact lineFeed_not_mem_stringify _

theorem lines_blank (content : JsString) :
    (transformTranscriptJsonl content (mutateBlankUser (ν := ν))).content.lines =
      content.lines.map (blankLine ν) := by
  simp only [transformTranscriptJsonl]
  split
  · rename_i hnil
    subst hnil
    rfl
  · split
    · rename_i hcount
      have hself : ∀ line ∈ content.lines, blankLine ν line = line := by
        intro line hline
        have h := List.countP_eq_zero.mp hcount line hline
        rw [blankLine, Option.not_isSome_iff_eq_none.mp h, Option.getD_none]
      exact (List.map_congr_left hself).trans (List.map_id _) |>.symm
    · refine lines_unlines ?_ ?_
      · simp [lines]
      · intro l hl
        obtain ⟨line, hline, rfl⟩ := List.mem_map.mp hl
        exact lineFeed_not_mem_blankLine (lineFeed_not_mem_lines content line hline)

theorem records_blank (content : JsString) :
    nodesIn (transformTranscriptJsonl content (mutateBlankUser (ν := ν))).content.lines =
      (nodesIn content.lines : List (ParsedTranscriptLine ν)).map blankRecord := by
  rw [lines_blank, nodesIn, nodesIn, List.filterMap_map, List.map_filterMap]
  refine List.filterMap_congr fun line _ => ?_
  simp only [Function.comp_def, lineEntry_blankLine, Option.map_map, recordAt_blankEntry]

theorem transformTranscriptJsonl_blank (content : JsString) :
    let blanked := (transformTranscriptJsonl content (mutateBlankUser (ν := ν))).content
    transformTranscriptJsonl blanked (mutateBlankUser (ν := ν)) = ⟨blanked, false, 0⟩ := by
  intro blanked
  have hcount : blanked.lines.countP
      (fun line => (transformLine (mutateBlankUser (ν := ν)) line).isSome) = 0 := by
    rw [List.countP_eq_zero, lines_blank]
    intro l hl
    obtain ⟨line, -, rfl⟩ := List.mem_map.mp hl
    simp [transformLine_blankLine]
  simp only [transformTranscriptJsonl, hcount, if_true, ite_self]

end Blank

end Bobbit.Server
