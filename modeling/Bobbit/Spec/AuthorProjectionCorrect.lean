import Bobbit.Server.AuthorProjection

/-!
# The author prefix comes off as it went on

Dispatch puts the prefix of an author before a prompt and records the digest of the whole text.
The projection of a row with that text takes the prefix off once: the digest tells a row that is
still raw from one that was projected, also where the prompt itself begins with the prefix.

## Key results

- `prepare_cases`: what dispatch leaves, with a sidecar record and without.
- `stripFirstTextBlock_strips`: what the loop over the blocks does.
- `projectCorrelatedPromptMessage_dispatched`: one projection takes the prefix off when it stands
  whole in one text, and a second projection changes nothing.
- `split_prefix_kept`: a prefix that is split over two text blocks stays.
-/

namespace Bobbit.Spec.AuthorProjection

open Bobbit.Lib Bobbit.Shared.MessageAuthor Bobbit.Server.AuthorProjection
open Bobbit.Server.AuthorSidecar (Platform validDigest digestBytes isDispatchRecord
  hasValidModelPrefix)

variable {ν : Type} {lower : JsString → JsString} {base : Platform Author}

/-! ## What a projection is for -/

/-- One prefix is taken off: of a text, or of the first of several text blocks. -/
inductive Strips (modelPrefix : JsString) : Option (Json ν) → Option (Json ν) → Prop
  | text (rest : JsString) :
    Strips modelPrefix (some (.str (modelPrefix ++ rest))) (some (.str rest))
  | block (front : List (Json ν)) (block : Json ν) (back : List (Json ν)) (rest : JsString)
      (hfront : ∀ other ∈ front, blockText? other = none)
      (hblock : blockText? block = some (modelPrefix ++ rest)) :
    Strips modelPrefix (some (.arr (front ++ block :: back)))
      (some (.arr (front ++ withText block rest :: back)))

/-- The content is one text, or its first text block begins with the whole prefix. -/
def PrefixWhole (modelPrefix : JsString) : Option (Json ν) → Prop
  | some (.arr blocks) =>
    ∃ text rest, blocks.filterMap blockText? = (modelPrefix ++ text) :: rest
  | _ => True

/-- The digest tells two texts apart. -/
def DigestSeparates (base : Platform Author) (x y : JsString) : Prop :=
  ∀ dx dy, base.digestPromptModelText x = some dx → base.digestPromptModelText y = some dy →
    digestBytes dx = digestBytes dy → x = y

/-! ## The prefix and the digest -/

variable {modelPrefix : JsString}

theorem modelPrefix_ne_nil {author : Author}
    (h : modelPrefixForPromptAuthor lower author = some modelPrefix) : modelPrefix ≠ [] := by
  rw [modelPrefixForPromptAuthor] at h
  split at h
  · cases h
  · split at h
    · cases h
    · obtain rfl := Option.some.inj h
      decide
    · split at h
      · obtain rfl := Option.some.inj h
        have hbracket : js "[" ≠ [] := by decide
        simp [hbracket]
      · cases h

theorem append_ne_self (h : modelPrefix ≠ []) (text : JsString) : modelPrefix ++ text ≠ text := by
  intro heq
  exact h (List.append_left_eq_self.mp heq)

variable {text : JsString}

theorem digestMatches_self {binding : PromptBinding}
    (hdigest : binding.modelTextDigest = base.digestPromptModelText text)
    (hvalid : validDigest binding.modelTextDigest = true) :
    promptAuthorBindingDigestMatchesText base binding text = true := by
  rw [promptAuthorBindingDigestMatchesText, hvalid, Bool.true_and, ← hdigest]
  cases hstored : binding.modelTextDigest with
  | none =>
    rw [hstored] at hvalid
    cases hvalid
  | some digest =>
    rw [hstored, validDigest] at hvalid
    simp only [Option.any_some, Bool.and_eq_true, decide_eq_true_eq] at hvalid
    have hne : digest.isEmpty = false := by
      cases digest with
      | nil => cases hvalid.1
      | cons _ _ => rfl
    simp [hne]

/-- A digest that tells two texts apart proves only one of them. -/
theorem digestMatches_eq_false {binding : PromptBinding} {raw other : JsString}
    (hdigest : binding.modelTextDigest = base.digestPromptModelText raw)
    (hseparate : DigestSeparates base other raw) (hne : other ≠ raw) :
    promptAuthorBindingDigestMatchesText base binding other = false := by
  rw [promptAuthorBindingDigestMatchesText, Bool.and_eq_false_iff]
  refine .inr ?_
  cases hother : base.digestPromptModelText other with
  | none => rfl
  | some candidate =>
    cases hraw : base.digestPromptModelText raw with
    | none =>
      rw [hdigest, hraw]
      simp
    | some digest =>
      rw [hdigest, hraw]
      have hbytes : digestBytes digest ≠ digestBytes candidate := fun heq =>
        hne (hseparate candidate digest hother hraw heq.symm)
      simp [hbytes]

/-! ## Dispatch -/

section Dispatch

variable {appended : Bool} {freshAttemptId promptId baseModelText source : JsString}
  {author : Author} {now : Rat} {evidence : Option Evidence}

/-- **Dispatch.** Either the record is in the sidecar, and Pi is given the prefix and the text;
    or Pi is given the text and the binding has no prefix. The digest is always that of the text
    that Pi is given. -/
theorem prepare_cases (prepared : PreparedPromptAuthorDispatch)
    (h : prepared = preparePromptAuthorDispatch lower base appended freshAttemptId promptId
      baseModelText source author now evidence) :
    prepared.pending.author = author ∧
      prepared.pending.modelTextDigest = base.digestPromptModelText prepared.piText ∧
      ((prepared.pending.modelPrefix = none ∧ prepared.piText = baseModelText) ∨
        ∃ modelPrefix, modelPrefixForPromptAuthor lower author = some modelPrefix ∧
          prepared.pending.modelPrefix = some modelPrefix ∧
          prepared.piText = modelPrefix ++ baseModelText ∧
          validDigest prepared.pending.modelTextDigest = true) := by
  subst h
  refine ⟨rfl, rfl, ?_⟩
  simp only [preparePromptAuthorDispatch]
  split
  · rename_i hpersisted
    cases hlead : modelPrefixForPromptAuthor lower author with
    | none => exact .inl ⟨rfl, rfl⟩
    | some modelPrefix =>
      refine .inr ⟨modelPrefix, rfl, rfl, rfl, ?_⟩
      -- the record was checked, so there was a digest
      rw [hlead, appendPromptAuthorDispatch, Bool.and_eq_true, isDispatchRecord] at hpersisted
      simp only [Bool.and_eq_true] at hpersisted
      have hvalid := hpersisted.1.1.1.1.2
      simp only [Option.getD_some] at hvalid ⊢
      cases hdigest : base.digestPromptModelText (modelPrefix ++ baseModelText) with
      | none =>
        rw [hdigest] at hvalid
        cases hvalid
      | some digest =>
        rw [hdigest] at hvalid
        exact hvalid
  · exact .inl ⟨rfl, rfl⟩

end Dispatch

/-! ## Blocks -/

/-- A text block with another text is a text block with that text. -/
theorem blockText?_withText {block : Json ν} (h : blockText? block = some text)
    (other : JsString) : blockText? (withText block other) = some other := by
  cases block with
  | obj fields =>
    have hne : js "type" ≠ js "text" := by decide
    rw [blockText?] at h
    split at h
    · rename_i type old htype htext
      split at h
      · rename_i hkind
        rw [withText, blockText?]
        simp only [Json.getField_setField, if_neg hne, if_true, htype]
        rw [if_pos hkind]
      · cases h
    · cases h
  | null => cases h
  | bool b => cases h
  | num n => cases h
  | str s => cases h
  | arr items => cases h

/-- **The loop over the blocks.** It finds the first text block, and takes the prefix off when
    the block begins with it. -/
theorem stripFirstTextBlock_eq_some {blocks stripped : List (Json ν)}
    (h : stripFirstTextBlock modelPrefix blocks = some stripped) :
    ∃ front block back rest, blocks = front ++ block :: back ∧
      (∀ other ∈ front, blockText? other = none) ∧
      blockText? block = some (modelPrefix ++ rest) ∧
      stripped = front ++ withText block rest :: back := by
  induction blocks generalizing stripped with
  | nil => cases h
  | cons block back ih =>
    rw [stripFirstTextBlock] at h
    split at h
    · rename_i hnone
      obtain ⟨after, hafter, rfl⟩ := Option.map_eq_some_iff.mp h
      obtain ⟨front, found, tail, rest, rfl, hfront, hfound, rfl⟩ := ih hafter
      refine ⟨block :: front, found, tail, rest, rfl, ?_, hfound, rfl⟩
      intro other hother
      cases List.mem_cons.mp hother with
      | inl heq => exact heq ▸ hnone
      | inr hin => exact hfront other hin
    · rename_i text htext
      split at h
      · rename_i hlead
        obtain rfl := Option.some.inj h
        obtain ⟨rest, rfl⟩ := List.isPrefixOf_iff_prefix.mp hlead
        refine ⟨[], block, back, rest, rfl, fun _ hother => absurd hother List.not_mem_nil, htext, ?_⟩
        rw [List.drop_left]
        rfl
      · cases h

/-- Where the first text block begins with the prefix, the loop strips. -/
theorem stripFirstTextBlock_isSome {rest : List JsString}
    {blocks : List (Json ν)} (h : blocks.filterMap blockText? = (modelPrefix ++ text) :: rest) :
    (stripFirstTextBlock modelPrefix blocks).isSome = true := by
  induction blocks with
  | nil => cases h
  | cons block back ih =>
    rw [stripFirstTextBlock]
    split
    · rename_i hnone
      rw [List.filterMap_cons_none hnone] at h
      rw [Option.isSome_map]
      exact ih h
    · rename_i found hfound
      rw [List.filterMap_cons_some hfound] at h
      obtain ⟨rfl, -⟩ := List.cons.inj h
      rw [if_pos (List.isPrefixOf_iff_prefix.mpr (List.prefix_append _ _))]
      rfl

/-- The text blocks before and after one prefix is taken off. -/
theorem texts_of_front {front back : List (Json ν)} {block : Json ν}
    (hfront : ∀ other ∈ front, blockText? other = none) (hblock : blockText? block = some text) :
    (front ++ block :: back).filterMap blockText? = text :: back.filterMap blockText? := by
  rw [List.filterMap_append, List.filterMap_eq_nil_iff.mpr hfront,
    List.filterMap_cons_some hblock]
  rfl

/-- What the code makes of the content is what a projection is for. -/
theorem strippedContent_strips {content : Option (Json ν)}
    {stripped : Json ν} (h : strippedContent modelPrefix content = some stripped) :
    Strips modelPrefix content (some stripped) := by
  rw [strippedContent.eq_def] at h
  split at h
  · split at h
    · rename_i text hlead
      obtain rfl := Option.some.inj h
      obtain ⟨rest, rfl⟩ := List.isPrefixOf_iff_prefix.mp hlead
      rw [List.drop_left]
      exact .text rest
    · cases h
  · obtain ⟨after, hafter, rfl⟩ := Option.map_eq_some_iff.mp h
    obtain ⟨front, block, back, rest, rfl, hfront, hblock, rfl⟩ :=
      stripFirstTextBlock_eq_some hafter
    exact .block front block back rest hfront hblock
  · cases h

def textOf : Option (Json ν) → Option JsString
  | some (.str text) => some text
  | some (.arr blocks) =>
    let parts := blocks.filterMap blockText?
    if parts.isEmpty then none else some parts.flatten
  | _ => none

theorem extractPromptModelText_eq (message : List (JsString × Json ν)) :
    extractPromptModelText message = textOf (Json.getField message (js "content")) := rfl

/-- Taking a prefix off the content takes it off the text. -/
theorem Strips.textOf_eq {content content' : Option (Json ν)}
    (h : Strips modelPrefix content content') (htext : textOf content = some (modelPrefix ++ text)) :
    textOf content' = some text := by
  cases h with
  | text rest =>
    simp only [textOf, Option.some.injEq, List.append_cancel_left_eq] at htext
    rw [textOf, htext]
  | block front block back rest hfront hblock =>
    rw [textOf] at htext ⊢
    rw [texts_of_front hfront hblock] at htext
    rw [texts_of_front hfront (blockText?_withText hblock rest)]
    simp only [List.isEmpty_cons, Bool.false_eq_true, if_false, List.flatten_cons,
      List.append_assoc, Option.some.injEq, List.append_cancel_left_eq] at htext ⊢
    exact htext

/-! ## Projection -/

section Projection

variable {message : List (JsString × Json ν)} {binding : PromptBinding}

/-- A property that is assigned, or was there and stays. -/
theorem getField_assign (key name : JsString) (value : Option (Json ν))
    (message : List (JsString × Json ν)) :
    Json.getField (assign name value message) key =
      if key = name then value.or (Json.getField message key) else Json.getField message key := by
  cases value with
  | none => simp [assign]
  | some value =>
    rw [assign, Json.getField_setField]
    simp

theorem getField_project (key : JsString) (hauthor : key ≠ js "author")
    (hintent : key ≠ js "deliveryIntentId") (hattempt : key ≠ js "deliveryAttemptId") :
    Json.getField (projectCorrelatedPromptMessage lower base message binding) key =
      if key = js "content" then
        (projectedContent lower base message binding).or (Json.getField message key)
      else Json.getField message key := by
  simp only [projectCorrelatedPromptMessage]
  split
  · rename_i hsame
    simp only [Bool.and_eq_true, Option.isNone_iff_eq_none] at hsame
    rw [hsame.1.1.1]
    simp
  · rw [getField_assign, getField_assign, getField_assign, getField_assign, if_neg hattempt,
      if_neg hintent, if_neg hauthor]

theorem content_project :
    Json.getField (projectCorrelatedPromptMessage lower base message binding) (js "content") =
      (projectedContent lower base message binding).or (Json.getField message (js "content")) := by
  rw [getField_project _ (by decide) (by decide) (by decide), if_pos rfl]

/-- A value that is there is held after it was assigned, also through later assignments. -/
theorem holds_assign_self (message : List (JsString × Json ν)) (key : JsString) (value : Json ν) :
    Json.Holds (assign key (some value) message) key value :=
  Json.holds_setField_self message key value

theorem holds_assign_ne {key other : JsString} {value : Json ν} (assigned : Option (Json ν))
    (h : Json.Holds message key value) (hne : key ≠ other) :
    Json.Holds (assign other assigned message) key value := by
  cases assigned with
  | none => exact h
  | some assigned => exact h.setField_ne hne assigned

theorem assign_of_holds {key : JsString} {value : Option (Json ν)}
    (h : ∀ v, value = some v → Json.Holds message key v) : assign key value message = message := by
  cases value with
  | none => rfl
  | some value => exact Json.setField_of_holds (h value rfl)

/-- The projection leaves the row, or makes all its assignments. -/
theorem project_cases :
    projectCorrelatedPromptMessage lower base message binding = message ∨
      projectCorrelatedPromptMessage lower base message binding =
        assign (js "deliveryAttemptId") (binding.attemptId.map .str)
          (assign (js "deliveryIntentId") (binding.intentId.map .str)
            (assign (js "author") (some binding.author.toJson)
              (assign (js "content") (projectedContent lower base message binding) message))) := by
  rw [projectCorrelatedPromptMessage]
  split
  · exact .inl rfl
  · exact .inr rfl

/-- **Once is enough.** A row whose content a second projection leaves alone is left alone. -/
theorem project_project (h : projectedContent lower base
      (projectCorrelatedPromptMessage lower base message binding) binding = none) :
    projectCorrelatedPromptMessage lower base
        (projectCorrelatedPromptMessage lower base message binding) binding =
      projectCorrelatedPromptMessage lower base message binding := by
  cases @project_cases _ lower base message binding with
  | inl hfirst =>
    rw [hfirst]
    exact hfirst
  | inr hassigned =>
    -- the first projection has assigned everything that a second one could assign
    have hauthor : ∀ v, some binding.author.toJson = some v →
        Json.Holds (projectCorrelatedPromptMessage lower base message binding)
          (js "author") v := by
      intro v hv
      rw [hassigned, hv]
      exact holds_assign_ne _ (holds_assign_ne _ (holds_assign_self _ _ _) (by decide)) (by decide)
    have hintent : ∀ v, binding.intentId.map Json.str = some v →
        Json.Holds (projectCorrelatedPromptMessage lower base message binding)
          (js "deliveryIntentId") v := by
      intro v hv
      rw [hassigned, hv]
      exact holds_assign_ne _ (holds_assign_self _ _ _) (by decide)
    have hattempt : ∀ v, binding.attemptId.map Json.str = some v →
        Json.Holds (projectCorrelatedPromptMessage lower base message binding)
          (js "deliveryAttemptId") v := by
      intro v hv
      rw [hassigned, hv]
      exact holds_assign_self _ _ _
    cases @project_cases _ lower base (projectCorrelatedPromptMessage lower base message binding)
      binding with
    | inl hsame => exact hsame
    | inr hagain =>
      rw [hagain, h]
      show assign _ _ (assign _ _ (assign _ _
        (projectCorrelatedPromptMessage lower base message binding))) = _
      rw [assign_of_holds hauthor, assign_of_holds hintent, assign_of_holds hattempt]

end Projection

/-! ## The round trip -/

section RoundTrip

variable {appended : Bool} {freshAttemptId promptId baseModelText source : JsString}
  {author : Author} {now : Rat} {evidence : Option Evidence} {message : List (JsString × Json ν)}
  {binding : PromptBinding} {piText modelPrefix : JsString}

theorem projectedContent_of_none (h : binding.modelPrefix = none) :
    projectedContent lower base message binding = none := by
  rw [projectedContent, h]
  cases extractPromptModelText message <;> rfl

/-- On another text than the one that was digested the content stays. -/
theorem projectedContent_of_other {raw text : JsString}
    (htext : extractPromptModelText message = some text)
    (hdigest : binding.modelTextDigest = base.digestPromptModelText raw)
    (hseparate : DigestSeparates base text raw) (hne : text ≠ raw) :
    projectedContent lower base message binding = none := by
  rw [projectedContent, htext]
  cases binding.modelPrefix with
  | none => rfl
  | some modelPrefix =>
    simp only [Option.bind_eq_bind, Option.bind_some,
      digestMatches_eq_false hdigest hseparate hne, Bool.false_and, Bool.false_eq_true, if_false]

/-- On the digested text the prefix comes off, if the loop finds it. -/
theorem projectedContent_of_raw (htext : extractPromptModelText message = some piText)
    (hdigest : binding.modelTextDigest = base.digestPromptModelText piText)
    (hvalid : validDigest binding.modelTextDigest = true)
    (hlead : binding.modelPrefix = some modelPrefix)
    (hauthor : modelPrefixForPromptAuthor lower binding.author = some modelPrefix) :
    projectedContent lower base message binding =
      strippedContent modelPrefix (Json.getField message (js "content")) := by
  have hcurrent : hasValidModelPrefix (platform lower base) binding.author (some modelPrefix) =
      true := by
    rw [hasValidModelPrefix]
    show (false || modelPrefixForPromptAuthor lower binding.author == some modelPrefix) = true
    rw [hauthor, Bool.false_or, beq_self_eq_true]
  rw [projectedContent, htext, hlead]
  simp only [Option.bind_eq_bind, Option.bind_some, digestMatches_self hdigest hvalid, hcurrent,
    Bool.and_self, if_true]

/-- A prefix that stands whole at the front of the raw text is found. -/
theorem strippedContent_isSome {content : Option (Json ν)} {text : JsString}
    (htext : textOf content = some (modelPrefix ++ text)) (hwhole : PrefixWhole modelPrefix content) :
    (strippedContent modelPrefix content).isSome = true := by
  rw [textOf.eq_def] at htext
  split at htext
  · rename_i found
    obtain rfl := Option.some.inj htext
    rw [strippedContent, if_pos (List.isPrefixOf_iff_prefix.mpr (List.prefix_append _ _))]
    rfl
  · rename_i blocks
    obtain ⟨first, rest, hfirst⟩ := hwhole
    rw [strippedContent, Option.isSome_map]
    exact stripFirstTextBlock_isSome hfirst
  · cases htext

theorem Strips.prefixWhole {content content' : Option (Json ν)}
    (h : Strips modelPrefix content content') : PrefixWhole modelPrefix content := by
  cases h with
  | text rest => trivial
  | block front block back rest hfront hblock => exact ⟨rest, _, texts_of_front hfront hblock⟩

/-- **Dispatch and projection.** A row with the text that Pi was given is projected to a row with
    the prompt's own text: the prefix that dispatch added comes off, once, when it stands in one
    text; a prefix that is split over text blocks stays, with the whole content. The other
    properties of the row stay, and a second projection changes nothing. -/
theorem projectCorrelatedPromptMessage_dispatched (prepared : PreparedPromptAuthorDispatch)
    (hprepared : prepared = preparePromptAuthorDispatch lower base appended freshAttemptId promptId
      baseModelText source author now evidence)
    (hdigest : DigestSeparates base baseModelText prepared.piText)
    (htext : extractPromptModelText message = some prepared.piText) :
    let projected := projectCorrelatedPromptMessage lower base message prepared.pending
    (∀ modelPrefix, prepared.pending.modelPrefix = some modelPrefix →
      (PrefixWhole modelPrefix (Json.getField message (js "content")) →
        Strips modelPrefix (Json.getField message (js "content"))
          (Json.getField projected (js "content")) ∧
        extractPromptModelText projected = some baseModelText) ∧
      (¬ PrefixWhole modelPrefix (Json.getField message (js "content")) →
        Json.getField projected (js "content") = Json.getField message (js "content"))) ∧
    (prepared.pending.modelPrefix = none →
      Json.getField projected (js "content") = Json.getField message (js "content") ∧
        extractPromptModelText projected = some baseModelText) ∧
    (∀ key, key ∉ [js "content", js "author", js "deliveryIntentId", js "deliveryAttemptId"] →
      Json.getField projected key = Json.getField message key) ∧
    projectCorrelatedPromptMessage lower base projected prepared.pending = projected := by
  intro projected
  have hcontent : Json.getField projected (js "content") =
      (projectedContent lower base message prepared.pending).or
        (Json.getField message (js "content")) := content_project
  have hothers : ∀ key,
      key ∉ [js "content", js "author", js "deliveryIntentId", js "deliveryAttemptId"] →
      Json.getField projected key = Json.getField message key := by
    intro key hkey
    simp only [List.mem_cons, List.not_mem_nil, or_false, not_or] at hkey
    exact (getField_project key hkey.2.1 hkey.2.2.1 hkey.2.2.2).trans (if_neg hkey.1)
  obtain ⟨hauthor, hraw, hcases⟩ := prepare_cases prepared hprepared
  cases hcases with
  | inl hplain =>
    obtain ⟨hlead, hbase⟩ := hplain
    have hnone : ∀ row : List (JsString × Json ν),
        projectedContent lower base row prepared.pending = none :=
      fun row => projectedContent_of_none hlead
    rw [hnone, Option.none_or] at hcontent
    refine ⟨?_, fun _ => ⟨hcontent, ?_⟩, hothers, project_project (hnone _)⟩
    · intro modelPrefix hsome
      rw [hlead] at hsome
      cases hsome
    · rw [extractPromptModelText_eq, hcontent, ← extractPromptModelText_eq, htext, hbase]
  | inr hprefixed =>
    obtain ⟨modelPrefix, hcurrent, hlead, hpi, hvalid⟩ := hprefixed
    have hstrip := projectedContent_of_raw htext hraw hvalid hlead (hauthor.symm ▸ hcurrent)
    rw [hpi, extractPromptModelText_eq] at htext
    have hnonempty := modelPrefix_ne_nil hcurrent
    cases hstripped : strippedContent modelPrefix (Json.getField message (js "content")) with
    | some stripped =>
      -- the prefix came off, and the digest is not that of the text that is left
      rw [hstrip, hstripped, Option.some_or] at hcontent
      have hstrips := strippedContent_strips hstripped
      have hbase : extractPromptModelText projected = some baseModelText := by
        rw [extractPromptModelText_eq, hcontent]
        exact hstrips.textOf_eq htext
      refine ⟨?_, fun hnone => ?_, hothers, project_project ?_⟩
      · intro other hother
        obtain rfl := Option.some.inj (hlead.symm.trans hother)
        exact ⟨fun _ => ⟨hcontent ▸ hstrips, hbase⟩, fun hsplit => absurd hstrips.prefixWhole hsplit⟩
      · rw [hlead] at hnone
        cases hnone
      · refine projectedContent_of_other hbase hraw hdigest ?_
        rw [hpi]
        exact (append_ne_self hnonempty _).symm
    | none =>
      -- the prefix is split, and the second projection sees the same content
      rw [hstrip, hstripped, Option.none_or] at hcontent
      have hsplit : ¬ PrefixWhole modelPrefix (Json.getField message (js "content")) := by
        intro hwhole
        have hsome := strippedContent_isSome htext hwhole
        rw [hstripped] at hsome
        cases hsome
      have hagain : extractPromptModelText projected = some prepared.piText := by
        rw [extractPromptModelText_eq, hcontent, hpi]
        exact htext
      refine ⟨?_, fun hnone => ?_, hothers, project_project ?_⟩
      · intro other hother
        obtain rfl := Option.some.inj (hlead.symm.trans hother)
        exact ⟨fun hwhole => absurd hwhole hsplit, fun _ => hcontent⟩
      · rw [hlead] at hnone
        cases hnone
      · rw [projectedContent_of_raw hagain hraw hvalid hlead (hauthor.symm ▸ hcurrent), hcontent]
        exact hstripped

end RoundTrip

/-! ## Two rows -/

/-- A key whose digest tells short texts from long ones. -/
def lengthPlatform : Platform Author where
  digestPromptModelText s := some (List.replicate 43 (if s.length < 16 then 0x41 else 0x42))
  modelPrefixForPromptAuthor _ := none
  isMessageAuthor _ := true
  authorBytes _ := 0
  parseTime _ := none

/-- `BOBBIT_SYSTEM_AUTHOR`. -/
def bobbitSystemAuthor : Author := ⟨.system, js "system:bobbit", js "Bobbit"⟩

def systemDispatch (baseModelText : JsString) : PreparedPromptAuthorDispatch :=
  preparePromptAuthorDispatch id lengthPlatform true (js "attempt") (js "prompt") baseModelText
    (js "system") bobbitSystemAuthor 0 none

def textBlock (text : JsString) : Json Nat :=
  .obj [(js "type", .str (js "text")), (js "text", .str text)]

/-- A prompt that begins with the prefix itself comes back with that prefix. -/
theorem prefixed_prompt_kept :
    let prepared := systemDispatch (js "[System]: hello")
    let message : List (JsString × Json Nat) :=
      [(js "role", .str (js "user")), (js "content", .str (js "[System]: [System]: hello"))]
    prepared.pending.modelPrefix = some (js "[System]: ") ∧
      extractPromptModelText
        (projectCorrelatedPromptMessage id lengthPlatform message prepared.pending) =
          some (js "[System]: hello") := by
  intro prepared message
  have hlead : prepared.pending.modelPrefix = some (js "[System]: ") := by decide +kernel
  have hseparate : DigestSeparates lengthPlatform (js "[System]: hello") prepared.piText := by
    intro dx dy hx hy hbytes
    rw [← Option.some.inj hx, ← Option.some.inj hy] at hbytes
    exact absurd hbytes (by decide +kernel)
  have htext : extractPromptModelText message = some prepared.piText := by decide +kernel
  exact ⟨hlead, ((projectCorrelatedPromptMessage_dispatched prepared rfl hseparate htext).1 _
    hlead).1 trivial |>.2⟩

/-- **A split prefix stays.** Two fragments of the dispatched text prove the digest together, and
    neither of them begins with the prefix. -/
theorem split_prefix_kept :
    let prepared := systemDispatch (js "the body")
    let message : List (JsString × Json Nat) :=
      [(js "content", .arr [textBlock (js "[Sys"), textBlock (js "tem]: the body")])]
    extractPromptModelText message = some prepared.piText ∧
      prepared.pending.modelPrefix = some (js "[System]: ") ∧
      digestBytes ((lengthPlatform.digestPromptModelText (js "the body")).getD []) ≠
        digestBytes ((lengthPlatform.digestPromptModelText prepared.piText).getD []) ∧
      extractPromptModelText
        (projectCorrelatedPromptMessage id lengthPlatform message prepared.pending) =
          some (js "[System]: the body") := by
  decide +kernel

end Bobbit.Spec.AuthorProjection
