import Bobbit.Server.MentionMerge
import Bobbit.Lib.List

/-!
# The merge of prompt expansions is a simultaneous substitution

For disjoint skill ranges and disjoint mention ranges over one text, the merge replaces the skill
ranges and the text mentions that lie outside of them all at once, and appends the blocks of the
other text mentions in their order. Without mentions it is the text of the skill resolution.

## Key results

* `foldl_collectMention` — what the two loops collect.
* `merged_apart` — the collected replacements have no place in common.
* `inlineMatches_ordered` — the tokens of the inline scan follow each other.
* `buildMergedModelText_ordered` — expansions in order are spliced as they stand.
* `prompt_merge` — both statements.
-/

namespace Bobbit.Server

open Lib Lib.JsString Lib.Splice

/-! ## What the loops collect -/

/-- The block of a mention that is delivered as text. -/
def FileMention.block (m : FileMention) : Option JsString :=
  match m.kind, m.content with
  | .text, some content => some (buildFileReferenceBlock m.path content)
  | _, _ => none

/-- The mention has a place in common with a skill range. -/
def FileMention.overlapped (skills : List RangedExpansion) (m : FileMention) : Bool :=
  skills.any fun e => overlaps e.range m.range

/-- The replacement of a text mention outside the skill ranges. -/
def FileMention.replacement (skills : List RangedExpansion) (m : FileMention) :
    Option (Replacement UInt16) :=
  if m.overlapped skills then none
  else m.block.map m.range.replacement

/-- The block of a text mention inside a skill range. -/
def FileMention.appendix (skills : List RangedExpansion) (m : FileMention) : Option JsString :=
  if m.overlapped skills then m.block else none

def appendix (blocks : List JsString) : JsString :=
  if blocks = [] then [] else js "\n\n" ++ joinBlocks blocks

variable (skills : List RangedExpansion)

theorem foldl_collectSkill (s : MergeState) : skills.foldl collectSkill s =
      { s with replacements := s.replacements ++ skills.map (·.replacement) } := by
  induction skills generalizing s with
  | nil => simp
  | cons e skills ih =>
    rw [List.foldl_cons, ih]
    simp [collectSkill, RangedExpansion.replacement]

theorem collectMention_eq (s : MergeState) (m : FileMention) :
    collectMention (skills.map (·.range)) s m =
      ⟨s.replacements ++ (m.replacement skills).toList,
        s.appended ++ (m.appendix skills).toList⟩ := by
  obtain ⟨path, range, kind, content⟩ := m
  have hany : ((skills.map (·.range)).any fun sr => overlaps sr range) =
      skills.any fun e => overlaps e.range range := by
    rw [List.any_map]
    rfl
  unfold collectMention FileMention.replacement FileMention.appendix FileMention.overlapped
  by_cases hover : (skills.any fun e => overlaps e.range range) = true
  · cases kind <;> cases content <;> simp [FileMention.block, hany, hover]
  · cases kind <;> cases content <;> simp [FileMention.block, hany, hover]

theorem foldl_collectMention (mentions : List FileMention) (s : MergeState) :
    mentions.foldl (collectMention (skills.map (·.range))) s =
      ⟨s.replacements ++ mentions.filterMap (·.replacement skills),
        s.appended ++ mentions.filterMap (·.appendix skills)⟩ := by
  induction mentions generalizing s with
  | nil => simp
  | cons m mentions ih =>
    rw [List.foldl_cons, ih, collectMention_eq]
    cases hr : m.replacement skills <;> cases ha : m.appendix skills <;>
      simp [hr, ha]

/-- The replacements of all loops together. -/
def mergedReplacements (skills : List RangedExpansion) (mentions : List FileMention) :
    List (Replacement UInt16) :=
  skills.map (·.replacement) ++ mentions.filterMap (·.replacement skills)

theorem buildMergedModelText_eq (text : JsString) (skills : List RangedExpansion)
    (mentions : List FileMention) :
    buildMergedModelText text skills mentions =
      spliceAll ((mergedReplacements skills mentions).mergeSort fun a b => a.start ≤ b.start) text ++
        appendix (mentions.filterMap (·.appendix skills)) := by
  unfold buildMergedModelText appendix
  simp only [foldl_collectSkill, foldl_collectMention, List.nil_append]
  split
  · rw [List.append_nil]
    rfl
  · rw [List.append_assoc]
    rfl

/-! ## Disjoint ranges -/

theorem replacement_start {skills : List RangedExpansion} {m : FileMention}
    {r : Replacement UInt16} (h : m.replacement skills = some r) :
    r.start = m.range.start ∧ r.stop = m.range.stop ∧ m.overlapped skills = false := by
  unfold FileMention.replacement at h
  split at h
  · cases h
  · next hover =>
    obtain ⟨block, -, rfl⟩ := Option.map_eq_some_iff.mp h
    exact ⟨rfl, rfl, Bool.eq_false_iff.mpr hover⟩

/-- Ranges that do not overlap have no place in common. -/
theorem apart_of_not_overlaps {a b : Replacement UInt16} {x y : TextRange}
    (hax : a.start = x.start ∧ a.stop = x.stop) (hby : b.start = y.start ∧ b.stop = y.stop)
    (h : overlaps x y = false) : Apart a b := by
  simp only [overlaps, Bool.and_eq_false_iff, decide_eq_false_iff_not, Nat.not_lt] at h
  unfold Apart
  omega

theorem merged_apart {skills : List RangedExpansion} {mentions : List FileMention}
    (hskills : skills.Pairwise fun a b => overlaps a.range b.range = false)
    (hmentions : mentions.Pairwise fun a b => overlaps a.range b.range = false) :
    (mergedReplacements skills mentions).Pairwise Apart := by
  refine List.pairwise_append.mpr ⟨?_, ?_, ?_⟩
  · rw [List.pairwise_map]
    exact hskills.imp fun h => apart_of_not_overlaps ⟨rfl, rfl⟩ ⟨rfl, rfl⟩ h
  · rw [List.pairwise_filterMap]
    refine hmentions.imp fun {a b} h r hr r' hr' => ?_
    obtain ⟨hstart, hstop, -⟩ := replacement_start hr
    obtain ⟨hstart', hstop', -⟩ := replacement_start hr'
    exact apart_of_not_overlaps ⟨hstart, hstop⟩ ⟨hstart', hstop'⟩ h
  · -- a mention that is replaced lies outside every skill range
    intro r hr r' hr'
    obtain ⟨e, he, rfl⟩ := List.mem_map.mp hr
    obtain ⟨m, -, hm⟩ := List.mem_filterMap.mp hr'
    obtain ⟨hstart, hstop, hover⟩ := replacement_start hm
    have hout := List.any_eq_false.mp hover e he
    exact apart_of_not_overlaps ⟨rfl, rfl⟩ ⟨hstart, hstop⟩ (Bool.eq_false_iff.mpr hout)

theorem mergeSort_ordered {rs : List (Replacement UInt16)} (hapart : rs.Pairwise Apart) :
    (rs.mergeSort fun a b => a.start ≤ b.start).Pairwise fun a b => a.stop ≤ b.start := by
  have hsorted := @List.pairwise_mergeSort (Replacement UInt16)
    (fun a b => decide (a.start ≤ b.start))
    (fun a b c hab hbc => by simp only [decide_eq_true_eq] at *; omega)
    (fun a b => by simp only [Bool.or_eq_true, decide_eq_true_eq]; omega) rs
  have hdisjoint := (List.mergeSort_perm rs fun a b => decide (a.start ≤ b.start)).symm.pairwise
    hapart fun h => Or.symm h
  refine (hsorted.and hdisjoint).imp fun {a b} h => ?_
  have hle := of_decide_eq_true h.1
  have hne := b.nonempty
  rcases h.2 with h | h <;> omega

/-! ## Expansions in order -/

theorem mergeSort_of_ordered {rs : List (Replacement UInt16)}
    (h : rs.Pairwise fun a b => a.stop ≤ b.start) :
    (rs.mergeSort fun a b => a.start ≤ b.start) = rs := by
  refine List.mergeSort_of_pairwise (h.imp fun {a b} hab => ?_)
  have hne := a.nonempty
  exact decide_eq_true (by omega)

theorem buildMergedModelText_ordered (text : JsString) {skills : List RangedExpansion}
    (h : skills.Pairwise fun a b => a.range.stop ≤ b.range.start) :
    buildMergedModelText text skills [] = spliceAll (skills.map (·.replacement)) text := by
  have hordered : (skills.map (·.replacement)).Pairwise fun a b => a.stop ≤ b.start :=
    List.pairwise_map.mpr h
  rw [buildMergedModelText_eq, mergedReplacements, List.filterMap_nil, List.filterMap_nil,
    List.append_nil, mergeSort_of_ordered hordered, appendix, if_pos rfl, List.append_nil]

/-! ## The inline scan -/

/-- The tokens of the scan follow each other: the next search starts behind the last token. -/
theorem inlineMatches_ordered (text : JsString) (place skip : Nat) :
    (∀ m ∈ inlineMatches place skip text, place + skip ≤ m.1) ∧
      (inlineMatches place skip text).Pairwise fun a b => a.1 + 1 + a.2.length ≤ b.1 := by
  induction text generalizing place skip with
  | nil => exact ⟨fun m hm => absurd hm List.not_mem_nil, List.Pairwise.nil⟩
  | cons u rest ih =>
    cases skip with
    | succ skip =>
      obtain ⟨hfrom, hordered⟩ := ih (place + 1) skip
      refine ⟨fun m hm => ?_, hordered⟩
      have := hfrom m hm
      omega
    | zero =>
      rw [inlineMatches]
      split
      · next prefixLen name _ =>
        obtain ⟨hfrom, hordered⟩ := ih (place + 1) (prefixLen + name.length)
        constructor
        · intro m hm
          rcases List.mem_cons.mp hm with rfl | hm
          · dsimp only
            omega
          · have := hfrom m hm
            omega
        · refine List.pairwise_cons.mpr ⟨fun m hm => ?_, hordered⟩
          have := hfrom m hm
          dsimp only
          omega
      · obtain ⟨hfrom, hordered⟩ := ih (place + 1) 0
        refine ⟨fun m hm => ?_, hordered⟩
        have := hfrom m hm
        omega

section Inline

variable {κ : Type} (source : SkillSource κ)

/-- The expansions of the inline loop follow each other as its tokens do. -/
theorem foldl_collectInline_ordered (tokens : List (Nat × JsString))
    (hordered : tokens.Pairwise fun a b => a.1 + 1 + a.2.length ≤ b.1)
    (s : List (SkillExpansion κ) × List JsString)
    (hs : s.1.Pairwise fun a b => a.range.stop ≤ b.range.start)
    (hbehind : ∀ e ∈ s.1, ∀ m ∈ tokens, e.range.stop ≤ m.1) :
    (tokens.foldl (collectInline source) s).1.Pairwise
      fun a b => a.range.stop ≤ b.range.start := by
  induction tokens generalizing s with
  | nil => exact hs
  | cons m tokens ih =>
    obtain ⟨hfirst, hrest⟩ := List.pairwise_cons.mp hordered
    have hlater : ∀ e ∈ s.1, ∀ m' ∈ tokens, e.range.stop ≤ m'.1 :=
      fun e he m' hm' => hbehind e he m' (List.mem_cons_of_mem _ hm')
    rw [List.foldl_cons, collectInline]
    split
    · -- an unknown skill leaves the expansions alone
      split
      · exact ih hrest _ hs hlater
      · exact ih hrest _ hs hlater
    · refine ih hrest _ ?_ ?_
      · refine List.pairwise_append.mpr ⟨hs, List.pairwise_singleton _ _, fun e he e' he' => ?_⟩
        rw [List.mem_singleton.mp he']
        exact hbehind e he m List.mem_cons_self
      · intro e he m' hm'
        rcases List.mem_append.mp he with he | he
        · exact hlater e he m' hm'
        · rw [List.mem_singleton.mp he]
          exact hfirst m' hm'

theorem resolveInline_merge (text : JsString) (unknown : List JsString) :
    buildMergedModelText text
        ((resolveInline source text unknown).expansions.map (·.toRangedExpansion)) [] =
      (resolveInline source text unknown).modelText := by
  unfold resolveInline
  dsimp only
  have hordered := foldl_collectInline_ordered source (inlineMatches 0 0 text)
    (inlineMatches_ordered text 0 0).2 ([], unknown) List.Pairwise.nil
    fun e he => absurd he List.not_mem_nil
  split
  · rw [List.map_nil, buildMergedModelText_ordered text List.Pairwise.nil]
    rfl
  · dsimp only
    rw [buildMergedModelText_ordered text (List.pairwise_map.mpr hordered), List.map_map]
    rfl

theorem spliceAll_whole (text : JsString) (r : Replacement UInt16) (hstart : r.start = 0)
    (hstop : r.stop = text.length) : spliceAll [r] text = r.text := by
  simp [spliceAll, splice, hstart, hstop]

theorem resolveSkillExpansions_merge (text : JsString) :
    buildMergedModelText text
        ((resolveSkillExpansions source text).expansions.map (·.toRangedExpansion)) [] =
      (resolveSkillExpansions source text).modelText := by
  unfold resolveSkillExpansions
  split
  · exact resolveInline_merge source text _
  · next name argsPart _ =>
    split
    · exact resolveInline_merge source text _
    · dsimp only
      rw [List.map_cons, List.map_nil,
        buildMergedModelText_ordered text (List.pairwise_singleton _ _), List.map_cons,
        List.map_nil]
      exact spliceAll_whole text _ rfl rfl

end Inline

/-! ## Both statements -/

/-- The merge replaces the skill ranges and the text mentions outside of them at once, and appends
the text mentions inside of them in their order; without mentions it is the text of the skill
resolution. -/
theorem prompt_merge (originalText : JsString) (skillExpansions : List RangedExpansion)
    (fileMentions : List FileMention)
    (hskills : skillExpansions.Pairwise fun a b => overlaps a.range b.range = false)
    (hmentions : fileMentions.Pairwise fun a b => overlaps a.range b.range = false)
    (hskillsIn : ∀ e ∈ skillExpansions, e.range.stop ≤ originalText.length)
    (hmentionsIn : ∀ m ∈ fileMentions, m.range.stop ≤ originalText.length) :
    buildMergedModelText originalText skillExpansions fileMentions =
        substitute (skillExpansions.map (·.replacement) ++
            fileMentions.filterMap (·.replacement skillExpansions)) originalText ++
          appendix (fileMentions.filterMap (·.appendix skillExpansions)) ∧
      ∀ {κ : Type} (source : SkillSource κ),
        buildMergedModelText originalText
            ((resolveSkillExpansions source originalText).expansions.map
              (·.toRangedExpansion)) [] =
          (resolveSkillExpansions source originalText).modelText := by
  refine ⟨?_, fun source => resolveSkillExpansions_merge source originalText⟩
  have hapart := merged_apart hskills hmentions
  have hperm := List.mergeSort_perm (mergedReplacements skillExpansions fileMentions)
    fun a b => decide (a.start ≤ b.start)
  have hin : ∀ r ∈ (mergedReplacements skillExpansions fileMentions).mergeSort
      fun a b => decide (a.start ≤ b.start), r.stop ≤ originalText.length := by
    intro r hr
    rcases List.mem_append.mp (hperm.mem_iff.mp hr) with hr | hr
    · obtain ⟨e, he, rfl⟩ := List.mem_map.mp hr
      exact hskillsIn e he
    · obtain ⟨m, hm, hmr⟩ := List.mem_filterMap.mp hr
      rw [(replacement_start hmr).2.1]
      exact hmentionsIn m hm
  rw [buildMergedModelText_eq, spliceAll_eq_substitute (mergeSort_ordered hapart) hin,
    ← substitute_perm hperm.symm hapart]
  rfl

/-- A skill over the first two of four units and two text mentions, one of them inside it. -/
theorem prompt_merge_mixed :
    let skill : RangedExpansion := ⟨⟨0, 2, by decide⟩, js "S"⟩
    let inside : FileMention := ⟨js "a", ⟨1, 2, by decide⟩, .text, some (js "A")⟩
    let outside : FileMention := ⟨js "b", ⟨3, 4, by decide⟩, .text, some (js "B")⟩
    buildMergedModelText (js "/s @") [skill] [inside, outside] =
      substitute ([skill].map (·.replacement) ++
          [inside, outside].filterMap (·.replacement [skill])) (js "/s @") ++
        appendix ([inside, outside].filterMap (·.appendix [skill])) :=
  (prompt_merge (js "/s @") [⟨⟨0, 2, by decide⟩, js "S"⟩]
    [⟨js "a", ⟨1, 2, by decide⟩, .text, some (js "A")⟩,
      ⟨js "b", ⟨3, 4, by decide⟩, .text, some (js "B")⟩]
    (List.pairwise_singleton _ _) (by simp [overlaps])
    (by simp only [List.mem_singleton]; rintro e rfl; decide)
    (by simp only [List.mem_cons, List.not_mem_nil, or_false]; rintro m (rfl | rfl) <;> decide)).1

end Bobbit.Server
