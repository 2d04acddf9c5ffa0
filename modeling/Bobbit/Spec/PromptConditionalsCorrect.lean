import Bobbit.Lib.Blocks
import Bobbit.Server.PromptConditionals

/-!
# Conditional blocks keep what their flags say

The tags of a template are read as a sequence of named blocks. `applyPromptConditionals` throws
exactly on the templates that are not properly nested, and its result is the text of the template
that stands in blocks with true flags only, except where a block is named after a member of
`Object.prototype` that the flags do not have: such a name counts as true.

## Key results

* `processTags_ok_iff` — the loop does what the machine of named blocks does.
* `applyPromptConditionals_ok_iff` — what a template is turned into.
* `conditionals_correct_iff` — the templates and flags on which unset names count as false.
* `constructor_leaks` — a block named `constructor`, without flags.
-/

namespace Bobbit.Server

open Lib Lib.JsString Lib.Blocks

/-! ## Templates as sequences of tags and text -/

def ConditionalTag.token : ConditionalTag → Token JsString UInt16
  | .opening name => .opening name
  | .closing name => .closing name

/-- The tokens of a template, after a number of units that belong to a tag. -/
def tokensFrom : Nat → JsString → List (Token JsString UInt16)
  | _, [] => []
  | skip + 1, _ :: rest => tokensFrom skip rest
  | 0, u :: rest =>
    match matchTag (u :: rest) with
    | some (tag, after) => tag.token :: tokensFrom (rest.length - after.length) rest
    | none => .text u :: tokensFrom 0 rest

def templateTokens (text : JsString) : List (Token JsString UInt16) := tokensFrom 0 text

theorem tokensFrom_drop (skip : Nat) (text : JsString) :
    tokensFrom skip text = templateTokens (text.drop skip) := by
  induction skip generalizing text with
  | zero => rfl
  | succ skip ih =>
    cases text with
    | nil => rfl
    | cons u rest => exact ih rest

variable {text after : JsString}

theorem suffix_matchTagName {name : JsString}
    (h : matchTagName text = some (name, after)) : after <:+ text := by
  have hdrop := text.dropWhile_suffix isTagNameUnit
  unfold matchTagName at h
  split at h
  · cases h
  · rename_i u rest hrest
    dsimp only at h
    split at h
    · simp only [Option.some.injEq, Prod.mk.injEq] at h
      rw [hrest] at hdrop
      rw [← h.2]
      exact (rest.suffix_cons u).trans hdrop
    · cases h

theorem suffix_matchTag {tag : ConditionalTag}
    (h : matchTag text = some (tag, after)) : after <:+ text := by
  unfold matchTag at h
  split at h
  · obtain ⟨x, hx, hxe⟩ := Option.map_eq_some_iff.mp h
    simp only [Prod.mk.injEq] at hxe
    exact hxe.2 ▸ (suffix_matchTagName hx).trans (text.drop_suffix 4)
  · split at h
    · obtain ⟨x, hx, hxe⟩ := Option.map_eq_some_iff.mp h
      simp only [Prod.mk.injEq] at hxe
      exact hxe.2 ▸ (suffix_matchTagName hx).trans (text.drop_suffix 7)
    · cases h

theorem templateTokens_matchTag {tag : ConditionalTag} (h : matchTag text = some (tag, after)) :
    templateTokens text = tag.token :: templateTokens after := by
  cases text with
  | nil => cases h
  | cons u rest =>
    have hlt := length_matchTag h
    obtain ⟨front, hfront⟩ := suffix_matchTag h
    unfold templateTokens
    rw [tokensFrom, h]
    dsimp only
    rw [tokensFrom_drop]
    cases front with
    | nil =>
      rw [← hfront] at hlt
      exact absurd hlt (Nat.lt_irrefl _)
    | cons v front =>
      -- what the tag takes up is skipped
      rw [List.cons_append, List.cons.injEq] at hfront
      rw [← hfront.2, List.length_append, Nat.add_sub_cancel, List.drop_left]
      rfl

theorem templateTokens_execTag (text : JsString) :
    templateTokens text =
      match execTag text with
      | none => text.map .text
      | some (before, tag, after) => before.map .text ++ tag.token :: templateTokens after := by
  induction text with
  | nil => rfl
  | cons u rest ih =>
    cases hmatch : matchTag (u :: rest) with
    | some x =>
      obtain ⟨tag, after⟩ := x
      rw [templateTokens_matchTag hmatch]
      simp only [execTag, hmatch, List.map_nil, List.nil_append]
    | none =>
      have htokens : templateTokens (u :: rest) = .text u :: templateTokens rest := by
        simp only [templateTokens, tokensFrom, hmatch]
      rw [htokens, ih]
      simp only [execTag, hmatch]
      cases hexec : execTag rest with
      | none => rfl
      | some x => rfl

/-! ## The loop and the machine -/

/-- Text is kept outside all blocks. -/
def KeepsOutside (s : ConditionalState) : Prop :=
  (s.stack.getLast?.map Prod.snd).getD s.emitting = true

def ConditionalState.machine (s : ConditionalState) : Machine JsString UInt16 :=
  ⟨s.out, s.emitting, s.stack⟩

theorem run_text (on : JsString → Bool) (m : Machine JsString UInt16) (text : JsString) :
    Machine.run on m (text.map .text) =
      some { m with out := if m.keeping then m.out ++ text else m.out } := by
  induction text generalizing m with
  | nil => simp
  | cons u text ih =>
    rw [List.map_cons, Machine.run_cons]
    simp only [Machine.step, Option.bind_some, ih]
    cases m.keeping <;> simp

/-- A round of the loop is one step of the machine on its tag, after the text before it. -/
theorem onTag_machine (flags : List (JsString × Bool)) (s : ConditionalState)
    (before after : JsString) (tag : ConditionalTag) :
    (Machine.step (truthyFlag flags)
        { s.machine with out := if s.emitting then s.out ++ before else s.out } tag.token) =
      ((onTag flags s before tag after).toOption.map ConditionalState.machine) := by
  unfold onTag
  cases tag with
  | opening name => rfl
  | closing name =>
    cases hstack : s.stack with
    | nil => simp only [ConditionalTag.token, Machine.step, ConditionalState.machine, hstack]; rfl
    | cons entry stack =>
      obtain ⟨top, parentEmitting⟩ := entry
      simp only [ConditionalTag.token, Machine.step, ConditionalState.machine, hstack]
      by_cases hname : top = name
      · simp only [hname, if_true, ne_eq, not_true_eq_false, if_false]
        rfl
      · simp only [hname, if_false, ne_eq, not_false_eq_true, if_true]
        rfl

variable {flags : List (JsString × Bool)}

theorem onTag_keepsOutside {s s' : ConditionalState}
    {before : JsString} {tag : ConditionalTag} (hs : KeepsOutside s)
    (h : onTag flags s before tag after = .ok s') : KeepsOutside s' := by
  unfold onTag at h
  unfold KeepsOutside at *
  cases tag with
  | opening name =>
    simp only [Except.ok.injEq] at h
    rw [← h]
    cases hstack : s.stack with
    | nil =>
      rw [hstack] at hs
      exact hs
    | cons entry stack =>
      rw [hstack] at hs
      rw [List.getLast?_cons_cons]
      exact hs
  | closing name =>
    dsimp only at h
    split at h
    · cases h
    · rename_i top parentEmitting stack hstack
      split at h
      · cases h
      · simp only [Except.ok.injEq] at h
        rw [← h]
        rw [hstack] at hs
        cases stack with
        | nil => exact hs
        | cons entry stack =>
          rw [List.getLast?_cons_cons] at hs
          exact hs

/-- The loop does what the machine does, and succeeds when nothing is left open. -/
theorem processTags_ok_iff (s : ConditionalState) (hs : KeepsOutside s) (result : JsString) :
    processTags flags s = .ok result ↔
      ∃ m, Machine.run (truthyFlag flags) s.machine (templateTokens s.rest) = some m ∧
        m.stack = [] ∧ m.out = result := by
  induction s using processTags.induct flags with
  | case1 s hexec hstack =>
    have hkeep : s.emitting = true := by
      rw [KeepsOutside, hstack] at hs
      exact hs
    rw [processTags, templateTokens_execTag, hexec]
    dsimp only
    rw [hstack, run_text]
    simp [ConditionalState.machine, hstack, hkeep]
  | case2 s hexec name keep stack hstack =>
    rw [processTags, templateTokens_execTag, hexec]
    dsimp only
    rw [hstack, run_text]
    simp [ConditionalState.machine, hstack]
  | case3 s before tag after hexec message hstep =>
    have hmachine := onTag_machine flags s before after tag
    rw [hstep] at hmachine
    rw [processTags, templateTokens_execTag, hexec]
    dsimp only
    rw [hstep, Machine.run_append, run_text, Option.bind_some, Machine.run_cons]
    erw [hmachine]
    simp [Except.toOption]
  | case4 s before tag after hexec s' hstep ih =>
    have hmachine := onTag_machine flags s before after tag
    rw [hstep] at hmachine
    rw [processTags, templateTokens_execTag, hexec]
    dsimp only
    rw [hstep, Machine.run_append, run_text, Option.bind_some, Machine.run_cons]
    erw [hmachine]
    rw [ih (onTag_keepsOutside hs hstep), onTag_rest hstep]
    rfl

/-! ## The early return -/

theorem includesText_cons {u : UInt16} {part : JsString}
    (h : includesText (u :: text) part = false) :
    part.isPrefixOf (u :: text) = false ∧ includesText text part = false := by
  unfold includesText at *
  rw [List.tails_cons, List.any_cons, Bool.or_eq_false_iff] at h
  exact h

theorem execTag_eq_none (hopen : includesText text (js "\x7bif:") = false)
    (hclose : includesText text (js "\x7bendif:") = false) : execTag text = none := by
  induction text with
  | nil => rfl
  | cons u rest ih =>
    obtain ⟨hif, hopen'⟩ := includesText_cons hopen
    obtain ⟨hendif, hclose'⟩ := includesText_cons hclose
    have hmatch : matchTag (u :: rest) = none := by
      unfold matchTag
      rw [hif, hendif]
      rfl
    rw [execTag, hmatch]
    dsimp only
    rw [ih hopen' hclose']
    rfl

theorem applyPromptConditionals_ok_iff (text : JsString) (flags : List (JsString × Bool))
    (result : JsString) :
    applyPromptConditionals text flags = .ok result ↔
      ∃ m, Machine.run (truthyFlag flags) Machine.start (templateTokens text) = some m ∧
        m.stack = [] ∧ m.out = result := by
  have hloop := @processTags_ok_iff flags
    { rest := text, out := [], emitting := true, stack := [] } rfl result
  unfold applyPromptConditionals
  split
  · rename_i hnone
    rw [Bool.and_eq_true, Bool.not_eq_true', Bool.not_eq_true'] at hnone
    -- the loop would have found nothing either
    have hexec := execTag_eq_none hnone.1 hnone.2
    rw [processTags, hexec] at hloop
    exact hloop
  · exact hloop

/-- A properly nested template is turned into the text that its true flags keep. -/
theorem applyPromptConditionals_tokens
    {f : Forest JsString UInt16} (hf : f.tokens = templateTokens text) :
    applyPromptConditionals text flags = .ok (f.kept (truthyFlag flags) true) := by
  rw [applyPromptConditionals_ok_iff, ← hf, Machine.run_tokens]
  exact ⟨_, rfl, rfl, rfl⟩

/-- A template is rejected exactly when its tags are not properly nested. -/
theorem applyPromptConditionals_error_iff (text : JsString) (flags : List (JsString × Bool)) :
    (∃ message, applyPromptConditionals text flags = .error message) ↔
      ¬ Nested (templateTokens text) := by
  rw [← Machine.run_eq_empty_iff (truthyFlag flags)]
  constructor
  · rintro ⟨message, herror⟩ ⟨m, hrun, hempty⟩
    have hok := (applyPromptConditionals_ok_iff text flags m.out).mpr ⟨m, hrun, hempty, rfl⟩
    rw [herror] at hok
    cases hok
  · intro h
    cases hresult : applyPromptConditionals text flags with
    | error message => exact ⟨message, rfl⟩
    | ok result =>
      obtain ⟨m, hrun, hempty, _⟩ := (applyPromptConditionals_ok_iff text flags result).mp hresult
      exact absurd ⟨m, hrun, hempty⟩ h

/-! ## Flags that are not set -/

def isFlagOn (flags : List (JsString × Bool)) (name : JsString) : Bool :=
  JsMap.get? flags name = some true

/-- The name is not set in the flags but is a member of every object. -/
def InheritedFlag (flags : List (JsString × Bool)) (name : JsString) : Prop :=
  JsMap.get? flags name = none ∧ name ∈ objectPrototypeMembers

/-- A name counts as true when it is set to true or inherited. -/
theorem truthyFlag_eq_true_iff (flags : List (JsString × Bool)) (name : JsString) :
    truthyFlag flags name = true ↔ isFlagOn flags name = true ∨ InheritedFlag flags name := by
  unfold truthyFlag isFlagOn InheritedFlag
  cases JsMap.get? flags name with
  | none => simp
  | some value => simp

/-- A template that is properly nested is turned into its text in blocks with true flags only. -/
def KeepsTrueBlocks (text : JsString) (flags : List (JsString × Bool)) : Prop :=
  ∀ f : Forest JsString UInt16, f.tokens = templateTokens text →
    applyPromptConditionals text flags =
      .ok (((f.placed []).filter fun x => x.2.all (isFlagOn flags)).map Prod.fst)

/-- Every unit of text that stands in a block named after an inherited flag also stands in a block
whose flag is false, or neither set nor inherited. -/
def InheritedFlagsHidden (text : JsString) (flags : List (JsString × Bool)) : Prop :=
  ∀ f : Forest JsString UInt16, f.tokens = templateTokens text → ∀ x ∈ f.placed [],
    (∃ name ∈ x.2, InheritedFlag flags name) →
      ∃ name ∈ x.2, isFlagOn flags name = false ∧ ¬ InheritedFlag flags name

/-- Names that all count as true are all set to true, unless one of them is inherited and none of
them is off. -/
theorem all_truthy_iff (flags : List (JsString × Bool)) (names : List JsString) :
    (names.all (truthyFlag flags) = true → names.all (isFlagOn flags) = true) ↔
      ((∃ name ∈ names, InheritedFlag flags name) →
        ∃ name ∈ names, isFlagOn flags name = false ∧ ¬ InheritedFlag flags name) := by
  simp only [List.all_eq_true]
  constructor
  · rintro h ⟨name, hname, hinherited⟩
    by_contra hnone
    push Not at hnone
    have hall : ∀ x ∈ names, truthyFlag flags x = true := by
      intro x hx
      rw [truthyFlag_eq_true_iff]
      cases hon : isFlagOn flags x with
      | true => exact .inl rfl
      | false => exact .inr (hnone x hx hon)
    have hset : JsMap.get? flags name = some true := of_decide_eq_true (h hall name hname)
    rw [hinherited.1] at hset
    cases hset
  · intro h htruthy name hname
    by_contra hoff
    rcases (truthyFlag_eq_true_iff flags name).mp (htruthy name hname) with hon | hinherited
    · exact hoff hon
    · obtain ⟨name', hname', hoff', hnot⟩ := h ⟨name, hname, hinherited⟩
      rcases (truthyFlag_eq_true_iff flags name').mp (htruthy name' hname') with hon | hin
      · rw [hoff'] at hon
        cases hon
      · exact hnot hin

/-- A properly nested template is turned into its text in blocks with true flags exactly when no
text that is kept has an inherited name around it. -/
theorem kept_isFlagOn_iff {f : Forest JsString UInt16} (hf : f.tokens = templateTokens text) :
    (applyPromptConditionals text flags =
        .ok (((f.placed []).filter fun x => x.2.all (isFlagOn flags)).map Prod.fst)) ↔
      ∀ x ∈ f.placed [], (∃ name ∈ x.2, InheritedFlag flags name) →
        ∃ name ∈ x.2, isFlagOn flags name = false ∧ ¬ InheritedFlag flags name := by
  have hle : ∀ name, isFlagOn flags name = true → truthyFlag flags name = true := fun name h =>
    (truthyFlag_eq_true_iff flags name).mpr (.inl h)
  have hkept : f.kept (isFlagOn flags) true = _ := Forest.kept_eq_placed (isFlagOn flags) [] f
  rw [applyPromptConditionals_tokens hf, Except.ok.injEq, ← hkept, Forest.kept_eq_iff hle]
  exact forall₂_congr fun x _ => all_truthy_iff flags x.2

/-- **Prompt conditionals.** A template is rejected exactly when its tags are not properly nested,
and otherwise turned into the text of its blocks with true flags, if and only if no text stands in
inherited blocks alone. -/
theorem conditionals_correct_iff (text : JsString) (flags : List (JsString × Bool)) :
    (((∃ message, applyPromptConditionals text flags = .error message) ↔
        ¬ Nested (templateTokens text)) ∧ KeepsTrueBlocks text flags) ↔
      InheritedFlagsHidden text flags := by
  constructor
  · intro h f hf
    exact (kept_isFlagOn_iff hf).mp (h.2 f hf)
  · intro h
    exact ⟨applyPromptConditionals_error_iff text flags,
      fun f hf => (kept_isFlagOn_iff hf).mpr (h f hf)⟩

/-- A block named `constructor` is kept when no flags are set. -/
theorem constructor_leaks :
    ¬ ((((∃ message, applyPromptConditionals
            (js "\x7bif:constructor\x7dx\x7bendif:constructor\x7d") [] = .error message) ↔
          ¬ Nested (templateTokens (js "\x7bif:constructor\x7dx\x7bendif:constructor\x7d"))) ∧
        KeepsTrueBlocks (js "\x7bif:constructor\x7dx\x7bendif:constructor\x7d") [])) := by
  rintro ⟨-, hkeeps⟩
  have hf : (Forest.block (js "constructor") (.text 0x78 .nil) .nil).tokens =
      templateTokens (js "\x7bif:constructor\x7dx\x7bendif:constructor\x7d") := by decide
  have hkept := (@applyPromptConditionals_tokens _ [] _ hf).symm.trans (hkeeps _ hf)
  revert hkept
  decide

end Bobbit.Server
