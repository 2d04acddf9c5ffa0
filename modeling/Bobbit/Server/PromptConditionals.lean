import Bobbit.Lib.Json
import Bobbit.Lib.JsMap

/-!
# Conditional blocks of prompt templates

Model of `src/server/agent/prompt-conditionals.ts`. `applyPromptConditionals` scans a template for
the tags `{if:NAME}` and `{endif:NAME}` and drops the bodies of the blocks whose flag is off.
-/

namespace Bobbit.Server

open Lib Lib.JsString

inductive ConditionalTag
  | opening (name : JsString)
  | closing (name : JsString)
  deriving DecidableEq

/-- `[A-Za-z0-9_]`. -/
def isTagNameUnit (u : UInt16) : Bool :=
  (0x41 ≤ u && u ≤ 0x5A) || (0x61 ≤ u && u ≤ 0x7A) || (0x30 ≤ u && u ≤ 0x39) || u == 0x5F

/-- The name and the brace after the beginning of a tag, and what follows the tag. -/
def matchTagName (text : JsString) : Option (JsString × JsString) :=
  let name := text.takeWhile isTagNameUnit
  match text.dropWhile isTagNameUnit with
  | [] => none
  | u :: rest => if name ≠ [] ∧ u = 0x7D then some (name, rest) else none

/-- The regular expression, tried at the front of a text: the tag and what follows it. -/
def matchTag (text : JsString) : Option (ConditionalTag × JsString) :=
  if (js "\x7bif:").isPrefixOf text then
    (matchTagName (text.drop 4)).map fun x => (.opening x.1, x.2)
  else if (js "\x7bendif:").isPrefixOf text then
    (matchTagName (text.drop 7)).map fun x => (.closing x.1, x.2)
  else none

/-- `re.exec(text)` from `lastIndex` on: the text before the first tag, the tag and what follows. -/
def execTag : JsString → Option (JsString × ConditionalTag × JsString)
  | [] => none
  | u :: rest =>
    match matchTag (u :: rest) with
    | some (tag, after) => some ([], tag, after)
    | none => (execTag rest).map fun x => (u :: x.1, x.2)

theorem length_matchTagName {text name after : JsString}
    (h : matchTagName text = some (name, after)) : after.length < text.length := by
  have hsplit := congrArg List.length (text.takeWhile_append_dropWhile (p := isTagNameUnit))
  unfold matchTagName at h
  rw [List.length_append] at hsplit
  split at h
  · cases h
  · rename_i u rest hrest
    dsimp only at h
    split at h
    · simp only [Option.some.injEq, Prod.mk.injEq] at h
      rw [hrest, List.length_cons, h.2] at hsplit
      omega
    · cases h

theorem length_matchTag {text after : JsString} {tag : ConditionalTag}
    (h : matchTag text = some (tag, after)) : after.length < text.length := by
  unfold matchTag at h
  split at h
  · obtain ⟨x, hx, hxe⟩ := Option.map_eq_some_iff.mp h
    have hlt := length_matchTagName hx
    simp only [Prod.mk.injEq] at hxe
    rw [hxe.2, List.length_drop] at hlt
    omega
  · split at h
    · obtain ⟨x, hx, hxe⟩ := Option.map_eq_some_iff.mp h
      have hlt := length_matchTagName hx
      simp only [Prod.mk.injEq] at hxe
      rw [hxe.2, List.length_drop] at hlt
      omega
    · cases h

/-- Every round of the loop goes on behind a tag. -/
theorem length_execTag {text before after : JsString} {tag : ConditionalTag}
    (h : execTag text = some (before, tag, after)) : after.length < text.length := by
  induction text generalizing before with
  | nil => cases h
  | cons u rest ih =>
    unfold execTag at h
    split at h
    · rename_i hmatch
      simp only [Option.some.injEq, Prod.mk.injEq] at h
      rw [h.2.1, h.2.2] at hmatch
      exact length_matchTag hmatch
    · obtain ⟨x, hx, hxe⟩ := Option.map_eq_some_iff.mp h
      simp only [Prod.mk.injEq] at hxe
      have hlt := @ih x.1 (by rw [hx, ← hxe.2])
      rw [List.length_cons]
      omega

/-! ## Flags -/

/-- The members that every object has from `Object.prototype`. -/
def objectPrototypeMembers : List JsString :=
  ["constructor", "__defineGetter__", "__defineSetter__", "hasOwnProperty", "__lookupGetter__",
    "__lookupSetter__", "isPrototypeOf", "propertyIsEnumerable", "toString", "valueOf", "__proto__",
    "toLocaleString"].map js

/-- `!!flags[name]` of a record of booleans: a member that the record does not have itself is looked
up in `Object.prototype`, whose members are functions and objects. -/
def truthyFlag (flags : List (JsString × Bool)) (name : JsString) : Bool :=
  match JsMap.get? flags name with
  | some value => value
  | none => objectPrototypeMembers.contains name

/-! ## The processor -/

/-- The variables of the loop, with the text from `lastIndex` on. -/
structure ConditionalState where
  rest : JsString
  out : JsString
  emitting : Bool
  stack : List (JsString × Bool)

/-- The body of the loop, for the text before a tag and the tag. -/
def onTag (flags : List (JsString × Bool)) (s : ConditionalState) (before : JsString)
    (tag : ConditionalTag) (after : JsString) : Except JsString ConditionalState :=
  let out := if s.emitting then s.out ++ before else s.out
  match tag with
  | .opening name => .ok {
      rest := after
      out := out
      emitting := s.emitting && truthyFlag flags name
      stack := (name, s.emitting) :: s.stack }
  | .closing name =>
    match s.stack with
    | [] => .error (js "applyPromptConditionals: unmatched \x7bendif:" ++ name ++ js "\x7d")
    | (top, parentEmitting) :: stack =>
      if top ≠ name then
        .error (js "applyPromptConditionals: \x7bif:" ++ top ++ js "\x7d closed by \x7bendif:" ++
          name ++ js "\x7d")
      else .ok { rest := after, out := out, emitting := parentEmitting, stack := stack }

/-- Every round of the loop leaves the text behind its tag. -/
theorem onTag_rest {flags : List (JsString × Bool)} {s s' : ConditionalState}
    {before after : JsString} {tag : ConditionalTag}
    (h : onTag flags s before tag after = .ok s') : s'.rest = after := by
  unfold onTag at h
  cases tag with
  | opening name =>
    simp only [Except.ok.injEq] at h
    rw [← h]
  | closing name =>
    dsimp only at h
    split at h
    · cases h
    · split at h
      · cases h
      · simp only [Except.ok.injEq] at h
        rw [← h]

def processTags (flags : List (JsString × Bool)) (s : ConditionalState) : Except JsString JsString :=
  match _hexec : execTag s.rest with
  | none =>
    match s.stack with
    | [] => .ok (s.out ++ s.rest)
    | (name, _) :: _ =>
      .error (js "applyPromptConditionals: unclosed \x7bif:" ++ name ++ js "\x7d")
  | some (before, tag, after) =>
    match _hstep : onTag flags s before tag after with
    | .error message => .error message
    | .ok s' => processTags flags s'
  termination_by s.rest.length
  decreasing_by
    rw [onTag_rest _hstep]
    exact length_execTag _hexec

/-- `text.includes(part)`. -/
def includesText (text part : JsString) : Bool := text.tails.any part.isPrefixOf

def applyPromptConditionals (text : JsString) (flags : List (JsString × Bool)) :
    Except JsString JsString :=
  if !includesText text (js "\x7bif:") && !includesText text (js "\x7bendif:") then .ok text
  else processTags flags { rest := text, out := [], emitting := true, stack := [] }

end Bobbit.Server
