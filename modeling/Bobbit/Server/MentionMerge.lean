import Bobbit.Lib.Json
import Bobbit.Lib.Splice

/-!
# Prompt expansions

Model of `src/server/skills/merge-mentions.ts` (`buildMergedModelText`) and
`src/server/skills/resolve-skill-expansions.ts` (`resolveSkillExpansions`). Skill expansions and file
mentions are ranges of a text with what they are replaced by. A range is not empty: it covers a
token, or a whole text that is not empty. The lookup of a skill and its expanded text are
parameters.
-/

namespace Bobbit.Server

open Lib Lib.JsString Lib.Splice

/-- `[number, number]`, over a text. -/
structure TextRange where
  start : Nat
  stop : Nat
  nonempty : start < stop

structure RangedExpansion where
  range : TextRange
  expanded : JsString

inductive MentionKind
  | text
  | image
  | binary
  | unresolved
  deriving DecidableEq

/-- A `FileMention`, as far as the merge reads it. -/
structure FileMention where
  path : JsString
  range : TextRange
  kind : MentionKind
  content : Option JsString

/-! ## `buildMergedModelText` -/

def overlaps (a b : TextRange) : Bool := a.start < b.stop && b.start < a.stop

/-- `replace(/u/g, text)`. -/
def replaceUnit (u : UInt16) (text : JsString) (s : JsString) : JsString :=
  s.flatMap fun v => if v = u then text else [v]

def escapeXmlAttr (s : JsString) : JsString :=
  replaceUnit 0x22 (js "&quot;") (replaceUnit 0x3E (js "&gt;") (replaceUnit 0x3C (js "&lt;")
    (replaceUnit 0x26 (js "&amp;") s)))

def buildFileReferenceBlock (relPath content : JsString) : JsString :=
  js "<file-reference path=\"" ++ escapeXmlAttr (replaceUnit 0x5C (js "/") relPath) ++ js "\">\n" ++
    content ++ js "\n</file-reference>"

/-- The replacements and the appended blocks that the loops over the expansions and the mentions
collect. -/
structure MergeState where
  replacements : List (Replacement UInt16)
  appended : List JsString

/-- `{ start, end, expanded }`, for a range. -/
def TextRange.replacement (range : TextRange) (expanded : JsString) : Replacement UInt16 :=
  ⟨range.start, range.stop, expanded, range.nonempty⟩

/-- The body of the loop over the skill expansions. -/
def collectSkill (s : MergeState) (e : RangedExpansion) : MergeState :=
  { s with replacements := s.replacements ++ [e.range.replacement e.expanded] }

/-- The body of the loop over the file mentions. -/
def collectMention (skillRanges : List TextRange) (s : MergeState) (m : FileMention) : MergeState :=
  match m.kind, m.content with
  | .text, some content =>
    let block := buildFileReferenceBlock m.path content
    if skillRanges.any fun sr => overlaps sr m.range then
      { s with appended := s.appended ++ [block] }
    else
      { s with replacements := s.replacements ++ [m.range.replacement block] }
  | _, _ => s

/-- `parts.join("\n\n")`. -/
def joinBlocks (parts : List JsString) : JsString := (js "\n\n").intercalate parts

def buildMergedModelText (originalText : JsString) (skillExpansions : List RangedExpansion)
    (fileMentions : List FileMention) : JsString :=
  let skillRanges := skillExpansions.map (·.range)
  let s := fileMentions.foldl (collectMention skillRanges)
    (skillExpansions.foldl collectSkill ⟨[], []⟩)
  let out := spliceAll (s.replacements.mergeSort fun a b => a.start ≤ b.start) originalText
  if s.appended = [] then out else out ++ js "\n\n" ++ joinBlocks s.appended

/-! ## `resolveSkillExpansions` -/

/-- `[\w-]`. -/
def isSkillNameUnit (u : UInt16) : Bool :=
  (0x41 ≤ u && u ≤ 0x5A) || (0x61 ≤ u && u ≤ 0x7A) || (0x30 ≤ u && u ≤ 0x39) || u == 0x5F || u == 0x2D

/-- `[\w-]+` at the front of a text, not empty. -/
def takeSkillName (text : JsString) : Option JsString :=
  let name := text.takeWhile isSkillNameUnit
  if name = [] then none else some name

/-- `/^\/([\w-]+)(?:\s+(.*))?$/`, as its two groups. The runs of name units and of white space are
taken as long as they are: a shorter one is never followed by what has to come next. -/
def prefixMatch (text : JsString) : Option (JsString × Option JsString) :=
  match text with
  | 0x2F :: rest => do
    let name ← takeSkillName rest
    let behind := rest.drop name.length
    if behind = [] then some (name, none)
    else
      let args := behind.dropWhile isTrimmed
      if args.length < behind.length ∧
          args.all (fun u => u ∉ ([0x0A, 0x0D, 0x2028, 0x2029] : List UInt16)) then
        some (name, some args)
      else none
  | _ => none

/-- `/(^|\s)\/([\w-]+)/` at a place, as the length of its first group and its second group. -/
def inlineMatch (atStart : Bool) (text : JsString) : Option (Nat × JsString) :=
  match text with
  | u :: rest =>
    match if atStart && u == 0x2F then takeSkillName rest else none with
    | some name => some (0, name)
    | none =>
      match rest with
      | 0x2F :: rest => if isTrimmed u then (takeSkillName rest).map fun name => (1, name) else none
      | _ => none
  | [] => none

/-- The matches of the inline expression from a place on, as the places of their slashes and their
names; `skip` is the number of units up to `lastIndex`. -/
def inlineMatches (place skip : Nat) : JsString → List (Nat × JsString)
  | [] => []
  | u :: rest =>
    match skip with
    | skip + 1 => inlineMatches (place + 1) skip rest
    | 0 =>
      match inlineMatch (place = 0) (u :: rest) with
      | some (prefixLen, name) =>
        (place + prefixLen, name) :: inlineMatches (place + 1) (prefixLen + name.length) rest
      | none => inlineMatches (place + 1) 0 rest

/-- The lookup of a skill by its name, and the text it expands to for some arguments:
`buildActivationHeader(…) + buildSlashSkillPrompt(…)`. -/
structure SkillSource (κ : Type) where
  getSlashSkill : JsString → Option κ
  expand : κ → JsString → JsString

/-- A `SkillExpansion`, with the skill for its name, source and path. -/
structure SkillExpansion (κ : Type) extends RangedExpansion where
  skill : κ
  args : JsString

structure ResolvedSkills (κ : Type) where
  originalText : JsString
  modelText : JsString
  expansions : List (SkillExpansion κ)
  unknown : List JsString

theorem token_nonempty (m : Nat × JsString) : m.1 < m.1 + 1 + m.2.length := by omega

def tokenRange (m : Nat × JsString) : TextRange := ⟨m.1, m.1 + 1 + m.2.length, token_nonempty m⟩

def collectInline {κ : Type} (source : SkillSource κ) (s : List (SkillExpansion κ) × List JsString)
    (m : Nat × JsString) : List (SkillExpansion κ) × List JsString :=
  match source.getSlashSkill m.2 with
  | none => if m.2 ∈ s.2 then s else (s.1, s.2 ++ [m.2])
  | some skill =>
    (s.1 ++ [{ range := tokenRange m
               expanded := source.expand skill []
               skill := skill
               args := [] }], s.2)

def RangedExpansion.replacement (e : RangedExpansion) : Replacement UInt16 :=
  e.range.replacement e.expanded

def resolveInline {κ : Type} (source : SkillSource κ) (text : JsString) (unknown : List JsString) :
    ResolvedSkills κ :=
  let s := (inlineMatches 0 0 text).foldl (collectInline source) ([], unknown)
  if s.1 = [] then { originalText := text, modelText := text, expansions := [], unknown := s.2 }
  else
    { originalText := text
      modelText := spliceAll (s.1.map fun e => e.replacement) text
      expansions := s.1
      unknown := s.2 }

def resolveSkillExpansions {κ : Type} (source : SkillSource κ) (text : JsString) :
    ResolvedSkills κ :=
  match hmatch : prefixMatch text with
  | none => resolveInline source text []
  | some (name, argsPart) =>
    match source.getSlashSkill name with
    | none => resolveInline source text [name]
    | some skill =>
      let args := trim (argsPart.getD [])
      let expanded := source.expand skill args
      { originalText := text
        modelText := expanded
        expansions := [{
          range := ⟨0, text.length, by
            cases text with
            | nil => cases hmatch
            | cons u rest => exact Nat.succ_pos _⟩
          expanded := expanded
          skill := skill
          args := args }]
        unknown := [] }

end Bobbit.Server
