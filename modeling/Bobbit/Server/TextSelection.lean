import Bobbit.Lib.CodePoints
import Bobbit.Lib.FreshName
import Bobbit.Lib.Ranges

/-!
# Text selection (`server/utils/text-selection.ts`)

`selectText` picks lines of a text by one of five modes and then cuts what it has picked down to a
budget of lines and one of bytes. Whether a pattern is a regular expression and what it matches is a
parameter.
-/

namespace Bobbit.Server.TextSelection

open Lib Lib.JsString

def defaultTailLines : Nat := 80

def defaultHeadLines : Nat := 50

def defaultGrepMaxResults : Nat := 50

def maxSelectedLines : Nat := 2000

def maxSelectedBytes : Nat := 50 * 1024

inductive TextSelectionMode where
  | full
  | grep
  | head
  | tail
  | slice
  deriving DecidableEq, Repr

structure TextSelectionOptions where
  mode : Option JsString := none
  implicitDefault : Option Bool := none
  pattern : Option JsString := none
  context : Option ℚ := none
  maxResults : Option ℚ := none
  max_results : Option ℚ := none
  lines : Option ℚ := none
  sliceFrom : Option ℚ := none
  sliceTo : Option ℚ := none

structure SelectedLine where
  number : Nat
  text : JsString
  deriving DecidableEq

structure TextSelectionResult where
  text : JsString
  mode : TextSelectionMode
  totalLines : Nat
  range : Option (Nat × Nat)
  matchCount : Option Nat
  shownMatches : Option Nat
  truncated : Bool
  truncationReason : Option JsString
  omittedHint : Option JsString
  selectedLineNumbers : List Nat
  deriving DecidableEq

/-! ## Lines -/

/-- A carriage return before a line feed belongs to the end of the line. -/
def stripReturn (line : JsString) : JsString :=
  if line.getLast? = some carriageReturn then line.dropLast else line

/-- `text.split(/\r?\n/)`, and no line of an empty text. -/
def splitLines (text : JsString) : List JsString :=
  if text = [] then []
  else
    let pieces := text.splitOn lineFeed
    pieces.dropLast.map stripReturn ++ pieces.getLast?.toList

/-- `${line.number}: `. -/
def linePrefix (line : SelectedLine) : JsString := numberText line.number ++ js ": "

def rendered (numbered : Bool) (line : SelectedLine) : JsString :=
  if numbered then linePrefix line ++ line.text else line.text

def joinSelectedLines (numbered : Bool) (lines : List SelectedLine) : JsString :=
  unlines (lines.map (rendered numbered))

/-! ## Budgets -/

/-- The code points that are taken while their bytes fit. -/
def takeCodePoints (maxBytes : Nat) : Nat → List JsString → JsString
  | _, [] => []
  | used, ch :: rest =>
    if maxBytes < used + byteLength ch then []
    else ch ++ takeCodePoints maxBytes (used + byteLength ch) rest

def truncateStringToBytes (text : JsString) (maxBytes : Nat) : JsString :=
  if maxBytes = 0 then []
  else if byteLength text ≤ maxBytes then text
  else takeCodePoints maxBytes 0 (codePoints text)

structure Capped where
  lines : List SelectedLine
  truncationReason : Option JsString

/-- What is kept of the line that does not fit. Budgets that are not positive count as zero. -/
def cutLine (numbered : Bool) (line : SelectedLine) (remaining : Nat) : List SelectedLine :=
  if remaining = 0 then []
  else if numbered then
    let lineBudget := remaining - byteLength (linePrefix line)
    if lineBudget = 0 then []
    else [{ line with text := truncateStringToBytes line.text lineBudget }]
  else [{ line with text := truncateStringToBytes line.text remaining }]

def capFrom (numbered : Bool) (kept : List SelectedLine) (bytes : Nat) :
    List SelectedLine → Capped
  | [] => ⟨kept, none⟩
  | line :: rest =>
    if maxSelectedLines ≤ kept.length then
      ⟨kept, some (js "selected output exceeded " ++ numberText maxSelectedLines ++
        js " line budget")⟩
    else
      let separator := if kept.isEmpty then 0 else 1
      let renderedBytes := byteLength (rendered numbered line)
      if maxSelectedBytes < bytes + separator + renderedBytes then
        ⟨kept ++ cutLine numbered line (maxSelectedBytes - bytes - separator),
          some (js "selected output exceeded " ++ numberText maxSelectedBytes ++
            js " byte budget")⟩
      else capFrom numbered (kept ++ [line]) (bytes + separator + renderedBytes) rest

def capSelectedLines (lines : List SelectedLine) (numbered : Bool) : Capped :=
  capFrom numbered [] 0 lines

/-! ## A budget alone -/

structure TextBudgetResult where
  text : JsString
  truncated : Bool
  truncationReason : Option JsString
  lines : Nat
  bytes : Nat

/-- The lines that are kept, and why there are no more. -/
def keepFrom (maxLines maxBytes : Nat) (kept : List JsString) (bytes : Nat) :
    List JsString → List JsString × Option JsString
  | [] => (kept, none)
  | line :: rest =>
    if maxLines ≤ kept.length then
      (kept, some (js "selected output exceeded " ++ numberText maxLines ++ js " line budget"))
    else
      let prefixBytes := if kept.isEmpty then 0 else 1
      let lineBytes := byteLength line
      if maxBytes < bytes + prefixBytes + lineBytes then
        let remaining := maxBytes - bytes - prefixBytes
        (if remaining = 0 then kept else kept ++ [truncateStringToBytes line remaining],
          some (js "selected output exceeded " ++ numberText maxBytes ++ js " byte budget"))
      else keepFrom maxLines maxBytes (kept ++ [line]) (bytes + prefixBytes + lineBytes) rest

def truncateTextToBudget (text : JsString) (maxLines maxBytes : Nat) : TextBudgetResult :=
  let kept := keepFrom maxLines maxBytes [] 0 (splitLines text)
  let out := unlines kept.1
  ⟨out, kept.2.isSome, kept.2, kept.1.length, byteLength out⟩

/-! ## Requests -/

inductive Request where
  | full
  | head (lines : Nat)
  | tail (lines : Nat)
  | slice (sliceFrom sliceTo : Nat)
  | grep (test : JsString → Bool) (context maxResults : Nat)

def Request.mode : Request → TextSelectionMode
  | full => .full
  | head _ => .head
  | tail _ => .tail
  | slice _ _ => .slice
  | grep _ _ _ => .grep

/-- `assertPositiveInteger`, with the number that has been checked. -/
def positiveInteger (name : String) (value : Option ℚ) : Except JsString (Option Nat) :=
  match value with
  | none => .ok none
  | some q =>
    if q.den ≠ 1 ∨ q < 1 then .error (js name ++ js " must be an integer >= 1")
    else .ok (some q.num.toNat)

/-- `assertNonNegativeInteger`, with the number that has been checked. -/
def nonNegativeInteger (name : String) (value : Option ℚ) : Except JsString (Option Nat) :=
  match value with
  | none => .ok none
  | some q =>
    if q.den ≠ 1 ∨ q < 0 then .error (js name ++ js " must be a non-negative integer")
    else .ok (some q.num.toNat)

def modeOf (mode : JsString) : Option TextSelectionMode :=
  if mode = js "full" then some .full
  else if mode = js "grep" then some .grep
  else if mode = js "head" then some .head
  else if mode = js "tail" then some .tail
  else if mode = js "slice" then some .slice
  else none

/-- The checks of the options. `compile` is `new RegExp` with its `test`, or the error's message. -/
def request (compile : JsString → Except JsString (JsString → Bool))
    (options : TextSelectionOptions) : Except JsString Request := do
  let mode ← match modeOf (options.mode.getD (js "tail")) with
    | some mode => pure mode
    | none => throw (js "mode must be one of: full, grep, head, tail, slice")
  let lines ← positiveInteger "lines" options.lines
  let context ← nonNegativeInteger "context" options.context
  let maxResults ← positiveInteger "max_results" (options.maxResults.or options.max_results)
  let sliceFrom ← positiveInteger "from" options.sliceFrom
  let sliceTo ← positiveInteger "to" options.sliceTo
  match mode with
  | .full => return .full
  | .head => return .head (lines.getD defaultHeadLines)
  | .tail => return .tail (lines.getD defaultTailLines)
  | .slice =>
    match sliceFrom, sliceTo with
    | some f, some t =>
      if t < f then throw (js "from must be less than or equal to to") else return .slice f t
    | _, _ => throw (js "slice mode requires from and to line numbers")
  | .grep =>
    match options.pattern.filter (· ≠ []) with
    | none => throw (js "grep mode requires a non-empty pattern")
    | some pattern =>
      match compile pattern with
      | .error message => throw (js "Invalid regex pattern: " ++ message)
      | .ok test => return .grep test (context.getD 0) (maxResults.getD defaultGrepMaxResults)

/-! ## Selection -/

/-- `lines.map((line, i) => ({ number: first + i, text: line }))`. -/
def numberLines (first : Nat) (lines : List JsString) : List SelectedLine :=
  lines.mapIdx fun i line => ⟨first + i, line⟩

def matchNumbers (test : JsString → Bool) (rawLines : List JsString) : List Nat :=
  ((numberLines 1 rawLines).filter fun line => test line.text).map (·.number)

def window (totalLines context lineNo : Nat) : NumberRange :=
  ⟨max 1 (lineNo - context), min totalLines (lineNo + context)⟩

structure Selected where
  lines : List SelectedLine
  numbered : Bool := false
  matchCount : Option Nat := none
  shownMatches : Option Nat := none
  truncationReason : Option JsString := none

def select (rawLines : List JsString) : Request → Selected
  | .full => { lines := numberLines 1 rawLines }
  | .head requested =>
    { lines := numberLines 1 (rawLines.take (min requested rawLines.length)) }
  | .tail requested =>
    let start := rawLines.length - min requested rawLines.length
    { lines := numberLines (start + 1) (rawLines.drop start) }
  | .slice f t =>
    let start := max f 1
    let stop := min t rawLines.length
    { lines :=
        if start ≤ stop then numberLines start ((rawLines.take stop).drop (start - 1)) else []
      numbered := true }
  | .grep test context maxResults =>
    let found := matchNumbers test rawLines
    let ranges := (found.take maxResults).map (window rawLines.length context)
    { lines := (NumberRange.mergeRanges ranges).flatMap fun range =>
        range.numbers.map fun lineNo => ⟨lineNo, rawLines.getD (lineNo - 1) []⟩
      numbered := true
      matchCount := some found.length
      shownMatches := some (min found.length maxResults)
      truncationReason :=
        if maxResults < found.length then
          some (js "grep results exceeded max_results=" ++ numberText maxResults)
        else none }

/-- The reasons of the selection and of the budgets. -/
def joinReasons : Option JsString → Option JsString → Option JsString
  | some a, some b => some (a ++ js "; " ++ b)
  | some a, none => some a
  | none, b => b

def omittedHint (implicitDefault : Bool) (mode : TextSelectionMode) (totalLines : Nat)
    (numbers : List Nat) : Option JsString :=
  match numbers with
  | [] => none
  | firstShown :: _ =>
    if mode = .tail && implicitDefault && numbers.length < totalLines then
      let omitted := numberText (firstShown - 1)
      some (js "[" ++ omitted ++ js " lines omitted — use mode=\"grep\" with " ++
        js "pattern=\"error|failed\", or mode=\"slice\" from=1 to=" ++ omitted ++
        js ", to inspect more]")
    else none

def selectRequest (text : JsString) (request : Request) (implicitDefault : Bool) :
    TextSelectionResult :=
  let rawLines := splitLines text
  let selected := select rawLines request
  let capped := capSelectedLines selected.lines selected.numbered
  let numbers := capped.lines.map (·.number)
  { text := joinSelectedLines selected.numbered capped.lines
    mode := request.mode
    totalLines := rawLines.length
    range := numbers.head?.bind fun first => numbers.getLast?.map fun last => (first, last)
    matchCount := selected.matchCount
    shownMatches := selected.shownMatches
    truncated := selected.truncationReason.isSome || capped.truncationReason.isSome
    truncationReason := joinReasons selected.truncationReason capped.truncationReason
    omittedHint := omittedHint implicitDefault request.mode rawLines.length numbers
    selectedLineNumbers := numbers }

def selectText (compile : JsString → Except JsString (JsString → Bool)) (text : JsString)
    (options : TextSelectionOptions) : Except JsString TextSelectionResult :=
  (request compile options).map fun request =>
    selectRequest text request (options.implicitDefault.getD options.mode.isNone)

end Bobbit.Server.TextSelection
