import Bobbit.Lib.JsonRecord

/-!
# Message authors

Model of `src/shared/message-author.ts`: authors, and the rows that have one
(`isAccountablePromptMessage`); and of `modelPrefixForPromptAuthor` in
`src/server/agent/message-author.ts`: the text that dispatch puts before a prompt to say who wrote
it. `lower` is `String.prototype.toLowerCase`.
-/

namespace Bobbit.Shared.MessageAuthor

open Bobbit.Lib

/-- `MessageAuthorKind`. -/
inductive Kind
  | user | agent | system
deriving DecidableEq, Repr

/-- `MessageAuthor`. -/
structure Author where
  kind : Kind
  id : JsString
  label : JsString
deriving DecidableEq

def Kind.ofText (s : JsString) : Option Kind :=
  if s = js "user" then some .user
  else if s = js "agent" then some .agent
  else if s = js "system" then some .system
  else none

def Kind.text : Kind → JsString
  | .user => js "user"
  | .agent => js "agent"
  | .system => js "system"

/-- `MAX_MESSAGE_AUTHOR_ID_LENGTH` and `MAX_MESSAGE_AUTHOR_LABEL_LENGTH`. -/
def maxMessageAuthorLength : Nat := 256

/-- `isBoundedNonEmptyString` of a string. -/
def isBoundedNonEmptyString (value : JsString) (maxLength : Nat) : Bool :=
  value.length ≤ maxLength && ! (JsString.trim value).isEmpty

/-- `isMessageAuthor` of an author of the right shape. -/
def isMessageAuthor (author : Author) : Bool :=
  isBoundedNonEmptyString author.id maxMessageAuthorLength &&
    isBoundedNonEmptyString author.label maxMessageAuthorLength

/-- `isMessageAuthor` of any value, with the fields it finds. -/
def messageAuthor? {ν : Type} (value : Json ν) : Option Author := do
  let kind ← (value.get (js "kind")).bind Json.string? >>= Kind.ofText
  let id ← (value.get (js "id")).bind Json.string?
  let label ← (value.get (js "label")).bind Json.string?
  if isMessageAuthor ⟨kind, id, label⟩ then some ⟨kind, id, label⟩ else none

def Author.toJson {ν : Type} (author : Author) : Json ν :=
  .obj [(js "kind", .str author.kind.text), (js "id", .str author.id),
    (js "label", .str author.label)]

/-- `replace(/[…]+/g, r)`: every run of such units becomes one `r`. -/
def replaceRuns (p : UInt16 → Bool) (r : UInt16) (inRun : Bool) : JsString → JsString
  | [] => []
  | c :: rest =>
    if p c then
      if inRun then replaceRuns p r true rest else r :: replaceRuns p r true rest
    else c :: replaceRuns p r false rest

/-- `[\u0000-\u001f\u007f-\u009f]`. -/
def isControl (c : UInt16) : Bool := c ≤ 0x1F || (0x7F ≤ c && c ≤ 0x9F)

/-- `normalizeMessageAuthorLabel` of a string. -/
def normalizeMessageAuthorLabel (value : JsString) : Option JsString :=
  let normalized := replaceRuns JsString.isTrimmed 0x20 false
    (JsString.trim (value.map fun c => if isControl c then 0x20 else c))
  if normalized.isEmpty then none else some normalized

/-- `[a-z0-9]`. -/
def isLowerAlnum (c : UInt16) : Bool := (0x61 ≤ c && c ≤ 0x7A) || (0x30 ≤ c && c ≤ 0x39)

def isJoiner (c : UInt16) : Bool := c == 0x2D || c == 0x5F

variable (lower : JsString → JsString)

/-- The part of `sanitizeAuthorIdComponent` that the value and the fallback share: what is no
    safe unit becomes a hyphen, and joiners at the ends are cut off. -/
def safeComponent (value : JsString) (maxLength : Nat) : JsString :=
  let safe := replaceRuns (fun c => ! (isLowerAlnum c || isJoiner c)) 0x2D false (lower value)
  let joined := replaceRuns (· == 0x2D) 0x2D false safe
  ((joined.dropWhile isJoiner).rdropWhile isJoiner).take (max 1 maxLength)

/-- `sanitizeAuthorIdComponent`. The fallback's hyphens stay as they are. -/
def sanitizeAuthorIdComponent (value : JsString) (fallback : JsString := js "unknown")
    (maxLength : Nat := 64) : JsString :=
  let normalized := safeComponent lower (JsString.trim value) maxLength
  if ! normalized.isEmpty then normalized
  else
    let safe := replaceRuns (fun c => ! (isLowerAlnum c || isJoiner c)) 0x2D false (lower fallback)
    let safeFallback :=
      ((safe.dropWhile isJoiner).rdropWhile isJoiner).take (max 1 maxLength)
    if safeFallback.isEmpty then js "unknown" else safeFallback

/-- `author.id.replace(/^(?:user|staff|session):/, "")`. -/
def displayRemainder (id : JsString) : JsString :=
  match [js "user:", js "staff:", js "session:"].find? (·.isPrefixOf id) with
  | some scheme => id.drop scheme.length
  | none => id

def formatDisplayAuthorId (author : Author) : Option JsString :=
  if ! isMessageAuthor author || author.kind = .system then none
  else
    let remainder := displayRemainder author.id
    if (JsString.trim remainder).isEmpty then none
    else if author.kind = .user then some remainder
    -- an id with nothing safe in it must not become the fallback
    else if ! remainder.any (fun c => isLowerAlnum c || (0x41 ≤ c && c ≤ 0x5A)) then none
    else
      let short := (sanitizeAuthorIdComponent lower remainder).take 6
      if short.isEmpty then none else some short

def modelPrefixForPromptAuthor (author : Author) : Option JsString :=
  if ! isMessageAuthor author then none
  else
    match author.kind with
    | .user => none
    | .system => some (js "[System]: ")
    | .agent =>
      match normalizeMessageAuthorLabel author.label, formatDisplayAuthorId lower author with
      | some label, some displayId => some (js "[" ++ label ++ js " (" ++ displayId ++ js ")]: ")
      | _, _ => none

/-! ## Accountable rows -/

section Rows

variable {ν : Type}

/-- `isToolResultRole` of a property. -/
def isToolResultRole (role : Option (Json ν)) : Bool :=
  match role.bind Json.string? with
  | some role => role ∈ [js "toolResult", js "tool_result", js "tool"]
  | none => false

def isToolResultBlock (value : Json ν) : Bool :=
  (match (value.get (js "type")).bind Json.string? with
    | some type => type ∈ [js "tool_result", js "toolResult"]
    | none => false) ||
  isToolResultRole (value.get (js "role"))

def isUserRole (message : Json ν) : Bool :=
  match (message.get (js "role")).bind Json.string? with
  | some role => role ∈ [js "user", js "user-with-attachments"]
  | none => false

def isBlankTextBlock (block : Json ν) : Bool :=
  (block.get (js "type")).bind Json.string? = some (js "text") &&
    ((block.get (js "text")).bind Json.string?).any fun text => (JsString.trim text).isEmpty

/-- `isToolResultOnlyMessage`: some block is a tool result, and the others are blank. -/
def isToolResultOnlyMessage (message : Json ν) : Bool :=
  isToolResultRole (message.get (js "role")) ||
    (isUserRole message &&
      match message.get (js "content") with
      | some (.arr blocks) =>
        blocks.any isToolResultBlock &&
          blocks.all fun block => isToolResultBlock block || isBlankTextBlock block
      | _ => false)

def isAccountablePromptMessage (message : Json ν) : Bool :=
  isUserRole message && ! isToolResultOnlyMessage message

end Rows

end Bobbit.Shared.MessageAuthor
