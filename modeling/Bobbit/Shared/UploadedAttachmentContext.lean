import Bobbit.Lib.CodePoints

/-!
# Uploaded attachment context

Model of `src/shared/uploaded-attachment-context.ts`: what the model reads about the
documents of a prompt. Inputs are arbitrary values; of numbers only the integers are told
apart.
-/

namespace Bobbit.Shared.UploadedAttachmentContext

open Bobbit.Lib JsString

/-- A value of the browser's input. -/
inductive Value
  | undefined
  | str (s : JsString)
  | num (n : Int)
  /-- anything else: a fraction, a boolean, an object -/
  | other
deriving DecidableEq

structure UploadedAttachmentContextInput where
  type : Value
  fileName : Value
  mimeType : Value
  size : Value
  pointer : Value
  extractedText : Value
deriving DecidableEq

structure UploadedAttachmentContextOptions where
  perFileTokenBudget : Value
  aggregateTokenBudget : Value

structure ValidatedDocumentContext where
  fileName : JsString
  mimeType : JsString
  size : Nat
  pointer : JsString
  extractedText : Option JsString
deriving DecidableEq

/-- `UPLOADED_ATTACHMENT_PER_FILE_TOKEN_BUDGET`. -/
def uploadedAttachmentPerFileTokenBudget : Nat := 2048

/-- `UPLOADED_ATTACHMENT_AGGREGATE_TOKEN_BUDGET`. -/
def uploadedAttachmentAggregateTokenBudget : Nat := 8192

def maxFileNameLength : Nat := 1024

def maxMimeTypeLength : Nat := 255

def maxPointerLength : Nat := 512

/-- `Number.MAX_SAFE_INTEGER`. -/
def maxSafeInteger : Nat := 2 ^ 53 - 1

/-! ## Validation -/

/-- `[\u0000-\u001f\u007f]`. -/
def isControl (c : UInt16) : Bool := c ≤ 0x1F || c == 0x7F

/-- `ATTACHMENT_POINTER_PATTERN`; `\s` is what `trim` strips. -/
def isAttachmentPointer (s : JsString) : Bool :=
  (js "attachment:").isPrefixOf s && s.length > (js "attachment:").length &&
    (s.drop (js "attachment:").length).all fun c => !isTrimmed c && !isControl c

def isSafeMetadata (value : Value) (maxLength : Nat) : Option JsString :=
  match value with
  | .str s =>
    if s.length > 0 && s.length ≤ maxLength && !s.any isControl then some s else none
  | _ => none

/-- A safe integer that is not negative. -/
def safeNatural : Value → Option Nat
  | .num n => if 0 ≤ n && n ≤ maxSafeInteger then some n.toNat else none
  | _ => none

/-- A candidate is none when it is no object. -/
def validateDocument (candidate : Option UploadedAttachmentContextInput) :
    Option ValidatedDocumentContext := do
  let attachment ← candidate
  guard (attachment.type = .str (js "document"))
  let fileName ← isSafeMetadata attachment.fileName maxFileNameLength
  let mimeType ← isSafeMetadata attachment.mimeType maxMimeTypeLength
  let size ← safeNatural attachment.size
  let pointer ← isSafeMetadata attachment.pointer maxPointerLength
  guard (isAttachmentPointer pointer)
  match attachment.extractedText with
  | .undefined => some ⟨fileName, mimeType, size, pointer, none⟩
  | .str text => some ⟨fileName, mimeType, size, pointer, some text⟩
  | _ => none

/-! ## Rendering -/

def countTokenUnits (value : JsString) : Nat := byteLength value

/-- `value.replace(/c/g, replacement)`. -/
def replaceUnit (c : UInt16) (replacement value : JsString) : JsString :=
  value.flatMap fun u => if u = c then replacement else [u]

def escapeMarkup (value : JsString) : JsString :=
  replaceUnit 0x3E (js "&gt;") <| replaceUnit 0x3C (js "&lt;") <|
    replaceUnit 0x27 (js "&#39;") <| replaceUnit 0x22 (js "&quot;") <|
      replaceUnit 0x26 (js "&amp;") value

def normalizeBudget (value : Value) (fallback : Nat) : Nat := (safeNatural value).getD fallback

/-- What the loop of `takeLeadingExcerpt` keeps. -/
structure ExcerptScan where
  escaped : JsString
  consumedCodeUnits : Nat
  tokenUnits : Nat

/-- The loop of `takeLeadingExcerpt`; it stops at the first code point that does not fit. -/
def takeCodePoints (tokenBudget : Nat) : List JsString → ExcerptScan → ExcerptScan
  | [], scan => scan
  | codePoint :: rest, scan =>
    if scan.tokenUnits + countTokenUnits (escapeMarkup codePoint) > tokenBudget then scan
    else
      takeCodePoints tokenBudget rest
        { escaped := scan.escaped ++ escapeMarkup codePoint
          consumedCodeUnits := scan.consumedCodeUnits + codePoint.length
          tokenUnits := scan.tokenUnits + countTokenUnits (escapeMarkup codePoint) }

structure LeadingExcerpt where
  text : JsString
  tokenUnits : Nat
  truncated : Bool

def takeLeadingExcerpt (text : JsString) (tokenBudget : Nat) : LeadingExcerpt :=
  let scan := takeCodePoints tokenBudget (codePoints text) ⟨[], 0, 0⟩
  ⟨scan.escaped, scan.tokenUnits, scan.consumedCodeUnits < text.length⟩

def attributesOf (attachment : ValidatedDocumentContext) : JsString :=
  [0x20].intercalate
    [js "filename=\"" ++ escapeMarkup attachment.fileName ++ js "\"",
      js "mime-type=\"" ++ escapeMarkup attachment.mimeType ++ js "\"",
      js "size-bytes=\"" ++ js (Nat.repr attachment.size) ++ js "\"",
      js "pointer=\"" ++ escapeMarkup attachment.pointer ++ js "\""]

def binaryNote (pointer : JsString) : JsString :=
  js "Binary content is not embedded in the prompt. Read the immutable attachment at pointer \"" ++
    pointer ++ js "\"."

def truncationNotice (pointer : JsString) : JsString :=
  js "[EXCERPT TRUNCATED: more content is available. Read the immutable attachment at pointer \"" ++
    pointer ++ js "\" for the remainder.]"

/-- The block of a document without text. -/
def binaryBlock (attachment : ValidatedDocumentContext) : JsString :=
  js "<user-attachment " ++ attributesOf attachment ++ js ">\n" ++
    binaryNote (escapeMarkup attachment.pointer) ++ js "\n" ++ js "</user-attachment>"

/-- The block of a document with an excerpt of its text. -/
def excerptBlock (attachment : ValidatedDocumentContext) (excerpt : LeadingExcerpt) : JsString :=
  unlines <|
    [js "<user-attachment " ++ attributesOf attachment ++ js ">", js "<leading-excerpt>"] ++
      (if excerpt.text.isEmpty then [] else [excerpt.text]) ++ [js "</leading-excerpt>"] ++
      (if excerpt.truncated then [truncationNotice (escapeMarkup attachment.pointer)] else []) ++
      [js "</user-attachment>"]

/-- The blocks of the documents, and what is left of the budget that they share. -/
def attachmentBlocks (perFileBudget : Nat) :
    List (Option UploadedAttachmentContextInput) → Nat → List JsString
  | [], _ => []
  | candidate :: rest, aggregateRemaining =>
    match validateDocument candidate with
    | none => attachmentBlocks perFileBudget rest aggregateRemaining
    | some attachment =>
      match attachment.extractedText with
      | none => binaryBlock attachment :: attachmentBlocks perFileBudget rest aggregateRemaining
      | some text =>
        let excerpt := takeLeadingExcerpt text (min perFileBudget aggregateRemaining)
        excerptBlock attachment excerpt ::
          attachmentBlocks perFileBudget rest (aggregateRemaining - excerpt.tokenUnits)

/-- `attachments` is none when it is no array. -/
def appendUploadedAttachmentContext (modelText : JsString)
    (attachments : Option (List (Option UploadedAttachmentContextInput)))
    (options : UploadedAttachmentContextOptions) : JsString :=
  match attachments with
  | none => modelText
  | some attachments =>
    let blocks := attachmentBlocks
      (normalizeBudget options.perFileTokenBudget uploadedAttachmentPerFileTokenBudget)
      attachments
      (normalizeBudget options.aggregateTokenBudget uploadedAttachmentAggregateTokenBudget)
    if blocks.isEmpty then modelText
    else modelText ++ (if modelText.isEmpty then [] else js "\n\n") ++
      (js "\n\n").intercalate blocks

end Bobbit.Shared.UploadedAttachmentContext
