import Bobbit.Server.AuthorSidecar
import Bobbit.Shared.MessageAuthor

/-!
# Author prefixes: dispatch and projection

Model of the two ends of an author prefix: `preparePromptAuthorDispatch` in
`src/server/agent/session-manager.ts`, which puts it before the text that Pi is given and records
it in the author sidecar, and `projectCorrelatedPromptMessage` in
`src/server/agent/author-sidecar.ts`, which takes it off the row that Pi echoes. A row is an
object, given by its properties. Of the session only the binding it is given matters here.
-/

namespace Bobbit.Server.AuthorProjection

open Bobbit.Lib Bobbit.Shared.MessageAuthor AuthorSidecar

variable {ν : Type} (lower : JsString → JsString) (base : Platform Author)

/-- The sidecar's environment with the authors of `message-author.ts`. -/
def platform : Platform Author :=
  { base with
    modelPrefixForPromptAuthor := modelPrefixForPromptAuthor lower
    isMessageAuthor := isMessageAuthor }

/-! ## Dispatch -/

/-- `evidence` of a dispatch. -/
structure Evidence where
  intentId : JsString
  attemptId : Option JsString
  dispatchEpoch : Option Rat

/-- The fields of a binding that the projection reads. -/
structure PromptBinding where
  author : Author
  modelPrefix : Option JsString
  modelTextDigest : Option JsString
  intentId : Option JsString
  attemptId : Option JsString
deriving DecidableEq

/-- `PreparedPromptAuthorDispatch`: the text for Pi and the binding that is pending for it. -/
structure PreparedPromptAuthorDispatch where
  piText : JsString
  pending : PromptBinding
  sidecarPersisted : Bool

/-- `appendPromptAuthorDispatch`: the record must be a valid one, and `appended` says whether the
    file takes it. -/
def appendPromptAuthorDispatch (appended : Bool) (promptId : JsString) (evidence : Option Evidence)
    (attemptId : JsString) (now : Rat) (modelText source : JsString) (author : Author)
    (modelPrefix : Option JsString) : Bool :=
  isDispatchRecord (platform lower base) {
    promptId
    intentId := evidence.map (·.intentId)
    attemptId := evidence.map fun _ => attemptId
    dispatchEpoch := evidence.map fun e => e.dispatchEpoch.getD now
    dispatchedAt := now
    modelTextDigest := (base.digestPromptModelText modelText).getD []
    source, author, modelPrefix } && appended

/-- `preparePromptAuthorDispatch`; `freshAttemptId` is what `promptAttemptId` makes. -/
def preparePromptAuthorDispatch (appended : Bool) (freshAttemptId promptId baseModelText : JsString)
    (source : JsString) (author : Author) (now : Rat) (evidence : Option Evidence) :
    PreparedPromptAuthorDispatch :=
  let desiredPrefix := modelPrefixForPromptAuthor lower author
  let desiredPiText := desiredPrefix.getD [] ++ baseModelText
  let attemptId := (evidence.bind (·.attemptId)).getD freshAttemptId
  let sidecarPersisted := appendPromptAuthorDispatch lower base appended promptId evidence attemptId
    now desiredPiText source author desiredPrefix
  -- without a record Pi is given the text as it is
  let piText := if sidecarPersisted then desiredPiText else baseModelText
  { piText
    pending := {
      author
      modelPrefix := if sidecarPersisted then desiredPrefix else none
      modelTextDigest := base.digestPromptModelText piText
      intentId := evidence.map (·.intentId)
      attemptId := some attemptId }
    sidecarPersisted }

/-! ## Projection -/

def blockText? (block : Json ν) : Option JsString :=
  match block with
  | .obj fields =>
    match Json.getField fields (js "type"), Json.getField fields (js "text") with
    | some (.str type), some (.str text) => if type = js "text" then some text else none
    | _, _ => none
  | _ => none

/-- `{ ...block, text }`. -/
def withText (block : Json ν) (text : JsString) : Json ν :=
  match block with
  | .obj fields => .obj (Json.setField fields (js "text") (.str text))
  | other => other

/-- `extractPromptModelText` of a row: adjacent text blocks are consecutive fragments. -/
def extractPromptModelText (message : List (JsString × Json ν)) : Option JsString :=
  match Json.getField message (js "content") with
  | some (.str text) => some text
  | some (.arr blocks) =>
    let parts := blocks.filterMap blockText?
    if parts.isEmpty then none else some parts.flatten
  | _ => none

def promptAuthorBindingDigestMatchesText (binding : PromptBinding) (modelText : JsString) : Bool :=
  validDigest binding.modelTextDigest &&
    match base.digestPromptModelText modelText with
    | some candidate =>
      ! candidate.isEmpty && binding.modelTextDigest.any fun digest =>
        digestBytes digest == digestBytes candidate
    | none => false

/-- The loop over the blocks: the prefix is taken off the first text block, when that block
    starts with it; no other block is looked at. -/
def stripFirstTextBlock (modelPrefix : JsString) : List (Json ν) → Option (List (Json ν))
  | [] => none
  | block :: rest =>
    match blockText? block with
    | none => (stripFirstTextBlock modelPrefix rest).map (block :: ·)
    | some text =>
      if modelPrefix.isPrefixOf text then
        some (withText block (text.drop modelPrefix.length) :: rest)
      else none

/-- The content without the prefix, where the code changes it. -/
def strippedContent (modelPrefix : JsString) : Option (Json ν) → Option (Json ν)
  | some (.str text) =>
    if modelPrefix.isPrefixOf text then some (.str (text.drop modelPrefix.length)) else none
  | some (.arr blocks) => (stripFirstTextBlock modelPrefix blocks).map .arr
  | _ => none

/-- `projectedContent`, when `contentChanged`: only on the exact raw text, and only for the prefix
    that the author has today. -/
def projectedContent (message : List (JsString × Json ν)) (binding : PromptBinding) :
    Option (Json ν) := do
  let candidateModelText ← extractPromptModelText message
  let modelPrefix ← binding.modelPrefix
  if promptAuthorBindingDigestMatchesText base binding candidateModelText &&
      hasValidModelPrefix (platform lower base) binding.author (some modelPrefix) then
    strippedContent modelPrefix (Json.getField message (js "content"))
  else none

def sameAuthor (left : Option (Json ν)) (right : Author) : Bool :=
  left.bind messageAuthor? = some right

/-- `{ ...message, [key]: value }` for a value that is there. -/
def assign (key : JsString) (value : Option (Json ν)) (message : List (JsString × Json ν)) :
    List (JsString × Json ν) :=
  match value with
  | some value => Json.setField message key value
  | none => message

/-- The row already carries this id. -/
def carries (message : List (JsString × Json ν)) (key : JsString) (id : JsString) : Bool :=
  (Json.getField message key).bind Json.string? = some id

def projectCorrelatedPromptMessage (message : List (JsString × Json ν)) (binding : PromptBinding) :
    List (JsString × Json ν) :=
  let content := projectedContent lower base message binding
  let authorChanged := ! sameAuthor (Json.getField message (js "author")) binding.author
  let intentChanged := binding.intentId.any fun id => ! carries message (js "deliveryIntentId") id
  let attemptChanged := binding.attemptId.any fun id => ! carries message (js "deliveryAttemptId") id
  if content.isNone && ! authorChanged && ! intentChanged && ! attemptChanged then message
  else
    assign (js "deliveryAttemptId") (binding.attemptId.map .str)
      (assign (js "deliveryIntentId") (binding.intentId.map .str)
        (assign (js "author") (some binding.author.toJson)
          (assign (js "content") content message)))

end Bobbit.Server.AuthorProjection
