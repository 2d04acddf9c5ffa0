import Bobbit.Lib.JsSet
import Bobbit.Lib.JsonRecord
import Bobbit.Server.TemplateVars

/-!
# The review annotation store (`server/review-annotation-store.ts`)

Every operation reads the session's file, changes the data and writes the file again. A read that
fails, or finds no JSON object, gives empty data; a write that fails is logged and forgotten. The
sessions have a file each, so one of them is modelled, as what `JSON.parse` makes of its text:
`reread v` is `JSON.parse(JSON.stringify(v, null, 2))`.
-/

namespace Bobbit.Server.ReviewAnnotations

open Lib Lib.JsString Lib.Json

variable {ν : Type} [JsNumber ν]

/-- What stands under the file's name. -/
inductive FileText (ν : Type) where
  | missing
  | notJson
  | json (value : Json ν)

/-- `ReviewAnnotationData`. The annotations are the properties of the object as they were read. -/
structure ReviewAnnotationData (ν : Type) where
  annotations : List (JsString × Json ν) := []
  submitted : Bool := false
  submittedReviewIds : List JsString := []
  closedReviewIds : List JsString := []
  activeFileIds : List (JsString × Json ν) := []

def emptyData : ReviewAnnotationData ν := {}

/-- `id.trim().length > 0`. -/
def notBlank (id : JsString) : Bool := trim id ≠ []

def stringIds (value : Option (Json ν)) : List JsString :=
  (JsSet.ofList ((((value.bind array?).getD []).filterMap string?).filter notBlank)).members

/-- The properties of an object, and none of what is no object. -/
def properties : Option (Json ν) → List (JsString × Json ν)
  | some (.obj fields) => fields
  | _ => []

def activeFileIds (value : Option (Json ν)) : List (JsString × Json ν) :=
  (properties value).filter fun entry => notBlank entry.1 && (string? entry.2).any notBlank

/-- `parse`; `none` is the error it throws. -/
def parse : Json ν → Option (ReviewAnnotationData ν)
  | .obj value =>
    some {
      annotations := properties (getField value (js "annotations"))
      submitted := match getField value (js "submitted") with
        | some (.bool b) => b
        | _ => false
      submittedReviewIds := stringIds (getField value (js "submittedReviewIds"))
      closedReviewIds := stringIds (getField value (js "closedReviewIds"))
      activeFileIds := activeFileIds (getField value (js "activeFileIds")) }
  | _ => none

/-- `read`; `fails` says that the existence check or the read of the file fails. -/
def read (fails : Bool) (file : FileText ν) : ReviewAnnotationData ν :=
  match fails, file with
  | false, .json value => (parse value).getD emptyData
  | _, _ => emptyData

/-- The object that `writeChecked` stringifies. -/
def toJson (data : ReviewAnnotationData ν) : Json ν :=
  .obj [
    (js "annotations", .obj data.annotations),
    (js "submitted", .bool data.submitted),
    (js "submittedReviewIds", .arr (data.submittedReviewIds.map .str)),
    (js "closedReviewIds", .arr (data.closedReviewIds.map .str)),
    (js "activeFileIds", .obj data.activeFileIds)]

/-- How the write of the file goes: through, not at all, or it breaks off (a proper beginning of
    the text of an object is no JSON). -/
inductive WriteOutcome where
  | done
  | refused
  | torn
  deriving DecidableEq

/-! ## Properties of plain objects -/

/-- `delete object[key]`. -/
def eraseField (fields : List (JsString × Json ν)) (key : JsString) : List (JsString × Json ν) :=
  fields.filter (·.1 ≠ key)

/-- The name of a property that every plain object inherits. -/
def isInherited (key : JsString) : Bool := TemplateVars.inheritedProperties.any (·.1 = key)

def isFalsy : Json ν → Bool
  | .null | .bool false | .str [] => true
  | .num n => ! JsNumber.truthy n
  | _ => false

/-- What `data.annotations[docTitle]` is to the operations. -/
inductive Found (ν : Type) where
  | falsy
  | items (items : List (Json ν))
  /-- truthy, and no array: its `findIndex` and `filter` are no functions -/
  | other

def find (fields : List (JsString × Json ν)) (docTitle : JsString) : Found ν :=
  match getField fields docTitle with
  | some (.arr items) => .items items
  | some value => if isFalsy value then .falsy else .other
  | none => if isInherited docTitle then .other else .falsy

/-- `a.id === id`; `none` is the `TypeError` of `null.id`. -/
def hasId (id : JsString) : Json ν → Option Bool
  | .null => none
  | item => some (((item.get (js "id")).bind string?) == some id)

def findIndex (id : JsString) : List (Json ν) → Option (Option Nat)
  | [] => some none
  | item :: rest =>
    match hasId id item with
    | none => none
    | some true => some (some 0)
    | some false => (findIndex id rest).map (·.map (· + 1))

/-! ## Operations -/

inductive ReviewTombstoneState where
  | submitted
  | closed
  deriving DecidableEq

inductive Operation (ν : Type) where
  | addAnnotation (docTitle id : JsString) ( annotation : Json ν)
  | removeAnnotation (docTitle annotationId : JsString)
  | clearAnnotations (docTitle : JsString)
  | clearAll
  | setSubmitted (value : Bool)
  | getReviewTombstone (reviewId : JsString)
  | setReviewTombstone (reviewId : JsString) (state : ReviewTombstoneState)
    (activeFileId : Option JsString)
  | clearReviewTombstone (reviewId : JsString) (clearLegacySubmitted : Bool)
  | writeAll (annotations : List (JsString × Json ν)) (submitted : Option Bool)

/-- What an operation makes of the data. -/
inductive Change (ν : Type) where
  /-- it returns without a write, or throws a `TypeError` before -/
  | nothing
  | writes (data : ReviewAnnotationData ν)

variable (data : ReviewAnnotationData ν)

def addAnnotation (docTitle id : JsString) ( annotation : Json ν) : Change ν :=
  let put (items : List (Json ν)) : Change ν :=
    .writes { data with annotations := setField data.annotations docTitle (.arr items) }
  match find data.annotations docTitle with
  | .other => .nothing
  | .falsy => put [ annotation]
  | .items items =>
    match findIndex id items with
    | none => .nothing
    | some (some idx) => put (items.set idx annotation)
    | some none => put (items ++ [ annotation])

def removeAnnotation (docTitle annotationId : JsString) : Change ν :=
  match find data.annotations docTitle with
  | .falsy | .other => .nothing
  | .items items =>
    match items.mapM (hasId annotationId) with
    | none => .nothing
    | some matched =>
      let kept := ((items.zip matched).filter (! ·.2)).map (·.1)
      .writes { data with
        annotations :=
          if kept.isEmpty then eraseField data.annotations docTitle
          else setField data.annotations docTitle (.arr kept) }

def clearAnnotations (docTitle : JsString) : Change ν :=
  match find data.annotations docTitle with
  | .falsy => .nothing
  | _ => .writes { data with annotations := eraseField data.annotations docTitle }

def getReviewTombstone (reviewId : JsString) : Change ν :=
  if reviewId ∈ data.submittedReviewIds ∨ reviewId ∈ data.closedReviewIds ∨ data.submitted = false then
    .nothing
  else
    .writes { data with
      submitted := false
      submittedReviewIds := data.submittedReviewIds ++ [reviewId] }

def setReviewTombstone (reviewId : JsString) (state : ReviewTombstoneState)
    (activeFileId : Option JsString) : Change ν :=
  let submittedReviewIds := data.submittedReviewIds.filter (· ≠ reviewId)
  let closedReviewIds := data.closedReviewIds.filter (· ≠ reviewId)
  .writes { data with
    submittedReviewIds :=
      if state = .submitted then submittedReviewIds ++ [reviewId] else submittedReviewIds
    closedReviewIds := if state = .submitted then closedReviewIds else closedReviewIds ++ [reviewId]
    activeFileIds :=
      match activeFileId.filter (· ≠ []) with
      | some fileId =>
        -- without an own property the assignment runs the setter that objects inherit
        if reviewId = js "__proto__" ∧ getField data.activeFileIds reviewId = none then
          data.activeFileIds
        else setField data.activeFileIds reviewId (.str fileId)
      | none => eraseField data.activeFileIds reviewId }

def clearReviewTombstone (reviewId : JsString) (clearLegacySubmitted : Bool) : Change ν :=
  let submittedReviewIds := data.submittedReviewIds.filter (· ≠ reviewId)
  let closedReviewIds := data.closedReviewIds.filter (· ≠ reviewId)
  let clearsExact := submittedReviewIds.length ≠ data.submittedReviewIds.length ∨
    closedReviewIds.length ≠ data.closedReviewIds.length
  let clearsLegacy := clearLegacySubmitted = true ∧ data.submitted = true
  let clearsActiveFile := (getField data.activeFileIds reviewId).isSome = true
  if ¬ clearsExact ∧ ¬ clearsLegacy ∧ ¬ clearsActiveFile then .nothing
  else
    .writes { data with
      submittedReviewIds := submittedReviewIds
      closedReviewIds := closedReviewIds
      activeFileIds := eraseField data.activeFileIds reviewId
      submitted := if clearLegacySubmitted then false else data.submitted }

/-- What an operation makes of the data it has read. -/
def apply : Operation ν → Change ν
  | Operation.addAnnotation docTitle id annotation => addAnnotation data docTitle id annotation
  | Operation.removeAnnotation docTitle annotationId => removeAnnotation data docTitle annotationId
  | .clearAnnotations docTitle => clearAnnotations data docTitle
  | .clearAll => .writes { data with annotations := [] }
  | .setSubmitted value => .writes { data with submitted := value }
  | .getReviewTombstone reviewId => getReviewTombstone data reviewId
  | .setReviewTombstone reviewId state activeFileId =>
    setReviewTombstone data reviewId state activeFileId
  | .clearReviewTombstone reviewId clearLegacy => clearReviewTombstone data reviewId clearLegacy
  | .writeAll annotations submitted =>
    .writes { data with annotations := annotations, submitted := submitted.getD data.submitted }

/-- One call, with what goes wrong in it. -/
structure Call (ν : Type) where
  operation : Operation ν
  readFails : Bool
  write : WriteOutcome

def step (file : FileText ν) (call : Call ν) : FileText ν :=
  match apply (read call.readFails file) call.operation with
  | .nothing => file
  | .writes data =>
    match call.write with
    | .done => .json (reread (toJson data))
    | .refused => file
    | .torn => .notJson

end Bobbit.Server.ReviewAnnotations
