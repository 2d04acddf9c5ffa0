import Bobbit.Lib.Json

/-!
# Worktree reference guard

Model of `src/server/agent/worktree-reference-guard.ts`: whether a live session still uses a
worktree that is to be removed. The host gives `path.resolve`, the native `realpath` and
`toLowerCase`.
-/

namespace Bobbit.Server.WorktreeGuard

open Lib Lib.JsString

def slash : UInt16 := 0x2F
def backslash : UInt16 := 0x5C

/-- `replace(/\\/g, "/")`. -/
def forwardSlashes (s : JsString) : JsString := s.map fun c => if c = backslash then slash else c

/-- `toLowerCase`, with what the Unicode tables say about separators and white space. -/
structure CaseMap where
  toLowerCase : JsString → JsString
  eq_nil : ∀ s, toLowerCase s = [] ↔ s = []
  /-- a separator is no context for the letters around it -/
  append_slash : ∀ s t, toLowerCase (s ++ slash :: t) = toLowerCase s ++ slash :: toLowerCase t
  slash_mem : ∀ s, slash ∈ toLowerCase s → slash ∈ s
  forwardSlashes : ∀ s, toLowerCase (forwardSlashes s) = forwardSlashes (toLowerCase s)
  trim : ∀ s, toLowerCase (trim s) = trim (toLowerCase s)

/-- The machine that the gateway runs on. `realpathNative` gives nothing when it rejects. -/
structure Host extends CaseMap where
  win32 : Bool
  resolve : JsString → JsString
  realpathNative : JsString → Option JsString

structure WorktreeReferenceRecord where
  id : Option String
  archived : Bool
  worktreePath : Option JsString
  cwd : Option JsString
  /-- `Object.values` of the record's `repoWorktrees` -/
  repoWorktrees : List JsString

/-- A string that counts as a path: `undefined` and the empty string do not. -/
def given (p : Option JsString) : Option JsString := p.filter (· ≠ [])

variable (host : Host)

/-! ## Texts -/

/-- `while (length > 1 && endsWith("/")) slice(0, -1)`, of a reversed string. -/
def stripSlashes : JsString → JsString
  | c :: d :: rest => if c = slash then stripSlashes (d :: rest) else c :: d :: rest
  | s => s

def normalizeWorktreeHostPath (p : Option JsString) : Option JsString :=
  match given p with
  | none => none
  | some p =>
    let normalized := (stripSlashes (forwardSlashes (trim p)).reverse).reverse
    if normalized = [] then none else some (host.toLowerCase normalized)

def isSameOrChildPath (candidate reference : JsString) : Bool :=
  reference == candidate || (candidate ++ [slash]).isPrefixOf reference

def liveRecords (sessions : List (Option WorktreeReferenceRecord))
    (ignoreSessionId : Option String) : List WorktreeReferenceRecord :=
  sessions.reduceOption.filter fun session =>
    ! session.archived && ! (ignoreSessionId.any (· ≠ "") && session.id == ignoreSessionId)

def isWorktreePathReferencedByLiveSession (candidatePath : Option JsString)
    (records : List WorktreeReferenceRecord) : Bool :=
  match normalizeWorktreeHostPath host candidatePath with
  | none => false
  | some candidate =>
    records.any fun session =>
      normalizeWorktreeHostPath host session.worktreePath == some candidate ||
        (normalizeWorktreeHostPath host session.cwd).any (isSameOrChildPath candidate) ||
        session.repoWorktrees.any fun wt =>
          normalizeWorktreeHostPath host (some wt) == some candidate

/-! ## Identities -/

/-- `/~\d/`. -/
def hasShortName : JsString → Bool
  | c :: d :: rest => (c == 0x7E && isDigit d) || hasShortName (d :: rest)
  | _ => false

/-- `split(/[\\/]+/)`; the empty segments between separators of one run are of no matter. -/
def pathSegments (value : JsString) : List JsString :=
  value.splitOnP fun c => c = slash || c = backslash

def hasExplicitAliasEvidence (value : JsString) : Bool :=
  let segments := pathSegments value
  segments.contains (js ".") || segments.contains (js "..") ||
    (host.win32 && segments.any hasShortName)

def cleanupIdentity (value : JsString) : Option JsString :=
  let resolved := host.resolve value
  if ! hasExplicitAliasEvidence host value then normalizeWorktreeHostPath host (some resolved)
  else normalizeWorktreeHostPath host (host.realpathNative resolved)

/-- A path that a record refers to; `descendant` is set for a `cwd`. -/
structure Reference where
  path : JsString
  descendant : Bool
deriving DecidableEq

def references (records : List WorktreeReferenceRecord) : List Reference :=
  records.flatMap fun session =>
    ((given session.worktreePath).map (⟨·, false⟩)).toList ++
      ((given session.cwd).map (⟨·, true⟩)).toList ++
      session.repoWorktrees.filterMap fun wt => (given (some wt)).map (⟨·, false⟩)

/-- Two identities, compared as the reference asks for. -/
def identityMatches (descendant : Bool) (candidate reference : JsString) : Bool :=
  if descendant then isSameOrChildPath candidate reference else candidate == reference

/-- The loop over the references; the candidate's identity is kept once it is known. -/
def compareIdentities (candidatePath : JsString) : Option JsString → List Reference → Bool
  | _, [] => false
  | candidateIdentity, reference :: rest =>
    if ! hasExplicitAliasEvidence host candidatePath &&
        ! hasExplicitAliasEvidence host reference.path then
      compareIdentities candidatePath candidateIdentity rest
    else
      match candidateIdentity <|> cleanupIdentity host candidatePath with
      | none => true
      | some identity =>
        match cleanupIdentity host reference.path with
        | none => true
        | some referenceIdentity =>
          if identityMatches reference.descendant identity referenceIdentity then true
          else compareIdentities candidatePath (some identity) rest

def isWorktreePathReferencedByLiveSessionForCleanup (candidatePath : Option JsString)
    (sessions : List (Option WorktreeReferenceRecord)) (ignoreSessionId : Option String) : Bool :=
  let records := liveRecords sessions ignoreSessionId
  match given candidatePath with
  | none => false
  | some candidatePath =>
    if records.isEmpty then false
    else if isWorktreePathReferencedByLiveSession host (some candidatePath) records then true
    else compareIdentities host candidatePath none (references records)

end Bobbit.Server.WorktreeGuard
