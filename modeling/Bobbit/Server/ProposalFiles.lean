import Bobbit.Lib.Json
import Bobbit.Lib.JsMap

/-!
# Proposal files

Model of `latestRev`, `writeSnapshot`, `restoreSnapshot`, `writeProposalFile` and
`editProposalFile` in `src/server/proposals/proposal-files.ts`, for the draft of one type of one
session. A call takes one file operation at a time, and other calls come between; what a
`ProposalTypePlugin` serialises and parses is a parameter, and the outcome of a
`ProposalPreCommitValidator` comes with the event that resumes its caller.

Beside the files the state keeps a log of the file operations.
-/

namespace Bobbit.Server

open Lib

inductive ProposalType
  | goal
  | project
  | role
  | tool
  | staff
  deriving DecidableEq

inductive ProposalParseMode
  | strict
  | precommit

/-- What the operations use of a `ProposalTypePlugin`; `ε` is `ParseError`. -/
structure ProposalTypePlugin (Fields ε : Type) where
  serialize : Fields → JsString
  parse : JsString → ProposalParseMode → Except ε Fields

/-- Why an operation fails; `ρ` is `ProposalPreCommitError`. -/
inductive ProposalFailure (ε ρ : Type)
  | parse (error : ε)
  | preCommit (error : ρ)
  | fileNotFound
  | snapshotNotFound
  | oldTextNotFound
  | oldTextNotUnique
  /-- a file operation throws -/
  | thrown

/-! ## Files -/

/-- The files of a draft: the live one, the temporary one, and both for each revision. -/
structure DraftFiles where
  live : Option JsString
  liveTmp : Option JsString
  snapshots : JsMap Nat JsString
  snapshotTmps : JsMap Nat JsString

/-- The file operations that write. -/
inductive FileOp
  | writeTmp (content : JsString)
  | renameTmp
  | writeSnapshotTmp (rev : Nat) (content : JsString)
  | renameSnapshotTmp (rev : Nat)
  deriving DecidableEq

/-- What a file operation leaves; a rename throws when there is nothing to rename. -/
def FileOp.apply (files : DraftFiles) : FileOp → Option DraftFiles
  | .writeTmp content => some { files with liveTmp := some content }
  | .renameTmp =>
    match files.liveTmp with
    | none => none
    | some content => some { files with live := some content, liveTmp := none }
  | .writeSnapshotTmp rev content =>
    some { files with snapshotTmps := JsMap.set files.snapshotTmps rev content }
  | .renameSnapshotTmp rev =>
    match JsMap.get? files.snapshotTmps rev with
    | none => none
    | some content =>
      some { files with
        snapshots := JsMap.set files.snapshots rev content
        snapshotTmps := JsMap.erase files.snapshotTmps rev }

def latestRev (snapshots : JsMap Nat JsString) : Nat := (JsMap.keys snapshots).foldl max 0

def readSnapshot (files : DraftFiles) (rev : Nat) : Option JsString :=
  if rev < 1 then none else JsMap.get? files.snapshots rev

/-! ## The replacement of an edit -/

def indexOf (text pattern : JsString) (start : Nat) : Option Nat :=
  (List.range (text.length + 1)).find? fun i =>
    decide (min start text.length ≤ i) && pattern.isPrefixOf (text.drop i)

/-- The text after the replacement of the only occurrence of `oldText`. -/
def replaceOnce {ε ρ : Type} (current oldText newText : JsString) :
    Except (ProposalFailure ε ρ) JsString :=
  match indexOf current oldText 0 with
  | none => .error .oldTextNotFound
  | some firstIdx =>
    match indexOf current oldText (firstIdx + 1) with
    | some _ => .error .oldTextNotUnique
    | none =>
      .ok (current.take firstIdx ++ newText ++ current.drop (firstIdx + oldText.length))

/-! ## Operations -/

inductive ProposalOperation (Fields : Type)
  | writeProposalFile (fields : Fields)
  | editProposalFile (oldText newText : JsString)
  | restoreSnapshot (rev : Nat)

/-- What an operation is about to write, with its parsed fields. -/
structure Candidate (Fields : Type) where
  content : JsString
  fields : Fields

inductive ProposalPhase (Fields ε ρ : Type)
  /-- the read of the live draft, or of the snapshot -/
  | reading
  /-- the validator -/
  | validating (candidate : Candidate Fields)
  /-- the write of the temporary file -/
  | writing (candidate : Candidate Fields)
  /-- its rename to the live draft -/
  | replacing (candidate : Candidate Fields)
  /-- `latestRev` -/
  | scanning (candidate : Candidate Fields)
  /-- the write of the temporary snapshot -/
  | snapshotting (candidate : Candidate Fields) (rev : Nat)
  /-- its rename to the snapshot -/
  | publishing (candidate : Candidate Fields) (rev : Nat)
  /-- revision 0 when the snapshot was not written -/
  | succeeded (candidate : Candidate Fields) (rev : Nat)
  | failed (failure : ProposalFailure ε ρ)

/-- An operation under way; `readAt` is the number of file operations before its read. -/
structure ProposalCall (Fields ε ρ : Type) where
  operation : ProposalOperation Fields
  /-- a `preCommitValidator` is given -/
  validated : Bool
  phase : ProposalPhase Fields ε ρ
  readAt : Nat

/-- The draft of one type of one session; `log` has every file operation with its call. -/
structure ProposalDraft (Fields ε ρ : Type) where
  type : ProposalType
  files : DraftFiles
  log : List (Nat × FileOp)
  calls : List (ProposalCall Fields ε ρ)

namespace ProposalDraft

variable {Fields ε ρ : Type} (plugin : ProposalTypePlugin Fields ε)

/-- A draft with these snapshots, the last of them live. -/
def loaded (type : ProposalType) (snapshots : JsMap Nat JsString) : ProposalDraft Fields ε ρ where
  type := type
  files := {
    live := JsMap.get? snapshots (latestRev snapshots)
    liveTmp := none
    snapshots := snapshots
    snapshotTmps := [] }
  log := []
  calls := []

/-- A content is parsed; the validator is next. -/
def parsed (mode : ProposalParseMode) (content : JsString) : ProposalPhase Fields ε ρ :=
  match plugin.parse content mode with
  | .error e => .failed (.parse e)
  | .ok fields => .validating { content := content, fields := fields }

/-- The parse mode of `editProposalFile` and `restoreSnapshot`. -/
def modeOf (type : ProposalType) (validated : Bool) : ProposalParseMode :=
  if type = .goal ∧ validated = true then .precommit else .strict

/-- An operation up to its first await. -/
def started (operation : ProposalOperation Fields) : ProposalPhase Fields ε ρ :=
  match operation with
  | .writeProposalFile fields => parsed plugin .strict (plugin.serialize fields)
  | .editProposalFile _ _ => .reading
  | .restoreSnapshot _ => .reading

def invoke (s : ProposalDraft Fields ε ρ) (operation : ProposalOperation Fields)
    (validated : Bool) : ProposalDraft Fields ε ρ :=
  { s with
    calls := s.calls ++ [{
      operation := operation
      validated := validated
      phase := started plugin operation
      readAt := s.log.length }] }

def read (s : ProposalDraft Fields ε ρ) (call : ProposalCall Fields ε ρ) :
    ProposalPhase Fields ε ρ :=
  match call.operation with
  | .writeProposalFile _ => call.phase
  | .editProposalFile oldText newText =>
    match s.files.live with
    | none => .failed .fileNotFound
    | some current =>
      match replaceOnce current oldText newText with
      | .error failure => .failed failure
      | .ok next => parsed plugin (modeOf s.type call.validated) next
  | .restoreSnapshot rev =>
    match readSnapshot s.files rev with
    | none => .failed .snapshotNotFound
    | some content => parsed plugin (modeOf s.type call.validated) content

def setPhase (s : ProposalDraft Fields ε ρ) (k : Nat) (call : ProposalCall Fields ε ρ)
    (phase : ProposalPhase Fields ε ρ) : ProposalDraft Fields ε ρ :=
  { s with calls := s.calls.set k { call with phase := phase } }

/-- A call makes a file operation; `thrown` is where it goes on when that throws. -/
def perform (s : ProposalDraft Fields ε ρ) (k : Nat) (call : ProposalCall Fields ε ρ)
    (op : FileOp) (done thrown : ProposalPhase Fields ε ρ) : ProposalDraft Fields ε ρ :=
  match op.apply s.files with
  | none => s.setPhase k call thrown
  | some files => { s.setPhase k call done with files := files, log := s.log ++ [(k, op)] }

/-- What a call awaits is done; `rejection` is the outcome of its validator. -/
def resume (s : ProposalDraft Fields ε ρ) (k : Nat) (rejection : Option ρ) :
    ProposalDraft Fields ε ρ :=
  match s.calls[k]? with
  | none => s
  | some call =>
    match call.phase with
    | .reading => s.setPhase k { call with readAt := s.log.length } (s.read plugin call)
    | .validating candidate =>
      match if call.validated then rejection else none with
      | some error => s.setPhase k call (.failed (.preCommit error))
      | none => s.setPhase k call (.writing candidate)
    | .writing candidate =>
      s.perform k call (.writeTmp candidate.content) (.replacing candidate) (.failed .thrown)
    | .replacing candidate => s.perform k call .renameTmp (.scanning candidate) (.failed .thrown)
    | .scanning candidate =>
      s.setPhase k call (.snapshotting candidate (latestRev s.files.snapshots + 1))
    | .snapshotting candidate rev =>
      s.perform k call (.writeSnapshotTmp rev candidate.content) (.publishing candidate rev)
        (.succeeded candidate 0)
    | .publishing candidate rev =>
      s.perform k call (.renameSnapshotTmp rev) (.succeeded candidate rev)
        (.succeeded candidate 0)
    | .succeeded _ _ => s
    | .failed _ => s

inductive Event (Fields ρ : Type)
  | call (operation : ProposalOperation Fields) (validated : Bool)
  /-- what call `k` awaits is done -/
  | resume (k : Nat) (rejection : Option ρ)

def step (s : ProposalDraft Fields ε ρ) : Event Fields ρ → ProposalDraft Fields ε ρ
  | .call operation validated => s.invoke plugin operation validated
  | .resume k rejection => s.resume plugin k rejection

end ProposalDraft

end Bobbit.Server
