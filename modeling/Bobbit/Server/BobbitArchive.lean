import Bobbit.Lib.Decimal
import Bobbit.Lib.FileTree

/-!
# The archive of a project's data (`server/agent/bobbit-archive.ts`)

`archiveProjectBobbitDir` walks over `.bobbit`, leaves in place what the allowlist names, and moves
the rest to a numbered archive directory beside it, where it then writes its manifest.

Paths are lists of names below the root path. The operations of the file system may fail as
`ArchiveEnv` says; a move that fails may leave a part of a copy and may have removed a part of what
it copied. A copy that goes through has the effect of a rename.
-/

namespace Bobbit.Server.BobbitArchive

open Lib Lib.FileTree

abbrev FilePath := List JsString

/-- What a project's file holds, or where its link points. -/
inductive Original (α : Type) where
  | file (content : α)
  | link (target : JsString)
  deriving DecidableEq

structure ArchiveResult where
  archiveDir : JsString
  archivedAt : JsString
  movedPaths : List JsString
  preservedPaths : List JsString
  gatewayOwned : Bool
  partialFailed : List (JsString × JsString)
  deriving DecidableEq

/-- What stands on the disk: what stood there, or the manifest that is written. -/
inductive Leaf (α : Type) where
  | original (o : Original α)
  | manifest (result : ArchiveResult)
  deriving DecidableEq

variable {α : Type}

abbrev Disk (α : Type) := Tree JsString (Leaf α)

structure MoveFailure (α : Type) where
  error : JsString
  removed : FilePath → Bool
  copied : List (FilePath × Entry (Leaf α))

/-- What the file system answers besides what stands on the disk. -/
structure ArchiveEnv (α : Type) where
  isAbsolute : Bool
  rootIsDirectory : Bool
  join : JsString → JsString
  /-- The entries that a top-level link counts for, where `stat` and `readdir` answer. -/
  linkChildren : JsString → Option Nat
  /-- Whether the root path can be listed. -/
  rootListed : Bool
  archivedAt : JsString
  mkdirError : Option JsString
  lstatError : FilePath → Option JsString
  readdirError : FilePath → Option JsString
  moveFailure : FilePath → Option (MoveFailure α)
  /-- Whether the manifest's file can be opened and written. -/
  manifestOpens : Bool
  /-- The project's file that a link leads to after the moves, by its path below `.bobbit`. -/
  leads : JsString → Option FilePath

inductive ArchiveErrorCode where
  | noBobbitDir
  | emptyBobbitDir
  | badPath
  deriving DecidableEq

/-- What is thrown: an `ArchiveError`, or an error of the file system. -/
inductive Thrown where
  | archiveError (code : ArchiveErrorCode) (message : JsString)
  | system (message : JsString)

/-- `GATEWAY_OWNED_FILES`. -/
def gatewayOwnedFiles : List JsString :=
  ["state/gateway-url", "state/watchdog.json", "state/setup-complete", "state/gateway-restart",
    "state/token", "state/sessions.json", "state/projects.json", "state/worktree-pools.json",
    "state/tls/", "state/desec.json", "state/tool-docs/", "state/mcp-tool-docs/", "state/preview/",
    "state/preview-artifacts/", "state/review-payloads/", "state/uploaded-attachments/",
    "state/tool-guard/", "state/tool-result-error-bridge/", "state/provider-bridge/",
    "state/google-code-assist/", "state/aigw-dns-guard/", "state/mcp-extensions/",
    "state/html-snapshots/", "state/gate-diagnostics/", "state/boot-timings.log",
    "state/proposal-drafts/", "state/pr-walkthrough/", "state/model-name-*", "state/sessions/",
    "state/session-prompts/", "state/system-project/", "state/marketplace-cache/"].map js

def slash : UInt16 := 0x2F

def star : UInt16 := 0x2A

/-! ## The allowlist -/

/-- `replace(/\\/g, "/")`. -/
def forwardSlashed (s : JsString) : JsString := s.map fun c => if c = 0x5C then slash else c

structure AllowMatch where
  isMatch : Bool
  isDirRoot : Bool
  deriving DecidableEq

def matchesAllowlistEntry (relPath entry : JsString) : AllowMatch :=
  let norm := forwardSlashed relPath
  if [slash].isSuffixOf entry then
    let dir := entry.dropLast
    if norm = dir then ⟨true, true⟩
    else if (dir ++ [slash]).isPrefixOf norm then ⟨true, false⟩
    else ⟨false, false⟩
  else if star ∈ entry then
    let head := entry.take (entry.idxOf star)
    let tail := entry.drop (entry.idxOf star + 1)
    if head.isPrefixOf norm && tail.isSuffixOf norm && slash ∉ norm.drop head.length then
      ⟨true, false⟩
    else ⟨false, false⟩
  else ⟨norm = entry, false⟩

/-- `isPreserved`, with `preserved` under the name `isMatch`. -/
def isPreserved (relPath : JsString) : List JsString → AllowMatch
  | [] => ⟨false, false⟩
  | entry :: rest =>
    let found := matchesAllowlistEntry relPath entry
    if found.isMatch then found else isPreserved relPath rest

def containsPreservedDescendant (relDir : JsString) (allowlist : List JsString) : Bool :=
  let dirWithSlash := if [slash].isSuffixOf relDir then relDir else relDir ++ [slash]
  allowlist.any fun entry =>
    let stripStar := if [star].isSuffixOf entry then entry.dropLast else entry
    dirWithSlash.isPrefixOf stripStar

/-! ## The archive directory -/

/-- `padStart(3, "0")`. -/
def padThree (s : JsString) : JsString := List.replicate (3 - s.length) 0x30 ++ s

def archiveNameOf (suffix : JsString) : JsString := js ".bobbit-archive-" ++ suffix

/-- The number of `/^\.bobbit-archive-(\d{3})$/`. -/
def archiveNumber (entry : JsString) : Option Nat :=
  let digits := entry.drop (js ".bobbit-archive-").length
  if (js ".bobbit-archive-").isPrefixOf entry && digits.length = 3 && digits.all isDigit then
    some (decimalValue digits)
  else none

/-- `nextArchiveSuffix`, of the names at the root path, where they can be listed. -/
def nextArchiveSuffix (listed : Bool) (entries : List JsString) : JsString :=
  let highest := if listed then (entries.filterMap archiveNumber).foldl max 0 else 0
  padThree (numberText (highest + 1))

/-! ## The walk -/

def bobbit : JsString := js ".bobbit"

def manifestName : JsString := js "MANIFEST.json"

/-- A path below `.bobbit`, as it is matched and recorded. -/
def relForMatch (rel : FilePath) : JsString := forwardSlashed ([slash].intercalate rel)

/-- The walk over `.bobbit`: the disk, the entries to consider and the three records. -/
structure WalkState (α : Type) where
  disk : Disk α
  queue : List FilePath
  moved : List JsString
  preserved : List JsString
  failed : List (JsString × JsString)

/-- `moveEntry`: the parent directories are made, and the entry is renamed. -/
def moveEntry (disk : Disk α) (src dst : FilePath) : Disk α :=
  rename (mkdirs disk dst.dropLast) src dst

def leaveBehind (disk : Disk α) (archive : JsString) (rel : FilePath) (f : MoveFailure α) :
    Disk α :=
  disk.filter (fun e => ! ((bobbit :: rel).isPrefixOf e.1 && f.removed e.1)) ++
    f.copied.map fun e => (archive :: e.1, e.2)

namespace WalkState

variable (s : WalkState α)

def fail (rel : FilePath) (error : JsString) : WalkState α :=
  { s with failed := s.failed ++ [(relForMatch rel, error)] }

def move (env : ArchiveEnv α) (archive : JsString) (rel : FilePath) : WalkState α :=
  match env.moveFailure rel with
  | some f => fail { s with disk := leaveBehind s.disk archive rel f } rel f.error
  | none =>
    { s with
      disk := moveEntry s.disk (bobbit :: rel) (archive :: rel)
      moved := s.moved ++ [relForMatch rel] }

/-- `lstat`, which may fail. -/
def lstat (env : ArchiveEnv α) (rel : FilePath) : Except JsString (Entry (Leaf α)) :=
  match env.lstatError rel with
  | some error => .error error
  | none =>
    match lookup s.disk (bobbit :: rel) with
    | some entry => .ok entry
    | none => .error (js "ENOENT")

/-- An entry is considered that has been taken off the queue. -/
def consider (env : ArchiveEnv α) (allowlist : List JsString) (archive : JsString)
    (rel : FilePath) : WalkState α :=
  if (isPreserved (relForMatch rel) allowlist).isMatch then
    { s with preserved := s.preserved ++ [relForMatch rel] }
  else
    match s.lstat env rel with
    | .error error => s.fail rel error
    | .ok (.leaf _) => s.move env archive rel
    | .ok .dir =>
      if containsPreservedDescendant (relForMatch rel) allowlist then
        match env.readdirError rel with
        | some error => s.fail rel error
        | none =>
          { s with
            queue := s.queue ++ (children s.disk (bobbit :: rel)).map fun c => rel ++ [c] }
      else s.move env archive rel

def walk (env : ArchiveEnv α) (allowlist : List JsString) (archive : JsString) :
    Nat → WalkState α → WalkState α
  | 0, s => s
  | fuel + 1, s =>
    match s.queue with
    | [] => s
    | rel :: rest =>
      walk env allowlist archive fuel (consider { s with queue := rest } env allowlist archive rel)

end WalkState

/-! ## The manifest -/

/-- The path that is written through `MANIFEST.json` of the archive. -/
def manifestPath (env : ArchiveEnv α) (archive : JsString) (disk : Disk α) : Option FilePath :=
  match lookup disk [archive, manifestName] with
  | some (.leaf (.original (.link target))) =>
    (env.leads target).map fun rel =>
      if (lookup disk (archive :: rel)).isSome then archive :: rel else bobbit :: rel
  | _ => some [archive, manifestName]

/-- `writeFileSync`: a file is replaced or made; where a directory stands it fails. -/
def writeFile (disk : Disk α) (path : FilePath) (leaf : Leaf α) : Disk α :=
  match lookup disk path with
  | none => disk ++ [(path, .leaf leaf)]
  | some .dir => disk
  | some (.leaf (.original (.link _))) => disk
  | some (.leaf _) => disk.map fun e => if e.1 = path then (path, .leaf leaf) else e

def writeManifest (env : ArchiveEnv α) (archive : JsString) (disk : Disk α)
    (result : ArchiveResult) : Disk α :=
  if ! env.manifestOpens then disk
  else
    match manifestPath env archive disk with
    | none => disk
    | some path => writeFile disk path (.manifest result)

/-! ## Archiving -/

/-- What the entries at the top of `.bobbit` count. -/
def countChildren (env : ArchiveEnv α) (disk : Disk α) (top : JsString) : Nat :=
  match lookup disk [bobbit, top] with
  | some .dir => (children disk [bobbit, top]).length
  | some (.leaf (.original (.link _))) => (env.linkChildren top).getD 0
  | some (.leaf _) => 1
  | none => 0

def sorted (paths : List JsString) : List JsString := paths.mergeSort (· ≤ ·)

structure ArchiveOptions where
  gatewayOwned : Bool
  allowlist : Option (List JsString)

def ArchiveOptions.entries (opts : ArchiveOptions) : List JsString :=
  opts.allowlist.getD (if opts.gatewayOwned then gatewayOwnedFiles else [])

/-- The archive directory of a disk, and the walk that fills it. -/
def archiveInto (env : ArchiveEnv α) (opts : ArchiveOptions) (archive : JsString) (disk : Disk α) :
    ArchiveResult × Disk α :=
  let start : WalkState α :=
    ⟨mkdir disk [archive], (children disk [bobbit]).map fun top => [top], [], [], []⟩
  let s := WalkState.walk env opts.entries archive disk.length start
  let scaffolded := mkdir (mkdir s.disk [bobbit, js "config"]) [bobbit, js "state"]
  let result : ArchiveResult :=
    ⟨env.join archive, env.archivedAt, sorted s.moved, sorted s.preserved, opts.gatewayOwned,
      s.failed⟩
  (result, writeManifest env archive scaffolded result)

def archiveName (env : ArchiveEnv α) (disk : Disk α) : JsString :=
  archiveNameOf (nextArchiveSuffix env.rootListed (children disk []))

def archiveProjectBobbitDir (env : ArchiveEnv α) (rootPath : JsString) (opts : ArchiveOptions)
    (disk : Disk α) : Except Thrown (ArchiveResult × Disk α) :=
  if ! env.isAbsolute then
    .error (.archiveError .badPath (js "rootPath must be absolute, got: " ++ rootPath))
  else if ! env.rootIsDirectory then
    .error (.archiveError .badPath
      (js "rootPath is not an existing directory: " ++ rootPath))
  else
    match lookup disk [bobbit] with
    | none =>
      .error (.archiveError .noBobbitDir (env.join bobbit ++ js " does not exist"))
    | some (.leaf _) => .error (.system (js "ENOTDIR"))
    | some .dir =>
      let topEntries := children disk [bobbit]
      if topEntries.isEmpty then
        .error (.archiveError .emptyBobbitDir (env.join bobbit ++ js " is empty"))
      else if (topEntries.map (countChildren env disk)).sum = 0 then
        .error (.archiveError .emptyBobbitDir
          (env.join bobbit ++ js " contains only empty subdirs"))
      else
        match env.mkdirError, lookup disk [archiveName env disk] with
        | some error, _ => .error (.system error)
        | none, some (.leaf _) => .error (.system (js "EEXIST"))
        | none, _ => .ok (archiveInto env opts (archiveName env disk) disk)

end Bobbit.Server.BobbitArchive
