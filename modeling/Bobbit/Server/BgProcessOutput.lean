import Bobbit.Lib.Json

/-!
# Output of background processes

Model of the output side of `src/server/agent/bg-process-manager.ts` and
`src/server/agent/bg-process-store.ts`: the spools that processes write, the tailers' `onChunk`,
the combined log with its caps, the projection file with its debounced write, the offsets in the
store with its debounced and immediate saves, and the output part of a restore after a crash. The
life of a process is left to `BgProcessManager`: here every process runs.

Text is ASCII, so that a byte of a spool is a unit of a JavaScript string. Spools are never
trimmed, so the branches for a spool that has shrunk are left out. Beside the files `projected`
keeps the offsets at which the projection was last written.
-/

namespace Bobbit.Server

open Lib Lib.JsString

inductive OutputStream
  | stdout
  | stderr
  deriving DecidableEq

structure Streams (α : Type) where
  stdout : α
  stderr : α
  deriving DecidableEq

namespace Streams

variable {α : Type}

def get (x : Streams α) : OutputStream → α
  | .stdout => x.stdout
  | .stderr => x.stderr

def set (x : Streams α) (a : α) : OutputStream → Streams α
  | .stdout => { x with stdout := a }
  | .stderr => { x with stderr := a }

theorem get_set (x : Streams α) (a : α) (stream stream' : OutputStream) :
    (x.set a stream).get stream' = if stream' = stream then a else x.get stream' := by
  cases stream <;> cases stream' <;> rfl

end Streams

/-- An entry of `log`. -/
structure LogEntry where
  ts : Nat
  text : JsString
  stream : OutputStream
  deriving DecidableEq

/-- The output fields of a `BgProcess`; its tailers read on from `offsets`. -/
structure BgOutput where
  log : List LogEntry
  /-- `stdout` and `stderr` -/
  arrays : Streams (List JsString)
  /-- `_logBytes` -/
  logBytes : Nat
  /-- `outOffset` and `errOffset` -/
  offsets : Streams Nat
  /-- whether `_projectionTimer` is set -/
  projectionTimer : Bool

/-- A process with its files: `bg` is its instance in memory, `row` its offsets in the store and
    `saved` those in the store's file. -/
structure OutputProcess where
  spools : Streams JsString
  bg : Option BgOutput
  row : Option (Streams Nat)
  saved : Option (Streams Nat)
  /-- the projection -/
  logFile : Option JsString
  projected : Streams Nat

/-- The processes of a project, and whether the store's `saveTimer` is set. -/
structure OutputManager where
  processes : List OutputProcess
  saveTimer : Bool

namespace BgOutput

def maxLogLines : Nat := 5000

def maxLogBytes : Nat := 512 * 1024

/-! ## The log -/

/-- `String(ts)`. -/
def decimal (n : Nat) : JsString := (Nat.toDigits 10 n).map fun c => UInt16.ofNat c.toNat

def tab : UInt16 := 0x09

/-- The tag of a stream in the projection. -/
def tag : OutputStream → JsString
  | .stdout => js "out"
  | .stderr => js "err"

def projectedLineSize (entry : LogEntry) : Nat :=
  (decimal entry.ts).length + 5 + entry.text.length + 1

/-- The loop of `appendLog` that drops the oldest entries. -/
def trimLog : List LogEntry → Nat → List LogEntry × Nat
  | [], logBytes => ([], logBytes)
  | entry :: log, logBytes =>
    if maxLogLines < (entry :: log).length ∨ maxLogBytes < logBytes then
      trimLog log (logBytes - projectedLineSize entry)
    else (entry :: log, logBytes)

def appendLog (bg : BgOutput) (entry : LogEntry) : BgOutput :=
  let trimmed := trimLog (bg.log ++ [entry]) (bg.logBytes + projectedLineSize entry)
  { bg with log := trimmed.1, logBytes := trimmed.2 }

/-- The loop that drops the oldest lines of an array. -/
def capLines : List JsString → List JsString
  | [] => []
  | line :: lines =>
    if maxLogLines < (line :: lines).length then capLines lines else line :: lines

/-- Entries appended to the log, and their lines to the arrays. -/
def appendEntries (bg : BgOutput) (entries : List LogEntry) : BgOutput :=
  let linesOf := fun stream => (entries.filter (·.stream = stream)).map LogEntry.text
  { entries.foldl appendLog bg with
    arrays := ⟨capLines (bg.arrays.stdout ++ linesOf .stdout),
      capLines (bg.arrays.stderr ++ linesOf .stderr)⟩ }

/-- The lines of a piece of output that are not empty, as entries. -/
def entriesOf (stream : OutputStream) (text : JsString) (ts : Nat) : List LogEntry :=
  (text.lines.filter (· ≠ [])).map fun line => { ts := ts, text := line, stream := stream }

/-- Output appended to the log of an instance. -/
def appendText (bg : BgOutput) (stream : OutputStream) (text : JsString) (ts : Nat) : BgOutput :=
  bg.appendEntries (entriesOf stream text ts)

def empty (offsets : Streams Nat) : BgOutput where
  log := []
  arrays := ⟨[], []⟩
  logBytes := 0
  offsets := offsets
  projectionTimer := false

/-! ## The projection -/

def projectedLine (entry : LogEntry) : JsString :=
  decimal entry.ts ++ tab :: (tag entry.stream ++ tab :: entry.text)

/-- The text that `writeProjection` writes. -/
def projection (log : List LogEntry) : JsString := unlines (log.map projectedLine)

/-- What stands before the first tab and after it. -/
def cutTab (line : JsString) : Option (JsString × JsString) :=
  match line.dropWhile (· ≠ tab) with
  | [] => none
  | _ :: rest => some (line.takeWhile (· ≠ tab), rest)

/-- `parseInt(text, 10) || now`, of digits. -/
def parseTs (text : JsString) (now : Nat) : Nat :=
  let digits := text.takeWhile fun c => 0x30 ≤ c ∧ c ≤ 0x39
  let n := digits.foldl (fun n c => 10 * n + (c.toNat - 0x30)) 0
  if n = 0 then now else n

/-- An entry of a line of the projection. -/
def parseLine (now : Nat) (line : JsString) : Option LogEntry :=
  match cutTab line with
  | none => none
  | some (ts, rest) =>
    match cutTab rest with
    | none => none
    | some (tag, text) =>
      some {
        ts := parseTs ts now
        text := text
        stream := if tag = js "err" then .stderr else .stdout }

/-- The entries that `loadProjection` reads. -/
def projectionEntries (raw : JsString) (now : Nat) : List LogEntry :=
  raw.lines.filterMap (parseLine now)

/-! ## Reading a spool -/

/-- `readSpoolFrom`: the text past an offset, no more than the cap, and the new offset. -/
def readSpoolFrom (spool : JsString) (offset : Nat) : JsString × Nat :=
  if spool.length ≤ offset then ([], spool.length)
  else if maxLogBytes < spool.length - offset then
    (spool.drop (spool.length - maxLogBytes), spool.length)
  else (spool.drop offset, spool.length)

/-- A spool read on from an offset, into the log. -/
def readStream (spools : Streams JsString) (offsets : Streams Nat) (now : Nat) (bg : BgOutput)
    (stream : OutputStream) : BgOutput :=
  let tail := readSpoolFrom (spools.get stream) (offsets.get stream)
  { bg.appendText stream tail.1 now with offsets := bg.offsets.set tail.2 stream }

/-- `restoreLoadOutput`, or `restoreFromSpoolsOnly` when there is no projection. -/
def restoreLoadOutput (spools : Streams JsString) (logFile : Option JsString)
    (offsets : Streams Nat) (now : Nat) : BgOutput :=
  match logFile with
  | some raw =>
    let bg := (empty offsets).appendEntries (projectionEntries raw now)
    readStream spools offsets now (readStream spools offsets now bg .stdout) .stderr
  | none =>
    let zero := ⟨0, 0⟩
    readStream spools zero now (readStream spools zero now (empty offsets) .stdout) .stderr

end BgOutput

namespace OutputManager

open BgOutput

/-! ## Operations -/

def onProcess (s : OutputManager) (k : Nat) (f : OutputProcess → OutputProcess) : OutputManager :=
  { s with processes := s.processes.modify k f }

/-- `saveNow`: the rows of all processes. -/
def saveNow (s : OutputManager) : OutputManager :=
  { s with processes := s.processes.map fun p => { p with saved := p.row } }

def writeProjection (p : OutputProcess) : OutputProcess :=
  match p.bg with
  | none => p
  | some bg => { p with logFile := some (projection bg.log), projected := bg.offsets }

/-- `create`; the row is put into the store, which saves at once. -/
def create (s : OutputManager) : OutputManager :=
  saveNow { s with
    processes := s.processes ++ [{
      spools := ⟨[], []⟩
      bg := some (empty ⟨0, 0⟩)
      row := some ⟨0, 0⟩
      saved := none
      logFile := none
      projected := ⟨0, 0⟩ }] }

/-- `onChunk` of a process; its offsets go to the store. -/
def onChunk (p : OutputProcess) (bg : BgOutput) (stream : OutputStream) (text : JsString)
    (newOffset now : Nat) : OutputProcess :=
  let offsets := bg.offsets.set newOffset stream
  { p with
    bg := some { bg.appendText stream text now with offsets := offsets, projectionTimer := true }
    row := p.row.map fun _ => offsets }

/-- A tailer delivers a chunk, and the store is to be saved. -/
def chunk (s : OutputManager) (k : Nat) (stream : OutputStream)
    (read : JsString → Nat → JsString × Nat) (now : Nat) : OutputManager :=
  match s.processes[k]? with
  | none => s
  | some p =>
    match p.bg with
    | none => s
    | some bg =>
      let tail := read (p.spools.get stream) (bg.offsets.get stream)
      if tail.1 = [] then s
      else
        { s.onProcess k fun p => onChunk p bg stream tail.1 tail.2 now with saveTimer := true }

/-- A chunk of a follower: some of what stands past the offset. -/
def followed (size : Nat) (spool : JsString) (offset : Nat) : JsString × Nat :=
  let text := (spool.drop offset).take size
  (text, offset + text.length)

def projectionFires (s : OutputManager) (k : Nat) : OutputManager :=
  match s.processes[k]? with
  | none => s
  | some p =>
    match p.bg with
    | none => s
    | some bg =>
      if bg.projectionTimer then
        s.onProcess k fun p =>
          { writeProjection p with bg := some { bg with projectionTimer := false } }
      else s

def saveFires (s : OutputManager) : OutputManager :=
  if s.saveTimer then { s.saveNow with saveTimer := false } else s

/-- The gateway crashes, and starts again: memory is lost, and the store is loaded. -/
def crash (s : OutputManager) : OutputManager where
  processes := s.processes.map fun p => { p with bg := none, row := p.saved }
  saveTimer := false

/-- `restoreOne` of a process that runs: its output is loaded, the projection written, and its
    offsets go to the store. A process that is attached is skipped. -/
def restore (s : OutputManager) (k now : Nat) : OutputManager :=
  match s.processes[k]? with
  | none => s
  | some p =>
    match p.bg, p.row with
    | none, some offsets =>
      let bg := restoreLoadOutput p.spools p.logFile offsets now
      { s.onProcess k fun p =>
          { writeProjection { p with bg := some bg } with row := some bg.offsets } with
        saveTimer := true }
    | _, _ => s

/-! ## Steps -/

/-- What can happen to the output of the processes. -/
inductive Event
  | create
  /-- a process writes -/
  | write (k : Nat) (stream : OutputStream) (text : JsString)
  /-- a tick of a `PollTailer` -/
  | tick (k : Nat) (stream : OutputStream) (now : Nat)
  /-- data of a `DockerTailer` -/
  | data (k : Nat) (stream : OutputStream) (size now : Nat)
  | projectionTimer (k : Nat)
  | saveTimer
  /-- the store saves at once, for a change of any process; `clears` for one of `update` or
      `flush`, which clear the timer -/
  | save (clears : Bool)
  | crash
  | restore (k now : Nat)

def step (s : OutputManager) : Event → OutputManager
  | .create => s.create
  | .write k stream text =>
    s.onProcess k fun p => { p with spools := p.spools.set (p.spools.get stream ++ text) stream }
  | .tick k stream now => s.chunk k stream readSpoolFrom now
  | .data k stream size now => s.chunk k stream (followed size) now
  | .projectionTimer k => s.projectionFires k
  | .saveTimer => s.saveFires
  | .save clears => { s.saveNow with saveTimer := s.saveTimer && !clears }
  | .crash => s.crash
  | .restore k now => s.restore k now

end OutputManager

end Bobbit.Server
