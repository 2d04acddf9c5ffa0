import Bobbit.Lib.JsonRoundTrip
import Bobbit.Lib.List
import Bobbit.Lib.Run
import Bobbit.Server.BgProcessOutput

/-!
# Output across a crash

A restore loads the projection and reads on from the stored offset. The two are made durable by
different timers, so the text between the offset at which the projection was written and the
stored one is lost or repeated. A restore is exact when the two differ in line breaks only.

## Key results

* `projectionEntries_projection` — the projection brings back the text of every entry.
* `restored_exactly_iff` — the exact condition along runs.
* `saved_after_projection` — a crash between the write of a projection and the next save.
-/

namespace Bobbit.Server.OutputManager

open Lib Lib.JsString BgOutput

/-! ## The property -/

def strip (text : JsString) : JsString := text.filter (· ≠ lineFeed)

def logText (log : List LogEntry) (stream : OutputStream) : JsString :=
  ((log.filter (·.stream = stream)).map LogEntry.text).flatten

/-- The log and the arrays of a process hold what its spools have, up to line breaks. -/
def RestoredExactly (s : OutputManager) (k : Nat) : Prop :=
  ∀ p ∈ s.processes[k]?, ∀ bg ∈ p.bg, ∀ stream,
    logText bg.log stream = strip (p.spools.get stream) ∧
      (bg.arrays.get stream).flatten = strip (p.spools.get stream)

/-- A restore of a process that was not attached restores it exactly. -/
def RestoresExactly (s : OutputManager) : Event → Prop
  | .restore k now => (∀ p ∈ s.processes[k]?, p.bg = none) →
      RestoredExactly (step s (.restore k now)) k
  | _ => True

/-- A restore that finds a projection finds it written where the stored offset is, up to line
    breaks. -/
def FilesAgree (s : OutputManager) : Event → Prop
  | .restore k _ => ∀ p ∈ s.processes[k]?, p.bg = none → ∀ offsets ∈ p.row,
      p.logFile.isSome = true → ∀ stream,
        strip ((p.spools.get stream).take (p.projected.get stream)) =
          strip ((p.spools.get stream).take (offsets.get stream))
  | _ => True

/-- Entries fit into a log below its caps. -/
def Fits (bg : BgOutput) (entries : List LogEntry) : Prop :=
  bg.log.length + entries.length ≤ maxLogLines ∧
    bg.logBytes + (entries.map projectedLineSize).sum ≤ maxLogBytes

def restoredEntries (spools : Streams JsString) (logFile : Option JsString)
    (offsets : Streams Nat) (now : Nat) : List LogEntry :=
  match logFile with
  | some raw =>
    projectionEntries raw now ++
      (entriesOf .stdout (readSpoolFrom spools.stdout offsets.stdout).1 now ++
        entriesOf .stderr (readSpoolFrom spools.stderr offsets.stderr).1 now)
  | none =>
    entriesOf .stdout (readSpoolFrom spools.stdout 0).1 now ++
      entriesOf .stderr (readSpoolFrom spools.stderr 0).1 now

/-- Output is ASCII, spools are too small to be trimmed, and logs stay below their caps. -/
def WithinCaps (s : OutputManager) : Event → Prop
  | .write k stream text => text.all (· < 0x80) = true ∧ ∀ p ∈ s.processes[k]?,
      (p.spools.get stream ++ text).length ≤ maxLogBytes
  | .tick k stream now => ∀ p ∈ s.processes[k]?, ∀ bg ∈ p.bg,
      Fits bg (entriesOf stream
        (readSpoolFrom (p.spools.get stream) (bg.offsets.get stream)).1 now)
  | .data k stream size now => ∀ p ∈ s.processes[k]?, ∀ bg ∈ p.bg,
      Fits bg (entriesOf stream
        (followed size (p.spools.get stream) (bg.offsets.get stream)).1 now)
  | .restore k now => ∀ p ∈ s.processes[k]?, p.bg.isNone = true → ∀ offsets ∈ p.row,
      Fits (empty offsets) (restoredEntries p.spools p.logFile offsets now)
  | _ => True

instance (bg : BgOutput) (entries : List LogEntry) : Decidable (Fits bg entries) :=
  inferInstanceAs (Decidable (_ ∧ _))

instance (s : OutputManager) : (event : Event) → Decidable (WithinCaps s event)
  | .write k stream text => inferInstanceAs (Decidable (text.all (· < 0x80) = true ∧
      ∀ p ∈ s.processes[k]?, (p.spools.get stream ++ text).length ≤ maxLogBytes))
  | .tick k stream now => inferInstanceAs (Decidable (∀ p ∈ s.processes[k]?, ∀ bg ∈ p.bg,
      Fits bg (entriesOf stream
        (readSpoolFrom (p.spools.get stream) (bg.offsets.get stream)).1 now)))
  | .data k stream size now => inferInstanceAs (Decidable (∀ p ∈ s.processes[k]?, ∀ bg ∈ p.bg,
      Fits bg (entriesOf stream
        (followed size (p.spools.get stream) (bg.offsets.get stream)).1 now)))
  | .restore k now => inferInstanceAs (Decidable (∀ p ∈ s.processes[k]?,
      p.bg.isNone = true → ∀ offsets ∈ p.row, Fits (empty offsets) (restoredEntries p.spools p.logFile offsets now)))
  | .create | .projectionTimer _ | .saveTimer | .save _ | .crash =>
    inferInstanceAs (Decidable True)

/-! ## Text and its lines -/

@[simp] theorem strip_append (a b : JsString) : strip (a ++ b) = strip a ++ strip b :=
  List.filter_append ..

theorem strip_eq_self {text : JsString} (h : lineFeed ∉ text) : strip text = text := by
  refine List.filter_eq_self.mpr fun c hc => ?_
  simp only [ne_eq, decide_not, Bool.not_eq_true', decide_eq_false_iff_not]
  exact fun heq => h (heq ▸ hc)

theorem strip_unlines (ls : List JsString) : strip (unlines ls) = (ls.map strip).flatten := by
  unfold unlines
  induction ls with
  | nil => rfl
  | cons l rest ih =>
    cases rest with
    | nil => simp
    | cons l' rest =>
      have hbreak : strip [lineFeed] = [] := by decide
      rw [List.intercalate_cons_cons, strip_append, strip_append, ih, hbreak, List.append_nil]
      rfl

/-- The lines of a text that are not empty are the text without its line breaks. -/
theorem flatten_lines (text : JsString) : ((lines text).filter (· ≠ [])).flatten = strip text := by
  have hself : ∀ l ∈ lines text, strip l = l := fun l hl =>
    strip_eq_self (lineFeed_not_mem_lines text l hl)
  have hfilter : ∀ ls : List JsString, (ls.filter (· ≠ [])).flatten = ls.flatten := by
    intro ls
    induction ls with
    | nil => rfl
    | cons l rest ih =>
      cases l with
      | nil => simpa using ih
      | cons c cs => simpa using ih
  calc ((lines text).filter (· ≠ [])).flatten = (lines text).flatten := hfilter _
    _ = ((lines text).map strip).flatten := by rw [List.map_congr_left hself, List.map_id']
    _ = strip (unlines (lines text)) := (strip_unlines _).symm
    _ = strip text := by rw [unlines_lines]

@[simp] theorem logText_append (log log' : List LogEntry) (stream : OutputStream) :
    logText (log ++ log') stream = logText log stream ++ logText log' stream := by
  simp [logText]

/-- The entries of a piece of output hold its text, in their stream. -/
theorem logText_entriesOf (stream stream' : OutputStream) (text : JsString) (ts : Nat) :
    logText (entriesOf stream text ts) stream' =
      if stream' = stream then strip text else [] := by
  unfold logText entriesOf
  rw [List.filter_map]
  split
  · rename_i heq
    subst heq
    rw [List.filter_eq_self.mpr (by simp), List.map_map]
    show (((lines text).filter (· ≠ [])).map id).flatten = _
    rw [List.map_id, flatten_lines]
  · rename_i hne
    rw [List.filter_eq_nil_iff.mpr]
    · rfl
    · intro line _
      simpa using Ne.symm hne

def Clean (log : List LogEntry) : Prop := ∀ entry ∈ log, lineFeed ∉ entry.text

variable (stream : OutputStream)

theorem clean_entriesOf (text : JsString) (ts : Nat) : Clean (entriesOf stream text ts) := by
  intro entry hentry
  obtain ⟨line, hline, rfl⟩ := List.mem_map.mp hentry
  exact lineFeed_not_mem_lines text line (List.mem_filter.mp hline).1

theorem Clean.append {log log' : List LogEntry} (h : Clean log) (h' : Clean log') :
    Clean (log ++ log') := by
  intro entry hentry
  rcases List.mem_append.mp hentry with hmem | hmem
  · exact h entry hmem
  · exact h' entry hmem

/-! ## The projection -/

theorem decimal_digit (n : Nat) : ∀ c ∈ decimal n, 0x30 ≤ c ∧ c ≤ 0x39 := by
  intro c hc
  obtain ⟨d, hd, rfl⟩ := List.mem_map.mp hc
  have hdigit : d.isDigit = true := Nat.isDigit_of_mem_toDigits (by decide) (by decide) hd
  have hrange : 48 ≤ d.toNat ∧ d.toNat ≤ 57 := by
    simp only [Char.isDigit, ge_iff_le, Bool.and_eq_true, decide_eq_true_eq,
      UInt32.le_iff_toNat_le] at hdigit
    exact hdigit
  constructor
  · rw [UInt16.le_iff_toNat_le, UInt16.toNat_ofNat_of_lt' (by
      show d.toNat < 65536
      omega)]
    exact hrange.1
  · rw [UInt16.le_iff_toNat_le, UInt16.toNat_ofNat_of_lt' (by
      show d.toNat < 65536
      omega)]
    exact hrange.2

theorem tab_not_mem_decimal (n : Nat) : tab ∉ decimal n := fun h =>
  absurd (decimal_digit n tab h).1 (by decide)

theorem lineFeed_not_mem_decimal (n : Nat) : lineFeed ∉ decimal n := fun h =>
  absurd (decimal_digit n lineFeed h).1 (by decide)

theorem tab_not_mem_tag : tab ∉ tag stream := by
  cases stream <;> decide

theorem lineFeed_not_mem_tag : lineFeed ∉ tag stream := by
  cases stream <;> decide

theorem cutTab_append {a : JsString} (h : tab ∉ a) (b : JsString) :
    cutTab (a ++ tab :: b) = some (a, b) := by
  have hall : ∀ c ∈ a, (c ≠ tab : Bool) = true := by
    intro c hc
    simp only [ne_eq, decide_not, Bool.not_eq_true', decide_eq_false_iff_not]
    exact fun heq => h (heq ▸ hc)
  unfold cutTab
  rw [List.dropWhile_append_of_pos hall, List.takeWhile_append_of_pos hall]
  simp

/-- A line of the projection brings back the text and the stream of its entry. -/
theorem parseLine_projectedLine (entry : LogEntry) (now : Nat) :
    parseLine now (projectedLine entry) =
      some { entry with ts := parseTs (decimal entry.ts) now } := by
  unfold parseLine projectedLine
  rw [cutTab_append (tab_not_mem_decimal _)]
  dsimp only
  rw [cutTab_append (tab_not_mem_tag _)]
  dsimp only
  obtain ⟨ts, text, stream⟩ := entry
  cases stream <;> rfl

theorem lineFeed_not_mem_projectedLine {entry : LogEntry} (h : lineFeed ∉ entry.text) :
    lineFeed ∉ projectedLine entry := by
  unfold projectedLine
  simp only [List.mem_append, List.mem_cons, not_or]
  exact ⟨lineFeed_not_mem_decimal _, by decide, lineFeed_not_mem_tag _, by decide, h⟩

/-- The projection brings back the text of every entry. -/
theorem projectionEntries_projection {log : List LogEntry} (h : Clean log) (now : Nat) :
    projectionEntries (projection log) now =
      log.map fun entry => { entry with ts := parseTs (decimal entry.ts) now } := by
  unfold projectionEntries projection
  by_cases hnil : log = []
  · subst hnil
    rfl
  · rw [lines_unlines (by simpa using hnil)]
    · rw [List.filterMap_map, ← List.filterMap_eq_map]
      congr 1
      funext entry
      exact parseLine_projectedLine entry now
    · intro line hline
      obtain ⟨entry, hentry, rfl⟩ := List.mem_map.mp hline
      exact lineFeed_not_mem_projectedLine (h entry hentry)

/-! ## Logs below their caps -/

theorem trimLog_eq_self {log : List LogEntry} {logBytes : Nat} (hlines : log.length ≤ maxLogLines)
    (hbytes : logBytes ≤ maxLogBytes) : trimLog log logBytes = (log, logBytes) := by
  cases log with
  | nil => rfl
  | cons entry rest =>
    unfold trimLog
    rw [if_neg (by omega)]

variable {entries : List LogEntry} {bg : BgOutput}

theorem foldl_appendLog (h : Fits bg entries) : entries.foldl appendLog bg = { bg with
      log := bg.log ++ entries
      logBytes := bg.logBytes + (entries.map projectedLineSize).sum } := by
  induction entries generalizing bg with
  | nil => simp
  | cons entry rest ih =>
    obtain ⟨hlines, hbytes⟩ := h
    simp only [List.length_cons, List.map_cons, List.sum_cons] at hlines hbytes
    have happend : appendLog bg entry = { bg with
        log := bg.log ++ [entry]
        logBytes := bg.logBytes + projectedLineSize entry } := by
      unfold appendLog
      rw [trimLog_eq_self (by simp only [List.length_append, List.length_singleton]; omega)
        (by omega)]
    have hrest : Fits { bg with
        log := bg.log ++ [entry]
        logBytes := bg.logBytes + projectedLineSize entry } rest := by
      unfold Fits
      simp only [List.length_append, List.length_singleton]
      omega
    rw [List.foldl_cons, happend, ih hrest]
    simp [Nat.add_assoc]

/-- The arrays hold the lines of the log. -/
def Arrayed (bg : BgOutput) : Prop :=
  ∀ stream, bg.arrays.get stream = (bg.log.filter (·.stream = stream)).map LogEntry.text

theorem appendEntries_log (h : Fits bg entries) :
    (bg.appendEntries entries).log = bg.log ++ entries ∧
      (bg.appendEntries entries).logBytes =
        bg.logBytes + (entries.map projectedLineSize).sum ∧
      (bg.appendEntries entries).offsets = bg.offsets := by
  unfold appendEntries
  dsimp only
  rw [foldl_appendLog h]
  exact ⟨rfl, rfl, rfl⟩

theorem capLines_eq_self {lines : List JsString} (h : lines.length ≤ maxLogLines) :
    capLines lines = lines := by
  cases lines with
  | nil => rfl
  | cons line rest =>
    unfold capLines
    rw [if_neg (by omega)]

theorem appendEntries_arrayed (h : Fits bg entries)
    (harrays : Arrayed bg) : Arrayed (bg.appendEntries entries) := by
  have hcap : ∀ stream, (bg.arrays.get stream ++
      (entries.filter (·.stream = stream)).map LogEntry.text).length ≤ maxLogLines := by
    intro stream
    rw [harrays stream, List.length_append, List.length_map, List.length_map]
    have hlog := List.length_filter_le (fun e : LogEntry => decide (e.stream = stream)) bg.log
    have hnew := List.length_filter_le (fun e : LogEntry => decide (e.stream = stream)) entries
    have hlines := h.1
    omega
  have hget : ∀ stream, (bg.appendEntries entries).arrays.get stream =
      capLines (bg.arrays.get stream ++
        (entries.filter (·.stream = stream)).map LogEntry.text) := by
    intro stream
    cases stream <;> simp only [appendEntries, Streams.get]
  intro stream
  rw [(appendEntries_log h).1, List.filter_append, List.map_append, ← harrays stream, hget,
    capLines_eq_self (hcap stream)]

theorem arrayed_flatten (h : Arrayed bg) (stream : OutputStream) :
    (bg.arrays.get stream).flatten = logText bg.log stream := by
  rw [h stream]
  rfl

theorem Fits.append {entries' : List LogEntry} (h : Fits bg (entries ++ entries')) :
    Fits bg entries ∧ Fits (bg.appendEntries entries) entries' := by
  obtain ⟨hlines, hbytes⟩ := h
  simp only [List.length_append, List.map_append, List.sum_append] at hlines hbytes
  have hfirst : Fits bg entries := ⟨by omega, by omega⟩
  obtain ⟨hlog, hlogBytes, _⟩ := appendEntries_log hfirst
  refine ⟨hfirst, ?_, ?_⟩
  · rw [hlog, List.length_append]
    omega
  · rw [hlogBytes]
    omega

/-! ## Reading on -/

def Within (spools : Streams JsString) (offsets : Streams Nat) : Prop :=
  ∀ stream, offsets.get stream ≤ (spools.get stream).length

theorem readSpoolFrom_eq {spool : JsString} {offset : Nat} (hshort : spool.length ≤ maxLogBytes) :
    readSpoolFrom spool offset = (spool.drop offset, spool.length) := by
  unfold readSpoolFrom
  split
  · rename_i hpast
    rw [List.drop_eq_nil_of_le hpast]
  · rw [if_neg (by omega)]

/-- The text of a stream up to an offset, and on from there. -/
theorem strip_take_drop (text : JsString) (offset : Nat) :
    strip (text.take offset) ++ strip (text.drop offset) = strip text := by
  rw [← strip_append, List.take_append_drop]

/-- An instance whose log holds what its offsets say was consumed. -/
structure Holds (spools : Streams JsString) (bg : BgOutput) : Prop where
  clean : Clean bg.log
  text : ∀ stream, logText bg.log stream =
    strip ((spools.get stream).take (bg.offsets.get stream))
  arrays : Arrayed bg

/-- A process whose files and memory belong together. -/
structure Sound (p : OutputProcess) : Prop where
  short : ∀ stream, (p.spools.get stream).length ≤ maxLogBytes
  bg : ∀ bg ∈ p.bg, p.row = some bg.offsets ∧ Holds p.spools bg
  row : ∀ offsets ∈ p.row, Within p.spools offsets
  saved : ∀ offsets ∈ p.saved, Within p.spools offsets
  written : Within p.spools p.projected
  projection : ∀ raw ∈ p.logFile, ∃ log, raw = projection log ∧ Clean log ∧
    ∀ stream, logText log stream =
      strip ((p.spools.get stream).take (p.projected.get stream))

def AllSound (s : OutputManager) : Prop := ∀ p ∈ s.processes, Sound p

variable {s : OutputManager}

theorem onProcess_sound (h : AllSound s) {k : Nat}
    {f : OutputProcess → OutputProcess} (hf : ∀ p ∈ s.processes[k]?, Sound p → Sound (f p)) :
    AllSound (s.onProcess k f) := by
  intro p hp
  have hp : p ∈ s.processes.modify k f := hp
  rcases mem_modify hp with hp | ⟨q, hq, rfl⟩
  · exact h p hp
  · exact hf q hq (h q (List.mem_of_getElem? hq))

theorem map_sound (h : AllSound s) {f : OutputProcess → OutputProcess}
    (hf : ∀ p, Sound p → Sound (f p)) (saveTimer : Bool) :
    AllSound { processes := s.processes.map f, saveTimer := saveTimer } := by
  intro p hp
  obtain ⟨q, hq, rfl⟩ := List.mem_map.mp hp
  exact hf q (h q hq)

/-! ## What the events keep -/

theorem saveNow_sound (h : AllSound s) : AllSound s.saveNow :=
  map_sound h (f := fun p => { p with saved := p.row })
    (fun _ hp => ⟨hp.short, hp.bg, hp.row, hp.row, hp.written, hp.projection⟩) _

theorem crash_sound (h : AllSound s) : AllSound s.crash :=
  map_sound h (f := fun p => { p with bg := none, row := p.saved }) (fun _ hp =>
    ⟨hp.short, fun _ h => (by cases h), hp.saved, hp.saved, hp.written, hp.projection⟩) _

theorem create_sound (h : AllSound s) : AllSound s.create := by
  refine saveNow_sound fun p hp => ?_
  rcases List.mem_append.mp hp with hp | hp
  · exact h p hp
  · rw [List.mem_singleton.mp hp]
    have hzero : Within ⟨[], []⟩ ⟨0, 0⟩ := fun stream => by cases stream <;> exact Nat.le_refl _
    refine ⟨fun stream => ?_, fun bg hbg => ?_, fun offsets hrow => ?_, fun _ h => (by cases h),
      hzero, fun _ h => (by cases h)⟩
    · cases stream <;> exact Nat.zero_le _
    · cases hbg
      refine ⟨rfl, fun _ h => absurd h List.not_mem_nil, fun stream => ?_, fun stream => ?_⟩
      · cases stream <;> rfl
      · cases stream <;> rfl
    · cases hrow
      exact hzero

variable {p : OutputProcess}

theorem write_sound (h : Sound p) (stream : OutputStream) (text : JsString)
    (hshort : (p.spools.get stream ++ text).length ≤ maxLogBytes) :
    Sound { p with spools := p.spools.set (p.spools.get stream ++ text) stream } := by
  generalize hspools : p.spools.set (p.spools.get stream ++ text) stream = spools
  have hget : ∀ stream', ∃ more, spools.get stream' = p.spools.get stream' ++ more := by
    intro stream'
    rw [← hspools, Streams.get_set]
    split
    · rename_i heq
      exact ⟨text, by rw [heq]⟩
    · exact ⟨[], (List.append_nil _).symm⟩
  have hwithin : ∀ {offsets}, Within p.spools offsets → Within spools offsets := by
    intro offsets hoffsets stream'
    obtain ⟨more, hmore⟩ := hget stream'
    rw [hmore, List.length_append]
    exact Nat.le_add_right_of_le (hoffsets stream')
  have htake : ∀ {offsets}, Within p.spools offsets → ∀ stream',
      (spools.get stream').take (offsets.get stream') =
        (p.spools.get stream').take (offsets.get stream') := by
    intro offsets hoffsets stream'
    obtain ⟨more, hmore⟩ := hget stream'
    rw [hmore, List.take_append_of_le_length (hoffsets stream')]
  constructor
  case short =>
    intro stream'
    rw [← hspools, Streams.get_set]
    split
    · exact hshort
    · exact h.short stream'
  case bg =>
    intro bg hbg
    obtain ⟨hrow, hholds⟩ := h.bg bg hbg
    refine ⟨hrow, hholds.clean, fun stream' => ?_, hholds.arrays⟩
    rw [htake (h.row bg.offsets hrow)]
    exact hholds.text stream'
  case row => exact fun offsets hrow => hwithin (h.row offsets hrow)
  case saved => exact fun offsets hsaved => hwithin (h.saved offsets hsaved)
  case written => exact hwithin h.written
  case projection =>
    intro raw hraw
    obtain ⟨log, hlog, hclean, htext⟩ := h.projection raw hraw
    refine ⟨log, hlog, hclean, fun stream' => ?_⟩
    rw [htake h.written]
    exact htext stream'

/-- A chunk that reads on from the offset of its stream. -/
theorem onChunk_sound (h : Sound p) (hbg : p.bg = some bg)
    (stream : OutputStream) {text : JsString} {newOffset now : Nat}
    (htext : text = ((p.spools.get stream).take newOffset).drop (bg.offsets.get stream))
    (hle : bg.offsets.get stream ≤ newOffset) (hnew : newOffset ≤ (p.spools.get stream).length)
    (hfits : Fits bg (entriesOf stream text now)) :
    Sound (onChunk p bg stream text newOffset now) := by
  obtain ⟨hrow, hholds⟩ := h.bg bg hbg
  obtain ⟨hlog, _, _⟩ := appendEntries_log hfits
  have hwithin : Within p.spools (bg.offsets.set newOffset stream) := by
    intro stream'
    rw [Streams.get_set]
    split
    · rename_i heq
      rw [heq]
      exact hnew
    · exact h.row bg.offsets hrow stream'
  unfold onChunk
  refine { h with bg := fun bg' hbg' => ?_, row := fun offsets hoffsets => ?_ }
  · cases hbg'
    refine ⟨by rw [hrow]; rfl, ?_, fun stream' => ?_, ?_⟩
    · show Clean (bg.appendEntries _).log
      rw [hlog]
      exact hholds.clean.append (clean_entriesOf _ _ _)
    · show logText (bg.appendEntries _).log stream' =
        strip ((p.spools.get stream').take ((bg.offsets.set newOffset stream).get stream'))
      rw [hlog, logText_append, hholds.text, logText_entriesOf, Streams.get_set]
      split
      · rename_i heq
        -- what was consumed, and what the chunk adds to it
        subst heq
        rw [htext]
        have hsplit := strip_take_drop ((p.spools.get stream').take newOffset)
          (bg.offsets.get stream')
        rw [List.take_take, Nat.min_eq_left hle] at hsplit
        exact hsplit
      · rw [List.append_nil]
    · exact appendEntries_arrayed hfits hholds.arrays
  · rw [hrow] at hoffsets
    cases hoffsets
    exact hwithin

/-- A tailer that reads the rest of a spool, or some of it. -/
theorem chunk_sound (h : AllSound s) (k : Nat) (stream : OutputStream)
    {read : JsString → Nat → JsString × Nat} (now : Nat)
    (hread : ∀ p ∈ s.processes[k]?, ∀ bg ∈ p.bg, ∀ tail,
      read (p.spools.get stream) (bg.offsets.get stream) = tail → tail.1 ≠ [] →
        tail.1 = ((p.spools.get stream).take tail.2).drop (bg.offsets.get stream) ∧
          bg.offsets.get stream ≤ tail.2 ∧ tail.2 ≤ (p.spools.get stream).length ∧
          Fits bg (entriesOf stream tail.1 now)) :
    AllSound (s.chunk k stream read now) := by
  unfold chunk
  cases hk : s.processes[k]? with
  | none => exact h
  | some p =>
    dsimp only
    cases hbg : p.bg with
    | none => exact h
    | some bg =>
      dsimp only
      generalize htail : read (p.spools.get stream) (bg.offsets.get stream) = tail
      split
      · exact h
      · rename_i hne
        obtain ⟨htext, hle, hnew, hfits⟩ := hread p hk bg hbg tail htail hne
        refine onProcess_sound h fun q hq hsound => ?_
        rw [Option.mem_def, hk, Option.some.injEq] at hq
        subst hq
        exact onChunk_sound hsound hbg stream htext hle hnew hfits

theorem tick_sound (h : AllSound s) (k : Nat) (stream : OutputStream)
    (now : Nat) (hcaps : WithinCaps s (.tick k stream now)) :
    AllSound (s.chunk k stream readSpoolFrom now) := by
  refine chunk_sound h k stream now fun p hp bg hbg tail htail hne => ?_
  have hsound := h p (List.mem_of_getElem? hp)
  have hfits := hcaps p hp bg hbg
  rw [htail] at hfits
  rw [readSpoolFrom_eq (hsound.short stream)] at htail
  subst htail
  refine ⟨?_, ?_, Nat.le_refl _, hfits⟩
  · rw [List.take_length]
  · exact hsound.row bg.offsets (hsound.bg bg hbg).1 stream

theorem data_sound (h : AllSound s) (k : Nat) (stream : OutputStream)
    (size now : Nat) (hcaps : WithinCaps s (.data k stream size now)) :
    AllSound (s.chunk k stream (followed size) now) := by
  refine chunk_sound h k stream now fun p hp bg hbg tail htail hne => ?_
  have hsound := h p (List.mem_of_getElem? hp)
  have hfits := hcaps p hp bg hbg
  rw [htail] at hfits
  have hwithin := hsound.row bg.offsets (hsound.bg bg hbg).1 stream
  unfold followed at htail
  subst htail
  refine ⟨?_, Nat.le_add_right _ _, ?_, hfits⟩
  · -- the chunk is what stands between the two offsets
    dsimp only
    rw [List.drop_take, Nat.add_sub_cancel_left, List.length_take]
    exact List.take_eq_take_min
  · simp only [List.length_take, List.length_drop]
    omega

/-- A projection that is written holds what was consumed. -/
theorem writeProjection_sound (h : Sound p) : Sound (writeProjection p) := by
  unfold writeProjection
  cases hbg : p.bg with
  | none => exact h
  | some bg =>
    obtain ⟨hrow, hholds⟩ := h.bg bg hbg
    refine ⟨h.short, fun bg' hbg' => ?_, h.row, h.saved, h.row bg.offsets hrow, fun raw hraw => ?_⟩
    · cases hbg'
      exact ⟨hrow, hholds⟩
    · cases hraw
      exact ⟨bg.log, rfl, hholds.clean, hholds.text⟩

theorem projectionFires_sound (h : AllSound s) (k : Nat) : AllSound (s.projectionFires k) := by
  unfold projectionFires
  cases hk : s.processes[k]? with
  | none => exact h
  | some p =>
    dsimp only
    cases hbg : p.bg with
    | none => exact h
    | some bg =>
      dsimp only
      split
      · refine onProcess_sound h fun q hq hsound => ?_
        rw [Option.mem_def, hk, Option.some.injEq] at hq
        subst hq
        obtain ⟨hrow, hholds⟩ := hsound.bg bg hbg
        have hwritten := writeProjection_sound hsound
        unfold writeProjection at hwritten ⊢
        rw [hbg] at hwritten ⊢
        refine ⟨hwritten.short, fun bg' hbg' => ?_, hwritten.row, hwritten.saved,
          hwritten.written, hwritten.projection⟩
        cases hbg'
        exact ⟨hrow, hholds.clean, hholds.text, hholds.arrays⟩
      · exact h

theorem saveFires_sound (h : AllSound s) : AllSound s.saveFires := by
  unfold saveFires
  split
  · exact saveNow_sound h
  · exact h

/-! ## Restores -/

theorem readStream_spec {spools : Streams JsString} (offsets : Streams Nat) {now : Nat}
    (stream : OutputStream) (hshort : (spools.get stream).length ≤ maxLogBytes)
    (hfits : Fits bg (entriesOf stream
      (readSpoolFrom (spools.get stream) (offsets.get stream)).1 now)) :
    (readStream spools offsets now bg stream).log = bg.log ++
        entriesOf stream ((spools.get stream).drop (offsets.get stream)) now ∧
      (readStream spools offsets now bg stream).offsets =
        bg.offsets.set (spools.get stream).length stream ∧
      (Arrayed bg → Arrayed (readStream spools offsets now bg stream)) := by
  rw [readSpoolFrom_eq hshort] at hfits
  unfold readStream
  rw [readSpoolFrom_eq hshort]
  obtain ⟨hlog, _, _⟩ := appendEntries_log hfits
  exact ⟨hlog, rfl, fun harrays => appendEntries_arrayed hfits harrays⟩

theorem readStreams_spec {spools : Streams JsString} (offsets : Streams Nat) {now : Nat}
    (hshort : ∀ stream, (spools.get stream).length ≤ maxLogBytes)
    (hfits : Fits bg (entriesOf .stdout (readSpoolFrom spools.stdout offsets.stdout).1 now ++
      entriesOf .stderr (readSpoolFrom spools.stderr offsets.stderr).1 now))
    (harrays : Arrayed bg) :
    let restored := readStream spools offsets now (readStream spools offsets now bg .stdout) .stderr
    restored.log = bg.log ++ (entriesOf .stdout (spools.stdout.drop offsets.stdout) now ++
        entriesOf .stderr (spools.stderr.drop offsets.stderr) now) ∧
      (∀ stream, restored.offsets.get stream = (spools.get stream).length) ∧
      Arrayed restored := by
  obtain ⟨hfirst, hsecond⟩ := hfits.append
  obtain ⟨hlog, hoffsets, harrays'⟩ :=
    readStream_spec offsets .stdout (hshort .stdout) hfirst
  have hsecond' : Fits (readStream spools offsets now bg .stdout)
      (entriesOf .stderr (readSpoolFrom (spools.get .stderr) (offsets.get .stderr)).1 now) := hsecond
  obtain ⟨hlog', hoffsets', harrays''⟩ :=
    readStream_spec offsets .stderr (hshort .stderr) hsecond'
  refine ⟨?_, fun stream => ?_, harrays'' (harrays' harrays)⟩
  · rw [hlog', hlog, List.append_assoc]
    rfl
  · rw [hoffsets', hoffsets]
    cases stream <;> rfl

/-- What a restore leaves in the log, from the text of its projection. -/
theorem restoreLoadOutput_spec (h : Sound p) {offsets : Streams Nat}
    {now : Nat} (hfits : Fits (empty offsets) (restoredEntries p.spools p.logFile offsets now)) :
    let restored := restoreLoadOutput p.spools p.logFile offsets now
    Clean restored.log ∧ Arrayed restored ∧
      (∀ stream, restored.offsets.get stream = (p.spools.get stream).length) ∧
      ∀ stream, logText restored.log stream =
        match p.logFile with
        | none => strip (p.spools.get stream)
        | some _ => strip ((p.spools.get stream).take (p.projected.get stream)) ++
            strip ((p.spools.get stream).drop (offsets.get stream)) := by
  have hempty : Arrayed (empty offsets) := fun stream => by cases stream <;> rfl
  -- the streams do not mix
  have htext : ∀ (out err : JsString) stream,
      logText (entriesOf .stdout out now ++ entriesOf .stderr err now) stream =
        strip (Streams.get ⟨out, err⟩ stream) := by
    intro out err stream
    rw [logText_append, logText_entriesOf, logText_entriesOf]
    cases stream
    · exact List.append_nil _
    · rfl
  unfold restoreLoadOutput restoredEntries at *
  cases hfile : p.logFile with
  | none =>
    rw [hfile] at hfits
    obtain ⟨hlog, hoffsets, harrays⟩ := readStreams_spec ⟨0, 0⟩ h.short hfits hempty
    refine ⟨?_, harrays, hoffsets, fun stream => ?_⟩
    · dsimp only
      rw [hlog]
      exact Clean.append (fun _ h => absurd h List.not_mem_nil)
        ((clean_entriesOf _ _ _).append (clean_entriesOf _ _ _))
    · dsimp only
      rw [hlog]
      exact (htext _ _ stream).trans (by cases stream <;> rfl)
  | some raw =>
    rw [hfile] at hfits
    obtain ⟨log, hraw, hclean, hprojected⟩ := h.projection raw hfile
    obtain ⟨hfirst, hsecond⟩ := hfits.append
    obtain ⟨hbase, _, _⟩ := appendEntries_log hfirst
    obtain ⟨hlog, hoffsets, harrays⟩ :=
      readStreams_spec offsets h.short hsecond (appendEntries_arrayed hfirst hempty)
    have hentries := projectionEntries_projection hclean now
    rw [← hraw] at hentries
    refine ⟨?_, harrays, hoffsets, fun stream => ?_⟩
    · dsimp only
      rw [hlog, hbase]
      refine Clean.append (Clean.append (fun _ h => absurd h List.not_mem_nil) ?_)
        ((clean_entriesOf _ _ _).append (clean_entriesOf _ _ _))
      rw [hentries]
      intro entry hentry
      obtain ⟨entry', hentry', rfl⟩ := List.mem_map.mp hentry
      exact hclean entry' hentry'
    · dsimp only
      rw [hlog, hbase, logText_append, htext]
      have hloaded : logText ((empty offsets).log ++ projectionEntries raw now) stream =
          logText log stream := by
        rw [hentries]
        unfold logText
        simp only [empty, List.nil_append, List.filter_map, List.map_map]
        rfl
      rw [hloaded, hprojected]
      cases stream <;> rfl

/-- A process that is not attached and has a row, as a restore leaves it. -/
theorem restore_eq {k : Nat} {offsets : Streams Nat}
    (hk : s.processes[k]? = some p) (hbg : p.bg = none) (hrow : p.row = some offsets) (now : Nat) :
    (s.restore k now).processes[k]? = some { writeProjection { p with
      bg := some (restoreLoadOutput p.spools p.logFile offsets now) } with
        row := some (restoreLoadOutput p.spools p.logFile offsets now).offsets } := by
  have hmodify : (s.restore k now).processes = s.processes.modify k fun q =>
      { writeProjection { q with
        bg := some (restoreLoadOutput p.spools p.logFile offsets now) } with
        row := some (restoreLoadOutput p.spools p.logFile offsets now).offsets } := by
    unfold restore
    rw [hk]
    dsimp only
    rw [hbg, hrow]
    rfl
  rw [hmodify, List.getElem?_modify, hk]
  exact congrArg some (if_pos rfl)

theorem restoresExactly_iff (h : AllSound s) (k now : Nat) (hcaps : WithinCaps s (.restore k now)) :
    RestoresExactly s (.restore k now) ↔ FilesAgree s (.restore k now) := by
  cases hk : s.processes[k]? with
  | none =>
    have hstep : (step s (.restore k now)).processes[k]? = none := by
      show (s.restore k now).processes[k]? = none
      unfold restore
      rw [hk]
      exact hk
    refine iff_of_true (fun _ p hp => ?_) fun p hp => ?_
    · rw [hstep] at hp
      cases hp
    · rw [hk] at hp
      cases hp
  | some p =>
    have hsound := h p (List.mem_of_getElem? hk)
    by_cases hbg : p.bg = none
    · cases hrow : p.row with
      | none =>
        -- without a row there is nothing to restore
        have hstep : step s (.restore k now) = s := by
          show s.restore k now = s
          unfold restore
          rw [hk]
          dsimp only
          rw [hbg, hrow]
        refine iff_of_true (fun _ q hq bg hqbg => ?_) fun q hq _ offsets hoffsets => ?_
        · rw [hstep, hk, Option.mem_def, Option.some.injEq] at hq
          subst hq
          rw [hbg] at hqbg
          cases hqbg
        · rw [hk, Option.mem_def, Option.some.injEq] at hq
          subst hq
          rw [hrow] at hoffsets
          cases hoffsets
      | some offsets =>
        obtain ⟨_, harrays, _, htext⟩ :=
          restoreLoadOutput_spec hsound (hcaps p hk (by rw [hbg]; rfl) offsets hrow)
        have hstep := restore_eq hk hbg hrow now
        have hexact : RestoresExactly s (.restore k now) ↔ ∀ stream,
            logText (restoreLoadOutput p.spools p.logFile offsets now).log stream =
              strip (p.spools.get stream) := by
          constructor
          · intro hrestores stream
            have hrestored := hrestores fun q hq => by
              rw [hk, Option.mem_def, Option.some.injEq] at hq
              rw [← hq]
              exact hbg
            exact (hrestored _ hstep _ rfl stream).1
          · intro hall _ q hq bg hqbg stream
            have hq' : (s.restore k now).processes[k]? = some q := hq
            rw [hstep, Option.some.injEq] at hq'
            subst hq'
            cases hqbg
            exact ⟨hall stream, (arrayed_flatten harrays stream).trans (hall stream)⟩
        have hguard : FilesAgree s (.restore k now) ↔ (p.logFile.isSome = true → ∀ stream,
            strip ((p.spools.get stream).take (p.projected.get stream)) =
              strip ((p.spools.get stream).take (offsets.get stream))) := by
          constructor
          · exact fun hagree => hagree p hk hbg offsets hrow
          · intro hagree q hq _ offsets' hoffsets'
            rw [hk, Option.mem_def, Option.some.injEq] at hq
            subst hq
            rw [hrow, Option.mem_def, Option.some.injEq] at hoffsets'
            subst hoffsets'
            exact hagree
        rw [hexact, hguard]
        cases hfile : p.logFile with
        | none =>
          rw [hfile] at htext
          exact iff_of_true (by rw [← hfile] at htext ⊢; simpa [hfile] using htext) (by simp)
        | some raw =>
          -- both say what stands before the stored offset
          rw [hfile] at htext
          refine ⟨fun hall _ stream => ?_, fun hagree stream => ?_⟩
          · have hboth := (htext stream).symm.trans (hall stream)
            rw [← strip_take_drop (p.spools.get stream) (offsets.get stream)] at hboth
            exact List.append_cancel_right hboth
          · rw [htext stream, ← strip_take_drop (p.spools.get stream) (offsets.get stream)]
            exact congrArg (· ++ _) (hagree rfl stream)
    · -- an attached process is skipped
      refine iff_of_true (fun hnone => absurd (hnone p hk) hbg) fun q hq hnone => ?_
      rw [hk, Option.mem_def, Option.some.injEq] at hq
      subst hq
      exact absurd hnone hbg

theorem restore_sound (h : AllSound s) (k now : Nat)
    (hcaps : WithinCaps s (.restore k now)) (hagree : FilesAgree s (.restore k now)) :
    AllSound (s.restore k now) := by
  have hexact := (restoresExactly_iff h k now hcaps).mpr hagree
  unfold restore
  cases hk : s.processes[k]? with
  | none => exact h
  | some p =>
    dsimp only
    split
    · rename_i offsets hbg hrow
      obtain ⟨hclean, harrays, hoffsets, _⟩ :=
        restoreLoadOutput_spec (h p (List.mem_of_getElem? hk)) (hcaps p hk (by rw [hbg]; rfl) offsets hrow)
      have hrestored := hexact (fun q hq => by
        rw [hk, Option.mem_def, Option.some.injEq] at hq
        rw [← hq]
        exact hbg) _ (restore_eq hk hbg hrow now) _ rfl
      generalize restoreLoadOutput p.spools p.logFile offsets now = restored at *
      refine onProcess_sound h fun q hq hsound => ?_
      rw [Option.mem_def, hk, Option.some.injEq] at hq
      subst hq
      have hwithin : Within p.spools restored.offsets := fun stream =>
        Nat.le_of_eq (hoffsets stream)
      have hall : ∀ stream, logText restored.log stream =
          strip ((p.spools.get stream).take (restored.offsets.get stream)) := by
        intro stream
        rw [hoffsets stream, List.take_length]
        exact (hrestored stream).1
      refine ⟨hsound.short, fun bg' hbg' => ?_, fun offsets' hrow' => ?_, hsound.saved, hwithin,
        fun raw hraw => ?_⟩
      · cases hbg'
        exact ⟨rfl, hclean, hall, harrays⟩
      · cases hrow'
        exact hwithin
      · cases hraw
        exact ⟨restored.log, rfl, hclean, hall⟩
    · exact h

/-! ## Runs -/

theorem step_sound (h : AllSound s) {event : Event}
    (hcaps : WithinCaps s event) (hagree : FilesAgree s event) : AllSound (step s event) := by
  cases event with
  | create => exact create_sound h
  | write k stream text =>
    exact onProcess_sound h fun p hp hsound => write_sound hsound stream text (hcaps.2 p hp)
  | tick k stream now => exact tick_sound h k stream now hcaps
  | data k stream size now => exact data_sound h k stream size now hcaps
  | projectionTimer k => exact projectionFires_sound h k
  | saveTimer => exact saveFires_sound h
  | save clears => exact saveNow_sound h
  | crash => exact crash_sound h
  | restore k now => exact restore_sound h k now hcaps hagree

/-- A project without background processes. -/
def start : OutputManager := ⟨[], false⟩

/-- Within the caps, the restores of a run are exact precisely when each finds its files in
    agreement. -/
theorem restored_exactly_iff (events : List Event) (hcaps : Along step WithinCaps start events) :
    Along step RestoresExactly start events ↔ Along step FilesAgree start events := by
  refine along_iff_along (I := AllSound) ?_ ?_ (fun p hp => absurd hp List.not_mem_nil) hcaps
  · exact fun s event h hcaps hagree => step_sound h hcaps hagree
  · intro s event h hcaps
    cases event with
    | restore k now => exact restoresExactly_iff h k now hcaps
    | _ => exact Iff.rfl

/-- The store is saved after the projection was written, and a line is written before the crash. -/
theorem restored_exactly_iff_savedLast :
    let events : List Event := [.create, .write 0 .stdout (js "a\n"), .tick 0 .stdout 5,
      .projectionTimer 0, .saveTimer, .write 0 .stdout (js "b"), .crash, .restore 0 9]
    Along step RestoresExactly start events ↔ Along step FilesAgree start events :=
  restored_exactly_iff _ (by decide)

/-- A crash between the write of a projection and the save of its offset: the text is read again
    from the spool. -/
theorem saved_after_projection : ¬ ∀ events : List Event,
    Along step WithinCaps start events → Along step RestoresExactly start events := by
  intro h
  have hrun := h [.create, .write 0 .stdout (js "a"), .tick 0 .stdout 5, .projectionTimer 0,
    .crash, .restore 0 9] (by decide)
  have hrestored := hrun.2.2.2.2.2.1 (by decide)
  have htext : ((run step start [.create, .write 0 .stdout (js "a"), .tick 0 .stdout 5,
      .projectionTimer 0, .crash, .restore 0 9]).processes[0]?).map
        (fun p => (p.bg.map fun bg => logText bg.log .stdout, p.spools.get .stdout)) =
      some (some (js "aa"), js "a") := by decide
  obtain ⟨p, hp, hboth⟩ := Option.map_eq_some_iff.mp htext
  obtain ⟨hbg, hspool⟩ := Prod.mk.inj hboth
  obtain ⟨bg, hbg, hlog⟩ := Option.map_eq_some_iff.mp hbg
  have hexact := (hrestored p hp bg hbg .stdout).1
  rw [hlog, hspool] at hexact
  revert hexact
  decide

end Bobbit.Server.OutputManager
