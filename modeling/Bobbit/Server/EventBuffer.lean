import Mathlib
import Bobbit.Lib.Run

/-!
# Event buffer

Model of `src/server/agent/event-buffer.ts`: the per-session ring of recent
agent events a reconnecting client catches up from, bounded by count and by
serialized bytes.

Sequence numbers and clock values are integers. The UTF-8 length that
`estimateSerializedBytes` returns is an argument of `push`; `none` is its
`Number.POSITIVE_INFINITY`, the answer for an event that does not serialize.
-/

namespace Bobbit.Server

variable {ε : Type}

/-- A buffered event with the sequence number and clock value it was given. -/
structure BufferedEvent (ε : Type) where
  seq : Int
  ts : Int
  event : ε
deriving DecidableEq

/-- A retained entry and the cached byte length of its serialized form. -/
structure RetainedEvent (ε : Type) where
  entry : BufferedEvent ε
  bytes : Nat
deriving DecidableEq

/-- Recent agent events for reconnection catch-up. `lastUnretainedSeq` is the
    highest assigned number that is intentionally not retained. -/
structure EventBuffer (ε : Type) where
  buffer : List (RetainedEvent ε)
  maxSize : Nat
  byteLimit : Nat
  bytesRetained : Int
  lastUnretainedSeq : Int
  nextSeq : Int
deriving DecidableEq

namespace EventBuffer

/-- `DEFAULT_MAX_BYTES`, the resume replay budget. -/
def defaultMaxBytes : Rat := 2 * 1024 * 1024

/-- `Number.isFinite(x) ? Math.max(0, Math.floor(x)) : 0`; `none` is a number
    that is not finite. -/
def normaliseLimit : Option Rat → Nat
  | some x => (max 0 ⌊x⌋).toNat
  | none => 0

def new (maxSize maxBytes : Option Rat) : EventBuffer ε where
  buffer := []
  maxSize := normaliseLimit maxSize
  byteLimit := normaliseLimit maxBytes
  bytesRetained := 0
  lastUnretainedSeq := 0
  nextSeq := 1

/-- Highest sequence number assigned so far. -/
def lastSeq (b : EventBuffer ε) : Int := b.nextSeq - 1

def dropAllRetained (b : EventBuffer ε) : EventBuffer ε :=
  { b with buffer := [], bytesRetained := 0 }

/-- The eviction loop of `push`: shift entries while the count or the byte
    budget is exceeded. -/
def evict (maxSize byteLimit : Nat) :
    List (RetainedEvent ε) → Int → List (RetainedEvent ε) × Int
  | [], bytes => ([], bytes)
  | r :: rest, bytes =>
    if (r :: rest).length > maxSize ∨ bytes > byteLimit then
      evict maxSize byteLimit rest (bytes - r.bytes)
    else
      (r :: rest, bytes)

/-- `push`: assign the next number, then retain the entry if it fits. Returns
    the entry also when it is too large to retain. -/
def push (b : EventBuffer ε) (event : ε) (ts : Int) (bytes : Option Nat) :
    EventBuffer ε × BufferedEvent ε :=
  let entry : BufferedEvent ε := ⟨b.nextSeq, ts, event⟩
  let b := { b with nextSeq := b.nextSeq + 1 }
  match bytes with
  | none => ({ b.dropAllRetained with lastUnretainedSeq := entry.seq }, entry)
  | some n =>
    if n > b.byteLimit ∨ b.maxSize = 0 then
      ({ b.dropAllRetained with lastUnretainedSeq := entry.seq }, entry)
    else
      let kept := evict b.maxSize b.byteLimit (b.buffer ++ [⟨entry, n⟩]) (b.bytesRetained + n)
      ({ b with buffer := kept.1, bytesRetained := kept.2 }, entry)

/-- `pushFrame`: assign a number to a frame the ring never holds. -/
def pushFrame (b : EventBuffer ε) (ts : Int) : EventBuffer ε × (Int × Int) :=
  ({ b with nextSeq := b.nextSeq + 1, lastUnretainedSeq := b.nextSeq }, (b.nextSeq, ts))

/-- All buffered entries, oldest first. -/
def getAll (b : EventBuffer ε) : List (BufferedEvent ε) := b.buffer.map (·.entry)

/-- `since`: the entries numbered above `fromSeq`. -/
def since (b : EventBuffer ε) (fromSeq : Int) : List (BufferedEvent ε) :=
  match b.buffer with
  | [] => []
  | first :: _ =>
    if fromSeq < first.entry.seq - 1 then b.getAll
    else b.getAll.filter (fun e => e.seq > fromSeq)

def canResumeFrom (b : EventBuffer ε) (fromSeq : Int) : Bool :=
  if fromSeq < b.lastUnretainedSeq then false
  else match b.buffer with
    | [] => fromSeq == b.lastSeq
    | first :: _ => first.entry.seq ≤ fromSeq + 1

def clear (b : EventBuffer ε) : EventBuffer ε :=
  { b.dropAllRetained with lastUnretainedSeq := 0, nextSeq := 1 }

/-- `seedNextSeq`; `none` is a number that is not finite. The counter never
    goes backwards. -/
def seedNextSeq (b : EventBuffer ε) : Option Int → EventBuffer ε
  | none => b
  | some seq => if seq < 1 ∨ seq ≤ b.nextSeq then b else { b with nextSeq := seq }

/-- The operations that change a buffer. -/
inductive Op (ε : Type)
  | push (event : ε) (ts : Int) (bytes : Option Nat)
  | pushFrame (ts : Int)
  | seedNextSeq (seq : Option Int)
  | clear

end EventBuffer

/-! ## What a session has assigned -/

/-- A buffer together with what its session has assigned since the counter last
    started over: every event that `push` numbered, oldest first, and the
    highest number that `seedNextSeq` jumped over. -/
structure EventSession (ε : Type) where
  buf : EventBuffer ε
  assigned : List (BufferedEvent ε)
  lastSkippedSeq : Int
deriving DecidableEq

namespace EventSession

open EventBuffer (Op)

def new (maxSize maxBytes : Option Rat) : EventSession ε :=
  ⟨.new maxSize maxBytes, [], 0⟩

def step (s : EventSession ε) : Op ε → EventSession ε
  | .push event ts bytes =>
    let (buf, entry) := s.buf.push event ts bytes
    { s with buf, assigned := s.assigned ++ [entry] }
  | .pushFrame ts => { s with buf := (s.buf.pushFrame ts).1 }
  | .seedNextSeq seq =>
    let buf := s.buf.seedNextSeq seq
    if buf.nextSeq = s.buf.nextSeq then { s with buf }
    else { s with buf, lastSkippedSeq := buf.lastSeq }
  | .clear => ⟨s.buf.clear, [], 0⟩

/-- The session after a list of operations. -/
def run (maxSize maxBytes : Option Rat) (ops : List (Op ε)) : EventSession ε :=
  Lib.run step (.new maxSize maxBytes) ops

/-- The numbers `lo + 1, …, hi`, in order. -/
def seqRange (lo hi : Int) : List Int :=
  (List.range (hi - lo).toNat).map (fun i : Nat => lo + 1 + (i : Int))

/-- A replay from cursor `c` is exact: the cursor is not from the future, and
    `since c` holds precisely the events numbered `c + 1, …, lastSeq`, each once
    and consecutively, none of them evicted. -/
def ReplayExact (s : EventSession ε) (c : Int) : Prop :=
  c ≤ s.buf.lastSeq ∧
  s.buf.since c = s.assigned.filter (fun e => e.seq > c) ∧
  (s.buf.since c).map (·.seq) = seqRange c s.buf.lastSeq

/-- The byte counter is the sum of the retained sizes, and both limits hold. -/
def BytesExact (b : EventBuffer ε) : Prop :=
  b.bytesRetained = (b.buffer.map (fun r => (r.bytes : Int))).sum ∧
  b.bytesRetained ≤ b.byteLimit ∧ b.buffer.length ≤ b.maxSize

end EventSession

end Bobbit.Server
