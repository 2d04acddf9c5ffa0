import Bobbit.Lib.FreshName

/-!
# The search chunker (`server/search/chunker.ts`)

`chunkText` cuts a long text into overlapping chunks of whole words. A window grows word by word
while the counts of its words stay within `maxTokens`; the next one starts some words before the
end of the last, until those words count `overlap`.

Token counts are rational numbers. The loop carries the window a chunk was cut from, which the
source keeps in its variables `start` and `end`.
-/

namespace Bobbit.Server.Chunker

open Lib Lib.JsString

/-- `ChunkOptions`, with the defaults of `chunkText`. -/
structure ChunkOptions where
  maxTokens : ℚ := 2000
  overlap : ℚ := 200
  countTokens : JsString → ℚ

def approxTokenCount (text : JsString) : ℚ := ((text.length + 3) / 4 : Nat)

structure Chunk where
  id : JsString
  text : JsString
  index : Nat
  tokenCount : ℚ
  deriving DecidableEq

/-- `text.split(/\s+/).filter((w) => w.length > 0)`: the white space that `\s` matches is what
    `trim` strips. -/
def splitWords (text : JsString) : List JsString :=
  (text.splitOnP isTrimmed).filter (· ≠ [])

/-- `words.slice(start, end).join(" ")`. -/
def joinWords (words : List JsString) : JsString := [(0x20 : UInt16)].intercalate words

def wordTokens (countTokens : JsString → ℚ) (words : List JsString) : List ℚ :=
  words.map fun w => max 1 (countTokens w)

/-- The inner loop that grows a window: how many of the counts ahead are taken, and their sum. -/
def grow (maxTokens acc : ℚ) : List ℚ → Nat × ℚ
  | [] => (0, acc)
  | t :: rest =>
    if acc + t ≤ maxTokens then
      let grown := grow maxTokens (acc + t) rest
      (grown.1 + 1, grown.2)
    else (0, acc)

/-- The inner loop that backs off from `nextStart`. -/
def backOff (overlap : ℚ) (tokens : List ℚ) (start : Nat) : Nat → ℚ → Nat
  | 0, _ => 0
  | nextStart + 1, backoffTokens =>
    if start + 1 < nextStart + 1 ∧ backoffTokens < overlap then
      backOff overlap tokens start nextStart (backoffTokens + tokens.getD nextStart 0)
    else nextStart + 1

/-- The words from `start` up to, not including, `stop`, and `acc`. -/
structure Window where
  start : Nat
  stop : Nat
  acc : ℚ
  deriving DecidableEq

/-- The window that begins at `start`: at least one word. -/
def windowAt (maxTokens : ℚ) (tokens : List ℚ) (start : Nat) : Window :=
  let grown := grow maxTokens 0 (tokens.drop start)
  if grown.1 = 0 then ⟨start, start + 1, tokens.getD start 0⟩
  else ⟨start, start + grown.1, grown.2⟩

/-- The main loop. `none` stands for a loop that does not end. -/
def windows (maxTokens overlap : ℚ) (tokens : List ℚ) : Nat → Nat → Option (List Window)
  | 0, _ => none
  | fuel + 1, start =>
    if start < tokens.length then
      let window := windowAt maxTokens tokens start
      if tokens.length ≤ window.stop then some [window]
      else
        let nextStart := backOff overlap tokens start window.stop 0
        let start' := if nextStart ≤ start then start + 1 else nextStart
        (windows maxTokens overlap tokens fuel start').map (window :: ·)
    else some []

def Window.chunk (w : Window) (parentId : JsString) (words : List JsString) (index : Nat) : Chunk :=
  { id := parentId ++ js ":chunk:" ++ numberText index
    text := joinWords ((words.take w.stop).drop w.start)
    index := index
    tokenCount := w.acc }

/-- What `chunkText` comes to. -/
inductive Outcome where
  | threw (message : String)
  | diverged
  | returned (chunks : List Chunk)
  deriving DecidableEq

def chunkText (text parentId : JsString) (opts : ChunkOptions) : Outcome :=
  if opts.maxTokens ≤ 0 then .threw "chunkText: maxTokens must be > 0"
  else if opts.overlap < 0 ∨ opts.maxTokens ≤ opts.overlap then
    .threw "chunkText: overlap must satisfy 0 <= overlap < maxTokens"
  else if trim text = [] then .returned []
  else
    let total := opts.countTokens text
    if total ≤ opts.maxTokens then
      .returned [⟨parentId ++ js ":chunk:" ++ numberText 0, text, 0, total⟩]
    else
      let words := splitWords text
      let tokens := wordTokens opts.countTokens words
      match windows opts.maxTokens opts.overlap tokens (words.length + 1) 0 with
      | none => .diverged
      | some ws => .returned (ws.zipIdx.map fun p => p.1.chunk parentId words p.2)

end Bobbit.Server.Chunker
