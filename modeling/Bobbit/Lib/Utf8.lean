import Mathlib
import Bobbit.Lib.Json

/-!
# UTF-8 of JavaScript strings

`Buffer.from(s, "utf8")` reads a string as characters, in which a lone surrogate counts as
U+FFFD, and writes their UTF-8.
-/

namespace Bobbit.Lib.JsString

open Json

/-- What a lone surrogate is read as. -/
def replacement : Char := Char.ofNat 0xFFFD

/-- The character of a surrogate pair. -/
def ofPair (high low : UInt16) : Char :=
  Char.ofNat (0x10000 + (high.toNat - 0xD800) * 0x400 + (low.toNat - 0xDC00))

def chars : JsString → List Char
  | [] => []
  | [u] => [if isHighSurrogate u || isLowSurrogate u then replacement else Char.ofNat u.toNat]
  | u :: v :: rest =>
    if isHighSurrogate u && isLowSurrogate v then ofPair u v :: chars rest
    else
      (if isHighSurrogate u || isLowSurrogate u then replacement else Char.ofNat u.toNat) ::
        chars (v :: rest)

/-- `Buffer.from(s, "utf8")`. -/
def utf8 (s : JsString) : List UInt8 := (chars s).flatMap String.utf8EncodeChar

def byteLength (s : JsString) : Nat := (utf8 s).length

end Bobbit.Lib.JsString
