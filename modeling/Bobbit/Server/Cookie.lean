import Bobbit.Lib.Base64Url
import Bobbit.Lib.Decimal
import Bobbit.Lib.JsMap

/-!
# Session cookies

A cookie is a version, the times of its issue and of its expiry, a nonce and a keyed digest of the
fields before it, joined by dots. A preview cookie also names its session, and its digest covers a
domain text that a session cookie's does not. A request carries its cookies in one header.
-/

namespace Bobbit.Server.Cookie

open Lib JsString

/-- The keyed digest of SHA-256: the key and the message give 32 bytes. -/
structure Hmac where
  digest : List UInt8 → List UInt8 → List UInt8
  length_digest : ∀ key message, (digest key message).length = 32

def signingKeyBytes : Nat := 32

def nonceBytes : Nat := 16

def maxAgeSeconds : Nat := 60 * 60 * 24 * 30

def futureSkewSeconds : Nat := 5 * 60

def renewalWindowSeconds : Nat := 60 * 60 * 24 * 7

def previewMaxAgeSeconds : Nat := 60 * 60 * 24

def previewRenewalWindowSeconds : Nat := 60 * 60

def maxSafeInteger : Nat := 2 ^ 53 - 1

def fieldDot : UInt16 := 0x2E

def joinFields (fields : List JsString) : JsString := [fieldDot].intercalate fields

structure CookieVerification where
  issuedAt : Nat
  expiresAt : Nat
  needsRenewal : Bool
  deriving DecidableEq, Repr

/-! ## Fields -/

/-- The number of a canonical text. A text that is no safe integer reads as no number at all. -/
def canonicalUint (raw : JsString) : Option Nat :=
  if ! isDecimal raw then none
  else
    let parsed := decimalValue raw
    if maxSafeInteger < parsed ∨ numberText parsed ≠ raw then none else some parsed

def canonicalBase64Url (raw : JsString) (expectedBytes : Nat) : Option (List UInt8) :=
  if ! (! raw.isEmpty && raw.all (· ∈ Base64Url.alphabet)) then none
  else
    let decoded := Base64Url.decode raw
    if decoded.length ≠ expectedBytes ∨ Base64Url.encode decoded ≠ raw then none else some decoded

/-- The clock's seconds, `Math.floor(clock.now() / 1_000)`: an integer, or none where the clock
gives no finite number. -/
structure CookieClock where
  seconds : Option Int

def unixSeconds (clock : CookieClock) : Except String Nat :=
  match clock.seconds with
  | none => .error "Cookie clock returned an invalid Unix time"
  | some now =>
    if (maxSafeInteger : Int) < now ∨ now < 0 then
      .error "Cookie clock returned an invalid Unix time"
    else .ok now.toNat

/-- `randomBytes(size)`, which must give exactly that many. -/
def secureRandomBytes (value : List UInt8) (size : Nat) : Except String (List UInt8) :=
  if value.length ≠ size then
    .error ("Cookie random source must return exactly " ++ toString size ++ " bytes")
  else .ok value

def asciiBytes (s : JsString) : List UInt8 := s.map UInt16.toUInt8

/-! ## The two kinds of cookie -/

/-- What the kinds differ in: the fields before the times, the text that goes before the signed
fields, and the limits. -/
structure Kind where
  head : List JsString
  signingDomain : JsString
  maxWireLength : Nat
  maxAge : Nat
  renewalWindow : Nat

/-- The fields of a cookie as they are decoded, with the text that its digest is to cover. -/
structure Credential where
  head : List JsString
  issuedAt : Nat
  expiresAt : Nat
  nonce : List UInt8
  tag : List UInt8
  payload : JsString

structure CookieStore where
  hmac : Hmac
  signingKey : List UInt8
  length_signingKey : signingKey.length = signingKeyBytes

namespace CookieStore

variable (store : CookieStore)

def sign (kind : Kind) (payload : JsString) : List UInt8 :=
  store.hmac.digest store.signingKey (asciiBytes kind.signingDomain ++ asciiBytes payload)

def mintKind (kind : Kind) (clock : CookieClock) (random : List UInt8) :
    Except String JsString := do
  let issuedAt ← unixSeconds clock
  let expiresAt := issuedAt + kind.maxAge
  if maxSafeInteger < expiresAt then throw "Cookie expiry exceeds the safe integer range"
  let nonce ← secureRandomBytes random nonceBytes
  let payload :=
    joinFields (kind.head ++ [numberText issuedAt, numberText expiresAt, Base64Url.encode nonce])
  return joinFields [payload, Base64Url.encode (store.sign kind payload)]

def verifyTimes (clock : CookieClock) (issuedAt expiresAt maxAge renewalWindow : Nat) :
    Except String (Option CookieVerification) :=
  if expiresAt ≤ issuedAt ∨ maxAge < expiresAt - issuedAt then .ok none
  else do
    let now ← unixSeconds clock
    if now + futureSkewSeconds < issuedAt ∨ expiresAt ≤ now then return none
    return some ⟨issuedAt, expiresAt, expiresAt - now ≤ renewalWindow⟩

end CookieStore

def decodeFields (kind : Kind) (value : JsString) : Option Credential :=
  if kind.maxWireLength < value.length then none
  else
    let parts := value.splitOn fieldDot
    if parts.take kind.head.length ≠ kind.head then none
    else
      match parts.drop kind.head.length with
      | [rawIssuedAt, rawExpiresAt, rawNonce, rawSignature] => do
        let issuedAt ← canonicalUint rawIssuedAt
        let expiresAt ← canonicalUint rawExpiresAt
        let nonce ← canonicalBase64Url rawNonce nonceBytes
        let signature ← canonicalBase64Url rawSignature signingKeyBytes
        some ⟨kind.head, issuedAt, expiresAt, nonce, signature,
          joinFields (kind.head ++ [rawIssuedAt, rawExpiresAt, rawNonce])⟩
      | _ => none

namespace CookieStore

variable (store : CookieStore)

def verifyKind (kind : Kind) (clock : CookieClock) (value : JsString) :
    Except String (Option CookieVerification) :=
  match decodeFields kind value with
  | none => .ok none
  | some credential =>
    if store.sign kind credential.payload ≠ credential.tag then .ok none
    else
      verifyTimes clock credential.issuedAt credential.expiresAt kind.maxAge kind.renewalWindow

end CookieStore

/-! ## Session cookies -/

def sessionKind : Kind :=
  ⟨[js "v1"], [], 103, maxAgeSeconds, renewalWindowSeconds⟩

def CookieStore.mint (store : CookieStore) : CookieClock → List UInt8 → Except String JsString :=
  store.mintKind sessionKind

def CookieStore.verify (store : CookieStore) :
    CookieClock → JsString → Except String (Option CookieVerification) :=
  store.verifyKind sessionKind

/-! ## Preview cookies -/

/-- `[a-f0-9]` of a pattern that ignores case. -/
def isHexUnit (c : UInt16) : Bool :=
  isDigit c || (0x61 ≤ c && c ≤ 0x66) || (0x41 ≤ c && c ≤ 0x46)

/-- `/^[a-f0-9]{8}-[a-f0-9]{4}-[a-f0-9]{4}-[a-f0-9]{4}-[a-f0-9]{12}$/i`. -/
def isPreviewSessionId (sessionId : JsString) : Bool :=
  let groups := sessionId.splitOn 0x2D
  groups.map List.length == [8, 4, 4, 4, 12] && groups.all fun group => group.all isHexUnit

/-- `toLowerCase` of a text of hexadecimal digits and dashes. -/
def lowerCased (s : JsString) : JsString :=
  s.map fun c => if 0x41 ≤ c && c ≤ 0x46 then c + 0x20 else c

def canonicalPreviewSessionId (sessionId : JsString) : Option JsString :=
  if isPreviewSessionId sessionId then some (lowerCased sessionId) else none

def previewKind (canonicalSessionId : JsString) : Kind :=
  ⟨[js "pv1", canonicalSessionId], js "bobbit-preview-resource" ++ [0], 144, previewMaxAgeSeconds,
    previewRenewalWindowSeconds⟩

namespace CookieStore

variable (store : CookieStore)

def mintPreviewResource (sessionId : JsString) (clock : CookieClock) (random : List UInt8) :
    Except String JsString :=
  match canonicalPreviewSessionId sessionId with
  | none => .error "Invalid preview session ID"
  | some canonicalSessionId => store.mintKind (previewKind canonicalSessionId) clock random

def verifyPreviewResource (value sessionId : JsString) (clock : CookieClock) :
    Except String (Option CookieVerification) :=
  match canonicalPreviewSessionId sessionId with
  | none => .ok none
  | some canonicalSessionId => store.verifyKind (previewKind canonicalSessionId) clock value

end CookieStore

/-! ## Request headers -/

def cookieName : JsString := js "bobbit_session"

def previewCookieName : JsString := js "bobbit_preview"

def percent : UInt16 := 0x25

def semicolon : UInt16 := 0x3B

def equalsSign : UInt16 := 0x3D

/-- The byte that a `%` and two digits at the front stand for. -/
def escapedByte : JsString → Option (UInt8 × JsString)
  | c :: high :: low :: rest =>
    if c ≠ percent then none
    else do some (UInt8.ofNat (16 * (← Json.hexValue high) + (← Json.hexValue low)), rest)
  | _ => none

def escapedBytes : Nat → JsString → Option (List UInt8 × JsString)
  | 0, s => some ([], s)
  | n + 1, s => do
    let (byte, rest) ← escapedByte s
    let (bytes, rest) ← escapedBytes n rest
    some (byte :: bytes, rest)

/-- How many bytes a character has that begins with this one. -/
def octetCount (lead : UInt8) : Option Nat :=
  if lead < 0x80 then some 1
  else if lead < 0xC0 then none
  else if lead < 0xE0 then some 2
  else if lead < 0xF0 then some 3
  else if lead < 0xF8 then some 4
  else none

/-- The turns of `decodeURIComponent`, with fuel for the units. -/
def decodeUnits : Nat → JsString → Option JsString
  | fuel + 1, c :: rest =>
    if c ≠ percent then (c :: ·) <$> decodeUnits fuel rest
    else do
      let (lead, _) ← escapedByte (c :: rest)
      let (octets, rest) ← escapedBytes (← octetCount lead) (c :: rest)
      (js (← String.fromUTF8? ⟨octets.toArray⟩) ++ ·) <$> decodeUnits fuel rest
  | _, _ => some []

/-- `decodeURIComponent`; none where it throws. -/
def decodeURIComponent (s : JsString) : Option JsString := decodeUnits s.length s

/-- The name before the first `=` of a part of the header. -/
def partName (part : JsString) : JsString := trim (part.takeWhile (· ≠ equalsSign))

/-- One turn of the loop over the parts. An assignment to `__proto__` makes no property. -/
def addCookie (out : JsMap JsString JsString) (part : JsString) : JsMap JsString JsString :=
  let name := partName part
  let value := trim ((part.dropWhile (· ≠ equalsSign)).drop 1)
  if equalsSign ∉ part ∨ name = [] ∨ name = js "__proto__" then out
  else out.set name ((decodeURIComponent value).getD value)

def parseCookies (header : Option JsString) : JsMap JsString JsString :=
  match header with
  | none => []
  | some header => if header = [] then [] else (header.splitOn semicolon).foldl addCookie []

namespace CookieStore

variable (store : CookieStore)

def tryAuth (header : Option JsString) (clock : CookieClock) : Except String Bool :=
  match (parseCookies header).get? cookieName with
  | none => .ok false
  | some value => Option.isSome <$> store.verify clock value

def tryPreviewAuth (header : Option JsString) (sessionId : JsString) (clock : CookieClock) :
    Except String Bool :=
  Option.isSome <$> store.verifyPreviewResource
    (((parseCookies header).get? previewCookieName).getD []) sessionId clock

end CookieStore

/-! ## Issuing -/

/-- A cookie is issued unless the one that came is valid and not about to expire. -/
def issueUnlessFresh (verification : Except String (Option CookieVerification))
    (issue : Except String JsString) : Except String (Option JsString) := do
  match ← verification with
  | some v => if v.needsRenewal then some <$> issue else return none
  | none => some <$> issue

namespace CookieStore

variable (store : CookieStore)

/-- `clock` is read by the verification, `later` by the issue. -/
def issueIfMissing (header : Option JsString) (clock later : CookieClock) (random : List UInt8) :
    Except String (Option JsString) :=
  issueUnlessFresh
    (((parseCookies header).get? cookieName).elim (.ok none) (store.verify clock))
    (store.mint later random)

def issuePreviewCookieIfMissing (header : Option JsString) (sessionId : JsString)
    (clock later : CookieClock) (random : List UInt8) : Except String (Option JsString) :=
  issueUnlessFresh
    (store.verifyPreviewResource (((parseCookies header).get? previewCookieName).getD [])
      sessionId clock)
    (store.mintPreviewResource sessionId later random)

end CookieStore

end Bobbit.Server.Cookie
