import Bobbit.Lib.Json
import Bobbit.Lib.JsMap

/-!
# The policy of request admission

Model of the configuration half of `src/server/request-admission.ts`: hosts, origins and the policy
that they are compiled to.

The URL parser and the case mappings of the platform are parameters (`Platform`). Header values and
names are JavaScript strings, and the numbers of the configuration are rationals.
-/

namespace Bobbit.Server.RequestAdmission

open Bobbit.Lib

/-! ## The platform -/

/-- What the code reads of a `URL`. -/
structure Url where
  protocol : JsString
  username : JsString
  password : JsString
  hostname : JsString
  port : JsString
  pathname : JsString
  search : JsString
  hash : JsString

/-- `new URL(raw, base)`, which may throw, and the case mappings of strings. -/
structure Platform where
  newUrl : JsString → Option JsString → Option Url
  toLowerCase : JsString → JsString
  toUpperCase : JsString → JsString

/-! ## Characters -/

def isDigit (c : UInt16) : Bool := 0x30 ≤ c && c ≤ 0x39

def isUpperLetter (c : UInt16) : Bool := 0x41 ≤ c && c ≤ 0x5A

def isLowerLetter (c : UInt16) : Bool := 0x61 ≤ c && c ≤ 0x7A

/-- A control character, or a space when `space` holds. -/
def isControl (space : Bool) (c : UInt16) : Bool := c < 0x20 || c == 0x7F || space && c == 0x20

/-- `TOKEN.test(value)`. -/
def isToken (value : JsString) : Bool :=
  ! value.isEmpty && value.all fun c =>
    isDigit c || isUpperLetter c || isLowerLetter c || (js "!#$%&'*+-.^_`|~").contains c

def comma : UInt16 := 0x2C
def dot : UInt16 := 0x2E
def slash : UInt16 := 0x2F
def colon : UInt16 := 0x3A
def semicolon : UInt16 := 0x3B
def equals : UInt16 := 0x3D
def minus : UInt16 := 0x2D

/-- `value === value.trim()`. -/
def isTrimmed (value : JsString) : Bool := value == value.trim

def isExactToken (value : JsString) : Bool :=
  isTrimmed value && isToken value && ! value.contains comma

def isCleanScalar (raw : JsString) : Bool :=
  ! raw.isEmpty && isTrimmed raw &&
    ! raw.any fun c => isControl true c || (js ",/?#\\@").contains c

/-! ## Hosts and origins -/

/-- `ParsedOrigin`, without the key that nothing reads. -/
structure ParsedOrigin where
  serialized : JsString
  protocol : JsString
  hostname : JsString
  port : Nat
deriving DecidableEq

structure ParsedHost where
  hostname : JsString
  explicitPort : Option Nat
  serialized : JsString
deriving DecidableEq

/-- `Number(digits)`. -/
def digitsToNat (digits : JsString) : Nat :=
  digits.foldl (fun n c => 10 * n + (c.toNat - 0x30)) 0

/-- `String(n)`. -/
def natToText (n : Nat) : JsString := js (toString n)

def parsePort (raw : JsString) : Option Nat :=
  if 1 ≤ raw.length ∧ raw.length ≤ 5 ∧ raw.all isDigit then
    let port := digitsToNat raw
    if 1 ≤ port ∧ port ≤ 65535 then some port else none
  else none

def serializeAuthority (hostname : JsString) (port : Option Nat) : JsString :=
  let host := if hostname.contains colon then js "[" ++ hostname ++ js "]" else hostname
  match port with
  | none => host
  | some port => host ++ js ":" ++ natToText port

def defaultPort (protocol : JsString) : Nat := if protocol = js "https:" then 443 else 80

def isWildcardListener (hostname : JsString) : Bool :=
  hostname == js "0.0.0.0" || hostname == js "::"

/-- `LOOPBACK_HOSTS`. -/
def loopbackHosts : List JsString := [js "localhost", js "127.0.0.1", js "::1"]

def isLoopbackHostname (hostname : JsString) : Bool := loopbackHosts.contains hostname

def stripIpv6Brackets (hostname : JsString) : JsString :=
  if (js "[").isPrefixOf hostname && (js "]").isSuffixOf hostname then (hostname.drop 1).dropLast
  else hostname

def parseIpv4 (raw : JsString) : Option JsString :=
  let parts := raw.splitOn dot
  if parts.length ≠ 4 || parts.any fun part =>
      ! (1 ≤ part.length && part.length ≤ 3 && part.all isDigit) || 255 < digitsToNat part
  then none
  else some ([dot].intercalate (parts.map fun part => natToText (digitsToNat part)))

/-- A label of a host name: letters, digits and inner hyphens. -/
def isLabel (label : JsString) : Bool :=
  let alphanumeric := fun c => isDigit c || isLowerLetter c
  label.length ≤ 63 && label.all (fun c => alphanumeric c || c == minus) &&
    label.head?.any alphanumeric && label.getLast?.any alphanumeric

section Platform

variable (p : Platform)

def parseIpv6 (raw : JsString) : Option JsString :=
  if ! raw.isEmpty && raw.all fun c =>
      isDigit c || (0x61 ≤ c && c ≤ 0x66) || (0x41 ≤ c && c ≤ 0x46) || c == colon || c == dot then
    match p.newUrl (js "http://[" ++ raw ++ js "]") none with
    | none => none
    | some url =>
      let hostname := p.toLowerCase (stripIpv6Brackets url.hostname)
      if hostname.contains colon then some hostname else none
  else none

def parseHostname (raw : JsString) : Option JsString :=
  if raw.isEmpty || ! isTrimmed raw || raw.contains 0x25 then none
  else if raw.contains colon then parseIpv6 p raw
  else
    let lowered := p.toLowerCase raw
    let value := if (js ".").isSuffixOf lowered then lowered.dropLast else lowered
    if value.isEmpty || (js ".").isSuffixOf value || 253 < value.length then none
    else if value.all fun c => isDigit c || c == dot then parseIpv4 value
    else if (value.splitOn dot).any fun label => ! isLabel label then none
    else some value

def originFromParts (protocol hostname : JsString) (port : Nat) : ParsedOrigin :=
  let authority :=
    serializeAuthority hostname (if port = defaultPort protocol then none else some port)
  ⟨protocol.dropLast ++ js "://" ++ authority, protocol, hostname, port⟩

/-- `parseRequestHost`: the host name and the port as they stand in the header. -/
def splitHost (raw : JsString) : Option (JsString × Option JsString) :=
  if (js "[").isPrefixOf raw then
    let inner := raw.drop 1
    if ! inner.contains 0x5D then none
    else
      let remainder := (inner.dropWhile (· != 0x5D)).drop 1
      let hostname := inner.takeWhile (· != 0x5D)
      match remainder with
      | [] => some (hostname, none)
      | c :: port => if c = colon then some (hostname, some port) else none
  else
    let port := raw.dropWhile (· != colon)
    match port with
    | [] => some (raw, none)
    | _ :: port =>
      if port.contains colon then none else some (raw.takeWhile (· != colon), some port)

def parseRequestHost (raw : JsString) : Option ParsedHost :=
  if ! isCleanScalar raw then none
  else match splitHost raw with
    | none => none
    | some (hostnameRaw, portRaw) =>
      match parseHostname p hostnameRaw with
      | none => none
      | some hostname =>
        if hostname.contains colon != (js "[").isPrefixOf raw then none
        else match portRaw with
          | none => some ⟨hostname, none, serializeAuthority hostname none⟩
          | some portRaw =>
            match parsePort portRaw with
            | none => none
            | some port => some ⟨hostname, some port, serializeAuthority hostname (some port)⟩

/-- The parts of a URL that an origin must not have, and its protocol. -/
def isOriginUrl (url : Url) (emptyPath : Bool) : Bool :=
  (url.protocol == js "http:" || url.protocol == js "https:") && url.username.isEmpty &&
    url.password.isEmpty && (url.pathname == js "/" || emptyPath && url.pathname.isEmpty) &&
    url.search.isEmpty && url.hash.isEmpty

/-- The port of a URL: the given one, or the default of its protocol. -/
def urlPort (url : Url) : Option Nat :=
  if url.port.isEmpty then some (defaultPort url.protocol) else parsePort url.port

/-- `/^https?:\/\/[^/?#\\]+$/i.test(raw)`. -/
def isOriginText (raw : JsString) : Bool :=
  let scheme := fun text : JsString => (text.isPrefixOf (raw.map fun c =>
    if isUpperLetter c then c + 0x20 else c))
  let authority := fun text : JsString =>
    let rest := raw.drop text.length
    ! rest.isEmpty && ! rest.any fun c => (js "/?#\\").contains c
  (scheme (js "http://") && authority (js "http://")) ||
    (scheme (js "https://") && authority (js "https://"))

def parseSerializedOrigin (raw : JsString) : Option ParsedOrigin :=
  if raw.isEmpty || ! isTrimmed raw || raw.any (fun c => isControl true c || (js ",\\").contains c) ||
      ! isOriginText raw then none
  else match p.newUrl raw none with
    | none => none
    | some url =>
      if ! isOriginUrl url false then none
      else match parseHostname p (stripIpv6Brackets url.hostname), urlPort url with
        | some hostname, some port => some (originFromParts url.protocol hostname port)
        | _, _ => none

def hostMatchesOrigin (host : ParsedHost) (origin : ParsedOrigin) : Bool :=
  host.hostname == origin.hostname &&
    match host.explicitPort with
    | none => origin.port == defaultPort origin.protocol
    | some port => port == origin.port

/-! ## The policy -/

/-- `RequestAdmissionConfigReason`. -/
inductive ConfigReason
  | invalidBindHost
  | invalidPort
  | invalidBasePath
  | invalidTrustedHost
  | invalidTlsName
  | invalidPublicOrigin
  | invalidPublishedOrigin
  | invalidViteOrigin
  | untrustedViteGateway
  | invalidCorsMethod
  | invalidCorsHeader
  | invalidCorsMaxAge
deriving DecidableEq

structure ViteOriginPairInput where
  origin : JsString
  gatewayOrigin : JsString

/-- `RequestAdmissionPolicyInput`. -/
structure PolicyInput where
  bindHost : JsString
  actualPort : Rat
  isTls : Bool
  basePath : Option JsString
  trustedHosts : List JsString
  tlsHostnames : List JsString
  publicOrigins : List JsString
  publishedOrigin : Option JsString
  viteOriginPairs : List ViteOriginPairInput
  allowedMethods : Option (List JsString)
  allowedHeaders : Option (List JsString)
  maxAgeSeconds : Option Rat

structure CompiledVitePair where
  origin : ParsedOrigin
  gateway : ParsedOrigin
deriving DecidableEq

/-- `RequestAdmissionPolicy`, with its compiled data. -/
structure Policy where
  basePath : JsString
  allAuthoritiesLoopback : Bool
  origins : List ParsedOrigin
  vitePairs : List CompiledVitePair
  corsMethods : List JsString
  corsHeaders : JsMap JsString JsString
  corsMaxAgeSeconds : Nat
deriving DecidableEq

/-- `API_CORS_ALLOWED_METHODS`. -/
def apiCorsAllowedMethods : List JsString :=
  [js "GET", js "POST", js "PUT", js "PATCH", js "DELETE", js "OPTIONS"]

/-- `API_CORS_ALLOWED_HEADERS`. -/
def apiCorsAllowedHeaders : List JsString :=
  [js "Authorization", js "Content-Type", js "If-Match", js "X-Bobbit-Session-Id",
    js "X-Bobbit-Spawning-Session", js "X-Bobbit-Session-Secret"]

/-- `API_CORS_PREFLIGHT_MAX_AGE_SECONDS`. -/
def apiCorsPreflightMaxAgeSeconds : Rat := 600

def integerIn (low high : Int) (q : Rat) : Option Nat :=
  if q.den = 1 ∧ low ≤ q.num ∧ q.num ≤ high then some q.num.toNat else none

def parseConfiguredHostname (raw : JsString) : Option JsString :=
  if ! isTrimmed raw || raw.isEmpty ||
      raw.any (fun c => JsString.isTrimmed c || (js ",/?#\\@").contains c) then none
  else
    let unwrapped := stripIpv6Brackets raw
    if ((js "[").isPrefixOf raw || (js "]").isSuffixOf raw) && unwrapped == raw then none
    else parseHostname p unwrapped

def parseConfiguredOrigin (raw : JsString) (reason : ConfigReason) :
    Except ConfigReason ParsedOrigin :=
  if ! isTrimmed raw || raw.any (fun c => isControl false c || (js ",\\").contains c) then
    .error reason
  else match p.newUrl raw none with
    | none => .error reason
    | some url =>
      if ! isOriginUrl url true || url.hostname.isEmpty then .error reason
      else match parseHostname p (stripIpv6Brackets url.hostname), urlPort url with
        | some hostname, some port =>
          if isWildcardListener hostname then .error reason
          else .ok (originFromParts url.protocol hostname port)
        | _, _ => .error reason

def normalizeBasePath (raw : Option JsString) : Except ConfigReason JsString :=
  match raw with
  | none => .ok []
  | some raw =>
    if raw.isEmpty || raw == js "/" then .ok []
    else if ! isTrimmed raw || ! (js "/").isPrefixOf raw ||
        raw.any (fun c => (js "?#\\").contains c) || decide (js "//" <:+: raw) then
      .error .invalidBasePath
    else
      let normalized := if (js "/").isSuffixOf raw then raw.dropLast else raw
      if (normalized.splitOn slash).any fun segment => segment == js "." || segment == js ".." then
        .error .invalidBasePath
      else .ok normalized

def addOrigin (origins : List ParsedOrigin) (origin : ParsedOrigin) : List ParsedOrigin :=
  if origins.any fun candidate => candidate.serialized == origin.serialized then origins
  else origins ++ [origin]

def addDirectHost (protocol : JsString) (port : Nat) (reason : ConfigReason)
    (origins : List ParsedOrigin) (raw : JsString) : Except ConfigReason (List ParsedOrigin) :=
  match parseConfiguredHostname p raw with
  | none => .error reason
  | some hostname =>
    if isWildcardListener hostname then .ok origins
    else .ok (addOrigin origins (originFromParts protocol hostname port))

def addTlsName (port : Nat) (origins : List ParsedOrigin) (name : JsString) :
    Except ConfigReason (List ParsedOrigin) :=
  match parseConfiguredHostname p name with
  | none => .error .invalidTlsName
  | some hostname =>
    if isWildcardListener hostname then .error .invalidTlsName
    else .ok (addOrigin origins (originFromParts (js "https:") hostname port))

def addConfiguredOrigin (reason : ConfigReason) (origins : List ParsedOrigin) (raw : JsString) :
    Except ConfigReason (List ParsedOrigin) := do
  return addOrigin origins (← parseConfiguredOrigin p raw reason)

/-- A development pair, whose gateway must be one of the origins. -/
def addVitePair (origins : List ParsedOrigin) (pairs : List CompiledVitePair)
    (pair : ViteOriginPairInput) : Except ConfigReason (List CompiledVitePair) := do
  let origin ← parseConfiguredOrigin p pair.origin .invalidViteOrigin
  let gateway ← parseConfiguredOrigin p pair.gatewayOrigin .invalidViteOrigin
  if ! origins.any fun trusted => trusted.serialized == gateway.serialized then
    .error .untrustedViteGateway
  else if pairs.any fun candidate => candidate.origin.serialized == origin.serialized &&
      candidate.gateway.serialized == gateway.serialized then
    .ok pairs
  else .ok (pairs ++ [⟨origin, gateway⟩])

def compileMethods (values : List JsString) : Except ConfigReason (List JsString) :=
  if values.all isExactToken then .ok (values.map p.toUpperCase).dedup
  else .error .invalidCorsMethod

/-- `compileHeaders`. The spelling of a repeated name is the last one. -/
def compileHeaders (values : List JsString) : Except ConfigReason (JsMap JsString JsString) :=
  if values.all isExactToken then
    .ok (values.foldl (fun headers value => JsMap.set headers (p.toLowerCase value) value) [])
  else .error .invalidCorsHeader

def compileOrigins (input : PolicyInput) (port : Nat) (bindHost : JsString) :
    Except ConfigReason (List ParsedOrigin) := do
  let directProtocol := if input.isTls then js "https:" else js "http:"
  let origins ← if isWildcardListener bindHost then .ok []
    else addDirectHost p directProtocol port .invalidBindHost [] input.bindHost
  let origins ← loopbackHosts.foldlM (addDirectHost p directProtocol port .invalidTrustedHost) origins
  let origins ←
    input.trustedHosts.foldlM (addDirectHost p directProtocol port .invalidTrustedHost) origins
  let origins ← input.tlsHostnames.foldlM (addTlsName p port) origins
  let origins ← input.publicOrigins.foldlM (addConfiguredOrigin p .invalidPublicOrigin) origins
  input.publishedOrigin.toList.foldlM (addConfiguredOrigin p .invalidPublishedOrigin) origins

def compileRequestAdmissionPolicy (input : PolicyInput) : Except ConfigReason Policy :=
  match integerIn 1 65535 input.actualPort with
  | none => .error .invalidPort
  | some port => do
    let basePath ← normalizeBasePath input.basePath
    match parseConfiguredHostname p input.bindHost with
    | none => .error .invalidBindHost
    | some bindHost =>
      let origins ← compileOrigins p input port bindHost
      let vitePairs ← input.viteOriginPairs.foldlM (addVitePair p origins) []
      let corsMethods ← compileMethods p (input.allowedMethods.getD apiCorsAllowedMethods)
      let corsHeaders ← compileHeaders p (input.allowedHeaders.getD apiCorsAllowedHeaders)
      match integerIn 0 86400 (input.maxAgeSeconds.getD apiCorsPreflightMaxAgeSeconds) with
      | none => .error .invalidCorsMaxAge
      | some maxAge =>
        let allAuthoritiesLoopback := isLoopbackHostname bindHost &&
          origins.all (fun origin => isLoopbackHostname origin.hostname) &&
          vitePairs.all fun pair =>
            isLoopbackHostname pair.origin.hostname && isLoopbackHostname pair.gateway.hostname
        .ok ⟨basePath, allAuthoritiesLoopback, origins, vitePairs, corsMethods, corsHeaders, maxAge⟩

end Platform

end Bobbit.Server.RequestAdmission
