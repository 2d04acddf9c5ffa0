import Bobbit.Server.RequestAdmissionPolicy

/-!
# Request admission

Model of `admitRequest` in `src/server/request-admission.ts`: the decision on one request under a
compiled policy.
-/

namespace Bobbit.Server.RequestAdmission

open Bobbit.Lib

inductive RequestTransport
  | http
  | websocket
deriving DecidableEq

inductive RequestRouteContext
  | api
  | preflight
  | previewDocument
  | previewIframe
  | previewResource
  | uiDocument
  | uiStatic
  | websocket
deriving DecidableEq

/-- `RequestAdmissionReason` of a refusal. -/
inductive DenyReason
  | malformedRawHeaders
  | missingHost
  | duplicateHost
  | invalidHost
  | untrustedHost
  | duplicateOrigin
  | invalidOrigin
  | originMismatch
  | duplicateFetchMetadata
  | invalidFetchMetadata
  | partialFetchMetadata
  | crossSiteBrowserRequest
  | originRequired
  | unsafeNavigationMethod
  | invalidRequestTarget
  | invalidPreflight
  | preflightMethodDenied
  | preflightHeaderDenied
  | privateNetworkDenied
deriving DecidableEq

/-- `RequestAdmissionMetadata`. -/
structure Metadata where
  rawHeaders : List JsString
  method : Option JsString
  url : Option JsString
  isTls : Bool
  transport : Option RequestTransport

/-- A value of the configured-headers object: a spelling, or what every object inherits. -/
inductive HeaderValue
  | spelling (text : JsString)
  | inherited (name : JsString)
deriving DecidableEq

structure CorsProjection where
  allowOrigin : JsString
  varyOrigin : Bool
  allowCredentials : Bool
  allowMethod : Option JsString
  allowHeaders : Option (List HeaderValue)
  maxAgeSeconds : Option Nat
deriving DecidableEq

/-- `RequestAdmissionAllowed`. -/
structure Allowed where
  context : RequestRouteContext
  normalizedHost : JsString
  normalizedOrigin : Option JsString
  gatewayOrigin : Option JsString
  trustedLocal : Bool
  cors : Option CorsProjection
deriving DecidableEq

/-- `RequestAdmissionDenied`. -/
structure Denied where
  reason : DenyReason
  context : RequestRouteContext
  normalizedHost : Option JsString
  normalizedOrigin : Option JsString
deriving DecidableEq

/-- `RequestAdmissionDecision`. -/
inductive Decision
  | allowed (decision : Allowed)
  | denied (decision : Denied)
deriving DecidableEq

structure FetchMetadata where
  site : JsString
  mode : JsString
  dest : Option JsString
  user : Bool

/-! ## Raw headers -/

inductive RawHeaderResult
  | missing
  | duplicate
  | value (value : JsString)
deriving DecidableEq

/-- The values of a header, where names and values alternate. -/
def headerValues (p : Platform) (wantedName : JsString) : List JsString → List JsString
  | name :: value :: rest =>
    if p.toLowerCase name = wantedName then value :: headerValues p wantedName rest
    else headerValues p wantedName rest
  | _ => []

def readRawHeader (p : Platform) (rawHeaders : List JsString) (wantedName : JsString) :
    RawHeaderResult :=
  match headerValues p wantedName rawHeaders with
  | [] => .missing
  | [value] => .value value
  | _ => .duplicate

def countRawHeader (p : Platform) (rawHeaders : List JsString) (wantedName : JsString) : Nat :=
  (headerValues p wantedName rawHeaders).length

/-- `PREVIEW_COOKIE_NAME`. -/
def previewCookieName : JsString := js "bobbit_preview"

/-- Whether a part of a cookie header names the wanted cookie, with a value. -/
def isNamedCookie (wantedName : JsString) (part : JsString) : Bool :=
  part.contains equals &&
    let name := part.takeWhile (· != equals)
    let value := (part.dropWhile (· != equals)).drop 1
    ! name.isEmpty && JsString.trim name == wantedName && ! (JsString.trim value).isEmpty

def hasNamedCookie (p : Platform) (rawHeaders : List JsString) (wantedName : JsString) : Bool :=
  match readRawHeader p rawHeaders (js "cookie") with
  | .value header => (header.splitOn semicolon).any (isNamedCookie wantedName)
  | _ => false

/-! ## Fetch metadata -/

/-- `VALID_FETCH_SITES`. -/
def validFetchSites : List JsString :=
  [js "same-origin", js "same-site", js "cross-site", js "none"]

/-- `VALID_FETCH_MODES`. -/
def validFetchModes : List JsString :=
  [js "cors", js "navigate", js "nested-navigate", js "no-cors", js "same-origin", js "websocket"]

/-- `VALID_FETCH_DESTINATIONS`. -/
def validFetchDestinations : List JsString :=
  [js "audio", js "audioworklet", js "document", js "embed", js "empty", js "fencedframe", js "font",
    js "frame", js "iframe", js "image", js "json", js "manifest", js "object", js "paintworklet",
    js "report", js "script", js "serviceworker", js "sharedworker", js "style", js "track",
    js "video", js "webidentity", js "websocket", js "worker", js "xslt"]

def parseHeaderToken (p : Platform) (value : JsString) : Option JsString :=
  if value.isEmpty || ! isTrimmed value || value.contains comma || ! isToken value then none
  else some (p.toLowerCase value)

structure FetchValues where
  site : Option JsString
  mode : Option JsString
  dest : Option JsString
  user : Option JsString

/-- The value of a header that is not repeated. -/
def readSingle (p : Platform) (rawHeaders : List JsString) (name : JsString) :
    Option (Option JsString) :=
  match readRawHeader p rawHeaders name with
  | .missing => some none
  | .duplicate => none
  | .value value => some (some value)

/-- The loop over `FETCH_HEADER_NAMES`. -/
def readFetchValues (p : Platform) (rawHeaders : List JsString) : Option FetchValues := do
  let site ← readSingle p rawHeaders (js "sec-fetch-site")
  let mode ← readSingle p rawHeaders (js "sec-fetch-mode")
  let dest ← readSingle p rawHeaders (js "sec-fetch-dest")
  let user ← readSingle p rawHeaders (js "sec-fetch-user")
  return ⟨site, mode, dest, user⟩

/-- The token of an optional header, if it is one of the valid ones. -/
def parseOptionalToken (p : Platform) (valid : List JsString) (value : Option JsString) :
    Option (Option JsString) :=
  match value with
  | none => some none
  | some value =>
    match parseHeaderToken p value with
    | none => none
    | some token => if valid.contains token then some (some token) else none

/-- `parseFetchMetadata` of a request that has a site and a mode. -/
def parseFetchMetadata (p : Platform) (site mode : JsString) (dest user : Option JsString) :
    Option FetchMetadata :=
  match parseHeaderToken p site, parseHeaderToken p mode,
      parseOptionalToken p validFetchDestinations dest with
  | some site, some mode, some dest =>
    if ! validFetchSites.contains site || ! validFetchModes.contains mode ||
        user.any (· != js "?1") then none
    else some ⟨site, mode, dest, user.isSome⟩
  | _, _, _ => none

/-- What the fetch headers come to: metadata, none of it, or a refusal. -/
def readFetchMetadata (p : Platform) (values : FetchValues) (hasOrigin websocket : Bool) :
    Except DenyReason (Option FetchMetadata) :=
  match values.site, values.mode, values.dest, values.user with
  | none, none, none, none => .ok none
  | none, some mode, none, none =>
    match parseHeaderToken p mode with
    | none => .error .invalidFetchMetadata
    | some mode =>
      if ! validFetchModes.contains mode then .error .invalidFetchMetadata
      else if mode ≠ js "cors" || hasOrigin || websocket then .error .partialFetchMetadata
      else .ok none
  | some site, some mode, dest, user =>
    match parseFetchMetadata p site mode dest user with
    | none => .error .invalidFetchMetadata
    | some fetch => .ok (some fetch)
  | _, _, _, _ => .error .partialFetchMetadata

/-! ## Contexts -/

def normalizeMethod (p : Platform) (method : Option JsString) : JsString :=
  p.toUpperCase (method.getD (js "GET"))

/-- `SAFE_METHODS.has(normalizeMethod(method))`. -/
def isSafeMethod (p : Platform) (method : Option JsString) : Bool :=
  normalizeMethod p method == js "GET" || normalizeMethod p method == js "HEAD"

def parseRequestPathname (p : Platform) (raw : Option JsString) : Option JsString :=
  let value := raw.getD (js "/")
  if ! (js "/").isPrefixOf value || (js "//").isPrefixOf value || value.contains 0x23 ||
      value.any (isControl false) then none
  else (p.newUrl value (some (js "http://request-admission.invalid"))).map Url.pathname

def stripBasePath (pathname basePath : JsString) : JsString :=
  if basePath.isEmpty then pathname
  else if pathname == basePath then js "/"
  else if (basePath ++ js "/").isPrefixOf pathname then pathname.drop basePath.length
  else pathname

/-- The path is this one, or lies under it. -/
def isUnder (root path : JsString) : Bool := path == root || (root ++ js "/").isPrefixOf path

def isTopLevelDocument (fetch : Option FetchMetadata) : Bool :=
  match fetch with
  | none => false
  | some fetch => fetch.dest == some (js "document") ||
      fetch.mode == js "navigate" && fetch.dest == some (js "empty") && fetch.site != js "same-origin"

def classifyContext (p : Platform) (basePath : JsString) (metadata : Metadata)
    (fetch : Option FetchMetadata) : RequestRouteContext :=
  if metadata.transport.getD .http = .websocket then .websocket
  else if normalizeMethod p metadata.method == js "OPTIONS" &&
      decide (0 < countRawHeader p metadata.rawHeaders (js "access-control-request-method")) then
    .preflight
  else match parseRequestPathname p metadata.url with
    | none => .uiStatic
    | some pathname =>
      let path := stripBasePath pathname basePath
      if isUnder (js "/api") path then .api
      else if isUnder (js "/preview") path then
        if isTopLevelDocument fetch then .previewDocument
        else if (fetch.bind FetchMetadata.dest) == some (js "iframe") then .previewIframe
        else .previewResource
      else if isTopLevelDocument fetch then .uiDocument
      else .uiStatic

def isCoherentFetchContext (context : RequestRouteContext) (fetch : FetchMetadata) : Bool :=
  let noDest := fetch.dest.isNone || fetch.dest == some (js "empty")
  if context = .websocket then
    fetch.mode == js "websocket" && (noDest || fetch.dest == some (js "websocket"))
  else if fetch.dest == some (js "websocket") then false
  else match context with
    | .preflight => fetch.mode == js "cors" && noDest
    | .api => noDest && (fetch.mode == js "cors" || fetch.mode == js "same-origin")
    | .previewIframe => fetch.mode == js "navigate" && fetch.dest == some (js "iframe")
    | .uiDocument | .previewDocument =>
      fetch.mode == js "navigate" &&
        (fetch.dest == some (js "document") ||
          fetch.dest == some (js "empty") && fetch.site != js "same-origin")
    | _ =>
      if fetch.mode == js "navigate" then fetch.dest == some (js "empty")
      else fetch.mode != js "nested-navigate" && fetch.mode != js "websocket"

def isSafeTopLevelNavigation (p : Platform) (context : RequestRouteContext)
    (method : Option JsString) (hasOrigin : Bool) (fetch : FetchMetadata) : Bool :=
  ! hasOrigin && decide (context = .uiDocument ∨ context = .previewDocument) &&
    isSafeMethod p method && fetch.mode == js "navigate" &&
    (fetch.dest == some (js "document") ||
      fetch.dest == some (js "empty") && fetch.site != js "same-origin")

def isCoherentOriginlessSubresource (context : RequestRouteContext) (fetch : FetchMetadata) : Bool :=
  fetch.site == js "same-origin" && decide (context ≠ .websocket ∧ context ≠ .preflight) &&
    isCoherentFetchContext context fetch

def isOpaquePreviewFollowOn (p : Platform) (metadata : Metadata) (context : RequestRouteContext)
    (fetch : Option FetchMetadata) (hasOpaqueOrigin : Bool) : Bool :=
  match fetch with
  | none => false
  | some fetch =>
    isSafeMethod p metadata.method && fetch.site == js "cross-site" &&
      decide (context = .previewResource) &&
      (fetch.mode == js "cors" || fetch.mode == js "no-cors") &&
      isCoherentFetchContext context fetch &&
      (hasOpaqueOrigin || readRawHeader p metadata.rawHeaders (js "origin") == .missing) &&
      hasNamedCookie p metadata.rawHeaders previewCookieName

/-! ## Origins -/

/-- What an Origin is to the origins that match the Host. -/
inductive OriginKind
  | absent
  | sameOrigin
  | vite
  | mismatch
deriving DecidableEq

/-- Whether one of the origins is written this way. -/
def hasSerialized (origins : List ParsedOrigin) (serialized : JsString) : Bool :=
  origins.any fun candidate => candidate.serialized == serialized

def classifyOrigin (policy : Policy) (matchingOrigins : List ParsedOrigin)
    (origin : Option ParsedOrigin) : OriginKind :=
  match origin with
  | none => .absent
  | some origin =>
    if hasSerialized matchingOrigins origin.serialized then .sameOrigin
    else if policy.vitePairs.any fun pair =>
        pair.origin.serialized == origin.serialized &&
          hasSerialized matchingOrigins pair.gateway.serialized then .vite
    else .mismatch

def uniqueValue (values : List JsString) : Option JsString :=
  match values.dedup with
  | [value] => some value
  | _ => none

def selectGatewayOrigin (policy : Policy) (matchingOrigins : List ParsedOrigin)
    (browserOrigin : Option ParsedOrigin) (isTls : Bool) : Option JsString :=
  match browserOrigin with
  | some browserOrigin =>
    if hasSerialized matchingOrigins browserOrigin.serialized then some browserOrigin.serialized
    else uniqueValue ((policy.vitePairs.filter fun pair =>
      pair.origin.serialized == browserOrigin.serialized &&
        hasSerialized matchingOrigins pair.gateway.serialized).map fun pair =>
          pair.gateway.serialized)
  | none =>
    match uniqueValue (matchingOrigins.map ParsedOrigin.serialized) with
    | none => none
    | some compiledOrigin =>
      let physicalProtocol := if isTls then js "https:" else js "http:"
      some ((uniqueValue ((matchingOrigins.filter fun candidate =>
        candidate.protocol == physicalProtocol).map ParsedOrigin.serialized)).getD compiledOrigin)

def simpleCors (origin : ParsedOrigin) : CorsProjection :=
  ⟨origin.serialized, true, false, none, none, none⟩

/-! ## Preflights -/

/-- The names that every object inherits from `Object.prototype`. -/
def objectPrototypeNames : List JsString :=
  [js "constructor", js "__defineGetter__", js "__defineSetter__", js "hasOwnProperty",
    js "__lookupGetter__", js "__lookupSetter__", js "isPrototypeOf", js "propertyIsEnumerable",
    js "toString", js "valueOf", js "__proto__", js "toLocaleString"]

/-- `corsHeaders[name]`, if it is truthy: the record is a plain object. -/
def lookupHeader (headers : JsMap JsString JsString) (name : JsString) : Option HeaderValue :=
  match JsMap.get? headers name with
  | some text => if text.isEmpty then none else some (.spelling text)
  | none => if objectPrototypeNames.contains name then some (.inherited name) else none

def parseRequestedHeaders (p : Platform) (value : JsString) : Option (List JsString) :=
  if ! isTrimmed value || value.isEmpty then none
  else
    let headers := (value.splitOn comma).map JsString.trim
    if headers.any (fun header => ! isToken header) then none
    else if (headers.map p.toLowerCase).Nodup then some headers
    else none

/-- The headers that a preflight asks for. -/
def requestedHeaders (p : Platform) (header : RawHeaderResult) : Option (List JsString) :=
  match header with
  | .value value => parseRequestedHeaders p value
  | _ => some []

/-- What the request has shown before its route is decided. -/
structure Evidence where
  host : ParsedHost
  matchingOrigins : List ParsedOrigin
  hasOpaqueOrigin : Bool
  origin : Option ParsedOrigin
  fetch : Option FetchMetadata
  context : RequestRouteContext

/-- A refusal that names the host and the origin. -/
def Evidence.deny (e : Evidence) (reason : DenyReason) : Decision :=
  .denied ⟨reason, e.context, some e.host.serialized, e.origin.map ParsedOrigin.serialized⟩

def allow (policy : Policy) (context : RequestRouteContext) (host : ParsedHost)
    (matchingOrigins : List ParsedOrigin) (origin : Option ParsedOrigin) (isOpaque isTls : Bool)
    (cors : Option CorsProjection) : Decision :=
  .allowed
    ⟨context, host.serialized,
      if isOpaque then some (js "null") else origin.map ParsedOrigin.serialized,
      selectGatewayOrigin policy matchingOrigins origin isTls, policy.allAuthoritiesLoopback, cors⟩

def admitPreflight (p : Platform) (policy : Policy) (metadata : Metadata) (e : Evidence)
    (methodHeader headersHeader privateNetworkHeader : RawHeaderResult) : Decision :=
  match methodHeader, e.origin with
  | .value methodValue, some origin =>
    if normalizeMethod p metadata.method != js "OPTIONS" then e.deny .invalidPreflight
    else match privateNetworkHeader with
    | .value value =>
      e.deny (if p.toLowerCase value = js "true" then .privateNetworkDenied else .invalidPreflight)
    | _ =>
      if classifyOrigin policy e.matchingOrigins e.origin = .mismatch then e.deny .originMismatch
      else if e.fetch.any fun fetch => ! isCoherentFetchContext .preflight fetch then
        e.deny .invalidFetchMetadata
      else if e.fetch.any fun fetch => fetch.site != js "same-origin" then
        e.deny .crossSiteBrowserRequest
      else if ! isExactToken methodValue then e.deny .invalidPreflight
      else
        let requestedMethod := p.toUpperCase methodValue
        if ! policy.corsMethods.contains requestedMethod then e.deny .preflightMethodDenied
        else match requestedHeaders p headersHeader with
          | none => e.deny .invalidPreflight
          | some requested =>
            match requested.mapM fun header =>
                lookupHeader policy.corsHeaders (p.toLowerCase header) with
            | none => e.deny .preflightHeaderDenied
            | some projectedHeaders =>
              allow policy .preflight e.host e.matchingOrigins e.origin false metadata.isTls
                (some { simpleCors origin with
                  allowMethod := some requestedMethod
                  allowHeaders := some projectedHeaders
                  maxAgeSeconds := some policy.corsMaxAgeSeconds })
  | _, _ => e.deny .invalidPreflight

/-! ## The decision -/

/-- The Origin header, where `null` is no origin. -/
def readOrigin (p : Platform) (rawHeaders : List JsString) :
    Except DenyReason (Option ParsedOrigin) :=
  match readRawHeader p rawHeaders (js "origin") with
  | .duplicate => .error .duplicateOrigin
  | .missing => .ok none
  | .value value =>
    if value = js "null" then .ok none
    else match parseSerializedOrigin p value with
      | none => .error .invalidOrigin
      | some origin => .ok (some origin)

/-- The first half of `admitRequest`: the checks up to the route's context. -/
def gatherEvidence (p : Platform) (policy : Policy) (metadata : Metadata) :
    Except Denied Evidence :=
  let preliminaryContext := classifyContext p policy.basePath metadata none
  if metadata.rawHeaders.length % 2 ≠ 0 then
    .error ⟨.malformedRawHeaders, preliminaryContext, none, none⟩
  else match readRawHeader p metadata.rawHeaders (js "host") with
  | .missing => .error ⟨.missingHost, preliminaryContext, none, none⟩
  | .duplicate => .error ⟨.duplicateHost, preliminaryContext, none, none⟩
  | .value hostHeader =>
    match parseRequestHost p hostHeader with
    | none => .error ⟨.invalidHost, preliminaryContext, none, none⟩
    | some host =>
      let matchingOrigins := policy.origins.filter (hostMatchesOrigin host)
      let denied := fun reason (origin : Option ParsedOrigin) =>
        Except.error (α := Evidence)
          (⟨reason, preliminaryContext, some host.serialized, origin.map ParsedOrigin.serialized⟩ :
            Denied)
      if matchingOrigins.isEmpty then denied .untrustedHost none
      else if (parseRequestPathname p metadata.url).isNone then denied .invalidRequestTarget none
      else
        let hasOpaqueOrigin :=
          readRawHeader p metadata.rawHeaders (js "origin") == .value (js "null")
        match readOrigin p metadata.rawHeaders with
        | .error reason => denied reason none
        | .ok origin =>
          match readFetchValues p metadata.rawHeaders with
          | none => denied .duplicateFetchMetadata origin
          | some values =>
            match readFetchMetadata p values origin.isSome
                (metadata.transport.getD .http = .websocket) with
            | .error reason => denied reason origin
            | .ok fetch =>
              .ok ⟨host, matchingOrigins, hasOpaqueOrigin, origin, fetch,
                classifyContext p policy.basePath metadata fetch⟩

/-- The second half of `admitRequest`, for a request that is no preflight. -/
def admitRoute (p : Platform) (policy : Policy) (metadata : Metadata) (e : Evidence) : Decision :=
  if isOpaquePreviewFollowOn p metadata e.context e.fetch e.hasOpaqueOrigin then
    allow policy e.context e.host e.matchingOrigins none e.hasOpaqueOrigin metadata.isTls none
  else if e.hasOpaqueOrigin then e.deny .invalidOrigin
  else if classifyOrigin policy e.matchingOrigins e.origin = .mismatch then e.deny .originMismatch
  else if e.fetch.any fun fetch => ! isCoherentFetchContext e.context fetch then
    e.deny .invalidFetchMetadata
  else if e.fetch.any fun fetch => fetch.site != js "same-origin" &&
      ! isSafeTopLevelNavigation p e.context metadata.method e.origin.isSome fetch then
    e.deny .crossSiteBrowserRequest
  else
    let admitted := allow policy e.context e.host e.matchingOrigins e.origin false metadata.isTls
      (e.origin.map simpleCors)
    let unsafeNavigation :=
      decide (e.context = .uiDocument ∨ e.context = .previewDocument) &&
        e.fetch.any (fun fetch => fetch.mode == js "navigate") && ! isSafeMethod p metadata.method
    match e.fetch, e.origin with
    | some fetch, none =>
      if isSafeTopLevelNavigation p e.context metadata.method false fetch then admitted
      else if e.context = .websocket then e.deny .originRequired
      else if ! isCoherentOriginlessSubresource e.context fetch then
        e.deny .crossSiteBrowserRequest
      else if unsafeNavigation then e.deny .unsafeNavigationMethod
      else admitted
    | _, _ => if unsafeNavigation then e.deny .unsafeNavigationMethod else admitted

def admitRequest (p : Platform) (policy : Policy) (metadata : Metadata) : Decision :=
  match gatherEvidence p policy metadata with
  | .error denied => .denied denied
  | .ok e =>
    let methodHeader := readRawHeader p metadata.rawHeaders (js "access-control-request-method")
    let headersHeader := readRawHeader p metadata.rawHeaders (js "access-control-request-headers")
    let privateNetworkHeader :=
      readRawHeader p metadata.rawHeaders (js "access-control-request-private-network")
    if methodHeader = .duplicate ∨ headersHeader = .duplicate ∨ privateNetworkHeader = .duplicate then
      e.deny .invalidPreflight
    else if methodHeader ≠ .missing ∨ headersHeader ≠ .missing ∨ privateNetworkHeader ≠ .missing ∨
        e.context = .preflight then
      admitPreflight p policy metadata e methodHeader headersHeader privateNetworkHeader
    else admitRoute p policy metadata e

end Bobbit.Server.RequestAdmission
