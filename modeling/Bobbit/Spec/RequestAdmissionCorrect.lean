import Bobbit.Server.RequestAdmission

/-!
# What an admitted request has shown

Every refusal of `admitRequest` is a missing piece of evidence, so an admitted request has a Host that a
compiled origin answers to, an Origin that belongs to it, and browser metadata of the same origin, of a
top-level navigation or of a preview resource.

## Key results
- `gatherEvidence_eq_ok`: the evidence of a request that reaches its route
- `admitRequest_eq_allowed`: the two ways to be admitted
- `gatewayOrigin_mem`: the gateway origin is one of the matching origins
- `admitted_safe`: an admitted request
-/

namespace Bobbit.Server.RequestAdmission

open Bobbit.Lib

variable {p : Platform} {policy : Policy} {m : Metadata}

/-! ## Raw headers -/

variable {rawHeaders : List JsString}

theorem readRawHeader_eq_missing {name : JsString} :
    readRawHeader p rawHeaders name = .missing ↔ headerValues p name rawHeaders = [] := by
  unfold readRawHeader
  split <;> simp_all

theorem readRawHeader_eq_value {name value : JsString} :
    readRawHeader p rawHeaders name = .value value ↔
      headerValues p name rawHeaders = [value] := by
  unfold readRawHeader
  split <;> simp_all

theorem readSingle_eq_some {name : JsString}
    {value : Option JsString} (h : readSingle p rawHeaders name = some value) :
    headerValues p name rawHeaders = value.toList := by
  unfold readSingle at h
  split at h
  · rename_i hmissing
    rw [readRawHeader_eq_missing.mp hmissing, ← Option.some.inj h]
    rfl
  · cases h
  · rename_i hvalue
    rw [readRawHeader_eq_value.mp hvalue, ← Option.some.inj h]
    rfl

/-! ## Evidence -/

/-- What the Origin header of the request is. -/
inductive OriginEvidence (p : Platform) (m : Metadata) (e : Evidence) : Prop
  | missing (hheader : headerValues p (js "origin") m.rawHeaders = [])
      (hnull : e.hasOpaqueOrigin = false) (horigin : e.origin = none)
  | isNull (hheader : headerValues p (js "origin") m.rawHeaders = [js "null"])
      (hnull : e.hasOpaqueOrigin = true) (horigin : e.origin = none)
  | parsed (value : JsString) (origin : ParsedOrigin)
      (hheader : headerValues p (js "origin") m.rawHeaders = [value]) (hvalue : value ≠ js "null")
      (hparse : parseSerializedOrigin p value = some origin) (hnull : e.hasOpaqueOrigin = false)
      (horigin : e.origin = some origin)

/-- What a request that reaches its route has shown. -/
structure EvidenceOk (p : Platform) (policy : Policy) (m : Metadata) (e : Evidence) : Prop where
  host : ∃ value, headerValues p (js "host") m.rawHeaders = [value] ∧
    parseRequestHost p value = some e.host
  matching : e.matchingOrigins = policy.origins.filter (hostMatchesOrigin e.host)
  nonempty : e.matchingOrigins ≠ []
  pathname : ∃ pathname, parseRequestPathname p m.url = some pathname
  origin : OriginEvidence p m e
  fetch : ∃ values, readFetchValues p m.rawHeaders = some values ∧
    readFetchMetadata p values e.origin.isSome (m.transport.getD .http = .websocket) = .ok e.fetch
  context : e.context = classifyContext p policy.basePath m e.fetch

variable {matchingOrigins : List ParsedOrigin} {fetch : Option FetchMetadata}
variable {context : RequestRouteContext}

/-- The Origin header of a request that is not refused for it. -/
theorem originEvidence_of_readOrigin {origin : Option ParsedOrigin}
    (h : readOrigin p m.rawHeaders = .ok origin) {host : ParsedHost}
 : OriginEvidence p m ⟨host, matchingOrigins,
      readRawHeader p m.rawHeaders (js "origin") == .value (js "null"), origin, fetch, context⟩ := by
  unfold readOrigin at h
  split at h
  · cases h
  · rename_i hmissing
    exact .missing (readRawHeader_eq_missing.mp hmissing) (by simp [hmissing])
      (Except.ok.inj h).symm
  · rename_i value hvalue
    split at h
    · rename_i hnull
      rw [hnull] at hvalue
      exact .isNull (readRawHeader_eq_value.mp hvalue) (by simp [hvalue]) (Except.ok.inj h).symm
    · rename_i hnull
      split at h
      · cases h
      · rename_i parsed hparse
        exact .parsed value parsed (readRawHeader_eq_value.mp hvalue) hnull hparse
          (by simp [hvalue, hnull]) (Except.ok.inj h).symm

variable {e : Evidence}

/-- **Evidence.** Every check of the first half has passed. -/
theorem gatherEvidence_eq_ok (h : gatherEvidence p policy m = .ok e) : EvidenceOk p policy m e := by
  unfold gatherEvidence at h
  simp only at h
  split at h
  · cases h
  · split at h
    · cases h
    · cases h
    · rename_i value hhost
      split at h
      · cases h
      · rename_i host hparse
        split at h
        · cases h
        · rename_i hmatching
          split at h
          · cases h
          · rename_i hpathname
            split at h
            · cases h
            · rename_i origin horigin
              split at h
              · cases h
              · rename_i values hvalues
                split at h
                · cases h
                · rename_i fetch hfetch
                  obtain rfl := Except.ok.inj h
                  refine ⟨⟨value, readRawHeader_eq_value.mp hhost, hparse⟩, rfl, ?_, ?_, ?_,
                    ⟨values, hvalues, hfetch⟩, rfl⟩
                  · simpa using hmatching
                  · cases hpath : parseRequestPathname p m.url with
                    | none => exact absurd (by rw [hpath]; rfl) hpathname
                    | some pathname => exact ⟨pathname, rfl⟩
                  · exact originEvidence_of_readOrigin horigin

/-! ## Browser metadata -/

/-- The browser metadata of a request that declares its site. -/
def requestFetch (p : Platform) (m : Metadata) : Option FetchMetadata :=
  match readFetchValues p m.rawHeaders with
  | some ⟨some site, some mode, dest, user⟩ => parseFetchMetadata p site mode dest user
  | _ => none

theorem readFetchValues_eq_some {values : FetchValues}
    (h : readFetchValues p m.rawHeaders = some values) :
    headerValues p (js "sec-fetch-site") m.rawHeaders = values.site.toList := by
  unfold readFetchValues at h
  simp only [Option.bind_eq_bind, Option.bind_eq_some_iff, Option.pure_def,
    Option.some.injEq] at h
  obtain ⟨site, hsite, mode, -, dest, -, user, -, rfl⟩ := h
  exact readSingle_eq_some hsite

theorem parseFetchMetadata_site {site mode : JsString} {dest user : Option JsString}
    {fetch : FetchMetadata} (h : parseFetchMetadata p site mode dest user = some fetch) :
    fetch.site = p.toLowerCase site := by
  unfold parseFetchMetadata at h
  split at h
  · rename_i token hsite _ _
    split at h
    · cases h
    · rw [← Option.some.inj h]
      unfold parseHeaderToken at hsite
      split at hsite
      · cases hsite
      · exact (Option.some.inj hsite).symm
  · cases h

/-- A declared site is never dropped: it is part of the metadata that the route is checked with. -/
theorem readFetchMetadata_site {values : FetchValues} {hasOrigin websocket : Bool}
    (h : readFetchMetadata p values hasOrigin websocket = .ok fetch)
    {site : JsString} (hsite : values.site = some site) :
    ∃ mode parsed, values.mode = some mode ∧ fetch = some parsed ∧
      parseFetchMetadata p site mode values.dest values.user = some parsed := by
  unfold readFetchMetadata at h
  split at h
  · rename_i hnone _ _ _
    rw [hnone] at hsite
    cases hsite
  · rename_i hnone _ _ _
    rw [hnone] at hsite
    cases hsite
  · rename_i mode hsite' hmode
    rw [hsite'] at hsite
    obtain rfl := Option.some.inj hsite
    split at h
    · cases h
    · rename_i parsed hparse
      exact ⟨mode, parsed, hmode, (Except.ok.inj h).symm, hparse⟩
  · cases h

theorem EvidenceOk.site (h : EvidenceOk p policy m e) {site : JsString}
    (hsite : site ∈ headerValues p (js "sec-fetch-site") m.rawHeaders) :
    ∃ fetch, e.fetch = some fetch ∧ requestFetch p m = some fetch ∧
      fetch.site = p.toLowerCase site := by
  obtain ⟨values, hvalues, hmetadata⟩ := h.fetch
  rw [readFetchValues_eq_some hvalues, Option.mem_toList] at hsite
  obtain ⟨mode, fetch, hmode, hfetch, hparse⟩ := readFetchMetadata_site hmetadata hsite
  refine ⟨fetch, hfetch, ?_, parseFetchMetadata_site hparse⟩
  obtain ⟨valuesSite, valuesMode, dest, user⟩ := values
  obtain rfl : valuesSite = some site := hsite
  obtain rfl : valuesMode = some mode := hmode
  rw [requestFetch, hvalues]
  exact hparse

/-! ## Gateway origins -/

/-- A compiled origin that the host names is written this way. -/
def Matching (policy : Policy) (host : ParsedHost) (serialized : JsString) : Prop :=
  ∃ origin ∈ policy.origins, hostMatchesOrigin host origin = true ∧ origin.serialized = serialized

theorem uniqueValue_mem {values : List JsString} {value : JsString}
    (h : uniqueValue values = some value) : value ∈ values := by
  unfold uniqueValue at h
  split at h
  · rename_i hdedup
    rw [← List.mem_dedup, hdedup, Option.some.inj h]
    exact List.mem_singleton_self value
  · cases h

theorem hasSerialized_eq_true {origins : List ParsedOrigin} {serialized : JsString} :
    hasSerialized origins serialized = true ↔
      ∃ origin ∈ origins, origin.serialized = serialized := by
  simp [hasSerialized]

/-- The gateway origin is one of the origins that match the host. -/
theorem selectGatewayOrigin_mem
    {browserOrigin : Option ParsedOrigin} {isTls : Bool} {gateway : JsString}
    (h : selectGatewayOrigin policy matchingOrigins browserOrigin isTls = some gateway) :
    ∃ origin ∈ matchingOrigins, origin.serialized = gateway := by
  unfold selectGatewayOrigin at h
  split at h
  · split at h
    · rename_i hmatches
      rw [← Option.some.inj h]
      exact hasSerialized_eq_true.mp hmatches
    · have hmem := uniqueValue_mem h
      obtain ⟨pair, hpair, rfl⟩ := List.mem_map.mp hmem
      have hpaired := (Bool.and_eq_true _ _ ▸ (List.mem_filter.mp hpair).2).2
      exact hasSerialized_eq_true.mp hpaired
  · split at h
    · cases h
    · rename_i compiledOrigin hcompiled
      have hall : ∃ origin ∈ matchingOrigins, origin.serialized = compiledOrigin :=
        List.mem_map.mp (uniqueValue_mem hcompiled)
      cases hphysical : uniqueValue ((matchingOrigins.filter fun candidate =>
          candidate.protocol == if isTls then js "https:" else js "http:").map
            ParsedOrigin.serialized) with
      | none =>
        simp only [hphysical, Option.getD_none] at h
        rw [← Option.some.inj h]
        exact hall
      | some physical =>
        simp only [hphysical, Option.getD_some] at h
        rw [← Option.some.inj h]
        obtain ⟨origin, horigin, heq⟩ := List.mem_map.mp (uniqueValue_mem hphysical)
        exact ⟨origin, (List.mem_filter.mp horigin).1, heq⟩

theorem EvidenceOk.matching_of_mem (h : EvidenceOk p policy m e) {serialized : JsString}
    (hmem : ∃ origin ∈ e.matchingOrigins, origin.serialized = serialized) :
    Matching policy e.host serialized := by
  obtain ⟨origin, horigin, heq⟩ := hmem
  rw [h.matching] at horigin
  exact ⟨origin, (List.mem_filter.mp horigin).1, (List.mem_filter.mp horigin).2, heq⟩

theorem EvidenceOk.origin_of_classify (h : EvidenceOk p policy m e) {origin : ParsedOrigin}
    (hclass : classifyOrigin policy e.matchingOrigins (some origin) ≠ .mismatch) :
    Matching policy e.host origin.serialized ∨
      ∃ pair ∈ policy.vitePairs, pair.origin.serialized = origin.serialized ∧
        Matching policy e.host pair.gateway.serialized := by
  unfold classifyOrigin at hclass
  simp only at hclass
  split at hclass
  · rename_i hsame
    exact .inl (h.matching_of_mem (hasSerialized_eq_true.mp hsame))
  · split at hclass
    · rename_i hvite
      obtain ⟨pair, hpair, hpaired⟩ := List.any_eq_true.mp hvite
      rw [Bool.and_eq_true, beq_iff_eq] at hpaired
      exact .inr ⟨pair, hpair, hpaired.1,
        h.matching_of_mem (hasSerialized_eq_true.mp hpaired.2)⟩
    · exact absurd rfl hclass

/-! ## Contexts -/

/-- The path of the request under the base path. -/
def OnPath (p : Platform) (policy : Policy) (m : Metadata) (P : JsString → Prop) : Prop :=
  ∃ pathname, parseRequestPathname p m.url = some pathname ∧
    P (stripBasePath pathname policy.basePath)

/-- A page outside the API is no WebSocket; a preview resource lies under the preview. -/
theorem classifyContext_outside (h : classifyContext p policy.basePath m fetch = context)
    (hcontext : context = .uiDocument ∨ context = .previewDocument ∨ context = .previewResource) :
    m.transport.getD .http ≠ .websocket ∧
      OnPath p policy m fun path => isUnder (js "/api") path = false ∧
        (context = .previewResource → isUnder (js "/preview") path = true) := by
  unfold classifyContext at h
  split at h
  · simp [← h] at hcontext
  · rename_i hhttp
    refine ⟨hhttp, ?_⟩
    split at h
    · simp [← h] at hcontext
    · split at h
      · simp [← h] at hcontext
      · rename_i pathname hpathname
        simp only at h
        split at h
        · simp [← h] at hcontext
        · rename_i hapi
          refine ⟨pathname, hpathname, by simpa using hapi, ?_⟩
          intro hresource
          split at h
          · assumption
          · rw [hresource] at h
            split at h <;> cases h

theorem classifyContext_document (h : classifyContext p policy.basePath m fetch = .uiDocument ∨
      classifyContext p policy.basePath m fetch = .previewDocument) :
    m.transport.getD .http ≠ .websocket ∧
      OnPath p policy m fun path => isUnder (js "/api") path = false := by
  obtain ⟨hhttp, pathname, hpathname, hapi, -⟩ :=
    classifyContext_outside rfl (h.imp_right Or.inl)
  exact ⟨hhttp, pathname, hpathname, hapi⟩

theorem classifyContext_resource
    (h : classifyContext p policy.basePath m fetch = .previewResource) :
    m.transport.getD .http ≠ .websocket ∧
      OnPath p policy m fun path =>
        isUnder (js "/preview") path = true ∧ isUnder (js "/api") path = false := by
  obtain ⟨hhttp, pathname, hpathname, hapi, hpreview⟩ :=
    classifyContext_outside h (.inr (.inr rfl))
  exact ⟨hhttp, pathname, hpathname, hpreview rfl, hapi⟩

/-! ## The ways to be admitted -/

/-- What the second half of `admitRequest` has checked. -/
inductive Admission (p : Platform) (policy : Policy) (m : Metadata) (e : Evidence) (a : Allowed) : Prop
  /-- A preflight of an origin that is no mismatch, without metadata or with that of its own site. -/
  | preflight (origin : ParsedOrigin) (methodValue : JsString) (requested : List JsString)
      (projected : List HeaderValue) (horigin : e.origin = some origin)
      (hvalue : headerValues p (js "access-control-request-method") m.rawHeaders = [methodValue])
      (hclass : classifyOrigin policy e.matchingOrigins (some origin) ≠ .mismatch)
      (hfetch : ∀ fetch, e.fetch = some fetch → fetch.site = js "same-origin")
      (hmethod : policy.corsMethods.contains (p.toUpperCase methodValue) = true)
      (hrequested : requestedHeaders p
        (readRawHeader p m.rawHeaders (js "access-control-request-headers")) = some requested)
      (hprojected : requested.mapM (fun header =>
        lookupHeader policy.corsHeaders (p.toLowerCase header)) = some projected)
      (ha : allow policy .preflight e.host e.matchingOrigins e.origin false m.isTls
        (some { simpleCors origin with
          allowMethod := some (p.toUpperCase methodValue)
          allowHeaders := some projected
          maxAgeSeconds := some policy.corsMaxAgeSeconds }) = .allowed a)
  /-- A resource of a preview document whose origin is opaque. -/
  | followOn (hplain : headerValues p (js "access-control-request-method") m.rawHeaders = [])
      (hfollow : isOpaquePreviewFollowOn p m e.context e.fetch e.hasOpaqueOrigin = true)
      (ha : allow policy e.context e.host e.matchingOrigins none e.hasOpaqueOrigin m.isTls none =
        .allowed a)
  /-- Any other request, with metadata of its own site or of a top-level navigation. -/
  | route (hplain : headerValues p (js "access-control-request-method") m.rawHeaders = [])
      (hnull : e.hasOpaqueOrigin = false)
      (hclass : classifyOrigin policy e.matchingOrigins e.origin ≠ .mismatch)
      (hfetch : ∀ fetch, e.fetch = some fetch → fetch.site = js "same-origin" ∨
        isSafeTopLevelNavigation p e.context m.method e.origin.isSome fetch = true)
      (ha : allow policy e.context e.host e.matchingOrigins e.origin false m.isTls
        (e.origin.map simpleCors) = .allowed a)

variable {a : Allowed}

theorem check_passed {c : Prop} [Decidable c] {reason : DenyReason} {rest : Decision}
    (h : (if c then e.deny reason else rest) = .allowed a) : ¬ c ∧ rest = .allowed a := by
  split at h
  · cases h
  · next hc => exact ⟨hc, h⟩

theorem admitPreflight_eq_allowed {privateNetworkHeader : RawHeaderResult}
    (h : admitPreflight p policy m e
      (readRawHeader p m.rawHeaders (js "access-control-request-method"))
      (readRawHeader p m.rawHeaders (js "access-control-request-headers")) privateNetworkHeader =
        .allowed a) : Admission p policy m e a := by
  unfold admitPreflight at h
  split at h
  · rename_i methodValue origin hheader horigin
    obtain ⟨-, h⟩ := check_passed h
    split at h
    · cases h
    · obtain ⟨hclass, h⟩ := check_passed h
      obtain ⟨-, h⟩ := check_passed h
      obtain ⟨hsite, h⟩ := check_passed h
      obtain ⟨-, h⟩ := check_passed h
      simp only at h
      obtain ⟨hmethod, h⟩ := check_passed h
      have hfetch : ∀ fetch, e.fetch = some fetch → fetch.site = js "same-origin" := by
        intro fetch hfetch
        rw [hfetch] at hsite
        simpa using hsite
      -- the requested method and headers are those of the policy
      split at h
      · cases h
      · rename_i requested hrequested
        split at h
        · cases h
        · rename_i projected hprojected
          rw [horigin] at hclass
          exact .preflight origin methodValue requested projected horigin
            (readRawHeader_eq_value.mp hheader) hclass hfetch (by simpa using hmethod) hrequested
            hprojected h
  · cases h

theorem admitRoute_eq_allowed
    (hplain : headerValues p (js "access-control-request-method") m.rawHeaders = [])
    (h : admitRoute p policy m e = .allowed a) : Admission p policy m e a := by
  unfold admitRoute at h
  split at h
  · rename_i hfollow
    exact .followOn hplain hfollow h
  · obtain ⟨hnull, h⟩ := check_passed h
    obtain ⟨hclass, h⟩ := check_passed h
    obtain ⟨-, h⟩ := check_passed h
    obtain ⟨hsite, h⟩ := check_passed h
    have hfetch : ∀ fetch, e.fetch = some fetch → fetch.site = js "same-origin" ∨
        isSafeTopLevelNavigation p e.context m.method e.origin.isSome fetch = true := by
      intro fetch hfetch
      rw [hfetch] at hsite
      simpa [imp_iff_or_not, or_comm] using hsite
    have hroute : ∀ {cors}, cors = e.origin.map simpleCors →
        allow policy e.context e.host e.matchingOrigins e.origin false m.isTls cors =
          .allowed a → Admission p policy m e a := by
      intro cors hcors ha
      exact .route hplain (by simpa using hnull) hclass hfetch (hcors ▸ ha)
    simp only at h
    -- a request with fetch metadata and no Origin has checks of its own
    split at h
    · split at h
      · exact hroute rfl h
      · obtain ⟨-, h⟩ := check_passed h
        obtain ⟨-, h⟩ := check_passed h
        obtain ⟨-, h⟩ := check_passed h
        exact hroute rfl h
    · obtain ⟨-, h⟩ := check_passed h
      exact hroute rfl h

/-- **Admission.** An admitted request has shown its evidence, and passed as a preflight, as a preview
resource or on its route. Only a request without preflight fields passes in the last two ways. -/
theorem admitRequest_eq_allowed (h : admitRequest p policy m = .allowed a) :
    ∃ e, EvidenceOk p policy m e ∧ Admission p policy m e a := by
  unfold admitRequest at h
  split at h
  · cases h
  · rename_i e hevidence
    refine ⟨e, gatherEvidence_eq_ok hevidence, ?_⟩
    simp only at h
    split at h
    · cases h
    · split at h
      · exact admitPreflight_eq_allowed h
      · rename_i hfields
        simp only [not_or, not_not] at hfields
        exact admitRoute_eq_allowed (readRawHeader_eq_missing.mp hfields.1) h

/-! ## Admitted requests -/

/-- A GET or HEAD over plain HTTP that is no preflight. -/
structure SafeRequest (p : Platform) (m : Metadata) : Prop where
  method : isSafeMethod p m.method = true
  http : m.transport.getD .http ≠ .websocket
  noPreflight : headerValues p (js "access-control-request-method") m.rawHeaders = []

/-- A GET or HEAD preview resource that carries the preview cookie. -/
structure PreviewResource (p : Platform) (policy : Policy) (m : Metadata) (a : Allowed) : Prop
    extends SafeRequest p m where
  context : a.context = .previewResource
  path : OnPath p policy m fun path =>
    isUnder (js "/preview") path = true ∧ isUnder (js "/api") path = false
  cookie : hasNamedCookie p m.rawHeaders previewCookieName = true

/-- A GET or HEAD top-level document navigation outside the API. -/
structure TopLevelNavigation (p : Platform) (policy : Policy) (m : Metadata) (a : Allowed)
    (fetch : FetchMetadata) : Prop extends SafeRequest p m where
  context : a.context = .uiDocument ∨ a.context = .previewDocument
  path : OnPath p policy m fun path => isUnder (js "/api") path = false
  mode : fetch.mode = js "navigate"
  dest : fetch.dest = some (js "document") ∨ fetch.dest = some (js "empty")

structure SafelyAdmitted (p : Platform) (policy : Policy) (m : Metadata) (a : Allowed)
    (host : ParsedHost) : Prop where
  /-- It has one Host header, which names the authority of a compiled origin. -/
  hostHeader : ∃ value, headerValues p (js "host") m.rawHeaders = [value] ∧
    parseRequestHost p value = some host
  named : ∃ origin ∈ policy.origins, hostMatchesOrigin host origin = true
  /-- A null Origin is that of a preview resource; any other one is the only Origin of the request,
      and matches the Host itself or through a development pair. -/
  origin : ∀ value ∈ headerValues p (js "origin") m.rawHeaders,
    headerValues p (js "origin") m.rawHeaders = [value] ∧
    (value = js "null" → PreviewResource p policy m a) ∧
    (value ≠ js "null" → ∃ origin, parseSerializedOrigin p value = some origin ∧
      (Matching policy host origin.serialized ∨
        ∃ pair ∈ policy.vitePairs, pair.origin.serialized = origin.serialized ∧
          Matching policy host pair.gateway.serialized))
  /-- A declared site is its own one, or that of a top-level navigation or a preview resource. -/
  site : ∀ value ∈ headerValues p (js "sec-fetch-site") m.rawHeaders,
    ∃ fetch, requestFetch p m = some fetch ∧ fetch.site = p.toLowerCase value ∧
      (fetch.site = js "same-origin" ∨ TopLevelNavigation p policy m a fetch ∨
        PreviewResource p policy m a)
  /-- The gateway origin is a compiled one that matches the Host. -/
  gateway : ∀ gateway, a.gatewayOrigin = some gateway → Matching policy host gateway

theorem SafeRequest.of_navigation {hasOrigin : Bool} {fetch : FetchMetadata}
    (h : isSafeTopLevelNavigation p context m.method hasOrigin fetch = true) :
    isSafeMethod p m.method = true ∧ (context = .uiDocument ∨ context = .previewDocument) ∧
      fetch.mode = js "navigate" ∧
      (fetch.dest = some (js "document") ∨ fetch.dest = some (js "empty")) := by
  simp only [isSafeTopLevelNavigation, Bool.and_eq_true, Bool.or_eq_true, decide_eq_true_eq,
    beq_iff_eq] at h
  obtain ⟨⟨⟨⟨-, hcontext⟩, hsafe⟩, hmode⟩, hdest⟩ := h
  exact ⟨hsafe, hcontext, hmode, hdest.imp_right And.left⟩

/-- A follow-on request is a preview resource with the cookie, of another site. -/
theorem EvidenceOk.previewResource (h : EvidenceOk p policy m e) (ha : a.context = e.context)
    (hplain : headerValues p (js "access-control-request-method") m.rawHeaders = [])
    (hfollow : isOpaquePreviewFollowOn p m e.context e.fetch e.hasOpaqueOrigin = true) :
    PreviewResource p policy m a ∧
      (e.hasOpaqueOrigin = true ∨ headerValues p (js "origin") m.rawHeaders = []) := by
  unfold isOpaquePreviewFollowOn at hfollow
  split at hfollow
  · cases hfollow
  · simp only [Bool.and_eq_true, Bool.or_eq_true, decide_eq_true_eq, beq_iff_eq] at hfollow
    obtain ⟨⟨⟨⟨⟨⟨hsafe, -⟩, hcontext⟩, -⟩, -⟩, horigin⟩, hcookie⟩ := hfollow
    obtain ⟨hhttp, hpath⟩ := classifyContext_resource (h.context ▸ hcontext)
    exact ⟨⟨⟨hsafe, hhttp, hplain⟩, ha.trans hcontext, hpath, hcookie⟩,
      horigin.imp_right readRawHeader_eq_missing.mp⟩

/-- The context and the gateway origin of an allowed request. -/
theorem allow_eq_allowed {host : ParsedHost} {origin : Option ParsedOrigin} {isOpaque isTls : Bool}
    {cors : Option CorsProjection}
    (h : allow policy context host matchingOrigins origin isOpaque isTls cors = .allowed a) :
    a.context = context ∧ a.cors = cors ∧
      a.gatewayOrigin = selectGatewayOrigin policy matchingOrigins origin isTls ∧
      a.normalizedOrigin =
        if isOpaque then some (js "null") else origin.map ParsedOrigin.serialized := by
  unfold allow at h
  injection h with h
  subst h
  exact ⟨rfl, rfl, rfl, rfl⟩

/-- **Admitted requests are safe.** For every policy and every request. -/
theorem admitted_safe (p : Platform) (policy : Policy) (m : Metadata) (a : Allowed)
    (h : admitRequest p policy m = .allowed a) : ∃ host, SafelyAdmitted p policy m a host := by
  obtain ⟨e, hevidence, hadmission⟩ := admitRequest_eq_allowed h
  refine ⟨e.host, hevidence.host, ?_, ?_, ?_, ?_⟩
  · obtain ⟨origin, horigin⟩ := List.exists_mem_of_ne_nil _ hevidence.nonempty
    rw [hevidence.matching] at horigin
    exact ⟨origin, (List.mem_filter.mp horigin).1, (List.mem_filter.mp horigin).2⟩
  · intro value hvalue
    cases hevidence.origin with
    | missing hheader =>
      rw [hheader] at hvalue
      cases hvalue
    | isNull hheader hnull horigin =>
      rw [hheader] at hvalue ⊢
      obtain rfl := List.mem_singleton.mp hvalue
      refine ⟨rfl, fun _ => ?_, fun hne => absurd rfl hne⟩
      -- an opaque origin passes only as a preview resource
      cases hadmission with
      | preflight origin _ _ _ horigin' _ =>
        rw [horigin] at horigin'
        cases horigin'
      | followOn hplain hfollow ha =>
        exact (hevidence.previewResource (allow_eq_allowed ha).1 hplain hfollow).1
      | route _ hnull' =>
        rw [hnull] at hnull'
        cases hnull'
    | parsed value' origin hheader hne hparse hnull horigin =>
      rw [hheader] at hvalue ⊢
      obtain rfl := List.mem_singleton.mp hvalue
      refine ⟨rfl, fun hnull => absurd hnull hne, fun _ => ⟨origin, hparse, ?_⟩⟩
      cases hadmission with
      | preflight origin' _ _ _ horigin' _ hclass =>
        rw [horigin] at horigin'
        obtain rfl := Option.some.inj horigin'
        exact hevidence.origin_of_classify hclass
      | followOn hplain hfollow ha =>
        rcases (hevidence.previewResource (allow_eq_allowed ha).1 hplain hfollow).2 with h | h
        · rw [hnull] at h
          cases h
        · rw [hheader] at h
          cases h
      | route _ _ hclass =>
        rw [horigin] at hclass
        exact hevidence.origin_of_classify hclass
  · intro value hvalue
    obtain ⟨fetch, hfetch, hrequest, hsite⟩ := hevidence.site hvalue
    refine ⟨fetch, hrequest, hsite, ?_⟩
    cases hadmission with
    | preflight _ _ _ _ _ _ _ hsame => exact .inl (hsame fetch hfetch)
    | followOn hplain hfollow ha =>
      exact .inr (.inr (hevidence.previewResource (allow_eq_allowed ha).1 hplain hfollow).1)
    | route hplain _ _ hnavigation ha =>
      rcases hnavigation fetch hfetch with hsame | hsafe
      · exact .inl hsame
      · obtain ⟨hmethod, hcontext, hmode, hdest⟩ := SafeRequest.of_navigation hsafe
        obtain ⟨hhttp, hpath⟩ := classifyContext_document (hevidence.context ▸ hcontext)
        rw [← (allow_eq_allowed ha).1] at hcontext
        exact .inr (.inl ⟨⟨hmethod, hhttp, hplain⟩, hcontext, hpath, hmode, hdest⟩)
  · intro gateway hgateway
    apply hevidence.matching_of_mem
    cases hadmission with
    | preflight _ _ _ _ _ _ _ _ _ _ _ ha =>
      exact selectGatewayOrigin_mem ((allow_eq_allowed ha).2.2.1 ▸ hgateway)
    | followOn _ _ ha => exact selectGatewayOrigin_mem ((allow_eq_allowed ha).2.2.1 ▸ hgateway)
    | route _ _ _ _ ha => exact selectGatewayOrigin_mem ((allow_eq_allowed ha).2.2.1 ▸ hgateway)

/-! ## An example -/

/-- The platform on ASCII texts, and on the URLs of a gateway on port 3001. -/
def examplePlatform : Platform where
  newUrl := fun raw base =>
    if base.isSome then some ⟨js "http:", [], [], js "request-admission.invalid", [], raw, [], []⟩
    else if raw = js "http://[::1]" then some ⟨js "http:", [], [], js "[::1]", [], js "/", [], []⟩
    else if raw = js "http://localhost:3001" then
      some ⟨js "http:", [], [], js "localhost", js "3001", js "/", [], []⟩
    else none
  toLowerCase := fun text => text.map fun c => if isUpperLetter c then c + 0x20 else c
  toUpperCase := fun text => text.map fun c => if isLowerLetter c then c - 0x20 else c

def exampleInput : PolicyInput :=
  ⟨js "localhost", 3001, false, none, [], [], [], none, [], none, none, none⟩

/-- The origins of the gateway, and what it allows across origins. -/
def examplePolicy : Policy :=
  ⟨[], true, loopbackHosts.map fun host => originFromParts (js "http:") host 3001, [],
    apiCorsAllowedMethods, apiCorsAllowedHeaders.map fun header =>
      (examplePlatform.toLowerCase header, header), 600⟩

/-- A call of the API from the gateway's own page. -/
def apiCall : Metadata :=
  ⟨[js "Host", js "localhost:3001", js "Origin", js "http://localhost:3001",
    js "Sec-Fetch-Site", js "same-origin", js "Sec-Fetch-Mode", js "cors"],
    some (js "POST"), some (js "/api/sessions"), false, none⟩

theorem admitted_safe_apiCall :
    ∃ a host, a.context = .api ∧ a.gatewayOrigin = some (js "http://localhost:3001") ∧
      SafelyAdmitted examplePlatform examplePolicy apiCall a host := by
  have hadmitted : admitRequest examplePlatform examplePolicy apiCall =
      .allowed ⟨.api, js "localhost:3001", some (js "http://localhost:3001"),
        some (js "http://localhost:3001"), true,
        some ⟨js "http://localhost:3001", true, false, none, none, none⟩⟩ := by decide +kernel
  obtain ⟨host, hsafe⟩ := admitted_safe examplePlatform examplePolicy apiCall _ hadmitted
  exact ⟨_, host, rfl, rfl, hsafe⟩

end Bobbit.Server.RequestAdmission
