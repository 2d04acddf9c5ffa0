import Bobbit.Lib.List
import Bobbit.Spec.RequestAdmissionCorrect

/-!
# What a preflight grants

A preflight is granted a configured method, to the Origin that was admitted. Its headers are looked up in
a plain object, so two kinds of names pass: the configured ones, and those that every object inherits.

## Key results
- `compileHeaders_get?`: the record of the policy holds the configured spellings
- `compileRequestAdmissionPolicy_cors`: the methods and headers of a compiled policy
- `preflight_grants_iff`: a granted preflight grants what is configured exactly when it asks for no
  inherited name that is not configured
-/

namespace Bobbit.Server.RequestAdmission

open Bobbit.Lib

variable {p : Platform}

/-! ## The compiled methods and headers -/

def configuredMethods (input : PolicyInput) : List JsString :=
  input.allowedMethods.getD apiCorsAllowedMethods

def configuredHeaders (input : PolicyInput) : List JsString :=
  input.allowedHeaders.getD apiCorsAllowedHeaders

/-- A configured header has this name. -/
def IsConfigured (p : Platform) (input : PolicyInput) (name : JsString) : Prop :=
  ∃ spelling ∈ configuredHeaders input, p.toLowerCase spelling = name

/-- The spelling under a name is the last one that was set. -/
theorem get?_foldl_set (values : List JsString) (headers : JsMap JsString JsString)
    (name : JsString) :
    JsMap.get? (values.foldl (fun headers value =>
        JsMap.set headers (p.toLowerCase value) value) headers) name =
      ((values.filter fun value => p.toLowerCase value = name).getLast?).or
        (JsMap.get? headers name) := by
  induction values generalizing headers with
  | nil => rfl
  | cons value rest ih =>
    rw [List.foldl_cons, ih, JsMap.get?_set]
    by_cases hname : p.toLowerCase value = name
    · rw [List.filter_cons_of_pos (by simpa using hname), if_pos hname.symm]
      cases hlast : (rest.filter fun value => p.toLowerCase value = name).getLast? with
      | none => simp [List.getLast?_eq_none_iff.mp hlast]
      | some last => simp [List.getLast?_cons, hlast]
    · rw [List.filter_cons_of_neg (by simpa using hname), if_neg (Ne.symm hname)]

/-- The record of the policy. Every spelling is a token, so none is empty. -/
theorem compileHeaders_get? {values : List JsString} {headers : JsMap JsString JsString}
    (h : compileHeaders p values = .ok headers) {name : JsString} :
    (∀ text, JsMap.get? headers name = some text →
      text ∈ values ∧ p.toLowerCase text = name ∧ text ≠ []) ∧
    (JsMap.get? headers name = none → ∀ value ∈ values, p.toLowerCase value ≠ name) := by
  unfold compileHeaders at h
  split at h
  · rename_i htokens
    obtain rfl := Except.ok.inj h
    rw [get?_foldl_set, show JsMap.get? ([] : JsMap JsString JsString) name = none from rfl,
      Option.or_none]
    constructor
    · intro text htext
      have hmem := List.mem_filter.mp (List.mem_of_getLast? htext)
      refine ⟨hmem.1, by simpa using hmem.2, ?_⟩
      rintro rfl
      have htoken := List.all_eq_true.mp htokens _ hmem.1
      simp [isExactToken, isToken] at htoken
    · intro hnone value hvalue heq
      have hempty := List.getLast?_eq_none_iff.mp hnone
      have hmem : value ∈ values.filter fun value => p.toLowerCase value = name :=
        List.mem_filter.mpr ⟨hvalue, by simpa using heq⟩
      rw [hempty] at hmem
      cases hmem
  · cases h

/-- A sequence of checks passes when each of them does. -/
theorem bind_eq_ok {ε α β : Type} {x : Except ε α} {f : α → Except ε β} {b : β} :
    (x >>= f) = .ok b ↔ ∃ a, x = .ok a ∧ f a = .ok b := by
  cases x <;> simp [bind, Except.bind]

theorem compileRequestAdmissionPolicy_cors {input : PolicyInput} {policy : Policy}
    (h : compileRequestAdmissionPolicy p input = .ok policy) :
    policy.corsMethods = ((configuredMethods input).map p.toUpperCase).dedup ∧
      compileHeaders p (configuredHeaders input) = .ok policy.corsHeaders := by
  unfold compileRequestAdmissionPolicy at h
  split at h
  · cases h
  · obtain ⟨basePath, -, h⟩ := bind_eq_ok.mp h
    split at h
    · cases h
    · obtain ⟨origins, -, h⟩ := bind_eq_ok.mp h
      obtain ⟨vitePairs, -, h⟩ := bind_eq_ok.mp h
      obtain ⟨corsMethods, hmethods, h⟩ := bind_eq_ok.mp h
      obtain ⟨corsHeaders, hheaders, h⟩ := bind_eq_ok.mp h
      split at h
      · cases h
      · obtain rfl := Except.ok.inj h
        refine ⟨?_, hheaders⟩
        unfold compileMethods at hmethods
        split at hmethods
        · exact (Except.ok.inj hmethods).symm
        · cases hmethods

/-! ## Lookups -/

/-- A lookup that succeeds finds the configured spelling, or an inherited value when there is none. -/
theorem lookupHeader_eq_some {input : PolicyInput} {headers : JsMap JsString JsString}
    (h : compileHeaders p (configuredHeaders input) = .ok headers) {name : JsString}
    {value : HeaderValue} (hvalue : lookupHeader headers name = some value) :
    (∃ spelling ∈ configuredHeaders input, p.toLowerCase spelling = name ∧
        value = .spelling spelling) ∨
      value = .inherited name ∧ objectPrototypeNames.contains name = true ∧
        ¬ IsConfigured p input name := by
  obtain ⟨hsome, hnone⟩ := @compileHeaders_get? p _ _ h name
  unfold lookupHeader at hvalue
  split at hvalue
  · rename_i text htext
    obtain ⟨hmem, hname, -⟩ := hsome text htext
    split at hvalue
    · cases hvalue
    · exact .inl ⟨text, hmem, hname, (Option.some.inj hvalue).symm⟩
  · rename_i hget
    split at hvalue
    · rename_i hinherited
      refine .inr ⟨(Option.some.inj hvalue).symm, hinherited, ?_⟩
      rintro ⟨spelling, hmem, heq⟩
      exact hnone hget spelling hmem heq
    · cases hvalue

/-! ## Granted preflights -/

/-- The preflight grants what is configured: to the admitted Origin, the method that was asked for,
    and for each header that was asked for a configured spelling of it. -/
structure GrantsConfigured (p : Platform) (input : PolicyInput) (m : Metadata) (a : Allowed)
    (cors : CorsProjection) (method : JsString) : Prop where
  origin : ∃ value origin, headerValues p (js "origin") m.rawHeaders = [value] ∧
    parseSerializedOrigin p value = some origin ∧ cors.allowOrigin = origin.serialized ∧
    a.normalizedOrigin = some cors.allowOrigin
  method : ∃ value, headerValues p (js "access-control-request-method") m.rawHeaders = [value] ∧
    method = p.toUpperCase value ∧ ∃ configured ∈ configuredMethods input,
      method = p.toUpperCase configured
  headers : ∃ requested projected,
    requestedHeaders p (readRawHeader p m.rawHeaders (js "access-control-request-headers")) =
      some requested ∧ cors.allowHeaders = some projected ∧
    List.Forall₂ (fun name value => ∃ spelling ∈ configuredHeaders input,
      p.toLowerCase spelling = p.toLowerCase name ∧ value = HeaderValue.spelling spelling)
      requested projected

/-- **Preflight grants.** A preflight that was granted grants what is configured exactly when every name
that it asks for and that all objects inherit is a configured one. -/
theorem preflight_grants_iff (p : Platform) (input : PolicyInput) (policy : Policy) (m : Metadata)
    (a : Allowed) (cors : CorsProjection) (method : JsString)
    (hcompiled : compileRequestAdmissionPolicy p input = .ok policy)
    (h : admitRequest p policy m = .allowed a) (hcors : a.cors = some cors)
    (hmethod : cors.allowMethod = some method) :
    GrantsConfigured p input m a cors method ↔
      ∀ requested, requestedHeaders p
          (readRawHeader p m.rawHeaders (js "access-control-request-headers")) = some requested →
        ∀ name ∈ requested, objectPrototypeNames.contains (p.toLowerCase name) = true →
          IsConfigured p input (p.toLowerCase name) := by
  obtain ⟨hmethods, hheaders⟩ := compileRequestAdmissionPolicy_cors hcompiled
  constructor
  · intro hgrants requested hrequested name hname _
    obtain ⟨requested', projected, hrequested', -, hforall⟩ := hgrants.headers
    rw [hrequested] at hrequested'
    obtain rfl := Option.some.inj hrequested'
    have hconfigured : List.Forall₂ (fun name _ => IsConfigured p input (p.toLowerCase name) ∧ True)
        requested projected := by
      refine hforall.imp ?_
      intro name value hvalue
      obtain ⟨spelling, hmem, hspelling, -⟩ := hvalue
      exact ⟨⟨spelling, hmem, hspelling⟩, trivial⟩
    exact ((List.forall₂_and_left requested projected).mp hconfigured).1 name hname
  · intro hinherited
    obtain ⟨e, hevidence, hadmission⟩ := admitRequest_eq_allowed h
    cases hadmission with
    | followOn _ _ ha =>
      rw [(allow_eq_allowed ha).2.1] at hcors
      cases hcors
    | route _ _ _ _ ha =>
      -- the projection of a plain request names no method
      rw [(allow_eq_allowed ha).2.1, Option.map_eq_some_iff] at hcors
      obtain ⟨origin, -, rfl⟩ := hcors
      cases hmethod
    | preflight origin methodValue requested projected horigin hvalue _ _ hallowed hrequested
        hprojected ha =>
      obtain ⟨-, hcors', -, hnormalized⟩ := allow_eq_allowed ha
      rw [hcors] at hcors'
      obtain rfl := Option.some.inj hcors'
      obtain rfl := Option.some.inj hmethod
      refine ⟨?_, ⟨methodValue, hvalue, rfl, ?_⟩, requested, projected, hrequested, rfl, ?_⟩
      · cases hevidence.origin with
        | missing _ _ hnone =>
          rw [horigin] at hnone
          cases hnone
        | isNull _ _ hnone =>
          rw [horigin] at hnone
          cases hnone
        | parsed value parsed hheader _ hparse _ hparsed =>
          rw [horigin] at hparsed
          obtain rfl := Option.some.inj hparsed
          refine ⟨value, origin, hheader, hparse, rfl, ?_⟩
          rw [hnormalized, horigin]
          rfl
      · rw [hmethods] at hallowed
        obtain ⟨configured, hconfigured, heq⟩ :=
          List.mem_map.mp (List.mem_dedup.mp (List.contains_iff_mem.mp hallowed))
        exact ⟨configured, hconfigured, heq.symm⟩
      · have hlookups := (List.forall₂_and_left (p := fun name => name ∈ requested) _ _).mpr
          ⟨fun name hname => hname, forall₂_of_mapM_eq_some hprojected⟩
        refine hlookups.imp ?_
        intro name value hlookup
        obtain ⟨hname, hvalue⟩ := hlookup
        rcases lookupHeader_eq_some hheaders hvalue with hspelling | ⟨-, hname', hnot⟩
        · exact hspelling
        · exact absurd (hinherited requested hrequested name hname hname') hnot

/-- A preflight that asks for a header named `constructor`. -/
def constructorPreflight : Metadata :=
  ⟨[js "Host", js "localhost:3001", js "Origin", js "http://localhost:3001",
    js "Access-Control-Request-Method", js "POST",
    js "Access-Control-Request-Headers", js "constructor"],
    some (js "OPTIONS"), some (js "/api/sessions"), false, none⟩

/-- The projection of that preflight: the header's value is what every object inherits. -/
def constructorGrant : CorsProjection :=
  ⟨js "http://localhost:3001", true, false, some (js "POST"),
    some [.inherited (js "constructor")], some 600⟩

/-- The decision on that preflight. -/
def constructorAllowed : Allowed :=
  ⟨.preflight, js "localhost:3001", some (js "http://localhost:3001"),
    some (js "http://localhost:3001"), true, some constructorGrant⟩

theorem compile_exampleInput :
    compileRequestAdmissionPolicy examplePlatform exampleInput = .ok examplePolicy := by
  decide +kernel

theorem admitRequest_constructorPreflight :
    admitRequest examplePlatform examplePolicy constructorPreflight =
      .allowed constructorAllowed := by
  decide +kernel

/-- A header that was not configured is granted. -/
theorem constructor_granted :
    compileRequestAdmissionPolicy examplePlatform exampleInput = .ok examplePolicy ∧
      admitRequest examplePlatform examplePolicy constructorPreflight =
        .allowed constructorAllowed ∧
      ¬ GrantsConfigured examplePlatform exampleInput constructorPreflight constructorAllowed
        constructorGrant (js "POST") := by
  refine ⟨compile_exampleInput, admitRequest_constructorPreflight, fun hgrants => ?_⟩
  obtain ⟨requested, projected, -, hprojected, hforall⟩ := hgrants.headers
  obtain rfl := Option.some.inj hprojected
  cases hforall with
  | cons hname _ =>
    obtain ⟨spelling, -, -, hvalue⟩ := hname
    cases hvalue

theorem preflight_grants_iff_constructor :
    GrantsConfigured examplePlatform exampleInput constructorPreflight constructorAllowed
        constructorGrant (js "POST") ↔
      ∀ requested, requestedHeaders examplePlatform (readRawHeader examplePlatform
          constructorPreflight.rawHeaders (js "access-control-request-headers")) = some requested →
        ∀ name ∈ requested,
          objectPrototypeNames.contains (examplePlatform.toLowerCase name) = true →
          IsConfigured examplePlatform exampleInput (examplePlatform.toLowerCase name) :=
  preflight_grants_iff examplePlatform exampleInput examplePolicy constructorPreflight
    constructorAllowed constructorGrant (js "POST") compile_exampleInput
    admitRequest_constructorPreflight rfl rfl

end Bobbit.Server.RequestAdmission
