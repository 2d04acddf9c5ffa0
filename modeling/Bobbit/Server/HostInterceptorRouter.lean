import Mathlib

/-!
# The host interceptor router

Model of `dispatch` in `src/server/extension-host/host-interceptor-router.ts` for the two hooks that
may fail closed, `beforeToolCall` and `afterToolResult`, with the registry's live authority check.

The world of a dispatch is an argument. Contribution `k` of the loop looks at it three times: at the
head of its turn (moment `3k`), when its authority is checked (`3k + 1`) and when its invocation has
settled (`3k + 2`). Values are of an arbitrary type.
-/

namespace Bobbit.Server.HostInterceptorRouter

/-- The hooks of `HOST_INTERCEPTOR_CATALOGUE` that apply a failure policy at the deadline. -/
inductive HostInterceptorName
  | beforeToolCall
  | afterToolResult
deriving DecidableEq

inductive HookFailurePolicy
  | failOpen
  | failClosed
deriving DecidableEq

/-- `defaultFailurePolicy` of the catalogue. -/
def defaultFailurePolicy : HostInterceptorName → HookFailurePolicy
  | .beforeToolCall => .failOpen
  | .afterToolResult => .failClosed

/-- The capabilities that the catalogue requires of every interceptor: none. -/
def requiredCapabilities : List String := []

/-! ## The registry -/

/-- The kinds of a hook declaration that has one. -/
inductive HookKind
  | interceptor
  | notification
deriving DecidableEq

/-- `HookContribution`. A declaration without a kind is inert. -/
structure HookContribution where
  id : String
  listName : String
  kind : Option HookKind
  interceptors : List HostInterceptorName
  failurePolicy : Option HookFailurePolicy
  capabilities : List String
deriving DecidableEq

structure PackContributions where
  packId : String
  hooks : List HookContribution
deriving DecidableEq

/-- `NormalizedInterceptorContribution`. -/
structure Contribution where
  name : HostInterceptorName
  packId : String
  contributionId : String
  listName : String
  capabilities : List String
  activationEpoch : Nat
  failurePolicy : Option HookFailurePolicy
deriving DecidableEq

/-- The registry at one moment, with the live capability grants. -/
structure Registry where
  activationEpoch : Nat
  packs : List PackContributions
  isCapabilityAuthorized : Contribution → String → Bool

/-- `normalizeHookContributions`, as far as interceptors go. -/
def normalizeHookContributions (registry : Registry) : List Contribution :=
  registry.packs.flatMap fun pack =>
    (pack.hooks.filter fun declaration => declaration.kind = some .interceptor).flatMap
      fun declaration =>
        declaration.interceptors.map fun name =>
          ⟨name, pack.packId, declaration.id, declaration.listName, declaration.capabilities,
            registry.activationEpoch, declaration.failurePolicy⟩

def isHookAuthorized (registry : Registry) (c : Contribution) : Bool :=
  if c.activationEpoch ≠ registry.activationEpoch then false
  else
    let hook := (registry.packs.find? fun pack => pack.packId = c.packId).bind fun pack =>
      pack.hooks.find? fun candidate =>
        candidate.id = c.contributionId && candidate.listName = c.listName && candidate.kind.isSome
    match hook with
    | none => false
    | some hook => requiredCapabilities.all fun capability => hook.capabilities.contains capability

def isAuthorized (registry : Registry) (c : Contribution) : Bool :=
  isHookAuthorized registry c && c.capabilities.all (registry.isCapabilityAuthorized c)

/-- The failure policy that a contribution has. -/
def failsClosed (name : HostInterceptorName) (c : Contribution) : Bool :=
  c.failurePolicy.getD (defaultFailurePolicy name) = .failClosed

def requiresFailClosed (registry : Registry) (name : HostInterceptorName) : Bool :=
  (normalizeHookContributions registry).any fun c =>
    decide (c.name = name) && failsClosed name c && isAuthorized registry c

/-! ## Requests and results -/

/-- A `BeforeToolCallRequest` or `AfterToolResultRequest`: the arguments or the result of a call. -/
structure Request (α : Type) where
  toolCallId : String
  toolName : String
  value : α

inductive ReasonCode
  | denied
  | invalidRequest
  | notPermitted

/-- `code`. -/
inductive SyntheticCode
  | policyDenied
  | invalidResult
  | handlerError

/-- The results that the two schemas admit. -/
inductive Proposal (α : Type)
  | allow
  | block (reasonCode : ReasonCode)
  | replaceArgs (args : α)
  | replaceResult (result : α)
  | syntheticError (code : SyntheticCode)

variable {α : Type}

/-- The validators of the router's options. -/
structure Options (α : Type) where
  validateRequest : Request α → Bool
  isStructurallyBounded : α → Bool
  validateToolArgs : Option (String → α → Bool)
  validateToolResult : Option (String → α → Bool)

/-- `validateInterceptorResult`: the schema of the hook, and the size. -/
def validateInterceptorResult (o : Options α) : HostInterceptorName → Proposal α → Bool
  | _, .allow => true
  | .beforeToolCall, .block _ => true
  | .beforeToolCall, .replaceArgs args => o.isStructurallyBounded args
  | .afterToolResult, .replaceResult result => o.isStructurallyBounded result
  | .afterToolResult, .syntheticError _ => true
  | _, _ => false

def validateOperationMutation (o : Options α) (name : HostInterceptorName) (toolName : String) :
    Proposal α → Bool
  | .replaceArgs args =>
    match name with
    | .beforeToolCall =>
      match o.validateToolArgs with
      | some validate => validate toolName args
      | none => false
    | .afterToolResult => true
  | .replaceResult result =>
    match name with
    | .afterToolResult =>
      match o.validateToolResult with
      | some validate => validate toolName result
      | none => true
    | .beforeToolCall => true
  | _ => true

/-- Whether a settled value is a result that may be applied. `none` is a value of no result's form. -/
def isValid (o : Options α) (name : HostInterceptorName) (toolName : String) :
    Option (Proposal α) → Bool
  | none => false
  | some proposal =>
    validateInterceptorResult o name proposal && validateOperationMutation o name toolName proposal

/-- The request after a result: the value of `foldResult`. -/
def foldResult (name : HostInterceptorName) (current : Request α) : Proposal α → Request α
  | .replaceArgs args => if name = .beforeToolCall then { current with value := args } else current
  | .replaceResult result =>
    if name = .afterToolResult then { current with value := result } else current
  | _ => current

/-- Whether a result ends the operation: the `terminal` of `foldResult`. -/
def isTerminal (name : HostInterceptorName) : Proposal α → Bool
  | .block _ => name = .beforeToolCall
  | .syntheticError _ => name = .afterToolResult
  | _ => false

def failClosedResult (name : HostInterceptorName) (c : Contribution) : Option (Proposal α) :=
  if failsClosed name c then
    match name with
    | .beforeToolCall => some (.block .notPermitted)
    | .afterToolResult => some (.syntheticError .handlerError)
  else none

/-! ## Errors -/

/-- A thrown value: the status of an `ActionError`, and the message of an `Error`. -/
structure Failure where
  status : Option Nat
  message : Option String

/-- A test of a message that ignores case. -/
def mentions (text : String) (failure : Failure) : Bool :=
  match failure.message with
  | some message => decide (text.toList <:+: message.toList.map Char.toLower)
  | none => false

def isTimeout (failure : Failure) : Bool :=
  decide (failure.status = some 504) || mentions "timed out" failure

def isCancelled (failure : Failure) : Bool :=
  decide (failure.status = some 499) || mentions "cancel" failure

/-! ## The world of a dispatch -/

/-- Why the dispatch's controller has aborted. -/
inductive AbortReason
  | cancelled
  | registryInvalidated
  | dispatchDeadline
deriving DecidableEq

/-- The world of a dispatch: at each moment the controller's reason, which never changes once it is
    set, and the registry, whose epoch is past once it has invalidated; for each contribution the time
    that its turn finds left, and how its invocation settles. -/
structure World (α : Type) where
  aborted : Nat → Option AbortReason
  registry : Nat → Registry
  remaining : Nat → Int
  outcome : Nat → Except Failure (Option (Proposal α))
  aborted_once : ∀ m m' reason, m ≤ m' → aborted m = some reason → aborted m' = some reason
  invalidated : ∀ m, aborted m = some .registryInvalidated →
    (registry m).activationEpoch ≠ (registry 0).activationEpoch

/-! ## The dispatch -/

/-- `HostInterceptorAuditOutcome`. -/
inductive AuditOutcome
  | applied
  | inactive
  | invalidResult
  | timedOut
  | cancelled
  | failedOpen
  | failedClosed
deriving DecidableEq

/-- `HostInterceptorAuditDecision`. -/
structure Decision where
  packId : String
  contributionId : String
  outcome : AuditOutcome
  proposalReceived : Bool
  valid : Bool
  applied : Bool
  timedOut : Bool
  cancelled : Bool
deriving DecidableEq

/-- The row that `record` pushes. -/
def record (c : Contribution) (outcome : AuditOutcome) (proposalReceived valid applied : Bool)
    (timedOut : Bool) (cancelled : Bool) : Decision :=
  ⟨c.packId, c.contributionId, outcome, proposalReceived, valid, applied, timedOut, cancelled⟩

/-- What a turn comes to: the loop goes on, with the result that the turn has applied, or it ends. -/
inductive Turn (α : Type)
  | next (applied : Option (Proposal α)) (row : Decision)
  | stop (terminal : Option (Proposal α)) (row : Option Decision)

/-- The deadline has passed at the head of a turn. -/
def expire (name : HostInterceptorName) (c : Contribution) : Turn α :=
  match failClosedResult name c with
  | none => .stop none (some (record c .timedOut false false false true false))
  | some failed => .stop (some failed) (some (record c .failedClosed false false false true false))

/-- A failure that is none of a timeout or a cancellation. -/
def fail (name : HostInterceptorName) (c : Contribution) (outcome : AuditOutcome)
    (proposalReceived : Bool) (timedOut : Bool) : Turn α :=
  match failClosedResult name c with
  | none => .next none (record c outcome proposalReceived false false timedOut false)
  | some failed =>
    .stop (some failed) (some (record c .failedClosed proposalReceived false false timedOut false))

def settle (o : Options α) (w : World α) (name : HostInterceptorName) (toolName : String) (k : Nat)
    (c : Contribution) : Turn α :=
  match w.outcome k with
  | .ok proposal =>
    if ! isValid o name toolName proposal then fail name c .invalidResult true false
    else if ! isAuthorized (w.registry (3 * k + 2)) c || (w.aborted (3 * k + 2)).isSome then
      .next none (record c .cancelled true true false false true)
    else match proposal with
      | some proposal =>
        if isTerminal name proposal then
          .stop (some proposal) (some (record c .applied true true true false false))
        else .next (some proposal) (record c .applied true true true false false)
      | none => .next none (record c .applied true true true false false)
  | .error failure =>
    let deadlineExpired := decide (w.aborted (3 * k + 2) = some .dispatchDeadline)
    if isTimeout failure || deadlineExpired then fail name c .timedOut false true
    else if (w.aborted (3 * k + 2)).isSome || isCancelled failure then
      .next none (record c .cancelled false false false false true)
    else fail name c .failedOpen false false

def turn (o : Options α) (w : World α) (name : HostInterceptorName) (toolName : String) (k : Nat)
    (c : Contribution) : Turn α :=
  match w.aborted (3 * k) with
  | some .dispatchDeadline => expire name c
  | some _ => .stop none none
  | none =>
    if w.remaining k ≤ 0 then expire name c
    else if ! isAuthorized (w.registry (3 * k + 1)) c then
      .next none (record c .inactive false false false false false)
    else settle o w name toolName k c

/-- `HostInterceptorDispatchResult`, with the moment at which the loop ended. -/
structure DispatchResult (α : Type) where
  value : Request α
  decisions : List Decision
  terminal : Option (Proposal α)
  finishedAt : Nat

def applyResult (name : HostInterceptorName) (value : Request α) (applied : Option (Proposal α)) :
    Request α :=
  match applied with
  | some proposal => foldResult name value proposal
  | none => value

/-- The loop of `dispatch` from contribution `k` on. -/
def dispatchLoop (o : Options α) (w : World α) (name : HostInterceptorName) (toolName : String) :
    Nat → Request α → List Decision → List Contribution → DispatchResult α
  | k, value, decisions, [] => ⟨value, decisions, none, 3 * k⟩
  | k, value, decisions, c :: rest =>
    match turn o w name toolName k c with
    | .next applied row =>
      dispatchLoop o w name toolName (k + 1) (applyResult name value applied) (decisions ++ [row])
        rest
    | .stop terminal row => ⟨value, decisions ++ row.toList, terminal, 3 * k⟩

/-- The contributions that a dispatch goes through. -/
def contributions (w : World α) (name : HostInterceptorName) : List Contribution :=
  (normalizeHookContributions (w.registry 0)).filter fun c => c.name = name

/-- `dispatch`. An invalid request is refused. -/
def dispatch (o : Options α) (w : World α) (name : HostInterceptorName) (input : Request α) :
    Option (DispatchResult α) :=
  if o.validateRequest input then
    some (dispatchLoop o w name input.toolName 0 input [] (contributions w name))
  else none

end Bobbit.Server.HostInterceptorRouter
