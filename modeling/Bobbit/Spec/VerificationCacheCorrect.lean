import Bobbit.Lib.Matching
import Bobbit.Server.VerificationLogic

/-!
# Reuse of verification results

The cache is keyed by the name of a step. A step is let off because a result of its name
is there: that result may be one of another type, one of a step that was skipped, or the
only one for two steps.

## Key results
- `buildStepCache_eq`: the cache is built from the reusable results, in order.
- `canSkipAllSteps_iff`: what it takes for every step to be let off.
- `skips_soundly_iff`: the steps that are let off were all verified, each on its own, iff
  something is missing from the cache, or no step is a sign-off and no kind of step is more
  frequent than the results that vouch for it.
-/

namespace Bobbit.Server.VerificationLogic

open Bobbit.Lib
open WorkflowStore (StepType VerifyStep)

variable {ν : Type}

/-! ## What earlier signals recorded -/

/-- The results of a signal, none without a verification. -/
def GateSignal.steps (signal : GateSignal) : List GateSignalStep :=
  signal.verification.elim [] (·.steps)

/-- The recorded results, each with its signal. -/
def recordedSteps (signals : List GateSignal) : List (GateSignal × GateSignalStep) :=
  signals.flatMap fun signal => signal.steps.map (signal, ·)

/-- An earlier signal of the same commit that is complete and not invalidated. -/
def eligible (currentSignalId commitSha : String) (invalidatedAt : Option Nat)
    (signal : GateSignal) : Bool :=
  signal.id ≠ currentSignalId && invalidatedAt.all (· < signal.timestamp) &&
    signal.commitSha = commitSha &&
    (signal.verification.bind (·.status)).any (· ≠ .running)

/-- A result that `buildStepCache` takes. -/
def reusable (currentSignalId commitSha : String) (invalidatedAt : Option Nat)
    (record : GateSignal × GateSignalStep) : Bool :=
  eligible currentSignalId commitSha invalidatedAt record.1 &&
    record.2.type ≠ .humanSignoff && record.2.passed

def reusedNames (signals : List GateSignal) (currentSignalId commitSha : String)
    (invalidatedAt : Option Nat) : List JsString :=
  ((recordedSteps signals).filter (reusable currentSignalId commitSha invalidatedAt)).map
    fun record => record.2.name

def GateSignalStep.ranAndPassed (step : GateSignalStep) : Bool :=
  step.passed && terminalStatusForStep step ≠ .skipped

/-- A result vouches for the steps of its name and type. -/
def Vouches (currentSignalId commitSha : String) (invalidatedAt : Option Nat)
    (record : GateSignal × GateSignalStep) (kind : JsString × StepType) : Prop :=
  eligible currentSignalId commitSha invalidatedAt record.1 = true ∧
    (record.2.name, record.2.type) = kind ∧ record.2.ranAndPassed = true

instance (currentSignalId commitSha : String) (invalidatedAt : Option Nat)
    (record : GateSignal × GateSignalStep) (kind : JsString × StepType) :
    Decidable (Vouches currentSignalId commitSha invalidatedAt record kind) :=
  inferInstanceAs (Decidable (_ ∧ _ ∧ _))

/-- No step is a sign-off, and every step has an earlier result of its own that vouches
    for it. -/
def Verified (signals : List GateSignal) (currentSignalId commitSha : String)
    (invalidatedAt : Option Nat) (activeSteps : List (VerifyStep ν)) : Prop :=
  (∀ s ∈ activeSteps, s.type ≠ .humanSignoff) ∧
    ∃ f : Fin activeSteps.length → Fin (recordedSteps signals).length,
      Function.Injective f ∧ ∀ i,
        Vouches currentSignalId commitSha invalidatedAt ((recordedSteps signals).get (f i))
          ((activeSteps.get i).name, (activeSteps.get i).type)

/-- When every step is let off, every step was verified. -/
def SkipsSoundly (signals : List GateSignal) (currentSignalId commitSha : String)
    (invalidatedAt : Option Nat) (activeSteps : List (VerifyStep ν)) : Prop :=
  canSkipAllSteps (buildStepCache signals currentSignalId (some commitSha) invalidatedAt)
      activeSteps = true →
    Verified signals currentSignalId commitSha invalidatedAt activeSteps

/-! ## The steps to run -/

/-! ## The cache -/

def cacheStep (cache : JsMap JsString GateSignalStep) (s : GateSignalStep) :
    JsMap JsString GateSignalStep :=
  if (cache.get? s.name).isNone then cache.set s.name s else cache

variable (cache : JsMap JsString GateSignalStep)

theorem cacheSteps_eq (steps : List GateSignalStep) : cacheSteps cache steps =
      (steps.filter fun s => s.type ≠ .humanSignoff && s.passed).foldl cacheStep cache := by
  unfold cacheSteps
  rw [List.foldl_filter]
  refine List.foldl_ext _ _ cache ?_
  intro cache s _
  by_cases htype : s.type = .humanSignoff
  · simp [htype]
  · cases hpassed : s.passed <;> simp [htype, cacheStep]

theorem filter_reusable (currentSignalId commitSha : String) (invalidatedAt : Option Nat)
    (signal : GateSignal) :
    ((signal.steps.map (signal, ·)).filter
        (reusable currentSignalId commitSha invalidatedAt)).map Prod.snd =
      if eligible currentSignalId commitSha invalidatedAt signal then
        signal.steps.filter fun s => s.type ≠ .humanSignoff && s.passed
      else [] := by
  rw [List.filter_map, List.map_map]
  split
  · rename_i h
    have hcomp : reusable currentSignalId commitSha invalidatedAt ∘ (signal, ·) =
        fun s => s.type ≠ .humanSignoff && s.passed := by
      funext s
      simp [reusable, h]
    rw [hcomp]
    exact List.map_id _
  · rename_i h
    have hcomp : reusable currentSignalId commitSha invalidatedAt ∘ (signal, ·) =
        fun _ => false := by
      funext s
      simp [reusable, h]
    simp [hcomp]

theorem cacheSteps_signal (currentSignalId commitSha : String) (invalidatedAt : Option Nat)
    (cache : JsMap JsString GateSignalStep) (prev : GateSignal) :
    (if prev.id = currentSignalId then cache
      else if invalidatedAt.any (prev.timestamp ≤ ·) then cache
      else if some prev.commitSha ≠ some commitSha then cache
      else
        match prev.verification with
        | some { status := some status, steps } =>
          if status = .running then cache else cacheSteps cache steps
        | _ => cache) =
      (((prev.steps.map (prev, ·)).filter
        (reusable currentSignalId commitSha invalidatedAt)).map Prod.snd).foldl cacheStep cache := by
  rw [filter_reusable]
  by_cases hid : prev.id = currentSignalId
  · simp [hid, eligible]
  rw [if_neg hid]
  by_cases hat : invalidatedAt.any (prev.timestamp ≤ ·) = true
  · have hall : invalidatedAt.all (· < prev.timestamp) = false := by
      cases invalidatedAt <;> simp_all
    simp [hat, eligible, hall]
  rw [if_neg hat]
  have hall : invalidatedAt.all (· < prev.timestamp) = true := by
    cases invalidatedAt <;> simp_all
  by_cases hsha : prev.commitSha = commitSha
  · rcases hv : prev.verification with _ | ⟨status, steps⟩
    · simp [eligible, hv, hsha]
    · cases status with
      | none => simp [eligible, hv, hsha]
      | some status =>
        by_cases hrun : status = .running
        · simp [eligible, hv, hsha, hrun]
        · simp [eligible, hv, hsha, hrun, hid, hall, GateSignal.steps, cacheSteps_eq]
  · simp [eligible, hsha]

/-- The cache of a commit takes the reusable results in order. -/
theorem buildStepCache_eq (signals : List GateSignal) (currentSignalId : String)
    {commitSha : String} (hcommit : commitSha ≠ "") (invalidatedAt : Option Nat) :
    buildStepCache signals currentSignalId (some commitSha) invalidatedAt =
      (((recordedSteps signals).filter
        (reusable currentSignalId commitSha invalidatedAt)).map Prod.snd).foldl cacheStep [] := by
  unfold buildStepCache recordedSteps
  rw [if_neg (by simpa using hcommit), List.filter_flatMap, List.map_flatMap,
    List.foldl_flatMap]
  refine List.foldl_ext _ _ [] ?_
  intro cache prev _
  exact cacheSteps_signal currentSignalId commitSha invalidatedAt cache prev

/-! ## Its names -/

theorem mem_keys_cacheStep (s : GateSignalStep) (name : JsString) :
    name ∈ JsMap.keys (cacheStep cache s) ↔ name ∈ JsMap.keys cache ∨ name = s.name := by
  unfold cacheStep
  split
  · rw [JsMap.keys_set]
    split
    · rename_i hmem
      exact ⟨Or.inl, fun h => h.elim id (· ▸ hmem)⟩
    · simp
  · rename_i h
    have hmem : s.name ∈ JsMap.keys cache := by
      rw [← JsMap.get?_isSome_iff]
      simpa [Option.isSome_iff_ne_none] using h
    exact ⟨Or.inl, fun h => h.elim id (· ▸ hmem)⟩

theorem nodup_cacheStep {cache : JsMap JsString GateSignalStep}
    (h : (JsMap.keys cache).Nodup) (s : GateSignalStep) :
    (JsMap.keys (cacheStep cache s)).Nodup := by
  unfold cacheStep
  split
  · exact JsMap.nodup_set h _ _
  · exact h

/-- The names of the cache are those of the results it was built from. -/
theorem mem_keys_foldl (steps : List GateSignalStep) (cache : JsMap JsString GateSignalStep)
    (name : JsString) :
    name ∈ JsMap.keys (steps.foldl cacheStep cache) ↔
      name ∈ JsMap.keys cache ∨ name ∈ steps.map (·.name) := by
  induction steps generalizing cache with
  | nil => simp
  | cons s rest ih =>
    rw [List.foldl_cons, ih, mem_keys_cacheStep, List.map_cons, List.mem_cons, or_assoc]

theorem nodup_foldl (steps : List GateSignalStep) {cache : JsMap JsString GateSignalStep}
    (h : (JsMap.keys cache).Nodup) : (JsMap.keys (steps.foldl cacheStep cache)).Nodup := by
  induction steps generalizing cache with
  | nil => exact h
  | cons s rest ih => exact ih (nodup_cacheStep h s)

section Cache

variable (signals : List GateSignal) (currentSignalId : String) {commitSha : String}
  (hcommit : commitSha ≠ "") (invalidatedAt : Option Nat)

include hcommit

theorem isSome_buildStepCache (name : JsString) :
    ((buildStepCache signals currentSignalId (some commitSha) invalidatedAt).get? name).isSome =
        true ↔
      name ∈ reusedNames signals currentSignalId commitSha invalidatedAt := by
  rw [JsMap.get?_isSome_iff, buildStepCache_eq signals currentSignalId hcommit, mem_keys_foldl]
  simp only [JsMap.keys, List.map_nil, List.not_mem_nil, false_or, List.map_map, reusedNames]
  rfl

theorem length_buildStepCache :
    (buildStepCache signals currentSignalId (some commitSha) invalidatedAt).length =
      (reusedNames signals currentSignalId commitSha invalidatedAt).dedup.length := by
  set cache := buildStepCache signals currentSignalId (some commitSha) invalidatedAt with hcache
  have hnodup : (JsMap.keys cache).Nodup := by
    rw [hcache, buildStepCache_eq signals currentSignalId hcommit]
    exact nodup_foldl _ List.nodup_nil
  have hperm : (JsMap.keys cache).Perm
      (reusedNames signals currentSignalId commitSha invalidatedAt).dedup := by
    refine (List.perm_ext_iff_of_nodup hnodup (List.nodup_dedup _)).mpr ?_
    intro name
    rw [← JsMap.get?_isSome_iff, List.mem_dedup]
    exact isSome_buildStepCache signals currentSignalId hcommit invalidatedAt name
  simpa [JsMap.keys] using hperm.length_eq

/-- Every step is let off iff its name is reused and there are as many names as steps. -/
theorem canSkipAllSteps_iff (activeSteps : List (VerifyStep ν)) :
    canSkipAllSteps (buildStepCache signals currentSignalId (some commitSha) invalidatedAt)
        activeSteps = true ↔
      activeSteps.length ≤
          (reusedNames signals currentSignalId commitSha invalidatedAt).dedup.length ∧
        ∀ s ∈ activeSteps, s.name ∈ reusedNames signals currentSignalId commitSha invalidatedAt := by
  rw [canSkipAllSteps, Bool.and_eq_true, decide_eq_true_eq,
    length_buildStepCache signals currentSignalId hcommit, List.all_eq_true]
  refine and_congr_right fun _ => forall₂_congr fun s _ => ?_
  exact isSome_buildStepCache signals currentSignalId hcommit invalidatedAt s.name

end Cache

/-! ## Results that vouch for steps -/

theorem Vouches.kind_unique {currentSignalId commitSha : String} {invalidatedAt : Option Nat}
    {record : GateSignal × GateSignalStep} {kind kind' : JsString × StepType}
    (h : Vouches currentSignalId commitSha invalidatedAt record kind)
    (h' : Vouches currentSignalId commitSha invalidatedAt record kind') : kind = kind' :=
  h.2.1.symm.trans h'.2.1

/-- Steps are verified iff none is a sign-off and no kind is more frequent than the results
    that vouch for it. -/
theorem verified_iff (signals : List GateSignal) (currentSignalId commitSha : String)
    (invalidatedAt : Option Nat) (activeSteps : List (VerifyStep ν)) :
    Verified signals currentSignalId commitSha invalidatedAt activeSteps ↔
      (∀ s ∈ activeSteps, s.type ≠ .humanSignoff) ∧
        ∀ s ∈ activeSteps,
          (activeSteps.countP fun s' => (s'.name, s'.type) = (s.name, s.type)) ≤
            (recordedSteps signals).countP fun record =>
              Vouches currentSignalId commitSha invalidatedAt record (s.name, s.type) :=
  and_congr_right fun _ =>
    exists_matching_iff (fun s : VerifyStep ν => (s.name, s.type))
      (Vouches currentSignalId commitSha invalidatedAt)
      (fun _ _ _ h h' => h.kind_unique h') activeSteps (recordedSteps signals)

/-- The steps that are let off were all verified, iff the cache has no result for one of
    them or fewer names than there are steps, or no step is a sign-off and no kind of step
    is more frequent than the results that vouch for it. -/
theorem skips_soundly_iff (signals : List GateSignal) (currentSignalId : String)
    {commitSha : String} (hcommit : commitSha ≠ "") (invalidatedAt : Option Nat)
    (activeSteps : List (VerifyStep ν)) :
    SkipsSoundly signals currentSignalId commitSha invalidatedAt activeSteps ↔
      (∃ s ∈ activeSteps,
          s.name ∉ reusedNames signals currentSignalId commitSha invalidatedAt) ∨
        (reusedNames signals currentSignalId commitSha invalidatedAt).dedup.length <
          activeSteps.length ∨
        (∀ s ∈ activeSteps, s.type ≠ .humanSignoff) ∧
          ∀ s ∈ activeSteps,
            (activeSteps.countP fun s' => (s'.name, s'.type) = (s.name, s.type)) ≤
              (recordedSteps signals).countP fun record =>
                Vouches currentSignalId commitSha invalidatedAt record (s.name, s.type) := by
  rw [SkipsSoundly, verified_iff,
    canSkipAllSteps_iff signals currentSignalId hcommit invalidatedAt activeSteps, imp_iff_not_or,
    not_and_or, not_le]
  simp only [not_forall, exists_prop]
  exact or_assoc.trans or_left_comm

/-! ## A sign-off that is let off -/

def stepOf (name : JsString) (type : StepType) (optional : Bool) : VerifyStep Nat where
  name := name
  type := type
  run := none
  prompt := none
  expect := none
  timeout := none
  phase := none
  optional := optional
  label := none
  optionalLabel := none
  role := none
  description := none
  failureGuidance := none
  component := none
  command := none
  subgoal := none

/-- A gate with a review and a sign-off of one name, and an optional step. -/
def approvalSteps : List (VerifyStep Nat) :=
  [stepOf (js "Approve") .llmReview false, stepOf (js "Approve") .humanSignoff false,
    stepOf (js "QA") .agentQa true]

/-- Its first signal: the review passed, the sign-off was refused, the optional step was not
    enabled. -/
def refusedSignal : GateSignal where
  id := "first"
  timestamp := 1
  commitSha := "abc"
  verification := some
    { status := some .failed
      steps :=
        [⟨js "Approve", .llmReview, true, false, some .passed⟩,
          ⟨js "Approve", .humanSignoff, false, false, some .failed⟩,
          ⟨js "QA", .agentQa, true, true, some .skipped⟩] }

/-- Signalled again on the same commit, the gate passes without the sign-off. -/
theorem refused_signoff_let_off :
    ¬ SkipsSoundly [refusedSignal] "second" "abc" none
      (partitionOptionalSteps approvalSteps []).1 := by
  intro h
  have hskip : canSkipAllSteps (buildStepCache [refusedSignal] "second" (some "abc") none)
      (partitionOptionalSteps approvalSteps []).1 = true := by decide
  refine (h hskip).1 (stepOf (js "Approve") .humanSignoff false) ?_ rfl
  decide

/-- The review alone is let off soundly. -/
theorem review_let_off :
    "abc" ≠ "" ∧ SkipsSoundly [refusedSignal] "second" "abc" none
      [stepOf (js "Approve") .llmReview false] :=
  ⟨by decide,
    (skips_soundly_iff [refusedSignal] "second" (by decide) none
      [stepOf (js "Approve") .llmReview false]).mpr (.inr (.inr (by decide)))⟩

end Bobbit.Server.VerificationLogic
