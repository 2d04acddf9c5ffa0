import Bobbit.Lib.JsMap
import Bobbit.Server.WorkflowStore

/-!
# Verification logic

Model of the reuse of verification results in `src/server/agent/verification-logic.ts`
(`partitionOptionalSteps`, `buildStepCache`, `canSkipAllSteps`), and of
`terminalStatusForStep` of the verification harness. The times of signals are whole
milliseconds.
-/

namespace Bobbit.Server.VerificationLogic

open Bobbit.Lib
open WorkflowStore (StepType VerifyStep)

variable {ν : Type}

/-- `GateSignal["verification"]["status"]`. -/
inductive VerificationStatus
  | running
  | passed
  | failed
deriving DecidableEq

/-- `GateSignalStep["status"]`. -/
inductive StepStatus
  | waiting
  | running
  | passed
  | failed
  | timeout
  | skipped
deriving DecidableEq

/-- The result of a step as a signal records it; an absent `skipped` is false. -/
structure GateSignalStep where
  name : JsString
  type : StepType
  passed : Bool
  skipped : Bool
  status : Option StepStatus
deriving DecidableEq

/-- `GateSignal["verification"]`; a record read from disk may lack the status. -/
structure Verification where
  status : Option VerificationStatus
  steps : List GateSignalStep
deriving DecidableEq

structure GateSignal where
  id : String
  timestamp : Nat
  commitSha : String
  verification : Option Verification
deriving DecidableEq

/-- The steps to run, and the places of the optional steps the goal has not enabled. -/
def partitionOptionalSteps (steps : List (VerifyStep ν)) (enabledOptionalSteps : List JsString) :
    List (VerifyStep ν) × List Nat :=
  steps.zipIdx.foldl
    (fun acc entry =>
      if entry.1.optional && !enabledOptionalSteps.contains entry.1.name then
        (acc.1, acc.2 ++ [entry.2])
      else (acc.1 ++ [entry.1], acc.2))
    ([], [])

/-- What the loop of `buildStepCache` does with the steps of a signal. -/
def cacheSteps (cache : JsMap JsString GateSignalStep) (steps : List GateSignalStep) :
    JsMap JsString GateSignalStep :=
  steps.foldl
    (fun cache s =>
      if s.type = .humanSignoff then cache
      else if s.passed && (cache.get? s.name).isNone then cache.set s.name s
      else cache)
    cache

/-- The results of earlier signals that may stand for the steps of the current one. -/
def buildStepCache (signals : List GateSignal) (currentSignalId : String)
    (commitSha : Option String) (verificationCacheInvalidatedAt : Option Nat) :
    JsMap JsString GateSignalStep :=
  if commitSha.all (· = "") then []
  else
    signals.foldl
      (fun cache prev =>
        if prev.id = currentSignalId then cache
        else if verificationCacheInvalidatedAt.any (prev.timestamp ≤ ·) then cache
        else if some prev.commitSha ≠ commitSha then cache
        else
          match prev.verification with
          | some { status := some status, steps } =>
            if status = .running then cache else cacheSteps cache steps
          | _ => cache)
      []

/-- Whether no agent has to be started. -/
def canSkipAllSteps (cache : JsMap JsString GateSignalStep) (activeSteps : List (VerifyStep ν)) :
    Bool :=
  decide (activeSteps.length ≤ cache.length) &&
    activeSteps.all fun s => (cache.get? s.name).isSome

/-- The verdict the harness shows for a recorded step. -/
def terminalStatusForStep (step : GateSignalStep) : StepStatus :=
  if step.skipped || step.status = some .skipped then .skipped
  else if step.status = some .timeout then .timeout
  else if step.status = some .passed then .passed
  else if step.status = some .failed then .failed
  else if step.passed then .passed
  else .failed

end Bobbit.Server.VerificationLogic
