import Bobbit.Server.TextSelection

/-!
# The budget of a snapshot

Model of `enforceGateVerificationAggregateOutputBudget` in
`src/server/gate-verification-snapshot.ts`. The steps of a gate share one budget of lines and
one of bytes, and use them up in order.
-/

namespace Bobbit.Server.GateSnapshot

open Lib Lib.JsString TextSelection

/-- What the budget writes in the metadata of a step's selection. -/
structure OutputSelection where
  truncated : Bool
  truncationReason : Option JsString

structure GateInspectOutputStep where
  output : Option JsString
  selection : Option OutputSelection

structure OutputBudget where
  remainingLines : Nat
  remainingBytes : Nat
  truncated : Bool
  truncationReason : Option JsString

def aggregateReason : JsString :=
  js "aggregate selected output exceeded " ++ numberText maxSelectedLines ++ js " line/" ++
    numberText maxSelectedBytes ++ js " byte budget"

def markTruncated (step : GateInspectOutputStep) (text reason : JsString) :
    GateInspectOutputStep :=
  { output := some text
    selection := step.selection.map fun selection =>
      { selection with truncated := true, truncationReason := some reason } }

/-- One turn of the loop. No reason is empty, so a reason that is there is kept. -/
def limitStep (b : OutputBudget) (step : GateInspectOutputStep) :
    GateInspectOutputStep × OutputBudget :=
  match step.output with
  | none => (step, b)
  | some output =>
    if output = [] then (step, b)
    else if b.remainingLines = 0 ∨ b.remainingBytes = 0 then
      let reason := b.truncationReason.getD aggregateReason
      (markTruncated step [] reason, { b with truncated := true, truncationReason := some reason })
    else
      let capped := truncateTextToBudget output b.remainingLines b.remainingBytes
      let b :=
        { b with
          remainingLines := b.remainingLines - capped.lines
          remainingBytes := b.remainingBytes - capped.bytes }
      if capped.truncated then
        let reason := capped.truncationReason.getD aggregateReason
        (markTruncated step capped.text reason,
          { b with truncated := true, truncationReason := some reason })
      else ({ step with output := some capped.text }, b)

def limitSteps (b : OutputBudget) :
    List GateInspectOutputStep → List GateInspectOutputStep × OutputBudget
  | [] => ([], b)
  | step :: rest =>
    let limited := limitStep b step
    let others := limitSteps limited.2 rest
    (limited.1 :: others.1, others.2)

/-- The steps as they are left, and what the function returns. -/
def enforceGateVerificationAggregateOutputBudget (steps : List GateInspectOutputStep) :
    List GateInspectOutputStep × Bool × Option JsString :=
  let limited := limitSteps ⟨maxSelectedLines, maxSelectedBytes, false, none⟩ steps
  (limited.1, limited.2.truncated, limited.2.truncationReason)

end Bobbit.Server.GateSnapshot
