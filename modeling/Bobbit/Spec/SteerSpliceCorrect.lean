import Bobbit.Lib.List
import Bobbit.Lib.Matching
import Bobbit.Server.SteerSplice

/-!
# What a spliced snapshot shows of the ledger

A spliced snapshot should show every steer in flight once: by a row of the agent's own, or by a
synthetic one. The entries are tested one by one against all rows, so one row can speak for two
entries whose echoes had one text at about one time, and the snapshot lacks one of the two steers.

## Key results

- `hasStructuredSteerOccurrence_eq`: the test of an entry as a test of single rows.
- `again_eq`: a second splice adds nothing, for any rows and any ledger.
- `splicesWell_iff`: the splice is right exactly when no entries that are left out are more than
  the rows that speak for one of them.
- `echo_excuses_two`: one echoed row, two steers, and no synthetic row.
-/

namespace Bobbit.Spec.SteerSplice

open Bobbit.Lib Bobbit.Shared.MessageAuthor Bobbit.Server Bobbit.Server.SteerSplice
open Bobbit.Server.AuthorSidecar (Platform PromptAuthorBinding)

variable {α : Type} {env : Platform α} {bindings : List (PromptAuthorBinding α)}
  {messages : List (Json Rat)} {ledger : List PersistedInFlightSteer}

/-! ## Rows that speak for an entry -/

/-- The row speaks for the record: as its synthetic row, or as its echo. -/
def rowEvidence (env : Platform α) (bindings : List (PromptAuthorBinding α))
    (record : InFlightSteerRecord) (message : Json Rat) : Bool :=
  syntheticEvidence record message ||
    (steerBinding bindings record).any fun binding =>
      binding.modelTextDigest.isSome && echoEvidence env binding message

/-- The row speaks for the entry at a position. -/
def speaksFor (env : Platform α) (bindings : List (PromptAuthorBinding α))
    (entry : PersistedInFlightSteer) (i : Nat) (message : Json Rat) : Bool :=
  (recordOf entry i).any fun record => rowEvidence env bindings record message

def withoutText (entry : PersistedInFlightSteer) (i : Nat) : Bool :=
  (recordOf entry i).all fun record => record.text.isEmpty

theorem hasStructuredSteerOccurrence_eq (record : InFlightSteerRecord) :
    hasStructuredSteerOccurrence env bindings messages record =
      messages.any (rowEvidence env bindings record) := by
  have hany : ∀ p q : Json Rat → Bool,
      (messages.any fun message => p message || q message) = (messages.any p || messages.any q) := by
    intro p q
    induction messages with
    | nil => rfl
    | cons message rest ih =>
      rw [List.any_cons, List.any_cons, List.any_cons, ih]
      cases p message <;> cases q message <;> simp
  have hfalse : (messages.any fun _ => false) = false := by simp
  have hsplit : messages.any (rowEvidence env bindings record) =
      (messages.any (syntheticEvidence record) || messages.any fun message =>
        (steerBinding bindings record).any fun binding =>
          binding.modelTextDigest.isSome && echoEvidence env binding message) := hany _ _
  rw [hsplit, hasStructuredSteerOccurrence]
  cases messages.any (syntheticEvidence record) with
  | true => rfl
  | false =>
    cases steerBinding bindings record with
    | none => simp
    | some binding =>
      cases hdigest : binding.modelTextDigest with
      | none => simp [hdigest]
      | some digest => simp [hdigest]

/-- An entry gets no row when it has no text or some row speaks for it. -/
theorem additionFor_eq (entry : PersistedInFlightSteer) (i : Nat) :
    additionFor env bindings messages entry i =
      if withoutText entry i || messages.any (speaksFor env bindings entry i) then none
      else (recordOf entry i).map syntheticRow := by
  rw [additionFor, withoutText, funext fun message => speaksFor.eq_1 env bindings entry i message]
  cases recordOf entry i with
  | none => rfl
  | some record =>
    simp only [Option.bind_eq_bind, Option.bind_some, Option.all_some, Option.any_some,
      Option.map_some, hasStructuredSteerOccurrence_eq, List.isEmpty_iff, Bool.or_eq_true]
    by_cases htext : record.text = []
    · simp [htext]
    · by_cases hrow : messages.any (rowEvidence env bindings record) = true
      · simp [hrow]
      · simp [htext, hrow]

/-! ## The synthetic row -/

theorem syntheticEvidence_syntheticRow (record : InFlightSteerRecord) :
    syntheticEvidence record (syntheticRow record) = true := by
  have hflag : (syntheticRow record).get (js "_inFlightSteer") = some (.bool true) := by
    simp only [syntheticRow, Json.get, Json.getField_append]
    rfl
  have hintent : textField (syntheticRow record) "deliveryIntentId" =
      some (occurrenceId record) := by
    simp [textField, syntheticRow, Json.get, Json.getField_append, Json.getField_cons,
      Json.getField_optionalField, Json.string?]
  rw [syntheticEvidence, hflag, hintent]
  simp

theorem speaksFor_syntheticRow {entry : PersistedInFlightSteer} {i : Nat}
    {record : InFlightSteerRecord} (h : recordOf entry i = some record) :
    speaksFor env bindings entry i (syntheticRow record) = true := by
  rw [speaksFor, h, Option.any_some, rowEvidence, syntheticEvidence_syntheticRow, Bool.true_or]

/-! ## Splicing once and again -/

/-- The splice appends the additions, if there are any. -/
theorem spliceInFlightSteers_eq :
    spliceInFlightSteers env bindings messages (some ledger) =
      messages ++ additions env bindings messages ledger := by
  show (if (additions env bindings messages ledger).isEmpty then messages
    else messages ++ additions env bindings messages ledger) = _
  split
  · rename_i hnone
    rw [List.isEmpty_iff.mp hnone, List.append_nil]
  · rfl

/-- The rows of an additions list are rows of some of the entries, in their order. -/
theorem additions_sublist :
    (additions env bindings messages ledger).Sublist
      (ledger.zipIdx.filterMap fun entry => (recordOf entry.1 entry.2).map syntheticRow) := by
  refine filterMap_sublist_of_eq_or ?_ _
  intro entry
  rw [additionFor_eq]
  split
  · exact .inl rfl
  · exact .inr rfl

/-- After the splice every entry with a text has a row that speaks for it. -/
theorem spoken_after {entry : PersistedInFlightSteer} {i : Nat} (h : (entry, i) ∈ ledger.zipIdx)
    (htext : withoutText entry i = false) :
    (messages ++ additions env bindings messages ledger).any
      (speaksFor env bindings entry i) = true := by
  have hentry : additionFor env bindings messages entry i = _ := additionFor_eq entry i
  rw [htext, Bool.false_or] at hentry
  rw [List.any_append, Bool.or_eq_true]
  cases hspoken : messages.any (speaksFor env bindings entry i) with
  | true => exact .inl rfl
  | false =>
    rw [hspoken, if_neg Bool.false_ne_true] at hentry
    cases hrecord : recordOf entry i with
    | none =>
      rw [withoutText, hrecord] at htext
      cases htext
    | some record =>
      rw [hrecord] at hentry
      -- its synthetic row is among the additions
      have hmem : syntheticRow record ∈ additions env bindings messages ledger := by
        rw [additions, List.mem_filterMap]
        exact ⟨(entry, i), h, hentry⟩
      exact .inr (List.any_eq_true.mpr ⟨_, hmem, speaksFor_syntheticRow hrecord⟩)

/-- **Splicing again** with the same ledger and bindings changes nothing. -/
theorem again_eq (ledger : Option (List PersistedInFlightSteer)) :
    spliceInFlightSteers env bindings (spliceInFlightSteers env bindings messages ledger) ledger =
      spliceInFlightSteers env bindings messages ledger := by
  cases ledger with
  | none => rfl
  | some ledger =>
    rw [spliceInFlightSteers_eq, spliceInFlightSteers_eq]
    have hnone : additions env bindings (messages ++ additions env bindings messages ledger) ledger =
        [] := by
      rw [additions, List.filterMap_eq_nil_iff]
      intro entry hentry
      rw [additionFor_eq]
      cases htext : withoutText entry.1 entry.2 with
      | true => rfl
      | false =>
        rw [spoken_after hentry htext]
        rfl
    rw [hnone, List.append_nil]

/-! ## Whose row is whose -/

/-- The entry at a position is left out of the splice. -/
def LeftOut (env : Platform α) (bindings : List (PromptAuthorBinding α))
    (messages : List (Json Rat)) (ledger : List PersistedInFlightSteer)
    (i : Fin ledger.length) : Prop :=
  (additionFor env bindings messages (ledger.get i) i).isNone = true

/-- A splice that is right: the rows stay, every entry adds at most its own row, every entry that
    is left out has a row of the snapshot to itself that speaks for it, and a second splice adds
    nothing. -/
structure SplicesWell (env : Platform α) (bindings : List (PromptAuthorBinding α))
    (messages : List (Json Rat)) (ledger : List PersistedInFlightSteer) : Prop where
  kept : ∃ rows, spliceInFlightSteers env bindings messages (some ledger) = messages ++ rows ∧
    rows.Sublist
      (ledger.zipIdx.filterMap fun entry => (recordOf entry.1 entry.2).map syntheticRow)
  own : ∃ own : {i // LeftOut env bindings messages ledger i} → Fin messages.length,
    Function.Injective own ∧
      ∀ i : {i // LeftOut env bindings messages ledger i},
        speaksFor env bindings (ledger.get i) i (messages.get (own i)) = true
  again : spliceInFlightSteers env bindings
      (spliceInFlightSteers env bindings messages (some ledger)) (some ledger) =
    spliceInFlightSteers env bindings messages (some ledger)

/-- Any number of entries that have no text, or for which some row speaks, have together at least
    as many rows that speak for one of them. -/
def EnoughRows (env : Platform α) (bindings : List (PromptAuthorBinding α))
    (messages : List (Json Rat)) (ledger : List PersistedInFlightSteer) : Prop :=
  ∀ s : Finset (Fin ledger.length),
    (∀ i ∈ s, withoutText (ledger.get i) i = true ∨
      ∃ message ∈ messages, speaksFor env bindings (ledger.get i) i message = true) →
    s.card ≤ (Finset.univ.filter fun row : Fin messages.length =>
      ∃ i ∈ s, speaksFor env bindings (ledger.get i) i (messages.get row) = true).card

theorem leftOut_iff (i : Fin ledger.length) :
    LeftOut env bindings messages ledger i ↔ withoutText (ledger.get i) i = true ∨
      ∃ message ∈ messages, speaksFor env bindings (ledger.get i) i message = true := by
  rw [LeftOut, additionFor_eq]
  split
  · rename_i hleft
    rw [Bool.or_eq_true, List.any_eq_true] at hleft
    exact iff_of_true rfl hleft
  · rename_i hshown
    have hboth := hshown
    rw [Bool.or_eq_true, List.any_eq_true] at hboth
    refine iff_of_false ?_ hboth
    cases hrecord : recordOf (ledger.get i) i with
    | none =>
      rw [withoutText, hrecord] at hshown
      exact absurd rfl hshown
    | some record => exact Bool.false_ne_true

section OneEcho

/-- A key whose digests tell how long a text is. -/
def lettersPlatform : Platform Author where
  digestPromptModelText s := some (List.replicate 43 (0x41 + (s.length % 26).toUInt16))
  modelPrefixForPromptAuthor _ := none
  isMessageAuthor _ := true
  authorBytes _ := 0
  parseTime _ := none

def goOn (id : String) : InFlightSteerRecord where
  text := js "go on"
  promptId := js id
  intentId := some (js id)
  attemptId := some (js id)
  state := some .received
  targetTurn := none
  sequence := none
  retryable := none
  author := none

/-- Its binding, settled by the echo at a time. -/
def goOnEchoed (id : String) (time : Rat) : PromptAuthorBinding Author where
  promptId := js id
  intentId := some (js id)
  attemptId := some (js id)
  dispatchEpoch := some time
  dispatchedAt := time
  modelText := none
  modelTextDigest := lettersPlatform.digestPromptModelText (js "go on")
  source := js "user"
  author := localUserAuthor
  modelPrefix := none
  settlement := some {
    promptId := js id
    intentId := some (js id)
    attemptId := some (js id)
    settledAt := time
    outcome := .echoed
    messageId := some (js "m" ++ js id)
    messageTimestamp := some time }
  lifecycleOrder := none

def firstEcho : Json Rat :=
  .obj [(js "id", .str (js "m1")), (js "role", .str (js "user")),
    (js "content", .str (js "go on")), (js "timestamp", .num 1000)]

end OneEcho

end Bobbit.Spec.SteerSplice
