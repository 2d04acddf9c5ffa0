import Bobbit.Server.InFlightSteers

/-!
# The turns of the ledger's normalization

`normalizePersistedInFlightSteers` goes through the persisted entries with the intent ids in use so
far. What one turn does is said once (`normalizeEntry_some`, `normalizeEntry_eq_none_iff`); the rest
follows from how the ids in use grow from turn to turn.

## Key results
- `normalizeFrom_eq`: the records, turn by turn.
- `mem_active`: the ids in use before a turn are those of the records made before it.
- `normalize_persisted`: records with different intent ids are reread as they are.
-/

namespace Bobbit.Spec.InFlightLedger

open Bobbit.Lib Bobbit.Server Bobbit.Server.InFlightSteers

variable {π : Type}

/-! ## One turn -/

def entryText : PersistedInFlightSteer π → Option JsString
  | .legacy text => if text = [] then none else some text
  | .record entry => entry.ledgerText

/-- The intent id that an entry brings along. -/
def explicitIntentId : PersistedInFlightSteer π → Option JsString
  | .legacy _ => none
  | .record entry => validLedgerKey entry.intentId

/-- The intent, attempt and epoch of a complete modern attempt. -/
def modernTuple : PersistedInFlightSteer π → Option (JsString × JsString × Nat)
  | .legacy _ => none
  | .record entry => entry.completeModernAttempt

def entryState : PersistedInFlightSteer π → Option InFlightAttemptState
  | .legacy _ => none
  | .record entry => entry.state.toOption

theorem validLedgerKey_ne_nil {value : Server.Field JsString} {key : JsString}
    (h : validLedgerKey value = some key) : key ≠ [] := by
  rw [validLedgerKey, Option.filter_eq_some_iff] at h
  simpa using h.2

theorem numberedIntentId_inj (base : JsString) :
    ∀ m n, numberedIntentId base m = numberedIntentId base n → m = n := by
  have hlonger : ∀ n, base ≠ base ++ js ":" ++ numberText n := by
    intro n h
    have hlength := congrArg List.length h
    simp only [List.length_append] at hlength
    have hcolon : (js ":").length = 1 := by decide
    omega
  intro m n h
  cases m with
  | zero =>
    cases n with
    | zero => rfl
    | succ n => exact absurd h (hlonger (n + 1))
  | succ m =>
    cases n with
    | zero => exact absurd h.symm (hlonger (m + 1))
    | succ n => exact numberText_inj (List.append_cancel_left h)

theorem recordIntentId_not_mem (i : Nat) (active : List JsString) (entry : PersistedRecord π) :
    recordIntentId i active entry ∉ active :=
  firstFree_not_mem (numberedIntentId_inj _)

variable {active : List JsString} {entry : PersistedRecord π}

/-- An intent id of its own that is not in use is kept. -/
theorem recordIntentId_eq {i : Nat}
    {x : JsString} (hx : validLedgerKey entry.intentId = some x) (hfree : x ∉ active) :
    recordIntentId i active entry = x := by
  rw [recordIntentId, hx, Option.getD_some]
  exact firstFree_eq_zero hfree

variable {e : PersistedInFlightSteer π}

theorem explicitIntentId_of_modernTuple {x a : JsString}
    {epoch : Nat} (h : modernTuple e = some (x, a, epoch)) : explicitIntentId e = some x := by
  cases e with
  | legacy text => cases h
  | record entry =>
    simp only [modernTuple, PersistedRecord.completeModernAttempt] at h
    split at h
    · rename_i hintent _ _
      simp only [Option.some.injEq, Prod.mk.injEq] at h
      rw [explicitIntentId, hintent, h.1]
    · cases h

variable {r : InFlightSteerRecord π}

/-- **What a turn makes.** The record has the text of its entry, a new intent id, which is the
entry's own one where it has one, and the tuple of a complete attempt; all others get an attempt id
made of the intent id. -/
theorem normalizeEntry_some {i : Nat} (h : normalizeEntry i active e = some r) :
    entryText e = some r.text ∧ r.intentId ∉ active ∧
      (∀ x, explicitIntentId e = some x → r.intentId = x) ∧
      (∀ x a epoch, modernTuple e = some (x, a, epoch) →
        r.attemptId = a ∧ r.dispatchEpoch = epoch ∧
          r.state = (entryState e).getD .uncertain) ∧
      (modernTuple e = none → r.attemptId = legacyAttemptId r.intentId) := by
  cases e with
  | legacy text =>
    simp only [normalizeEntry, normalizeLegacy] at h
    split at h
    · cases h
    · split at h
      · cases h
      · rename_i htext hfree
        cases h
        refine ⟨if_neg htext, hfree, ?_, ?_, fun _ => rfl⟩
        · intro x hx
          cases hx
        · intro x a epoch htuple
          cases htuple
  | record entry =>
    simp only [normalizeEntry, normalizeRecord] at h
    split at h
    · cases h
    · rename_i text htext
      split at h
      · cases h
      · rename_i hfree
        cases h
        have hown : ∀ x, validLedgerKey entry.intentId = some x →
            recordIntentId i active entry = x := by
          intro x hx
          exact recordIntentId_eq hx (by simpa [hx] using hfree)
        refine ⟨htext, recordIntentId_not_mem i active entry, hown, ?_, ?_⟩
        · intro x a epoch htuple
          have hx := hown x (explicitIntentId_of_modernTuple htuple)
          have hfilter : entry.completeModernAttempt.filter (·.1 = recordIntentId i active entry) =
              some (x, a, epoch) := by
            rw [show entry.completeModernAttempt = some (x, a, epoch) from htuple]
            simp [Option.filter, hx]
          simp [hfilter, entryState]
        · intro htuple
          have hnone : entry.completeModernAttempt = none := htuple
          simp only [hnone, Option.filter_none]

/-- The intent id of a legacy string is that of its position. -/
theorem intentId_of_legacy {i : Nat} {text : JsString}
    (h : normalizeEntry i active (.legacy text) = some r) :
    r.intentId = legacyIntentId (numberText i) := by
  simp only [normalizeEntry, normalizeLegacy] at h
  split at h
  · cases h
  · split at h
    · cases h
    · cases h
      rfl

theorem intentId_of_record {i : Nat} (h : normalizeEntry i active (.record entry) = some r) :
    r.intentId = recordIntentId i active entry := by
  simp only [normalizeEntry, normalizeRecord] at h
  split at h
  · cases h
  · split at h
    · cases h
    · cases h
      rfl

/-- **What a turn drops.** An entry without a text, one whose own intent id is in use, and a legacy
string whose position is in use as an id. -/
theorem normalizeEntry_eq_none_iff {i : Nat} : normalizeEntry i active e = none ↔
      entryText e = none ∨ (∃ x, explicitIntentId e = some x ∧ x ∈ active) ∨
        ((∃ text, e = .legacy text) ∧ legacyIntentId (numberText i) ∈ active) := by
  cases e with
  | legacy text =>
    simp only [normalizeEntry, normalizeLegacy, entryText, explicitIntentId]
    split
    · simp
    · split <;> simp_all
  | record entry =>
    simp only [normalizeEntry, normalizeRecord, entryText, explicitIntentId]
    cases htext : entry.ledgerText with
    | none => simp
    | some text =>
      cases hx : validLedgerKey entry.intentId with
      | none => simp
      | some x => by_cases hmem : x ∈ active <;> simp [hmem]

/-! ## All turns -/

/-- A turn of the loop: the entry it looks at, its position, and the intent ids in use. -/
structure Turn (π : Type) where
  index : Nat
  active : List JsString
  entry : PersistedInFlightSteer π

def Turn.record (t : Turn π) : Option (InFlightSteerRecord π) :=
  normalizeEntry t.index t.active t.entry

/-- The turns of the loop from a position on. -/
def turnsFrom (index : Nat) (active : List JsString) :
    List (PersistedInFlightSteer π) → List (Turn π)
  | [] => []
  | entry :: rest =>
    ⟨index, active, entry⟩ :: turnsFrom (index + 1)
      (((normalizeEntry index active entry).map (·.intentId)).toList ++ active) rest

/-- The turns of `normalizePersistedInFlightSteers`. -/
def turns (entries : List (PersistedInFlightSteer π)) : List (Turn π) := turnsFrom 0 [] entries

variable {i : Nat} {active : List JsString} {entries : List (PersistedInFlightSteer π)}

theorem normalizeFrom_eq : normalizeFrom i active entries =
    (turnsFrom i active entries).filterMap fun t => t.record.map fun r => (t.index, r) := by
  induction entries generalizing i active with
  | nil => rfl
  | cons entry rest ih =>
    rw [normalizeFrom, turnsFrom, List.filterMap_cons]
    simp only [Turn.record]
    cases hentry : normalizeEntry i active entry with
    | none => exact ih
    | some r => exact congrArg _ ih

theorem getElem?_of_mem_turnsFrom {t : Turn π} (ht : t ∈ turnsFrom i active entries) :
    ∃ k, t.index = i + k ∧ entries[k]? = some t.entry := by
  induction entries generalizing i active with
  | nil => cases ht
  | cons entry rest ih =>
    rw [turnsFrom, List.mem_cons] at ht
    rcases ht with rfl | ht
    · exact ⟨0, rfl, rfl⟩
    · obtain ⟨k, hk, hget⟩ := ih ht
      exact ⟨k + 1, by omega, hget⟩

theorem exists_turn {k : Nat} {entry : PersistedInFlightSteer π} (h : entries[k]? = some entry) :
    ∃ t ∈ turnsFrom i active entries, t.index = i + k ∧ t.entry = entry := by
  induction entries generalizing i active k with
  | nil => cases h
  | cons first rest ih =>
    cases k with
    | zero =>
      cases h
      exact ⟨_, List.mem_cons_self, rfl, rfl⟩
    | succ k =>
      obtain ⟨t, ht, hindex, hentry⟩ := ih h
      exact ⟨t, List.mem_cons_of_mem _ ht, by omega, hentry⟩

theorem le_index {t : Turn π} (ht : t ∈ turnsFrom i active entries) : i ≤ t.index := by
  obtain ⟨k, hk, -⟩ := getElem?_of_mem_turnsFrom ht
  omega

/-- The ids in use before a turn: those at the start, and those of the records made since. -/
theorem mem_active_iff {t : Turn π} (ht : t ∈ turnsFrom i active entries) {x : JsString} :
    x ∈ t.active ↔ x ∈ active ∨ ∃ u ∈ turnsFrom i active entries, u.index < t.index ∧
      ∃ r, u.record = some r ∧ r.intentId = x := by
  induction entries generalizing i active with
  | nil => cases ht
  | cons entry rest ih =>
    have hfirst : (⟨i, active, entry⟩ : Turn π) ∈ turnsFrom i active (entry :: rest) :=
      List.mem_cons_self
    rcases List.mem_cons.mp ht with rfl | hrest
    · refine ⟨.inl, ?_⟩
      rintro (h | ⟨u, hu, hlt, -⟩)
      · exact h
      · have hle := le_index hu
        simp only at hlt
        omega
    · rw [ih hrest]
      have hlater : i < t.index := le_index hrest
      constructor
      · rintro (h | ⟨u, hu, hlt, hr⟩)
        · rcases List.mem_append.mp h with hid | hactive
          · obtain ⟨r, hr, hx⟩ := Option.map_eq_some_iff.mp (Option.mem_toList.mp hid)
            exact .inr ⟨_, hfirst, hlater, r, hr, hx⟩
          · exact .inl hactive
        · exact .inr ⟨u, List.mem_cons_of_mem _ hu, hlt, hr⟩
      · rintro (h | ⟨u, hu, hlt, r, hr, hx⟩)
        · exact .inl (List.mem_append_right _ h)
        · rcases List.mem_cons.mp hu with rfl | hu
          · refine .inl (List.mem_append_left _ (Option.mem_toList.mpr ?_))
            exact Option.map_eq_some_iff.mpr ⟨r, hr, hx⟩
          · exact .inr ⟨u, hu, hlt, r, hr, hx⟩

theorem turn_eq_of_index {t u : Turn π} (ht : t ∈ turnsFrom i active entries)
    (hu : u ∈ turnsFrom i active entries) (h : t.index = u.index) : t = u := by
  induction entries generalizing i active with
  | nil => cases ht
  | cons entry rest ih =>
    rcases List.mem_cons.mp ht with rfl | ht
    · rcases List.mem_cons.mp hu with rfl | hu
      · rfl
      · have hle := le_index hu
        simp only at h
        omega
    · rcases List.mem_cons.mp hu with rfl | hu
      · have hle := le_index ht
        simp only at h
        omega
      · exact ih ht hu

/-- A record is one of the result exactly when its turn makes it. -/
theorem mem_normalizeFrom_iff {k : Nat} : (k, r) ∈ normalizeFrom i active entries ↔
      ∃ t ∈ turnsFrom i active entries, t.index = k ∧ t.record = some r := by
  rw [normalizeFrom_eq, List.mem_filterMap]
  constructor
  · rintro ⟨t, ht, h⟩
    obtain ⟨r', hr, heq⟩ := Option.map_eq_some_iff.mp h
    cases heq
    exact ⟨t, ht, rfl, hr⟩
  · rintro ⟨t, ht, rfl, hr⟩
    exact ⟨t, ht, by rw [hr]; rfl⟩

theorem pairwise_normalizeFrom :
    (normalizeFrom i active entries).Pairwise fun p q => p.1 < q.1 := by
  induction entries generalizing i active with
  | nil => exact .nil
  | cons entry rest ih =>
    rw [normalizeFrom]
    cases normalizeEntry i active entry with
    | none => exact ih
    | some r =>
      refine List.pairwise_cons.mpr ⟨?_, ih⟩
      intro p hp
      obtain ⟨t, ht, hindex, -⟩ := mem_normalizeFrom_iff.mp hp
      have hle := le_index ht
      simp only
      omega

/-- The intent ids of the records are new ones, all different. -/
theorem intentId_ne_of_lt {p q : Nat × InFlightSteerRecord π}
    (hp : p ∈ normalizeFrom i active entries) (hq : q ∈ normalizeFrom i active entries)
    (hlt : p.1 < q.1) : p.2.intentId ≠ q.2.intentId := by
  obtain ⟨t, ht, htindex, htrecord⟩ := mem_normalizeFrom_iff.mp hp
  obtain ⟨u, hu, huindex, hurecord⟩ := mem_normalizeFrom_iff.mp hq
  intro heq
  refine (normalizeEntry_some hurecord).2.1 ((mem_active_iff hu).mpr (.inr ⟨t, ht, ?_, ?_⟩))
  · omega
  · exact ⟨p.2, htrecord, heq⟩

theorem nodup_intentIds : ((normalizeFrom i active entries).map (·.2.intentId)).Nodup := by
  rw [List.nodup_iff_pairwise_ne, List.pairwise_map]
  refine List.Pairwise.imp_of_mem ?_ pairwise_normalizeFrom
  intro p q hp hq hlt
  exact intentId_ne_of_lt hp hq hlt

/-! ## Rereading the records -/

/-- What `normalizePersistedInFlightSteers` makes of any record: all keys are there, all numbers
are valid, and an author comes with a source. -/
structure Settled (r : InFlightSteerRecord π) : Prop where
  text : r.text ≠ []
  promptId : r.promptId ≠ []
  intentId : r.intentId ≠ []
  attemptId : r.attemptId ≠ []
  dispatchEpoch : r.dispatchEpoch ≤ maxSafeInteger
  sequence : r.sequence ≤ maxSafeInteger
  createdAt : r.createdAt ≤ maxSafeInteger
  source : r.author.isSome → r.source.isSome
  goalDispatchGuardId : ∀ key, r.goalDispatchGuardId = some key → key ≠ []

theorem validLedgerInteger_le {value : Server.Field Nat} {n : Nat}
    (h : validLedgerInteger value = some n) : n ≤ maxSafeInteger := by
  rw [validLedgerInteger, Option.filter_eq_some_iff] at h
  simpa using h.2

theorem getD_validLedgerInteger_le {value : Server.Field Nat} {n : Nat} (hn : n ≤ maxSafeInteger) :
    (validLedgerInteger value).getD n ≤ maxSafeInteger := by
  cases hvalue : validLedgerInteger value with
  | none => exact hn
  | some m => exact validLedgerInteger_le hvalue

theorem completeModernAttempt_eq_some {x a : JsString} {epoch : Nat}
    (h : entry.completeModernAttempt = some (x, a, epoch)) :
    validLedgerKey entry.intentId = some x ∧ validLedgerKey entry.attemptId = some a ∧
      validLedgerInteger entry.dispatchEpoch = some epoch := by
  simp only [PersistedRecord.completeModernAttempt] at h
  split at h
  · rename_i hintent hattempt hepoch
    cases h
    exact ⟨hintent, hattempt, hepoch⟩
  · cases h

theorem legacyIntentId_ne_nil (key : JsString) : legacyIntentId key ≠ [] := by
  have hprefix : js "legacy-inflight-steer:" ≠ [] := by decide
  simp [legacyIntentId, hprefix]

theorem legacyAttemptId_ne_nil (x : JsString) : legacyAttemptId x ≠ [] := by
  have hprefix : js "attempt:legacy-inflight:" ≠ [] := by decide
  simp [legacyAttemptId, hprefix]

theorem numberedIntentId_ne_nil {base : JsString} (h : base ≠ []) (n : Nat) :
    numberedIntentId base n ≠ [] := by
  cases n with
  | zero => exact h
  | succ n => simp [numberedIntentId, h]

theorem recordIntentId_ne_nil (i : Nat) (active : List JsString) (entry : PersistedRecord π) :
    recordIntentId i active entry ≠ [] := by
  obtain ⟨n, hn⟩ := exists_firstFree_eq (numberedIntentId ((validLedgerKey entry.intentId).getD
    (legacyIntentId (entry.ledgerPromptId i)))) active
  rw [recordIntentId, hn]
  refine numberedIntentId_ne_nil ?_ n
  cases hx : validLedgerKey entry.intentId with
  | none => exact legacyIntentId_ne_nil _
  | some x => exact validLedgerKey_ne_nil hx

theorem settled_of_normalizeEntry
    (hi : i + 1 ≤ maxSafeInteger) (h : normalizeEntry i active e = some r) : Settled r := by
  cases e with
  | legacy text =>
    simp only [normalizeEntry, normalizeLegacy] at h
    split at h
    · cases h
    · split at h
      · cases h
      · rename_i htext _
        cases h
        exact ⟨htext, legacyIntentId_ne_nil _, legacyIntentId_ne_nil _, legacyAttemptId_ne_nil _,
          by simp only; omega, hi, by simp only; omega, fun _ => rfl, by simp⟩
  | record entry =>
    simp only [normalizeEntry, normalizeRecord] at h
    split at h
    · cases h
    · rename_i text htext
      split at h
      · cases h
      · cases h
        have hi' : i ≤ maxSafeInteger := by omega
        refine ⟨validLedgerKey_ne_nil htext, ?_, recordIntentId_ne_nil _ _ _, ?_, ?epoch,
          getD_validLedgerInteger_le hi, getD_validLedgerInteger_le ?epoch, ?_, ?_⟩
        · simp only [PersistedRecord.ledgerPromptId]
          cases hkey : validLedgerKey entry.promptId with
          | none => exact legacyIntentId_ne_nil _
          | some key => exact validLedgerKey_ne_nil hkey
        · simp only
          cases htuple : entry.completeModernAttempt.filter
              (·.1 = recordIntentId i active entry) with
          | none => exact legacyAttemptId_ne_nil _
          | some tuple =>
            have htuple' := (Option.filter_eq_some_iff.mp htuple).1
            exact validLedgerKey_ne_nil (completeModernAttempt_eq_some htuple').2.1
        case epoch =>
          simp only
          cases htuple : entry.completeModernAttempt.filter
              (·.1 = recordIntentId i active entry) with
          | none => exact getD_validLedgerInteger_le (getD_validLedgerInteger_le hi')
          | some tuple =>
            have htuple' := (Option.filter_eq_some_iff.mp htuple).1
            exact validLedgerInteger_le (completeModernAttempt_eq_some htuple').2.2
        · intro hauthor
          obtain ⟨author, hauthor⟩ := Option.isSome_iff_exists.mp hauthor
          simp only at hauthor
          simp only [hauthor]
          cases entry.source.toOption <;> rfl
        · exact fun key hkey => validLedgerKey_ne_nil hkey

/-- A settled record with a new intent id is reread as it is. -/
theorem normalizeEntry_persisted (h : Settled r)
    (hfree : r.intentId ∉ active) : normalizeEntry i active r.persisted = some r := by
  have hkey : ∀ key : JsString, key ≠ [] → validLedgerKey (.valid key) = some key := by
    intro key hne
    simp [validLedgerKey, Server.Field.toOption, Option.filter, hne]
  have hinteger : ∀ n, n ≤ maxSafeInteger → validLedgerInteger (.valid n) = some n := by
    intro n hn
    simp [validLedgerInteger, Server.Field.toOption, Option.filter, hn]
  have hoption : ∀ {α : Type} (value : Option α),
      (value.elim .absent .valid : Server.Field α).toOption = value := by
    intro α value
    cases value <;> rfl
  have hvalid : ∀ {α : Type} (value : α), (Server.Field.valid value).toOption = some value :=
    fun _ => rfl
  have hguard : validLedgerKey (r.goalDispatchGuardId.elim .absent .valid) =
      r.goalDispatchGuardId := by
    cases hkey' : r.goalDispatchGuardId with
    | none => rfl
    | some key => exact hkey key (h.goalDispatchGuardId key hkey')
  have hsource : r.source.or (r.author.map (·.kind.source)) = r.source := by
    cases hsource : r.source with
    | some source => rfl
    | none =>
      cases hauthor : r.author with
      | none => rfl
      | some author =>
        have hsome := h.source (by rw [hauthor]; rfl)
        rw [hsource] at hsome
        cases hsome
  obtain ⟨entry, hentry, hintent, htuple⟩ : ∃ entry, r.persisted = .record entry ∧
      validLedgerKey entry.intentId = some r.intentId ∧
      entry.completeModernAttempt = some (r.intentId, r.attemptId, r.dispatchEpoch) := by
    refine ⟨_, rfl, hkey _ h.intentId, ?_⟩
    simp only [PersistedRecord.completeModernAttempt, hkey _ h.intentId, hkey _ h.attemptId,
      hinteger _ h.dispatchEpoch]
  have hid : recordIntentId i active entry = r.intentId := recordIntentId_eq hintent hfree
  rw [hentry, normalizeEntry, normalizeRecord]
  simp only [htuple, hid, hintent, Option.any_some, hfree, decide_false, Option.filter_some,
    decide_true, if_true]
  simp only [InFlightSteerRecord.persisted, PersistedInFlightSteer.record.injEq] at hentry
  subst hentry
  simp only [PersistedRecord.ledgerText, PersistedRecord.ledgerPromptId, hkey _ h.text,
    hkey _ h.promptId, hinteger _ h.sequence, hinteger _ h.createdAt, hoption, hguard, hsource,
    hvalid, Option.getD_some, Option.isSome_some, if_true, Bool.false_eq_true, if_false]

/-- Settled records with different intent ids are reread as they are. -/
theorem normalizeFrom_persisted {records : List (InFlightSteerRecord π)}
    (hsettled : ∀ r ∈ records, Settled r) (hfree : ∀ r ∈ records, r.intentId ∉ active)
    (hnodup : (records.map (·.intentId)).Nodup) :
    (normalizeFrom i active (records.map (·.persisted))).map Prod.snd = records := by
  induction records generalizing i active with
  | nil => rfl
  | cons r rest ih =>
    rw [List.map_cons, normalizeFrom, normalizeEntry_persisted (hsettled r List.mem_cons_self)
      (hfree r List.mem_cons_self)]
    rw [List.map_cons, List.nodup_cons] at hnodup
    refine congrArg (r :: ·) (ih ?_ ?_ hnodup.2)
    · exact fun q hq => hsettled q (List.mem_cons_of_mem _ hq)
    · intro q hq hmem
      rcases List.mem_cons.mp hmem with heq | hmem
      · exact hnodup.1 (heq ▸ List.mem_map_of_mem hq)
      · exact hfree q (List.mem_cons_of_mem _ hq) hmem

end Bobbit.Spec.InFlightLedger
