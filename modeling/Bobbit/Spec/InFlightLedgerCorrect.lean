import Bobbit.Spec.InFlightLedger

/-!
# What a reread ledger keeps

A persisted ledger is normalized at every read. It comes out stable, with one record for each
intent id, and a complete attempt keeps its tuple. Two things depend on what was persisted: a legacy
string gets the id of its position, and is dropped when an earlier record goes by that id; and an
attempt id is taken over without a look at the others.

## Key results
- `mem_active_legacy_iff`: which earlier records go by the id of a position.
- `normalizesWell_iff`: exactly the ledgers without these two conflicts lose nothing.
-/

namespace Bobbit.Spec.InFlightLedger

open Bobbit.Lib Bobbit.Server Bobbit.Server.InFlightSteers

variable {π : Type} {entries : List (PersistedInFlightSteer π)}

/-! ## What is asked of the result -/

/-- A persisted ledger; an array has fewer than `2 ^ 32` elements. -/
structure PersistedLedger (π : Type) where
  entries : List (PersistedInFlightSteer π)
  length_lt : entries.length < 2 ^ 32

/-- The records of the result, each with the position of the entry it was made of. -/
def kept (entries : List (PersistedInFlightSteer π)) : List (Nat × InFlightSteerRecord π) :=
  normalizeFrom 0 [] entries

/-- A ledger as a gateway reads it, when nothing is lost. -/
structure NormalizesWell (entries : List (PersistedInFlightSteer π)) : Prop where
  /-- a normalized ledger is normalized to itself -/
  stable : normalizePersistedInFlightSteers
      ((normalizePersistedInFlightSteers (some entries)).map fun records =>
        records.map (·.persisted)) = normalizePersistedInFlightSteers (some entries)
  intentIds : (((normalizePersistedInFlightSteers (some entries)).getD []).map (·.intentId)).Nodup
  attemptIds : (((normalizePersistedInFlightSteers (some entries)).getD []).map (·.attemptId)).Nodup
  /-- a complete attempt keeps its intent and attempt id, its epoch and its state -/
  modern : ∀ p ∈ kept entries, ∀ entry, entries[p.1]? = some entry →
    ∀ x a epoch, modernTuple entry = some (x, a, epoch) →
      p.2.intentId = x ∧ p.2.attemptId = a ∧ p.2.dispatchEpoch = epoch ∧
        p.2.state = (entryState entry).getD .uncertain
  /-- an entry without an intent id of its own is kept for its text -/
  legacy : ∀ k entry, entries[k]? = some entry → ∀ text, entryText entry = some text →
    explicitIntentId entry = none → ∃ r, (k, r) ∈ kept entries ∧ r.text = text
  /-- only the repetition of an intent id is dropped -/
  dropped : ∀ k entry, entries[k]? = some entry → ∀ text, entryText entry = some text →
    (∀ r, (k, r) ∉ kept entries) → ∃ x, explicitIntentId entry = some x ∧
      ∃ p ∈ kept entries, p.1 < k ∧ p.2.intentId = x

/-! ## The condition -/

/-- An entry goes by the id that a legacy string has at a position: its intent id is that one, or
it has none and its prompt id is the number of the position. -/
def TakesPosition (k : Nat) : PersistedInFlightSteer π → Prop
  | .legacy _ => False
  | .record entry => entry.ledgerText.isSome ∧
      (validLedgerKey entry.intentId = some (legacyIntentId (numberText k)) ∨
        (validLedgerKey entry.intentId = none ∧
          validLedgerKey entry.promptId = some (numberText k)))

/-- The entry of a turn has a text, and no intent id of its own that is in use. -/
def Turn.Fresh (t : Turn π) : Prop :=
  (entryText t.entry).isSome ∧ ∀ x, explicitIntentId t.entry = some x → x ∉ t.active

/-- The intent id that an entry gets at its turn. -/
def Turn.intentId (t : Turn π) : JsString :=
  match t.entry with
  | .legacy _ => legacyIntentId (numberText t.index)
  | .record entry => recordIntentId t.index t.active entry

/-- The attempt id that an entry gets at its turn. -/
def Turn.attemptId (t : Turn π) : JsString :=
  match modernTuple t.entry with
  | some tuple => tuple.2.1
  | none => legacyAttemptId t.intentId

/-- Neither of the two conflicts: no record goes by the id of a later legacy string's position, and
no complete attempt has the attempt id of another entry. -/
structure Unambiguous (entries : List (PersistedInFlightSteer π)) : Prop where
  positions : ∀ k text, entries[k]? = some (.legacy text) → text ≠ [] →
    ∀ j < k, ∀ entry, entries[j]? = some entry → ¬ TakesPosition k entry
  attempts : ∀ t ∈ turns entries, ∀ u ∈ turns entries, t.index ≠ u.index → t.Fresh → u.Fresh →
    (modernTuple t.entry).isSome → t.attemptId ≠ u.attemptId

/-! ## The ids of positions -/

variable {t : Turn π}

theorem active_mono {u : Turn π} (ht : t ∈ turns entries) (hu : u ∈ turns entries)
    (hlt : u.index < t.index) {x : JsString} (hx : x ∈ u.active) : x ∈ t.active := by
  obtain hnil | ⟨v, hv, hvlt, hr⟩ := (mem_active_iff hu).mp hx
  · cases hnil
  · exact (mem_active_iff ht).mpr (.inr ⟨v, hv, by omega, hr⟩)

theorem numberedIntentId_eq_legacy {key : JsString} {n k : Nat}
    (h : numberedIntentId (legacyIntentId key) n = legacyIntentId (numberText k)) :
    n = 0 ∧ key = numberText k := by
  cases n with
  | zero => exact ⟨rfl, List.append_cancel_left h⟩
  | succ n =>
    -- a number has no colon
    simp only [numberedIntentId, legacyIntentId, List.append_assoc] at h
    have hkey : key ++ (js ":" ++ numberText (n + 1)) = numberText k := List.append_cancel_left h
    have hcolon : (0x3A : UInt16) ∈ numberText k := by
      rw [← hkey]
      exact List.mem_append_right _ (List.mem_append_left _ (by decide))
    exact absurd (digit_of_mem_numberText hcolon).2 (by decide)

theorem legacyIntentId_ne_numberText (key : JsString) (k : Nat) :
    legacyIntentId key ≠ numberText k := by
  intro h
  have hletter : (0x6C : UInt16) ∈ numberText k := by
    rw [← h]
    exact List.mem_append_left _ (by decide)
  exact absurd (digit_of_mem_numberText hletter).2 (by decide)

/-- An entry that takes a position gets its id at its turn, unless it is in use already. -/
theorem record_of_takesPosition {u : Turn π} {k : Nat} (h : TakesPosition k u.entry)
    (hfree : legacyIntentId (numberText k) ∉ u.active) :
    ∃ r, u.record = some r ∧ r.intentId = legacyIntentId (numberText k) := by
  obtain ⟨index, active, entry⟩ := u
  cases entry with
  | legacy text => exact absurd h id
  | record entry =>
    obtain ⟨htext, hid⟩ := h
    simp only at hfree
    cases hrecord : normalizeEntry index active (.record entry) with
    | none =>
      exfalso
      obtain hnone | ⟨x, hx, hmem⟩ | ⟨⟨text, hlegacy⟩, -⟩ := normalizeEntry_eq_none_iff.mp hrecord
      · rw [entryText] at hnone
        rw [hnone] at htext
        cases htext
      · rw [explicitIntentId] at hx
        rcases hid with hid | ⟨hid, -⟩
        · rw [hid] at hx
          cases hx
          exact hfree hmem
        · rw [hid] at hx
          cases hx
      · cases hlegacy
    | some r =>
      refine ⟨r, hrecord, ?_⟩
      rcases hid with hid | ⟨hid, hprompt⟩
      · exact (normalizeEntry_some hrecord).2.2.1 _ hid
      · -- the id made of the prompt id is the first one that is tried
        have hbase : recordIntentId index active entry = legacyIntentId (numberText k) := by
          rw [recordIntentId, hid, Option.getD_none, PersistedRecord.ledgerPromptId, hprompt,
            Option.getD_some]
          exact firstFree_eq_zero hfree
        rw [← hbase]
        exact intentId_of_record hrecord

/-- Before the turn of a position, its id is in use exactly when an earlier entry takes it. -/
theorem mem_active_legacy_iff (ht : t ∈ turns entries) :
    legacyIntentId (numberText t.index) ∈ t.active ↔
      ∃ j < t.index, ∃ entry, entries[j]? = some entry ∧ TakesPosition t.index entry := by
  constructor
  · intro hmem
    obtain hnil | ⟨u, hu, hlt, r, hr, hx⟩ := (mem_active_iff ht).mp hmem
    · cases hnil
    obtain ⟨j, hj, hget⟩ := getElem?_of_mem_turnsFrom hu
    refine ⟨u.index, hlt, u.entry, ?_, ?_⟩
    · rw [← hget]
      congr 1
      omega
    rw [Turn.record] at hr
    obtain ⟨htext, -, hown, -⟩ := normalizeEntry_some hr
    cases hentry : u.entry with
    | legacy text =>
      -- another position has another id
      have hid := intentId_of_legacy (hentry ▸ hr)
      rw [hx] at hid
      have := numberText_inj (List.append_cancel_left hid)
      omega
    | record entry =>
      rw [hentry] at htext hown hr
      refine ⟨by rw [← show entryText (.record entry) = entry.ledgerText from rfl, htext]; rfl, ?_⟩
      cases hexplicit : validLedgerKey entry.intentId with
      | some x => exact .inl (by rw [← hx, hown x hexplicit])
      | none =>
        right
        refine ⟨rfl, ?_⟩
        have hid := intentId_of_record hr
        obtain ⟨n, hn⟩ := exists_firstFree_eq (numberedIntentId (legacyIntentId
          (entry.ledgerPromptId u.index))) u.active
        rw [recordIntentId, hexplicit, Option.getD_none, hn, hx] at hid
        obtain ⟨-, hkey⟩ := numberedIntentId_eq_legacy hid.symm
        rw [PersistedRecord.ledgerPromptId] at hkey
        cases hprompt : validLedgerKey entry.promptId with
        | none =>
          rw [hprompt] at hkey
          exact absurd hkey (legacyIntentId_ne_numberText _ _)
        | some key =>
          rw [hprompt] at hkey
          exact congrArg some hkey
  · rintro ⟨j, hlt, entry, hget, htakes⟩
    obtain ⟨u, hu, hindex, rfl⟩ := @exists_turn π 0 [] entries j entry hget
    have hult : u.index < t.index := by omega
    by_cases hfree : legacyIntentId (numberText t.index) ∈ u.active
    · exact active_mono ht hu hult hfree
    · obtain ⟨r, hr, hid⟩ := record_of_takesPosition htakes hfree
      exact (mem_active_iff ht).mpr (.inr ⟨u, hu, hult, r, hr, hid⟩)

/-! ## Turns without a conflict -/

theorem getElem?_turn (ht : t ∈ turns entries) : entries[t.index]? = some t.entry := by
  obtain ⟨k, hk, hget⟩ := getElem?_of_mem_turnsFrom ht
  rw [← hget]
  congr 1
  omega

/-- A turn that makes a record has a fresh entry, and the record has the ids of the turn. -/
theorem turn_of_record {r : InFlightSteerRecord π} (hr : t.record = some r) :
    t.Fresh ∧ r.intentId = t.intentId ∧ r.attemptId = t.attemptId := by
  rw [Turn.record] at hr
  obtain ⟨htext, hnew, hown, htuple, hminted⟩ := normalizeEntry_some hr
  have hid : r.intentId = t.intentId := by
    rw [Turn.intentId]
    cases hentry : t.entry with
    | legacy text =>
      rw [hentry] at hr
      exact intentId_of_legacy hr
    | record entry =>
      rw [hentry] at hr
      exact intentId_of_record hr
  refine ⟨⟨by rw [htext]; rfl, fun x hx => hown x hx ▸ hnew⟩, hid, ?_⟩
  rw [Turn.attemptId]
  cases hmodern : modernTuple t.entry with
  | none => rw [hminted hmodern, hid]
  | some tuple => exact (htuple tuple.1 tuple.2.1 tuple.2.2 hmodern).1

/-- A fresh entry is kept, unless it is a legacy string and an earlier record has its id. -/
theorem record_of_fresh (ht : t ∈ turns entries) (hfresh : t.Fresh)
    (hpositions : ∀ k text, entries[k]? = some (.legacy text) → text ≠ [] →
      ∀ j < k, ∀ entry, entries[j]? = some entry → ¬ TakesPosition k entry) :
    ∃ r, t.record = some r := by
  obtain ⟨htext, hown⟩ := hfresh
  cases hrecord : t.record with
  | some r => exact ⟨r, rfl⟩
  | none =>
    exfalso
    obtain hnone | ⟨x, hx, hmem⟩ | ⟨⟨text, hlegacy⟩, hmem⟩ := normalizeEntry_eq_none_iff.mp hrecord
    · rw [hnone] at htext
      cases htext
    · exact hown x hx hmem
    · have hne : text ≠ [] := by
        rintro rfl
        rw [hlegacy] at htext
        simp [entryText] at htext
      obtain ⟨j, hj, entry, hget, htakes⟩ := (mem_active_legacy_iff ht).mp hmem
      exact hpositions t.index text (hlegacy ▸ getElem?_turn ht) hne j hj entry hget htakes

theorem mem_kept_of_record (ht : t ∈ turns entries) {r : InFlightSteerRecord π}
    (hr : t.record = some r) : (t.index, r) ∈ kept entries :=
  mem_normalizeFrom_iff.mpr ⟨t, ht, rfl, hr⟩

theorem getD_normalize : (normalizePersistedInFlightSteers (some entries)).getD [] =
    (kept entries).map Prod.snd := by
  rw [normalizePersistedInFlightSteers, kept]
  split
  · rename_i hempty
    rw [List.isEmpty_iff.mp hempty, Option.getD_none]
  · rfl

/-! ## What holds of every ledger -/

theorem normalize_stable (ledger : PersistedLedger π) :
    normalizePersistedInFlightSteers
      ((normalizePersistedInFlightSteers (some ledger.entries)).map fun records =>
        records.map (·.persisted)) = normalizePersistedInFlightSteers (some ledger.entries) := by
  have hreread : (normalizeFrom 0 [] (((kept ledger.entries).map Prod.snd).map
      (·.persisted))).map Prod.snd = (kept ledger.entries).map Prod.snd := by
    refine normalizeFrom_persisted ?_ (fun _ _ => List.not_mem_nil) ?_
    · intro r hr
      obtain ⟨p, hp, rfl⟩ := List.mem_map.mp hr
      obtain ⟨t, ht, hindex, hrecord⟩ := mem_normalizeFrom_iff.mp hp
      have hlt : t.index < ledger.entries.length :=
        (List.getElem?_eq_some_iff.mp (getElem?_turn ht)).1
      have hlength := ledger.length_lt
      exact settled_of_normalizeEntry (by rw [maxSafeInteger]; omega) hrecord
    · rw [List.map_map]
      exact nodup_intentIds
  rw [normalizePersistedInFlightSteers, ← kept]
  split
  · rfl
  · rename_i hempty
    rw [Option.map_some, normalizePersistedInFlightSteers]
    simp only [hreread]
    rw [if_neg hempty]

/-- **No intent id comes twice**, and a complete attempt that is kept keeps its tuple. -/
theorem modern_kept {p : Nat × InFlightSteerRecord π} (hp : p ∈ kept entries)
    {entry : PersistedInFlightSteer π} (hget : entries[p.1]? = some entry) {x a : JsString}
    {epoch : Nat} (htuple : modernTuple entry = some (x, a, epoch)) :
    p.2.intentId = x ∧ p.2.attemptId = a ∧ p.2.dispatchEpoch = epoch ∧
      p.2.state = (entryState entry).getD .uncertain := by
  obtain ⟨t, ht, hindex, hrecord⟩ := mem_normalizeFrom_iff.mp hp
  have hentry := getElem?_turn ht
  rw [hindex, hget] at hentry
  cases hentry
  obtain ⟨-, -, hown, hmodern, -⟩ := normalizeEntry_some hrecord
  exact ⟨hown x (explicitIntentId_of_modernTuple htuple), hmodern x a epoch htuple⟩

/-! ## The result -/

theorem legacyAttemptId_inj {x y : JsString} (h : legacyAttemptId x = legacyAttemptId y) : x = y :=
  List.append_cancel_left h

theorem nodup_attemptIds (h : Unambiguous entries) :
    (((kept entries).map Prod.snd).map (·.attemptId)).Nodup := by
  rw [List.map_map, List.nodup_iff_pairwise_ne, List.pairwise_map]
  refine List.Pairwise.imp_of_mem ?_ pairwise_normalizeFrom
  intro p q hp hq hlt heq
  obtain ⟨t, ht, htindex, htrecord⟩ := mem_normalizeFrom_iff.mp hp
  obtain ⟨u, hu, huindex, hurecord⟩ := mem_normalizeFrom_iff.mp hq
  obtain ⟨htfresh, htid, htattempt⟩ := turn_of_record htrecord
  obtain ⟨hufresh, huid, huattempt⟩ := turn_of_record hurecord
  simp only [Function.comp_apply] at heq
  rw [htattempt, huattempt] at heq
  cases htmodern : modernTuple t.entry with
  | some tuple =>
    exact h.attempts t ht u hu (by omega) htfresh hufresh (by rw [htmodern]; rfl) heq
  | none =>
    cases humodern : modernTuple u.entry with
    | some tuple =>
      exact h.attempts u hu t ht (by omega) hufresh htfresh (by rw [humodern]; rfl) heq.symm
    | none =>
      -- both attempt ids are made of the intent ids, which are different
      rw [Turn.attemptId, htmodern, Turn.attemptId, humodern] at heq
      have hids := legacyAttemptId_inj heq
      rw [← htid, ← huid] at hids
      exact intentId_ne_of_lt hp hq hlt hids

/-- **The ledger.** Normalization is stable, gives every record an intent and an attempt id of its
own, keeps complete attempts and legacy entries and drops repetitions only, exactly when no legacy
string stands at a position whose id is taken and no complete attempt has another one's id. -/
theorem normalizesWell_iff (ledger : PersistedLedger π) :
    NormalizesWell ledger.entries ↔ Unambiguous ledger.entries := by
  constructor
  · intro h
    have hpositions : ∀ k text, ledger.entries[k]? = some (.legacy text) → text ≠ [] →
        ∀ j < k, ∀ entry, ledger.entries[j]? = some entry → ¬ TakesPosition k entry := by
      intro k text hget hne j hj entry hentry htakes
      obtain ⟨t, ht, hindex, hlegacy⟩ := @exists_turn π 0 [] ledger.entries k _ hget
      obtain rfl : t.index = k := by omega
      have hmem := (mem_active_legacy_iff ht).mpr ⟨j, hj, entry, hentry, htakes⟩
      have hnone : t.record = none :=
        normalizeEntry_eq_none_iff.mpr (.inr (.inr ⟨⟨text, hlegacy⟩, hmem⟩))
      obtain ⟨r, hr, -⟩ := h.legacy t.index _ hget text (if_neg hne) rfl
      obtain ⟨u, hu, huindex, hurecord⟩ := mem_normalizeFrom_iff.mp hr
      rw [turn_eq_of_index hu ht huindex, hnone] at hurecord
      cases hurecord
    refine ⟨hpositions, ?_⟩
    intro t ht u hu hne htfresh hufresh _ heq
    obtain ⟨r, hr⟩ := record_of_fresh ht htfresh hpositions
    obtain ⟨r', hr'⟩ := record_of_fresh hu hufresh hpositions
    have hattempts := h.attemptIds
    rw [getD_normalize, List.map_map] at hattempts
    have hsame : (t.index, r) = (u.index, r') := by
      refine List.inj_on_of_nodup_map hattempts (mem_kept_of_record ht hr)
        (mem_kept_of_record hu hr') ?_
      rw [Function.comp_apply, Function.comp_apply, (turn_of_record hr).2.2,
        (turn_of_record hr').2.2, heq]
    exact hne (congrArg Prod.fst hsame)
  · intro h
    refine ⟨normalize_stable ledger, ?_, ?_, ?_, ?_, ?_⟩
    · rw [getD_normalize, List.map_map]
      exact nodup_intentIds
    · rw [getD_normalize]
      exact nodup_attemptIds h
    · intro p hp entry hget x a epoch htuple
      exact modern_kept hp hget htuple
    · intro k entry hget text htext hown
      obtain ⟨t, ht, hindex, rfl⟩ := @exists_turn π 0 [] ledger.entries k _ hget
      obtain rfl : t.index = k := by omega
      have hfresh : t.Fresh := ⟨by rw [htext]; rfl, fun x hx => by rw [hown] at hx; cases hx⟩
      obtain ⟨r, hr⟩ := record_of_fresh ht hfresh h.positions
      refine ⟨r, mem_kept_of_record ht hr, ?_⟩
      have hrtext := (normalizeEntry_some hr).1
      rw [htext] at hrtext
      exact (Option.some.inj hrtext).symm
    · intro k entry hget text htext hdropped
      obtain ⟨t, ht, hindex, rfl⟩ := @exists_turn π 0 [] ledger.entries k _ hget
      obtain rfl : t.index = k := by omega
      have hstale : ¬ t.Fresh := by
        intro hfresh
        obtain ⟨r, hr⟩ := record_of_fresh ht hfresh h.positions
        exact hdropped r (mem_kept_of_record ht hr)
      have hown : ∃ x, explicitIntentId t.entry = some x ∧ x ∈ t.active := by
        by_contra hnone
        refine hstale ⟨by rw [htext]; rfl, fun x hx hmem => hnone ⟨x, hx, hmem⟩⟩
      obtain ⟨x, hx, hmem⟩ := hown
      obtain hnil | ⟨u, hu, hlt, r, hr, hid⟩ := (mem_active_iff ht).mp hmem
      · cases hnil
      · exact ⟨x, hx, (u.index, r), mem_kept_of_record hu hr, hlt, hid⟩

/-! ## One ledger -/

namespace Examples

/-- A record that came from a legacy string at position 1 of an earlier ledger. -/
def upgraded : PersistedRecord Unit where
  text := .valid (js "first")
  displayText := .absent
  promptId := .valid (js "legacy-inflight-steer:1")
  intentId := .valid (js "legacy-inflight-steer:1")
  attemptId := .valid (js "attempt:legacy-inflight:legacy-inflight-steer:1")
  dispatchEpoch := .valid 1
  state := .valid .uncertain
  targetTurn := .valid .continuation
  sequence := .valid 2
  kind := .valid .steer
  createdAt := .valid 1
  retryable := .valid false
  source := .valid .user
  author := .valid localUserAuthor
  images := .absent
  attachments := .absent
  suppressTitleGen := false
  goalDispatchGuardId := .absent

/-- The upgraded record is alone now, and an older version has appended a string to it. -/
def reused : PersistedLedger Unit := ⟨[.record upgraded, .legacy (js "second")], by decide⟩

end Examples

/-- The string at position 1 is lost: the record in front goes by the id of that position. -/
theorem legacy_string_lost : ¬ NormalizesWell Examples.reused.entries := by
  intro h
  have hpositions : (kept Examples.reused.entries).map Prod.fst = [0] := by decide +kernel
  obtain ⟨r, hr, -⟩ := h.legacy 1 (.legacy (js "second")) rfl (js "second") (by decide) rfl
  have hone : 1 ∈ (kept Examples.reused.entries).map Prod.fst := List.mem_map_of_mem hr
  rw [hpositions] at hone
  exact absurd hone (by decide)

end Bobbit.Spec.InFlightLedger
