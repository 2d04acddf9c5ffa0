import Bobbit.Lib.Run
import Bobbit.Server.WritePermit

/-!
# Write permits are one-time and bound to their content

A permit leaves the map when it is used, when it expires and when it is the oldest of a full map. So
a nonce is good at most once, for what it was minted for, and until one of these has happened.

## Key results
- `consumeWritePermit_cases`: what a consume does to the map
- `LedgerInv.step`: every use goes back to a mint of its nonce, and no used nonce is left
- `Kept.step`: a permit in the map stands before no more permits than were minted after it
- `permits_correct`: the uses of a run, and the permits that are still good
-/

namespace Bobbit.Server.WritePermit

open Bobbit.Lib

/-! ## The calls -/

theorem dropOldest_sublist (permits : Permits) : (dropOldest permits).Sublist permits := by
  unfold dropOldest
  split
  · split
    · exact List.filter_sublist
    · exact List.Sublist.refl _
  · exact List.Sublist.refl _

theorem pruneExpired_sublist (permits : Permits) (now : Rat) :
    (pruneExpired permits now).Sublist permits :=
  List.filter_sublist

/-- A consume succeeds with an unused permit of the same binding, in time, and takes it; otherwise it
    takes nothing, or a permit that is not good any more. -/
theorem consumeWritePermit_cases (permits : Permits) (nonce : String)
    (binding : WritePermitBinding) (now : Rat) :
    (∃ p, JsMap.get? permits nonce = some p ∧ p.consumed = false ∧ now ≤ p.expiresAt ∧
        p.binding = binding ∧
        consumeWritePermit permits nonce binding now = (true, JsMap.erase permits nonce)) ∨
    consumeWritePermit permits nonce binding now = (false, permits) ∨
    (∃ p, JsMap.get? permits nonce = some p ∧ (p.consumed = true ∨ p.expiresAt < now) ∧
        consumeWritePermit permits nonce binding now = (false, JsMap.erase permits nonce)) := by
  unfold consumeWritePermit
  split
  · exact .inr (.inl rfl)
  · cases hget : JsMap.get? permits nonce with
    | none => exact .inr (.inl rfl)
    | some p =>
      simp only
      split
      · rename_i hconsumed
        exact .inr (.inr ⟨p, rfl, .inl hconsumed, rfl⟩)
      · rename_i hconsumed
        split
        · rename_i hlate
          exact .inr (.inr ⟨p, rfl, .inr hlate, rfl⟩)
        · rename_i hlate
          split
          · exact .inr (.inl rfl)
          · rename_i hbinding
            exact .inl ⟨p, rfl, by simpa using hconsumed, not_lt.mp hlate,
              not_not.mp hbinding, rfl⟩

variable {permits : Permits} {nonce : String} {p : StoredPermit}

/-- A permit in the map is good for its binding until it expires. -/
theorem consumeWritePermit_good
    {now : Rat} (hnonce : nonce ≠ "") (hget : JsMap.get? permits nonce = some p)
    (hconsumed : p.consumed = false) (hnow : now ≤ p.expiresAt) :
    (consumeWritePermit permits nonce p.binding now).1 = true := by
  unfold consumeWritePermit
  rw [if_neg (by simpa using hnonce), hget]
  simp [hconsumed, not_lt.mpr hnow]

variable {binding : WritePermitBinding}

/-- A consume with another binding leaves an unexpired permit where it is. -/
theorem consumeWritePermit_mismatch {now : Rat} (hget : JsMap.get? permits nonce = some p)
    (hconsumed : p.consumed = false) (hnow : now ≤ p.expiresAt) (hbinding : p.binding ≠ binding) :
    consumeWritePermit permits nonce binding now = (false, permits) := by
  unfold consumeWritePermit
  split
  · rfl
  · rw [hget]
    simp [hconsumed, not_lt.mpr hnow, hbinding]

/-! ## Uses -/

def mintedNonces (events : List Event) : List String := events.filterMap Event.minted

/-- Every mint of the run draws a new nonce, and none is empty. -/
def FreshNonces (events : List Event) : Prop :=
  (mintedNonces events).Nodup ∧ "" ∉ mintedNonces events

def ClockForward (events : List Event) : Prop := events.Pairwise fun a b => a.time ≤ b.time

/-- The run has minted a permit with this nonce, binding and expiry. -/
def Minted (events : List Event) (nonce : String) (binding : WritePermitBinding)
    (expiresAt : Rat) : Prop :=
  ∃ ttlMs now, Event.mint binding ttlMs now nonce ∈ events ∧ expiresAt = now + lifetime ttlMs

variable {events : List Event}

theorem Minted.concat {expiresAt : Rat} (h : Minted events nonce binding expiresAt) (e : Event) :
    Minted (events ++ [e]) nonce binding expiresAt := by
  obtain ⟨ttlMs, now, hmem, heq⟩ := h
  exact ⟨ttlMs, now, List.mem_append_left _ hmem, heq⟩

theorem Minted.mem
    {expiresAt : Rat} (h : Minted events nonce binding expiresAt) : nonce ∈ mintedNonces events := by
  obtain ⟨ttlMs, now, hmem, -⟩ := h
  exact List.mem_filterMap.mpr ⟨_, hmem, rfl⟩

/-- What holds of the permits and the uses of a run. -/
structure LedgerInv (events : List Event) (s : Ledger) : Prop where
  /-- The nonces of the map are different. -/
  keys : (s.permits.map (·.1)).Nodup
  /-- A permit in the map was minted and not used. -/
  stored : ∀ entry ∈ s.permits, entry.2.consumed = false ∧
    Minted events entry.1 entry.2.binding entry.2.expiresAt ∧ entry.1 ∉ s.uses.map Use.nonce
  /-- A used nonce was minted for this use, and used in time. -/
  used : ∀ u ∈ s.uses, ∃ expiresAt, Minted events u.nonce u.binding expiresAt ∧ u.now ≤ expiresAt
  /-- No nonce is used twice. -/
  once : (s.uses.map Use.nonce).Nodup

theorem ledgerInv_empty : LedgerInv [] empty where
  keys := List.nodup_nil
  stored := fun _ h => by cases h
  used := fun _ h => by cases h
  once := List.nodup_nil

variable {s : Ledger}

theorem LedgerInv.sublist (h : LedgerInv events s) (hsub : permits.Sublist s.permits) :
    LedgerInv events { s with permits := permits } where
  keys := h.keys.sublist (hsub.map _)
  stored := fun entry hentry => h.stored entry (hsub.subset hentry)
  used := h.used
  once := h.once

theorem LedgerInv.concat (h : LedgerInv events s) (e : Event) : LedgerInv (events ++ [e]) s where
  keys := h.keys
  stored := fun entry hentry =>
    have ⟨hconsumed, hminted, hunused⟩ := h.stored entry hentry
    ⟨hconsumed, hminted.concat e, hunused⟩
  used := fun u hu =>
    have ⟨expiresAt, hminted, hnow⟩ := h.used u hu
    ⟨expiresAt, hminted.concat e, hnow⟩
  once := h.once

/-- Every call keeps the invariant, where a mint draws a new nonce. -/
theorem LedgerInv.step (h : LedgerInv events s) (e : Event)
    (hfresh : ∀ nonce, e.minted = some nonce → nonce ∉ mintedNonces events) :
    LedgerInv (events ++ [e]) (step s e) := by
  cases e with
  | mint binding ttlMs now nonce =>
    have hnew := hfresh nonce rfl
    have hleft : (dropOldest (pruneExpired s.permits now)).Sublist s.permits :=
      (dropOldest_sublist _).trans (pruneExpired_sublist _ _)
    have hkept := (h.sublist hleft).concat (.mint binding ttlMs now nonce)
    refine ⟨JsMap.nodup_set hkept.keys _ _, ?_, hkept.used, hkept.once⟩
    intro entry hentry
    rcases JsMap.mem_set hentry with rfl | hentry
    · refine ⟨rfl, ⟨ttlMs, now, by simp, rfl⟩, ?_⟩
      -- a used nonce was minted before
      intro hused
      obtain ⟨u, hu, hnonce⟩ := List.mem_map.mp hused
      obtain ⟨expiresAt, hminted, -⟩ := h.used u hu
      have hsame : u.nonce = nonce := hnonce
      rw [hsame] at hminted
      exact hnew hminted.mem
    · exact hkept.stored entry hentry
  | consume nonce binding now =>
    have hkept := h.concat (.consume nonce binding now)
    have herased : (JsMap.erase s.permits nonce).Sublist s.permits := List.filter_sublist
    rcases consumeWritePermit_cases s.permits nonce binding now with
      ⟨p, hget, -, hnow, hbinding, heq⟩ | heq | ⟨p, -, -, heq⟩
    · have hstored := hkept.stored _ (JsMap.mem_of_get? hget)
      simp only [WritePermit.step, heq, if_true]
      refine ⟨hkept.keys.sublist (herased.map _), ?_, ?_, ?_⟩
      · intro entry hentry
        obtain ⟨hconsumed, hminted, hunused⟩ := hkept.stored entry (herased.subset hentry)
        refine ⟨hconsumed, hminted, ?_⟩
        have hne : entry.1 ≠ nonce := by simpa using (List.mem_filter.mp hentry).2
        simp only [List.map_append, List.map_cons, List.map_nil, List.mem_append,
          List.mem_singleton, not_or]
        exact ⟨hunused, hne⟩
      · intro u hu
        rcases List.mem_append.mp hu with hu | hu
        · exact hkept.used u hu
        · rw [List.mem_singleton.mp hu]
          exact ⟨p.expiresAt, hbinding ▸ hstored.2.1, hnow⟩
      · rw [List.map_append, List.map_cons, List.map_nil, List.nodup_append]
        refine ⟨hkept.once, by simp, ?_⟩
        intro used hused other hother heq
        rw [List.mem_singleton.mp hother] at heq
        have hsame : used = nonce := heq
        rw [hsame] at hused
        exact hstored.2.2 hused
    · simp only [WritePermit.step, heq, Bool.false_eq_true, if_false]
      exact hkept
    · simp only [WritePermit.step, heq, Bool.false_eq_true, if_false]
      exact hkept.sublist herased

/-! ## Permits that are still good -/

/-- The permit stands in the map, with at most this many after it. -/
def Kept (permits : Permits) (nonce : String) (p : StoredPermit) (k : Nat) : Prop :=
  ∃ older newer, permits = older ++ (nonce, p) :: newer ∧ newer.length ≤ k

variable {k : Nat}

theorem Kept.filter
    (h : Kept permits nonce p k) {q : String × StoredPermit → Bool} (hq : q (nonce, p) = true) :
    Kept (permits.filter q) nonce p k := by
  obtain ⟨older, newer, rfl, hlen⟩ := h
  refine ⟨older.filter q, newer.filter q, ?_, ?_⟩
  · rw [List.filter_append, List.filter_cons_of_pos hq]
  · have hle := List.length_filter_le q newer
    omega

theorem Kept.erase (h : Kept permits nonce p k) {other : String} (hne : nonce ≠ other) :
    Kept (JsMap.erase permits other) nonce p k :=
  h.filter (by simpa using hne)

theorem Kept.get? (h : Kept permits nonce p k) (hnodup : (permits.map (·.1)).Nodup) :
    JsMap.get? permits nonce = some p := by
  obtain ⟨older, newer, rfl, -⟩ := h
  exact JsMap.get?_of_mem hnodup (by simp)

/-- The permit is not the oldest of a full map while fewer than the cap stand behind it. -/
theorem Kept.dropOldest
    (h : Kept permits nonce p k) (hnodup : (permits.map (·.1)).Nodup) (hk : k + 1 < maxLivePermits) :
    Kept (dropOldest permits) nonce p k := by
  unfold WritePermit.dropOldest
  split
  · rename_i hfull
    split
    · rename_i oldest holdest
      apply h.erase
      obtain ⟨older, newer, rfl, hlen⟩ := h
      intro heq
      cases older with
      | nil =>
        -- the permit would be the oldest of a full map
        rw [List.nil_append, List.length_cons] at hfull
        omega
      | cons first rest =>
        have hfirst : first = oldest := by simpa using holdest
        rw [List.cons_append, List.map_cons, List.nodup_cons] at hnodup
        apply hnodup.1
        rw [hfirst, ← heq]
        simp
    · exact h
  · exact h

/-- A mint with a new nonce appends its permit to those that are left. -/
theorem mintWritePermit_eq (binding : WritePermitBinding)
    (ttlMs : Option Rat) (now : Rat) (hnew : nonce ∉ permits.map (·.1)) :
    mintWritePermit permits binding ttlMs now nonce =
      dropOldest (pruneExpired permits now) ++
        [(nonce, ⟨binding, now + lifetime ttlMs, false⟩)] := by
  have hsub := (dropOldest_sublist (pruneExpired permits now)).trans (pruneExpired_sublist _ _)
  have hleft : nonce ∉ (dropOldest (pruneExpired permits now)).map (·.1) :=
    fun hmem => hnew ((hsub.map _).subset hmem)
  unfold mintWritePermit JsMap.set
  rw [if_neg]
  intro hany
  obtain ⟨entry, hentry, hkey⟩ := List.any_eq_true.mp hany
  exact hleft (List.mem_map.mpr ⟨entry, hentry, by simpa using hkey⟩)

/-- A later mint leaves the permit, with one more behind it. -/
theorem Kept.mint
    (h : Kept permits nonce p k) (hnodup : (permits.map (·.1)).Nodup) (hk : k + 1 < maxLivePermits)
    (hconsumed : p.consumed = false) {now : Rat} (hnow : now ≤ p.expiresAt)
    (binding : WritePermitBinding) (ttlMs : Option Rat) {other : String}
    (hnew : other ∉ permits.map (·.1)) :
    Kept (mintWritePermit permits binding ttlMs now other) nonce p (k + 1) := by
  have hpruned : Kept (pruneExpired permits now) nonce p k :=
    h.filter (by simp [hconsumed, not_lt.mpr hnow])
  obtain ⟨older, newer, heq, hlen⟩ :=
    hpruned.dropOldest (hnodup.sublist ((pruneExpired_sublist _ _).map _)) hk
  refine ⟨older, newer ++ [(other, ⟨binding, now + lifetime ttlMs, false⟩)], ?_, ?_⟩
  · rw [mintWritePermit_eq binding ttlMs now hnew, heq]
    simp
  · rw [List.length_append, List.length_singleton]
    omega

def mints (events : List Event) : Nat := events.countP fun e => e.minted.isSome

/-! ## Runs -/

theorem mintedNonces_append (xs ys : List Event) :
    mintedNonces (xs ++ ys) = mintedNonces xs ++ mintedNonces ys :=
  List.filterMap_append

theorem FreshNonces.left {xs ys : List Event} (h : FreshNonces (xs ++ ys)) : FreshNonces xs := by
  rw [FreshNonces, mintedNonces_append] at h
  exact ⟨(List.nodup_append.mp h.1).1, fun hmem => h.2 (List.mem_append_left _ hmem)⟩

/-- The last mint of a run draws a nonce that the run had not. -/
theorem FreshNonces.last {e : Event} (h : FreshNonces (events ++ [e]))
    (hminted : e.minted = some nonce) : nonce ∉ mintedNonces events := by
  have hnodup := h.1
  rw [mintedNonces_append, List.nodup_append] at hnodup
  have hlast : nonce ∈ mintedNonces [e] :=
    List.mem_filterMap.mpr ⟨e, List.mem_singleton_self e, hminted⟩
  exact fun hmem => hnodup.2.2 nonce hmem nonce hlast rfl

theorem FreshNonces.unique (h : FreshNonces events) {a b : Event}
    (ha : a ∈ events) (hb : b ∈ events) (hmintA : a.minted = some nonce)
    (hmintB : b.minted = some nonce) : a = b := by
  have hpair := List.pairwise_filterMap.mp h.1
  by_contra hne
  have hsymm : Std.Symm fun a b : Event =>
      ∀ n, a.minted = some n → ∀ n', b.minted = some n' → n ≠ n' :=
    ⟨fun a b hab n hn n' hn' => (hab n' hn' n hn).symm⟩
  exact hpair.forall ha hb hne nonce hmintA nonce hmintB rfl

theorem ledgerInv_run (h : FreshNonces events) : LedgerInv events (run step empty events) := by
  induction events using List.reverseRecOn with
  | nil => exact ledgerInv_empty
  | append_singleton events e ih =>
    rw [run_concat]
    exact (ih h.left).step e fun nonce hminted => h.last hminted

theorem LedgerInv.notMem (h : LedgerInv events s)
    (hnew : nonce ∉ mintedNonces events) : nonce ∉ s.permits.map (·.1) := by
  intro hmem
  obtain ⟨entry, hentry, rfl⟩ := List.mem_map.mp hmem
  exact hnew (h.stored entry hentry).2.1.mem

theorem uses_step (s : Ledger) (e : Event) {u : Use} (hu : u ∈ s.uses) : u ∈ (step s e).uses := by
  cases e with
  | mint binding ttlMs now nonce => exact hu
  | consume nonce binding now =>
    simp only [step]
    split
    · exact List.mem_append_left _ hu
    · exact hu

/-- **One call.** A permit that is in time and stays unused remains in the map. -/
theorem Kept.step
    (h : Kept s.permits nonce p k) (hinv : LedgerInv events s) (hconsumed : p.consumed = false)
    {e : Event} (htime : e.time ≤ p.expiresAt) (hk : k + mints [e] < maxLivePermits)
    (hfresh : ∀ n, e.minted = some n → n ∉ mintedNonces events)
    (hunused : nonce ∉ (WritePermit.step s e).uses.map Use.nonce) :
    Kept (WritePermit.step s e).permits nonce p (k + mints [e]) := by
  cases e with
  | mint binding ttlMs now other =>
    exact h.mint hinv.keys hk hconsumed htime binding ttlMs (hinv.notMem (hfresh other rfl))
  | consume other binding now =>
    have hget := h.get? hinv.keys
    rcases consumeWritePermit_cases s.permits other binding now with
      ⟨q, -, -, -, -, heq⟩ | heq | ⟨q, hq, hspent, heq⟩
    · -- the use takes another permit
      simp only [WritePermit.step, heq, if_true] at hunused ⊢
      apply h.erase
      intro hsame
      exact hunused (by simp [hsame])
    · simp only [WritePermit.step, heq]
      exact h
    · -- a permit that is gone for good is not this one
      simp only [WritePermit.step, heq]
      apply h.erase
      rintro rfl
      rw [hget] at hq
      obtain rfl := Option.some.inj hq
      rcases hspent with hspent | hspent
      · rw [hconsumed] at hspent
        cases hspent
      · exact absurd htime (not_le.mpr hspent)

theorem mints_append (xs ys : List Event) : mints (xs ++ ys) = mints xs + mints ys :=
  List.countP_append

/-- **Runs.** A minted permit stays in the map while it is in time, unused and followed by fewer
mints than the cap. -/
theorem kept_run {older newer : List Event} {ttlMs : Option Rat}
    {t : Rat} (hfresh : FreshNonces (older ++ .mint binding ttlMs t nonce :: newer))
    (htime : ∀ e ∈ newer, e.time ≤ t + lifetime ttlMs) (hcap : mints newer < maxLivePermits)
    (hunused : nonce ∉
      (run step empty (older ++ .mint binding ttlMs t nonce :: newer)).uses.map Use.nonce) :
    Kept (run step empty (older ++ .mint binding ttlMs t nonce :: newer)).permits nonce
      ⟨binding, t + lifetime ttlMs, false⟩ (mints newer) := by
  induction newer using List.reverseRecOn with
  | nil =>
    have hnew := (ledgerInv_run hfresh.left).notMem (hfresh.last rfl)
    rw [run_concat, step, mintWritePermit_eq binding ttlMs t hnew]
    exact ⟨_, [], rfl, Nat.le_refl 0⟩
  | append_singleton newer e ih =>
    rw [← List.cons_append, ← List.append_assoc] at hfresh hunused ⊢
    rw [mints_append] at hcap ⊢
    rw [run_concat] at hunused ⊢
    have hkept := ih hfresh.left (fun e' he' => htime e' (List.mem_append_left _ he')) (by omega)
      (fun hused => by
        obtain ⟨u, hu, hnonce⟩ := List.mem_map.mp hused
        exact hunused (List.mem_map.mpr ⟨u, uses_step _ _ hu, hnonce⟩))
    exact hkept.step (ledgerInv_run hfresh.left) rfl (htime e (by simp)) hcap
      (fun n hminted => hfresh.last hminted) hunused

/-! ## The permits of a run -/

/-- **Write permits are one-time and content-bound.** In every run with fresh nonces and a clock that
does not go back, no nonce is used twice; a consume that succeeds comes after the mint of its nonce,
with the same binding and in time; a consume with another binding leaves a good permit alone; and a
permit in time, unused and followed by fewer mints than the cap is good. -/
theorem permits_correct (events : List Event) (hfresh : FreshNonces events)
    (hclock : ClockForward events) :
    ((run step empty events).uses.map Use.nonce).Nodup ∧
    ∀ before nonce binding now after, events = before ++ .consume nonce binding now :: after →
      let s := run step empty before
      ((consumeWritePermit s.permits nonce binding now).1 = true →
        (∃ ttlMs t, .mint binding ttlMs t nonce ∈ before ∧ t ≤ now ∧ now ≤ t + lifetime ttlMs) ∧
        (∀ other ttlMs t, .mint other ttlMs t nonce ∈ events → other = binding) ∧
        nonce ∉ s.uses.map Use.nonce) ∧
      (∀ p, JsMap.get? s.permits nonce = some p → now ≤ p.expiresAt → p.binding ≠ binding →
        consumeWritePermit s.permits nonce binding now = (false, s.permits)) ∧
      ∀ older newer ttlMs t, before = older ++ .mint binding ttlMs t nonce :: newer →
        now ≤ t + lifetime ttlMs → nonce ∉ s.uses.map Use.nonce → mints newer < maxLivePermits →
        (consumeWritePermit s.permits nonce binding now).1 = true := by
  refine ⟨(ledgerInv_run hfresh).once, ?_⟩
  intro before nonce binding now after hevents
  subst hevents
  have hinv := ledgerInv_run hfresh.left
  have hpast : ∀ e ∈ before, e.time ≤ now := fun e he =>
    (List.pairwise_append.mp hclock).2.2 e he _ List.mem_cons_self
  refine ⟨?_, ?_, ?_⟩
  · intro hgood
    rcases consumeWritePermit_cases (run step empty before).permits nonce binding now with
      ⟨p, hget, -, hnow, hbinding, -⟩ | heq | ⟨-, -, -, heq⟩
    · obtain ⟨-, ⟨ttlMs, t, hmint, hexpiry⟩, hunused⟩ := hinv.stored _ (JsMap.mem_of_get? hget)
      simp only at hmint hexpiry hunused
      rw [hbinding] at hmint
      refine ⟨⟨ttlMs, t, hmint, hpast _ hmint, hexpiry ▸ hnow⟩, ?_, hunused⟩
      intro other ttlMs' t' hother
      have hsame := hfresh.unique hother (List.mem_append_left _ hmint) rfl rfl
      injection hsame
    · rw [heq] at hgood
      cases hgood
    · rw [heq] at hgood
      cases hgood
  · intro p hget hnow hbinding
    exact consumeWritePermit_mismatch hget (hinv.stored _ (JsMap.mem_of_get? hget)).1 hnow hbinding
  · intro older newer ttlMs t hbefore hnow hunused hcap
    subst hbefore
    have hkept := kept_run hfresh.left
      (fun e he => (hpast e (List.mem_append_right _ (List.mem_cons_of_mem _ he))).trans hnow) hcap
      hunused
    apply consumeWritePermit_good (p := ⟨binding, t + lifetime ttlMs, false⟩) _
      (hkept.get? hinv.keys) rfl hnow
    rintro rfl
    exact hfresh.left.2 (List.mem_filterMap.mpr
      ⟨.mint binding ttlMs t "", by simp, rfl⟩)

/-- A permit for a note, one forged use of it, and two honest ones. -/
def forgedThenUsed : List Event :=
  [.mint ⟨"s", "p", "note", "h"⟩ none 0 "n", .consume "n" ⟨"s", "p", "note", "other"⟩ 1,
    .consume "n" ⟨"s", "p", "note", "h"⟩ 2, .consume "n" ⟨"s", "p", "note", "h"⟩ 3]

theorem permits_correct_forged :
    (run step empty forgedThenUsed).uses.map Use.nonce = ["n"] ∧
      ((run step empty forgedThenUsed).uses.map Use.nonce).Nodup :=
  ⟨by decide +kernel,
    (permits_correct forgedThenUsed
      ⟨by decide, by decide⟩ (by norm_num [ClockForward, forgedThenUsed, Event.time])).1⟩

end Bobbit.Server.WritePermit
