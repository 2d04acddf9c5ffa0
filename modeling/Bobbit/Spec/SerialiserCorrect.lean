import Bobbit.Lib.List
import Bobbit.Server.SessionCommandSerialiser

/-!
# The session command serialiser runs one command at a time

A command is submitted behind the tail of its key, so the commands of one key form a
chain: whatever has left the queue found every earlier command of its key done. That is
`Chained`, a fact about the list of commands alone. The maps of the class are read off
that list: the tail is the last command that is not done, the active entry the one whose
promise is pending, the control entry the one control that is not done, and the pending
usage the sum over the commands that wait.

All of it rests on `tails` being set before other code runs. `run` sets it only after the
call of a command on an idle key has returned, so a command submitted from inside that
call finds no tail (`NoReentry` is the condition that this does not happen).

## Key results

- `SerialInv.step`: every step that meets `NoReentry` keeps the invariant
- `SerialInv.drains`: whatever the outcomes, completions and microtasks alone bring every
  command to its end
- `commands_serialised`: the serialiser's contract over runs
- `reentrant_command_overlaps`: a command submitted from the synchronous part of the first
  runs together with it
-/

namespace Bobbit.Server.SessionCommandSerialiser

open Lib

/-! ## The chain of a key -/

/-- The commands of one key form a chain. -/
structure Chained (cs : List SessionCommand) : Prop where
  /-- What has left the queue found the earlier commands of its key done. -/
  earlierDone : ∀ (i j : Nat) (c d : SessionCommand), i < j → cs[i]? = some c → cs[j]? = some d → c.key = d.key →
    d.phase.isWaiting = false → c.phase.isDone = true
  /-- A command waits for the last one of its key before it. -/
  previous : ∀ (j : Nat) (d : SessionCommand) p, cs[j]? = some d → d.phase = .waiting p →
    p < j ∧ (∃ c, cs[p]? = some c ∧ c.key = d.key) ∧
      ∀ (i : Nat) (c : SessionCommand), p < i → i < j → cs[i]? = some c → c.key ≠ d.key

/-- Every command of the key before place `i` is done. -/
def DoneBefore (cs : List SessionCommand) (key : String) (i : Nat) : Prop :=
  ∀ (j : Nat) (c : SessionCommand), j < i → cs[j]? = some c → c.key = key → c.phase.isDone = true

namespace Chained

variable {cs : List SessionCommand}

variable {c : SessionCommand}

theorem doneBefore (h : Chained cs) {i : Nat} (hc : cs[i]? = some c)
    (hleft : c.phase.isWaiting = false) : DoneBefore cs c.key i :=
  fun j d hj hd hkey => h.earlierDone j i d c hj hd hc hkey hleft

/-- Once the command it waits for is done, so is every earlier one. -/
theorem doneBefore_of_previous (h : Chained cs) {i p : Nat} {d : SessionCommand}
    (hc : cs[i]? = some c) (hwaits : c.phase = .waiting p) (hd : cs[p]? = some d)
    (hdone : d.phase.isDone = true) : DoneBefore cs c.key i := by
  obtain ⟨hp, ⟨d', hd', hkey⟩, hbetween⟩ := h.previous i c p hc hwaits
  rw [hd] at hd'
  cases hd'
  have hleft : d.phase.isWaiting = false := by
    cases hphase : d.phase <;> simp [CommandPhase.isDone, CommandPhase.isWaiting, hphase] at hdone ⊢
  intro j e hj he hekey
  rcases Nat.lt_trichotomy j p with hjp | hjp | hjp
  · exact h.earlierDone j p e d hjp he hd (hekey.trans hkey.symm) hleft
  · subst hjp
    rw [hd] at he
    cases he
    exact hdone
  · exact absurd hekey (hbetween j e hjp hj he)

/-- **Exclusion.** Two commands of one key that have left the queue and are not done are
    one command. -/
theorem unique (h : Chained cs) {i j : Nat} {d : SessionCommand} (hc : cs[i]? = some c)
    (hd : cs[j]? = some d) (hkey : c.key = d.key) (hcleft : c.phase.isWaiting = false)
    (hcdone : c.phase.isDone = false) (hdleft : d.phase.isWaiting = false)
    (hddone : d.phase.isDone = false) : i = j := by
  rcases Nat.lt_trichotomy i j with hij | hij | hij
  · rw [h.earlierDone i j c d hij hc hd hkey hdleft] at hcdone
    cases hcdone
  · exact hij
  · rw [h.earlierDone j i d c hij hd hc hkey.symm hcleft] at hddone
    cases hddone

/-- A command is submitted: behind the last one of its key, or on an idle key. -/
theorem concat (h : Chained cs)
    (hwaits : ∀ p, c.phase = .waiting p → (∃ d, cs[p]? = some d ∧ d.key = c.key) ∧
      ∀ (i : Nat) (d : SessionCommand), p < i → cs[i]? = some d → d.key ≠ c.key)
    (hidle : c.phase.isWaiting = false → DoneBefore cs c.key cs.length) :
    Chained (cs ++ [c]) where
  earlierDone := by
    intro i j d e hij hd he hkey hleft
    rw [getElem?_concat_eq_some] at hd he
    rcases hd with hd | ⟨rfl, rfl⟩
    · rcases he with he | ⟨rfl, rfl⟩
      · exact h.earlierDone i j d e hij hd he hkey hleft
      · exact hidle hleft i d hij hd hkey
    · rcases he with he | ⟨rfl, rfl⟩
      · have := lt_length_of_getElem? he
        omega
      · omega
  previous := by
    intro j d p hd hphase
    rw [getElem?_concat_eq_some] at hd
    rcases hd with hd | ⟨rfl, rfl⟩
    · obtain ⟨hp, ⟨e, he, hkey⟩, hbetween⟩ := h.previous j d p hd hphase
      refine ⟨hp, ⟨e, getElem?_concat_eq_some.mpr (.inl he), hkey⟩, ?_⟩
      intro i c' hpi hij hc'
      have := lt_length_of_getElem? hd
      rcases getElem?_concat_eq_some.mp hc' with hc' | ⟨rfl, -⟩
      · exact hbetween i c' hpi hij hc'
      · omega
    · obtain ⟨⟨e, he, hkey⟩, hlast⟩ := hwaits p hphase
      refine ⟨lt_length_of_getElem? he, ⟨e, getElem?_concat_eq_some.mpr (.inl he), hkey⟩, ?_⟩
      intro i c' hpi hij hc'
      rcases getElem?_concat_eq_some.mp hc' with hc' | ⟨rfl, -⟩
      · exact hlast i c' hpi hc'
      · omega

/-- A command moves on: it has left the queue, and what was done stays done. -/
theorem modify (h : Chained cs) {i : Nat} {f : SessionCommand → SessionCommand}
    (hc : cs[i]? = some c) (hbefore : DoneBefore cs c.key i) (hkey : (f c).key = c.key)
    (hleft : (f c).phase.isWaiting = false)
    (hdone : c.phase.isDone = true → (f c).phase.isDone = true) :
    Chained (cs.modify i f) where
  earlierDone := by
    intro j k d e hjk hd he hkeys heleft
    rcases getElem?_modify_eq_some hc hd with ⟨rfl, rfl⟩ | ⟨hj, hd'⟩
    · rcases getElem?_modify_eq_some hc he with ⟨rfl, -⟩ | ⟨-, he⟩
      · omega
      · exact hdone (h.earlierDone j k c e hjk hc he (hkey.symm.trans hkeys) heleft)
    · rcases getElem?_modify_eq_some hc he with ⟨rfl, rfl⟩ | ⟨-, he'⟩
      · exact hbefore j d hjk hd' (hkeys.trans hkey)
      · exact h.earlierDone j k d e hjk hd' he' hkeys heleft
  previous := by
    intro j d p hd hphase
    rcases getElem?_modify_eq_some hc hd with ⟨rfl, rfl⟩ | ⟨-, hd⟩
    · rw [hphase] at hleft
      cases hleft
    · obtain ⟨hp, ⟨e, he, hekey⟩, hbetween⟩ := h.previous j d p hd hphase
      -- the rewritten command keeps its key
      have hkeeps : ∀ (k : Nat) (e : SessionCommand), (cs.modify i f)[k]? = some e →
          ∃ e', cs[k]? = some e' ∧ e'.key = e.key := by
        intro k e he
        rcases getElem?_modify_eq_some hc he with ⟨rfl, rfl⟩ | ⟨-, he⟩
        · exact ⟨c, hc, hkey.symm⟩
        · exact ⟨e, he, rfl⟩
      refine ⟨hp, ?_, ?_⟩
      · by_cases hpi : p = i
        · subst hpi
          rw [hc] at he
          cases he
          exact ⟨f c, getElem?_modify_self hc, hkey.trans hekey⟩
        · exact ⟨e, (getElem?_modify_ne hpi).trans he, hekey⟩
      · intro k e' hpk hkj he'
        obtain ⟨e'', he'', hkey''⟩ := hkeeps k e' he'
        rw [← hkey'']
        exact hbetween k e'' hpk hkj he''

end Chained

/-! ## The maps that name one command for a key -/

@[simp] theorem get?_deleteIf (map : JsMap String Nat) (key : String) (value : Nat)
    (k : String) :
    (deleteIf map key value).get? k =
      if k = key ∧ map.get? key = some value then none else map.get? k := by
  unfold deleteIf
  by_cases hvalue : map.get? key = some value
  · rw [if_pos hvalue, JsMap.get?_erase]
    simp [hvalue]
  · rw [if_neg hvalue, if_neg (by simp [hvalue])]

/-- The map names, for each key, the command of that key with the property. -/
def Indexes (cs : List SessionCommand) (map : JsMap String Nat) (p : SessionCommand → Bool) :
    Prop :=
  ∀ key i, map.get? key = some i ↔ ∃ c, cs[i]? = some c ∧ c.key = key ∧ p c = true

namespace Indexes

variable {cs : List SessionCommand} {map : JsMap String Nat} {p : SessionCommand → Bool}
  {i : Nat} {c : SessionCommand} {f : SessionCommand → SessionCommand}

/-- No command of a key without entry has the property. -/
theorem eq_false_of_none (h : Indexes cs map p) {key : String} (hnone : map.get? key = none)
    (hc : cs[i]? = some c) (hkey : c.key = key) : p c = false := by
  cases hp : p c with
  | false => rfl
  | true =>
    rw [(h key i).mpr ⟨c, hc, hkey, hp⟩] at hnone
    cases hnone

theorem modify_of_eq (h : Indexes cs map p) (hc : cs[i]? = some c) (hkey : (f c).key = c.key)
    (hp : p (f c) = p c) : Indexes (cs.modify i f) map p := by
  intro key j
  rw [h key j]
  constructor
  · rintro ⟨d, hd, hdkey, hpd⟩
    by_cases hji : j = i
    · subst hji
      rw [hc] at hd
      cases hd
      exact ⟨f c, getElem?_modify_self hc, hkey.trans hdkey, hp.trans hpd⟩
    · exact ⟨d, (getElem?_modify_ne hji).trans hd, hdkey, hpd⟩
  · rintro ⟨d, hd, hdkey, hpd⟩
    rcases getElem?_modify_eq_some hc hd with ⟨rfl, rfl⟩ | ⟨-, hd⟩
    · exact ⟨c, hc, hkey.symm.trans hdkey, hp.symm.trans hpd⟩
    · exact ⟨d, hd, hdkey, hpd⟩

/-- A command gains the property that no other command of its key has. -/
theorem modify_set (h : Indexes cs map p) (hc : cs[i]? = some c) (hkey : (f c).key = c.key)
    (hp : p (f c) = true)
    (hother : ∀ (j : Nat) (d : SessionCommand), j ≠ i → cs[j]? = some d → d.key = c.key → p d = false) :
    Indexes (cs.modify i f) (map.set c.key i) p := by
  intro key j
  rw [JsMap.get?_set]
  constructor
  · intro hget
    split at hget
    · rename_i hk
      cases hget
      exact ⟨f c, getElem?_modify_self hc, hkey.trans hk.symm, hp⟩
    · rename_i hk
      obtain ⟨d, hd, hdkey, hpd⟩ := (h key j).mp hget
      have hji : j ≠ i := by
        rintro rfl
        rw [hc] at hd
        cases hd
        exact hk hdkey.symm
      exact ⟨d, (getElem?_modify_ne hji).trans hd, hdkey, hpd⟩
  · rintro ⟨d, hd, hdkey, hpd⟩
    rcases getElem?_modify_eq_some hc hd with ⟨rfl, rfl⟩ | ⟨hji, hd⟩
    · rw [if_pos (hdkey.symm.trans hkey)]
    · by_cases hk : key = c.key
      · rw [hother j d hji hd (hdkey.trans hk)] at hpd
        cases hpd
      · rw [if_neg hk]
        exact (h key j).mpr ⟨d, hd, hdkey, hpd⟩

theorem modify_deleteIf (h : Indexes cs map p) (hc : cs[i]? = some c) (hp : p c = true)
    (hpf : p (f c) = false) :
    Indexes (cs.modify i f) (deleteIf map c.key i) p := by
  have hget : map.get? c.key = some i := (h c.key i).mpr ⟨c, hc, rfl, hp⟩
  intro key j
  rw [get?_deleteIf]
  constructor
  · intro hkeyj
    split at hkeyj
    · cases hkeyj
    · rename_i hk
      have hne : key ≠ c.key := fun heq => hk ⟨heq, hget⟩
      obtain ⟨d, hd, hdkey, hpd⟩ := (h key j).mp hkeyj
      have hji : j ≠ i := by
        rintro rfl
        rw [hc] at hd
        cases hd
        exact hne hdkey.symm
      exact ⟨d, (getElem?_modify_ne hji).trans hd, hdkey, hpd⟩
  · rintro ⟨d, hd, hdkey, hpd⟩
    rcases getElem?_modify_eq_some hc hd with ⟨rfl, rfl⟩ | ⟨hji, hd⟩
    · rw [hpf] at hpd
      cases hpd
    · have hmap := (h key j).mpr ⟨d, hd, hdkey, hpd⟩
      rw [if_neg]
      · exact hmap
      · rintro ⟨rfl, -⟩
        rw [hget] at hmap
        cases hmap
        exact hji rfl

theorem concat_of_false (h : Indexes cs map p) (hp : p c = false) : Indexes (cs ++ [c]) map p := by
  intro key j
  rw [h key j]
  constructor
  · rintro ⟨d, hd, hrest⟩
    exact ⟨d, getElem?_concat_eq_some.mpr (.inl hd), hrest⟩
  · rintro ⟨d, hd, hdkey, hpd⟩
    rcases getElem?_concat_eq_some.mp hd with hd | ⟨-, rfl⟩
    · exact ⟨d, hd, hdkey, hpd⟩
    · rw [hp] at hpd
      cases hpd

/-- A new command has the property that no other command of its key has. -/
theorem concat_set (h : Indexes cs map p) (hp : p c = true)
    (hother : ∀ (j : Nat) (d : SessionCommand), cs[j]? = some d → d.key = c.key → p d = false) :
    Indexes (cs ++ [c]) (map.set c.key cs.length) p := by
  intro key j
  rw [JsMap.get?_set]
  constructor
  · intro hget
    split at hget
    · rename_i hk
      cases hget
      exact ⟨c, getElem?_concat_eq_some.mpr (.inr ⟨rfl, rfl⟩), hk.symm, hp⟩
    · obtain ⟨d, hd, hrest⟩ := (h key j).mp hget
      exact ⟨d, getElem?_concat_eq_some.mpr (.inl hd), hrest⟩
  · rintro ⟨d, hd, hdkey, hpd⟩
    rcases getElem?_concat_eq_some.mp hd with hd | ⟨rfl, rfl⟩
    · by_cases hk : key = c.key
      · rw [hother j d hd (hdkey.trans hk)] at hpd
        cases hpd
      · rw [if_neg hk]
        exact (h key j).mpr ⟨d, hd, hdkey, hpd⟩
    · rw [if_pos hdkey.symm]

end Indexes

/-! ## The tails -/

/-- The tail of a key is its last command, from the time it is set until the command is done. -/
structure TailsOf (cs : List SessionCommand) (tails : JsMap String Nat) : Prop where
  tail : ∀ key t, tails.get? key = some t → ∃ c, cs[t]? = some c ∧ c.key = key ∧
    c.phase.isDone = false ∧ ∀ (i : Nat) (d : SessionCommand), t < i → cs[i]? = some d → d.key ≠ key
  noTail : ∀ key, tails.get? key = none → ∀ (i : Nat) (c : SessionCommand), cs[i]? = some c →
    c.key = key → c.phase.isDone = true ∨ c.phase = .synchronous true
  /-- A command that `run` has called at once gets its tail when the call returns. -/
  atOnce : ∀ (i : Nat) (c : SessionCommand), cs[i]? = some c → c.phase = .synchronous true →
    tails.get? c.key = none

namespace TailsOf

variable {cs : List SessionCommand} {tails : JsMap String Nat}
  {i : Nat} {c : SessionCommand} {f : SessionCommand → SessionCommand}

theorem last_of_atOnce (h : TailsOf cs tails) (hchain : Chained cs) (hc : cs[i]? = some c)
    (honce : c.phase = .synchronous true) (j : Nat) (d : SessionCommand) (hij : i < j)
    (hd : cs[j]? = some d) : d.key ≠ c.key := by
  intro hkey
  have hleft : d.phase.isWaiting = false := by
    rcases h.noTail c.key (h.atOnce i c hc honce) j d hd hkey with hdone | hsync
    · cases hphase : d.phase <;>
        simp [CommandPhase.isDone, CommandPhase.isWaiting, hphase] at hdone ⊢
    · rw [hsync]
      rfl
  have hdone := hchain.earlierDone i j c d hij hc hd hkey.symm hleft
  rw [honce] at hdone
  cases hdone

theorem modify_of_eq (h : TailsOf cs tails) (hc : cs[i]? = some c) (hkey : (f c).key = c.key)
    (hdone : (f c).phase.isDone = c.phase.isDone)
    (honce : (f c).phase = .synchronous true ↔ c.phase = .synchronous true) :
    TailsOf (cs.modify i f) tails where
  tail := by
    intro key t ht
    obtain ⟨d, hd, hdkey, hddone, hlast⟩ := h.tail key t ht
    have hlast' : ∀ (j : Nat) (e : SessionCommand), t < j → (cs.modify i f)[j]? = some e →
        e.key ≠ key := by
      intro j e htj he
      rcases getElem?_modify_eq_some hc he with ⟨rfl, rfl⟩ | ⟨-, he⟩
      · rw [hkey]
        exact hlast j c htj hc
      · exact hlast j e htj he
    by_cases hti : t = i
    · subst hti
      rw [hc] at hd
      cases hd
      exact ⟨f c, getElem?_modify_self hc, hkey.trans hdkey, hdone.trans hddone, hlast'⟩
    · exact ⟨d, (getElem?_modify_ne hti).trans hd, hdkey, hddone, hlast'⟩
  noTail := by
    intro key hnone j d hd hdkey
    rcases getElem?_modify_eq_some hc hd with ⟨rfl, rfl⟩ | ⟨-, hd⟩
    · rcases h.noTail key hnone j c hc (hkey.symm.trans hdkey) with hd | hsync
      · exact .inl (hdone.trans hd)
      · exact .inr (honce.mpr hsync)
    · exact h.noTail key hnone j d hd hdkey
  atOnce := by
    intro j d hd hsync
    rcases getElem?_modify_eq_some hc hd with ⟨rfl, rfl⟩ | ⟨-, hd⟩
    · rw [hkey]
      exact h.atOnce j c hc (honce.mp hsync)
    · exact h.atOnce j d hd hsync

/-- The rest of `run` after the call: the command becomes the tail. -/
theorem modify_set (h : TailsOf cs tails) (hchain : Chained cs) (hc : cs[i]? = some c)
    (hkey : (f c).key = c.key) (honce : c.phase = .synchronous true)
    (hdone : (f c).phase.isDone = false) (honcef : (f c).phase ≠ .synchronous true) :
    TailsOf (cs.modify i f) (tails.set c.key i) where
  tail := by
    intro key t ht
    rw [JsMap.get?_set] at ht
    split at ht
    · rename_i hk
      cases ht
      refine ⟨f c, getElem?_modify_self hc, hkey.trans hk.symm, hdone, ?_⟩
      intro j d hij hd
      rw [getElem?_modify_ne (by omega)] at hd
      exact hk ▸ h.last_of_atOnce hchain hc honce j d hij hd
    · rename_i hk
      obtain ⟨d, hd, hdkey, hddone, hlast⟩ := h.tail key t ht
      have hti : t ≠ i := by
        rintro rfl
        rw [hc] at hd
        cases hd
        exact hk hdkey.symm
      refine ⟨d, (getElem?_modify_ne hti).trans hd, hdkey, hddone, ?_⟩
      intro j e htj he
      rcases getElem?_modify_eq_some hc he with ⟨rfl, rfl⟩ | ⟨-, he⟩
      · rw [hkey]
        exact fun heq => hk heq.symm
      · exact hlast j e htj he
  noTail := by
    intro key hnone j d hd hdkey
    rw [JsMap.get?_set] at hnone
    split at hnone
    · cases hnone
    · rename_i hk
      rcases getElem?_modify_eq_some hc hd with ⟨rfl, rfl⟩ | ⟨-, hd⟩
      · exact absurd (hdkey.symm.trans hkey) hk
      · exact h.noTail key hnone j d hd hdkey
  atOnce := by
    intro j d hd hsync
    rcases getElem?_modify_eq_some hc hd with ⟨rfl, rfl⟩ | ⟨hji, hd⟩
    · exact absurd hsync honcef
    · rw [JsMap.get?_set, if_neg, h.atOnce j d hd hsync]
      intro hdkey
      exact hji (hchain.unique hd hc hdkey (by rw [hsync]; rfl) (by rw [hsync]; rfl)
        (by rw [honce]; rfl) (by rw [honce]; rfl))

theorem modify_deleteIf (h : TailsOf cs tails) (hchain : Chained cs) (hc : cs[i]? = some c)
    (hkey : (f c).key = c.key) (hleft : c.phase.isWaiting = false)
    (hdone : (f c).phase.isDone = true) : TailsOf (cs.modify i f) (deleteIf tails c.key i) where
  tail := by
    intro key t ht
    rw [get?_deleteIf] at ht
    split at ht
    · cases ht
    · rename_i hk
      obtain ⟨d, hd, hdkey, hddone, hlast⟩ := h.tail key t ht
      have hti : t ≠ i := by
        rintro rfl
        rw [hc] at hd
        cases hd
        exact hk ⟨hdkey.symm, hdkey ▸ ht⟩
      refine ⟨d, (getElem?_modify_ne hti).trans hd, hdkey, hddone, ?_⟩
      intro j e htj he
      rcases getElem?_modify_eq_some hc he with ⟨rfl, rfl⟩ | ⟨-, he⟩
      · rw [hkey]
        exact hlast j c htj hc
      · exact hlast j e htj he
  noTail := by
    intro key hnone j d hd hdkey
    rcases getElem?_modify_eq_some hc hd with ⟨rfl, rfl⟩ | ⟨hji, hd⟩
    · exact .inl hdone
    · rw [get?_deleteIf] at hnone
      split at hnone
      · -- the ended command was the tail: the other commands of the key are before it
        rename_i hk
        obtain ⟨rfl, ht⟩ := hk
        obtain ⟨c', hc', -, -, hlast⟩ := h.tail c.key i ht
        rcases Nat.lt_trichotomy j i with hlt | heq | hgt
        · exact .inl (hchain.earlierDone j i d c hlt hd hc hdkey hleft)
        · exact absurd heq hji
        · exact absurd hdkey (hlast j d hgt hd)
      · exact h.noTail key hnone j d hd hdkey
  atOnce := by
    intro j d hd hsync
    rcases getElem?_modify_eq_some hc hd with ⟨rfl, rfl⟩ | ⟨hji, hd⟩
    · rw [hsync] at hdone
      cases hdone
    · rw [get?_deleteIf]
      split
      · rfl
      · exact h.atOnce j d hd hsync

theorem concat_set (h : TailsOf cs tails) (hdone : c.phase.isDone = false)
    (honce : c.phase ≠ .synchronous true)
    (hnone : ∀ (j : Nat) (d : SessionCommand), cs[j]? = some d → d.key = c.key →
      d.phase ≠ .synchronous true) :
    TailsOf (cs ++ [c]) (tails.set c.key cs.length) where
  tail := by
    intro key t ht
    rw [JsMap.get?_set] at ht
    split at ht
    · rename_i hk
      cases ht
      refine ⟨c, getElem?_concat_eq_some.mpr (.inr ⟨rfl, rfl⟩), hk.symm, hdone, ?_⟩
      intro j d hj hd
      have := lt_length_of_getElem? hd
      simp at this
      omega
    · rename_i hk
      obtain ⟨d, hd, hdkey, hddone, hlast⟩ := h.tail key t ht
      refine ⟨d, getElem?_concat_eq_some.mpr (.inl hd), hdkey, hddone, ?_⟩
      intro j e htj he
      rcases getElem?_concat_eq_some.mp he with he | ⟨-, rfl⟩
      · exact hlast j e htj he
      · exact fun heq => hk heq.symm
  noTail := by
    intro key hget j d hd hdkey
    rw [JsMap.get?_set] at hget
    split at hget
    · cases hget
    · rename_i hk
      rcases getElem?_concat_eq_some.mp hd with hd | ⟨-, rfl⟩
      · exact h.noTail key hget j d hd hdkey
      · exact absurd hdkey.symm hk
  atOnce := by
    intro j d hd hsync
    rcases getElem?_concat_eq_some.mp hd with hd | ⟨-, rfl⟩
    · rw [JsMap.get?_set, if_neg fun hdkey => hnone j d hd hdkey hsync]
      exact h.atOnce j d hd hsync
    · exact absurd hsync honce

theorem concat_atOnce (h : TailsOf cs tails) (hsync : c.phase = .synchronous true)
    (hget : tails.get? c.key = none) : TailsOf (cs ++ [c]) tails where
  tail := by
    intro key t ht
    obtain ⟨d, hd, hdkey, hddone, hlast⟩ := h.tail key t ht
    refine ⟨d, getElem?_concat_eq_some.mpr (.inl hd), hdkey, hddone, ?_⟩
    intro j e htj he
    rcases getElem?_concat_eq_some.mp he with he | ⟨-, rfl⟩
    · exact hlast j e htj he
    · rintro rfl
      rw [hget] at ht
      cases ht
  noTail := by
    intro key hnone j d hd hdkey
    rcases getElem?_concat_eq_some.mp hd with hd | ⟨-, rfl⟩
    · exact h.noTail key hnone j d hd hdkey
    · exact .inr hsync
  atOnce := by
    intro j d hd hdsync
    rcases getElem?_concat_eq_some.mp hd with hd | ⟨-, rfl⟩
    · exact h.atOnce j d hd hdsync
    · exact hget

end TailsOf

/-! ## The pending usage -/

/-- An ordinary command of the key that has not been called. -/
def waitsOn (key : String) (c : SessionCommand) : Bool :=
  !c.control && c.key = key && c.phase.isWaiting

def queued (cs : List SessionCommand) (key : String) : List SessionCommand :=
  cs.filter (waitsOn key)

def bytesOf (cs : List SessionCommand) : Nat := (cs.map (·.frameBytes)).sum

/-- The entry that `pending` has for some queued commands. -/
def usageOf (cs : List SessionCommand) : Option PendingUsage :=
  if cs = [] then none else some ⟨cs.length, bytesOf cs⟩

theorem usageOf_getD (cs : List SessionCommand) :
    (usageOf cs).getD ⟨0, 0⟩ = ⟨cs.length, bytesOf cs⟩ := by
  unfold usageOf
  split
  · rename_i h
    subst h
    rfl
  · rfl

theorem queued_concat (cs : List SessionCommand) (c : SessionCommand) (key : String) :
    queued (cs ++ [c]) key = queued cs key ++ if waitsOn key c then [c] else [] := by
  unfold queued
  rw [List.filter_append, List.filter_cons, List.filter_nil]

theorem bytesOf_concat (cs : List SessionCommand) (c : SessionCommand) :
    bytesOf (cs ++ [c]) = bytesOf cs + c.frameBytes := by
  simp [bytesOf]

/-- The pending usage is that of the queued commands, and within the limits. -/
structure UsageOf (cs : List SessionCommand) (pending : JsMap String PendingUsage)
    (maxPendingCommands maxPendingBytes : Nat) : Prop where
  entry : ∀ key, pending.get? key = usageOf (queued cs key)
  count : ∀ key, (queued cs key).length ≤ maxPendingCommands
  bytes : ∀ key, bytesOf (queued cs key) ≤ maxPendingBytes

namespace UsageOf

variable {cs : List SessionCommand} {pending : JsMap String PendingUsage}
  {maxCommands maxBytes i : Nat} {c : SessionCommand} {f : SessionCommand → SessionCommand}

/-- A submitted command that is not queued is not charged. -/
theorem concat_of_false (h : UsageOf cs pending maxCommands maxBytes)
    (hwaits : ∀ key, waitsOn key c = false) :
    UsageOf (cs ++ [c]) pending maxCommands maxBytes := by
  have hqueued : ∀ key, queued (cs ++ [c]) key = queued cs key := by
    intro key
    rw [queued_concat, hwaits key]
    exact List.append_nil _
  constructor
  · intro key
    rw [hqueued]
    exact h.entry key
  · intro key
    rw [hqueued]
    exact h.count key
  · intro key
    rw [hqueued]
    exact h.bytes key

/-- A queued command is charged when the limits allow it. -/
theorem concat_set (h : UsageOf cs pending maxCommands maxBytes) (hcontrol : c.control = false)
    (hwaits : c.phase.isWaiting = true) (hcount : (queued cs c.key).length < maxCommands)
    (hbytes : bytesOf (queued cs c.key) + c.frameBytes ≤ maxBytes) :
    UsageOf (cs ++ [c])
      (pending.set c.key ⟨(queued cs c.key).length + 1, bytesOf (queued cs c.key) + c.frameBytes⟩)
      maxCommands maxBytes := by
  have hself : queued (cs ++ [c]) c.key = queued cs c.key ++ [c] := by
    rw [queued_concat, if_pos (by simp [waitsOn, hcontrol, hwaits])]
  have hothers : ∀ key, key ≠ c.key → queued (cs ++ [c]) key = queued cs key := by
    intro key hkey
    rw [queued_concat, if_neg (by simp [waitsOn, Ne.symm hkey])]
    exact List.append_nil _
  constructor
  · intro key
    rw [JsMap.get?_set]
    by_cases hkey : key = c.key
    · subst hkey
      rw [if_pos rfl, hself, usageOf, if_neg (by simp), bytesOf_concat, List.length_append]
      simp
    · rw [if_neg hkey, hothers key hkey]
      exact h.entry key
  · intro key
    by_cases hkey : key = c.key
    · subst hkey
      rw [hself, List.length_append, List.length_singleton]
      omega
    · rw [hothers key hkey]
      exact h.count key
  · intro key
    by_cases hkey : key = c.key
    · subst hkey
      rw [hself, bytesOf_concat]
      omega
    · rw [hothers key hkey]
      exact h.bytes key

theorem modify_of_false (h : UsageOf cs pending maxCommands maxBytes) (hc : cs[i]? = some c)
    (hwaits : ∀ key, waitsOn key c = false) (hwaitsf : ∀ key, waitsOn key (f c) = false) :
    UsageOf (cs.modify i f) pending maxCommands maxBytes := by
  have hqueued : ∀ key, queued (cs.modify i f) key = queued cs key := by
    intro key
    apply filter_modify_of_false
    intro d hd
    rw [hc] at hd
    cases hd
    exact ⟨hwaits key, hwaitsf key⟩
  constructor
  · intro key
    rw [hqueued]
    exact h.entry key
  · intro key
    rw [hqueued]
    exact h.count key
  · intro key
    rw [hqueued]
    exact h.bytes key

end UsageOf

variable {s : SessionCommandSerialiser} {c : SessionCommand}

/-- The charge of a queued command is released when it is called. -/
theorem usageOf_release {i : Nat} {f : SessionCommand → SessionCommand}
    (h : UsageOf s.commands s.pending s.maxPendingCommands s.maxPendingBytes)
    (hc : s.commands[i]? = some c) (hcontrol : c.control = false)
    (hwaits : c.phase.isWaiting = true) (hwaitsf : ∀ key, waitsOn key (f c) = false) :
    UsageOf (s.commands.modify i f) (s.releasePending c.key c.frameBytes).pending
      s.maxPendingCommands s.maxPendingBytes := by
  have hself : waitsOn c.key c = true := by simp [waitsOn, hcontrol, hwaits]
  have hperm : (c :: queued (s.commands.modify i f) c.key).Perm (queued s.commands c.key) :=
    filter_modify_perm hc hself (hwaitsf c.key)
  have hothers : ∀ key, key ≠ c.key →
      queued (s.commands.modify i f) key = queued s.commands key := by
    intro key hkey
    apply filter_modify_of_false
    intro d hd
    rw [hc] at hd
    cases hd
    exact ⟨by simp [waitsOn, Ne.symm hkey], hwaitsf key⟩
  have hlength := hperm.length_eq
  have hbytes : c.frameBytes + bytesOf (queued (s.commands.modify i f) c.key) =
      bytesOf (queued s.commands c.key) := by
    have hsum : bytesOf (c :: queued (s.commands.modify i f) c.key) =
        bytesOf (queued s.commands c.key) :=
      (hperm.map fun d : SessionCommand => d.frameBytes).sum_eq
    rw [← hsum]
    simp [bytesOf]
  rw [List.length_cons] at hlength
  have hentry : s.pending.get? c.key =
      some ⟨(queued s.commands c.key).length, bytesOf (queued s.commands c.key)⟩ := by
    rw [h.entry, usageOf, if_neg]
    intro hnil
    rw [hnil] at hlength
    simp at hlength
  constructor
  · intro key
    by_cases hkey : key = c.key
    · subst hkey
      simp only [releasePending, hentry]
      split
      · rename_i hzero
        have hnil : queued (s.commands.modify i f) c.key = [] := by
          apply List.eq_nil_of_length_eq_zero
          omega
        simp [JsMap.get?_erase, hnil, usageOf]
      · rename_i hzero
        rw [usageOf, if_neg]
        · simp only [JsMap.get?_set, if_pos]
          congr 2
          · omega
          · omega
        · intro hnil
          rw [hnil] at hlength
          simp at hlength
          omega
    · rw [hothers key hkey, ← h.entry key]
      unfold releasePending
      split
      · rfl
      · split
        · rw [JsMap.get?_erase, if_neg hkey]
        · rw [JsMap.get?_set, if_neg hkey]
  · intro key
    have := h.count key
    by_cases hkey : key = c.key
    · subst hkey
      omega
    · rw [hothers key hkey]
      exact this
  · intro key
    have := h.bytes key
    by_cases hkey : key = c.key
    · subst hkey
      omega
    · rw [hothers key hkey]
      exact this

/-! ## The call stack and the order of the calls -/

/-- The synchronous part of the command is on the call stack. -/
def isSynchronous (c : SessionCommand) : Bool :=
  match c.phase with
  | .synchronous _ => true
  | _ => false

def isStarted (c : SessionCommand) : Bool :=
  match c.phase with
  | .waiting _ | .ready => false
  | _ => true

/-- `run` holds an abort controller for the command. -/
def holdsSignal (c : SessionCommand) : Bool :=
  match c.phase with
  | .synchronous _ | .running | .settled _ => !c.control
  | _ => false

/-- The reservation of a control callback. -/
def holdsControl (c : SessionCommand) : Bool := c.control && !c.phase.isDone

/-- The list has each command with the property once. -/
structure Lists (cs : List SessionCommand) (l : List Nat) (p : SessionCommand → Bool) : Prop where
  mem : ∀ i, i ∈ l ↔ ∃ c, cs[i]? = some c ∧ p c = true
  nodup : l.Nodup

namespace Lists

variable {cs : List SessionCommand} {l : List Nat} {p : SessionCommand → Bool} {i : Nat}
  {c : SessionCommand} {f : SessionCommand → SessionCommand}

theorem modify_of_eq (h : Lists cs l p) (hc : cs[i]? = some c) (hp : p (f c) = p c) :
    Lists (cs.modify i f) l p := by
  refine ⟨fun j => ?_, h.nodup⟩
  rw [h.mem j]
  constructor
  · rintro ⟨d, hd, hpd⟩
    by_cases hji : j = i
    · subst hji
      rw [hc] at hd
      cases hd
      exact ⟨f c, getElem?_modify_self hc, hp.trans hpd⟩
    · exact ⟨d, (getElem?_modify_ne hji).trans hd, hpd⟩
  · rintro ⟨d, hd, hpd⟩
    rcases getElem?_modify_eq_some hc hd with ⟨rfl, rfl⟩ | ⟨-, hd⟩
    · exact ⟨c, hc, hp.symm.trans hpd⟩
    · exact ⟨d, hd, hpd⟩

theorem modify_add {l' : List Nat} (h : Lists cs l p) (hl : l'.Perm (i :: l))
    (hc : cs[i]? = some c) (hp : p c = false) (hpf : p (f c) = true) :
    Lists (cs.modify i f) l' p := by
  have hi : i ∉ l := by
    intro hmem
    obtain ⟨d, hd, hpd⟩ := (h.mem i).mp hmem
    rw [hc] at hd
    cases hd
    rw [hp] at hpd
    cases hpd
  refine ⟨fun j => ?_, hl.nodup_iff.mpr (List.nodup_cons.mpr ⟨hi, h.nodup⟩)⟩
  rw [hl.mem_iff, List.mem_cons]
  by_cases hji : j = i
  · subst hji
    exact iff_of_true (.inl rfl) ⟨f c, getElem?_modify_self hc, hpf⟩
  · rw [h.mem j, getElem?_modify_ne hji]
    simp [hji]

theorem modify_tail (h : Lists cs (i :: l) p) (hc : cs[i]? = some c) (hpf : p (f c) = false) :
    Lists (cs.modify i f) l p := by
  obtain ⟨hi, hnodup⟩ := List.nodup_cons.mp h.nodup
  refine ⟨fun j => ?_, hnodup⟩
  by_cases hji : j = i
  · subst hji
    apply iff_of_false hi
    rintro ⟨d, hd, hpd⟩
    rw [getElem?_modify_self hc] at hd
    cases hd
    rw [hpf] at hpd
    cases hpd
  · rw [getElem?_modify_ne hji, ← h.mem j, List.mem_cons]
    simp [hji]

theorem concat_of_false (h : Lists cs l p) (hp : p c = false) : Lists (cs ++ [c]) l p := by
  refine ⟨fun j => ?_, h.nodup⟩
  rw [h.mem j]
  constructor
  · rintro ⟨d, hd, hpd⟩
    exact ⟨d, getElem?_concat_eq_some.mpr (.inl hd), hpd⟩
  · rintro ⟨d, hd, hpd⟩
    rcases getElem?_concat_eq_some.mp hd with hd | ⟨-, rfl⟩
    · exact ⟨d, hd, hpd⟩
    · rw [hp] at hpd
      cases hpd

theorem concat_add {l' : List Nat} (h : Lists cs l p) (hl : l'.Perm (cs.length :: l))
    (hp : p c = true) : Lists (cs ++ [c]) l' p := by
  have hlength : cs.length ∉ l := by
    intro hmem
    obtain ⟨d, hd, -⟩ := (h.mem _).mp hmem
    have := lt_length_of_getElem? hd
    omega
  refine ⟨fun j => ?_, hl.nodup_iff.mpr (List.nodup_cons.mpr ⟨hlength, h.nodup⟩)⟩
  rw [hl.mem_iff, List.mem_cons, h.mem j]
  constructor
  · rintro (rfl | ⟨d, hd, hpd⟩)
    · exact ⟨c, getElem?_concat_eq_some.mpr (.inr ⟨rfl, rfl⟩), hp⟩
    · exact ⟨d, getElem?_concat_eq_some.mpr (.inl hd), hpd⟩
  · rintro ⟨d, hd, hpd⟩
    rcases getElem?_concat_eq_some.mp hd with hd | ⟨rfl, -⟩
    · exact .inr ⟨d, hd, hpd⟩
    · exact .inl rfl

end Lists

/-- The commands of a key, of a list of commands. -/
def ofKey (cs : List SessionCommand) (key : String) (l : List Nat) : List Nat :=
  l.filter fun i => (cs[i]?).any (·.key = key)

/-- The calls of each key are in the order of submission. -/
def CallsOrdered (cs : List SessionCommand) (started : List Nat) : Prop :=
  ∀ key, (ofKey cs key started).Pairwise (· < ·)

variable {cs : List SessionCommand}

theorem ofKey_modify {f : SessionCommand → SessionCommand} {i : Nat}
    (hkey : ∀ c, (f c).key = c.key) (key : String) (l : List Nat) :
    ofKey (cs.modify i f) key l = ofKey cs key l := by
  apply List.filter_congr
  intro j _
  rw [List.getElem?_modify]
  cases cs[j]? with
  | none => rfl
  | some c =>
    simp only [Option.map_eq_map, Option.map_some, Option.any_some]
    split
    · rw [hkey]
    · rfl

theorem ofKey_concat {l : List Nat}
    (hl : ∀ i ∈ l, i < cs.length) (key : String) : ofKey (cs ++ [c]) key l = ofKey cs key l := by
  apply List.filter_congr
  intro j hj
  rw [List.getElem?_append_left (hl j hj)]

/-- A call that comes after the calls of its key keeps the order. -/
theorem CallsOrdered.snoc {started : List Nat}
    (h : CallsOrdered cs started) {i : Nat} (hc : cs[i]? = some c)
    (hlast : ∀ j ∈ started, ∀ d, cs[j]? = some d → d.key = c.key → j < i) :
    CallsOrdered cs (started ++ [i]) := by
  intro key
  unfold ofKey
  rw [List.filter_append, List.pairwise_append]
  refine ⟨h key, List.Pairwise.filter _ (List.pairwise_singleton _ _), ?_⟩
  intro j hj k hk
  rw [List.mem_filter] at hj hk
  obtain ⟨hk, hkkey⟩ := hk
  rw [List.mem_singleton] at hk
  subst hk
  rw [hc] at hkkey
  cases hd : cs[j]? with
  | none =>
    rw [hd] at hj
    cases hj.2
  | some d =>
    rw [hd] at hj
    simp only [Option.any_some, decide_eq_true_eq] at hj hkkey
    exact hlast j hj.1 d hd (hj.2.trans hkkey.symm)

/-! ## The invariant -/

/-- What holds of the serialiser in every state. -/
structure SerialInv (s : SessionCommandSerialiser) : Prop where
  chained : Chained s.commands
  tails : TailsOf s.commands s.tails
  active : Indexes s.commands s.active holdsSignal
  controls : Indexes s.commands s.controls holdsControl
  usage : UsageOf s.commands s.pending s.maxPendingCommands s.maxPendingBytes
  stack : Lists s.commands s.stack isSynchronous
  started : Lists s.commands s.started isStarted
  ordered : CallsOrdered s.commands s.started
  /-- Only a control callback is put off by a microtask on an idle key, and only an ordinary
      command has a `finally`. -/
  kinds : ∀ c ∈ s.commands, (c.phase = .ready → c.control = true) ∧
    ∀ ok, c.phase = .finished ok → c.control = false

/-- No command of the key that `run` has called at once is still in its synchronous part. -/
def Settled (s : SessionCommandSerialiser) (key : String) : Prop :=
  ∀ c ∈ s.commands, c.key = key → c.phase ≠ .synchronous true

/-- No command is submitted for a key from the synchronous part of a command that `run`
    has called at once. -/
def NoReentry (s : SessionCommandSerialiser) : Event → Prop
  | .run key frameBytes => isSafeCount frameBytes = true → s.Settled key
  | .serialiseControl key => s.Settled key
  | _ => True

instance (s : SessionCommandSerialiser) (key : String) : Decidable (s.Settled key) :=
  inferInstanceAs (Decidable (∀ c ∈ s.commands, _ → _))

instance (s : SessionCommandSerialiser) : (event : Event) → Decidable (s.NoReentry event)
  | .run _ _ => inferInstanceAs (Decidable (_ → _))
  | .serialiseControl key => inferInstanceAs (Decidable (s.Settled key))
  | .cancelActive _ | .returns _ | .settle _ _ | .microtask _ => inferInstanceAs (Decidable True)

namespace SerialInv

variable {s : SessionCommandSerialiser}

variable {i : Nat} {c : SessionCommand}

/-- A command that has left the queue goes on without a visible change. -/
theorem modify (h : SerialInv s)
    {f : SessionCommand → SessionCommand} (hc : s.commands[i]? = some c)
    (hkey : ∀ c, (f c).key = c.key) (hcontrol : (f c).control = c.control)
    (hleft : c.phase.isWaiting = false) (hleftf : (f c).phase.isWaiting = false)
    (hdone : (f c).phase.isDone = c.phase.isDone)
    (honce : (f c).phase = .synchronous true ↔ c.phase = .synchronous true)
    (hactive : holdsSignal (f c) = holdsSignal c) (hsync : isSynchronous (f c) = isSynchronous c)
    (hstarted : isStarted (f c) = isStarted c)
    (hkinds : ((f c).phase = .ready → c.control = true) ∧
      ∀ ok, (f c).phase = .finished ok → c.control = false) : SerialInv (s.modify i f) where
  chained := h.chained.modify hc (h.chained.doneBefore hc hleft) (hkey c) hleftf
    fun hd => hdone.trans hd
  tails := h.tails.modify_of_eq hc (hkey c) hdone honce
  active := h.active.modify_of_eq hc (hkey c) hactive
  controls := h.controls.modify_of_eq hc (hkey c) (by unfold holdsControl; rw [hcontrol, hdone])
  usage := h.usage.modify_of_false hc (fun key => by simp [waitsOn, hleft])
    (fun key => by simp [waitsOn, hleftf])
  stack := h.stack.modify_of_eq hc hsync
  started := h.started.modify_of_eq hc hstarted
  ordered := by
    intro key
    show (ofKey (s.commands.modify i f) key s.started).Pairwise _
    rw [ofKey_modify hkey]
    exact h.ordered key
  kinds := by
    intro d hd
    rcases mem_modify hd with hd | ⟨c', hc', rfl⟩
    · exact h.kinds d hd
    · cases hc.symm.trans hc'
      rw [hcontrol]
      exact hkinds

/-! ## One entry -/

theorem cancelActive (h : SerialInv s) (key : String) : SerialInv (s.cancelActive key).1 := by
  unfold SessionCommandSerialiser.cancelActive
  cases hget : s.active.get? key with
  | none => exact h
  | some i =>
    obtain ⟨c, hc, -, hholds⟩ := (h.active key i).mp hget
    simp only
    split
    · exact h
    · have hleft : c.phase.isWaiting = false := by
        unfold holdsSignal at hholds
        split at hholds <;> simp_all [CommandPhase.isWaiting]
      exact h.modify hc (fun _ => rfl) rfl hleft hleft rfl Iff.rfl rfl rfl rfl
        (h.kinds c (List.mem_of_getElem? hc))

theorem settle (h : SerialInv s) (i : Nat) (ok : Bool) : SerialInv (s.settle i ok) := by
  unfold SessionCommandSerialiser.settle
  split
  · rename_i hrunning
    cases hc : s.commands[i]? with
    | none =>
      rw [hc] at hrunning
      cases hrunning
    | some c =>
      rw [hc] at hrunning
      simp only [Option.any_some, decide_eq_true_eq] at hrunning
      apply h.modify (f := ({ · with phase := .settled ok })) hc (fun _ => rfl) rfl
      all_goals simp [hrunning, CommandPhase.isWaiting, CommandPhase.isDone, holdsSignal,
        isSynchronous, isStarted]
  · exact h

theorem kinds_setPhase (h : SerialInv s) (phase : CommandPhase)
    (hc : s.commands[i]? = some c) (hready : phase = .ready → c.control = true)
    (hfinished : ∀ ok, phase = .finished ok → c.control = false) :
    ∀ d ∈ (s.setPhase i phase).commands, (d.phase = .ready → d.control = true) ∧
      ∀ ok, d.phase = .finished ok → d.control = false := by
  intro d hd
  rcases mem_modify hd with hd | ⟨c', hc', rfl⟩
  · exact h.kinds d hd
  · cases hc.symm.trans hc'
    exact ⟨hready, hfinished⟩

theorem ordered_setPhase (h : SerialInv s) (i : Nat) (phase : CommandPhase) :
    CallsOrdered (s.setPhase i phase).commands s.started := by
  intro key
  show (ofKey (s.commands.modify i _) key s.started).Pairwise _
  rw [ofKey_modify (f := ({ · with phase })) fun _ => rfl]
  exact h.ordered key

theorem returns (h : SerialInv s) (outcome : Option Bool) : SerialInv (s.returns outcome) := by
  unfold SessionCommandSerialiser.returns
  cases hstack : s.stack with
  | nil => exact h
  | cons i rest =>
    obtain ⟨c, hc, hsync⟩ := (h.stack.mem i).mp (by rw [hstack]; exact List.mem_cons_self)
    obtain ⟨atOnce, hphase⟩ : ∃ atOnce, c.phase = .synchronous atOnce := by
      unfold isSynchronous at hsync
      split at hsync
      · exact ⟨_, by assumption⟩
      · cases hsync
    have hnew : outcome.elim .running CommandPhase.settled = .running ∨
        ∃ ok, outcome.elim .running CommandPhase.settled = .settled ok := by
      cases outcome with
      | none => exact .inl rfl
      | some ok => exact .inr ⟨ok, rfl⟩
    generalize outcome.elim .running CommandPhase.settled = phase at hnew
    -- what the two phases have in common
    obtain ⟨hleft, hdone, honce, hready, hfinished⟩ : phase.isWaiting = false ∧
        phase.isDone = false ∧ phase ≠ .synchronous true ∧ phase ≠ .ready ∧
        ∀ ok, phase ≠ .finished ok := by
      rcases hnew with rfl | ⟨ok, rfl⟩ <;> simp [CommandPhase.isWaiting, CommandPhase.isDone]
    obtain ⟨hholds, hoff, hstarted⟩ : holdsSignal { c with phase } = holdsSignal c ∧
        isSynchronous { c with phase } = false ∧ isStarted { c with phase } = true := by
      rcases hnew with rfl | ⟨ok, rfl⟩ <;> simp [holdsSignal, isSynchronous, isStarted, hphase]
    have hwasLeft : c.phase.isWaiting = false := by rw [hphase]; rfl
    have hchained : Chained (s.setPhase i phase).commands :=
      h.chained.modify hc (h.chained.doneBefore hc hwasLeft) rfl hleft
        (by simp [hphase, CommandPhase.isDone])
    have hactive : Indexes (s.setPhase i phase).commands s.active holdsSignal :=
      h.active.modify_of_eq hc rfl hholds
    have hcontrols : Indexes (s.setPhase i phase).commands s.controls holdsControl := by
      apply h.controls.modify_of_eq hc rfl
      unfold holdsControl
      rw [hdone, hphase]
      rfl
    have husage : UsageOf (s.setPhase i phase).commands s.pending s.maxPendingCommands
        s.maxPendingBytes :=
      h.usage.modify_of_false hc (fun key => by simp [waitsOn, hwasLeft])
        (fun key => by simp [waitsOn, hleft])
    have hlist : Lists (s.setPhase i phase).commands rest isSynchronous := by
      have hs := h.stack
      rw [hstack] at hs
      exact hs.modify_tail hc hoff
    have hcalls : Lists (s.setPhase i phase).commands s.started isStarted := by
      apply h.started.modify_of_eq hc
      rw [hstarted]
      unfold isStarted
      rw [hphase]
    have hkinds := h.kinds_setPhase phase hc (fun hr => absurd hr hready)
      (fun ok hf => absurd hf (hfinished ok))
    simp only [hc]
    split
    · -- `run` goes on and sets the tail
      rename_i htrue
      exact ⟨hchained, h.tails.modify_set h.chained hc rfl htrue hdone honce, hactive, hcontrols,
        husage, hlist, hcalls, h.ordered_setPhase i phase, hkinds⟩
    · rename_i hfalse
      have htails : TailsOf (s.setPhase i phase).commands s.tails :=
        h.tails.modify_of_eq hc rfl (by rw [hphase, hdone]; rfl)
          (iff_of_false honce hfalse)
      exact ⟨hchained, htails, hactive, hcontrols, husage, hlist, hcalls,
        h.ordered_setPhase i phase, hkinds⟩

theorem releaseActive (h : SerialInv s) {ok : Bool}
    (hc : s.commands[i]? = some c) (hphase : c.phase = .settled ok) (hcontrol : c.control = false) :
    SerialInv (s.releaseActive i c ok) where
  chained := h.chained.modify hc (h.chained.doneBefore hc (by rw [hphase]; rfl)) rfl rfl
    (by simp [hphase, CommandPhase.isDone])
  tails := h.tails.modify_of_eq hc rfl (by rw [hphase]; rfl) (by simp [hphase])
  active := h.active.modify_deleteIf hc (by simp [holdsSignal, hphase, hcontrol]) rfl
  controls := h.controls.modify_of_eq hc rfl (by simp [holdsControl, hcontrol])
  usage := h.usage.modify_of_false hc (fun key => by simp [waitsOn, hphase, CommandPhase.isWaiting])
    (fun key => by simp [waitsOn, CommandPhase.isWaiting])
  stack := h.stack.modify_of_eq hc (by simp [isSynchronous, hphase])
  started := h.started.modify_of_eq hc (by simp [isStarted, hphase])
  ordered := h.ordered_setPhase i _
  kinds := h.kinds_setPhase _ hc (by simp) (fun _ _ => hcontrol)

theorem removeIdleKey (h : SerialInv s) {ok : Bool}
    (hc : s.commands[i]? = some c) (hphase : c.phase = .finished ok) :
    SerialInv (s.removeIdleKey i c ok) where
  chained := h.chained.modify hc (h.chained.doneBefore hc (by rw [hphase]; rfl)) rfl rfl
    (fun _ => rfl)
  tails := h.tails.modify_deleteIf h.chained hc rfl (by rw [hphase]; rfl) rfl
  active := h.active.modify_of_eq hc rfl (by simp [holdsSignal, hphase])
  controls := h.controls.modify_of_eq hc rfl
    (by simp [holdsControl, (h.kinds c (List.mem_of_getElem? hc)).2 ok hphase])
  usage := h.usage.modify_of_false hc (fun key => by simp [waitsOn, hphase, CommandPhase.isWaiting])
    (fun key => by simp [waitsOn, CommandPhase.isWaiting])
  stack := h.stack.modify_of_eq hc (by simp [isSynchronous, hphase])
  started := h.started.modify_of_eq hc (by simp [isStarted, hphase])
  ordered := h.ordered_setPhase i _
  kinds := h.kinds_setPhase _ hc (by simp) (by simp)

theorem releaseControl (h : SerialInv s) {ok : Bool}
    (hc : s.commands[i]? = some c) (hphase : c.phase = .settled ok) (hcontrol : c.control = true) :
    SerialInv (s.releaseControl i c ok) where
  chained := h.chained.modify hc (h.chained.doneBefore hc (by rw [hphase]; rfl)) rfl rfl
    (fun _ => rfl)
  tails := h.tails.modify_deleteIf h.chained hc rfl (by rw [hphase]; rfl) rfl
  active := h.active.modify_of_eq hc rfl (by simp [holdsSignal, hphase, hcontrol])
  controls := h.controls.modify_deleteIf hc
    (by simp [holdsControl, hcontrol, hphase, CommandPhase.isDone])
    (by simp [holdsControl, CommandPhase.isDone])
  usage := h.usage.modify_of_false hc (fun key => by simp [waitsOn, hphase, CommandPhase.isWaiting])
    (fun key => by simp [waitsOn, CommandPhase.isWaiting])
  stack := h.stack.modify_of_eq hc (by simp [isSynchronous, hphase])
  started := h.started.modify_of_eq hc (by simp [isStarted, hphase])
  ordered := h.ordered_setPhase i _
  kinds := h.kinds_setPhase _ hc (by simp) (by simp)

/-- Nothing of the key has been called after a command that has not been called. -/
theorem not_started_after (h : SerialInv s)
    (hc : s.commands[i]? = some c) (hstarted : isStarted c = false) (j : Nat)
    (hj : j ∈ s.started) (d : SessionCommand) (hd : s.commands[j]? = some d)
    (hkey : d.key = c.key) : j < i := by
  obtain ⟨d', hd', hdstarted⟩ := (h.started.mem j).mp hj
  rw [hd] at hd'
  cases hd'
  by_contra hij
  have hne : i ≠ j := by
    rintro rfl
    rw [hc] at hd
    cases hd
    rw [hstarted] at hdstarted
    cases hdstarted
  have hleft : d.phase.isWaiting = false := by
    unfold isStarted at hdstarted
    split at hdstarted <;> simp_all [CommandPhase.isWaiting]
  -- the later command would have found this one done
  have hdone := h.chained.earlierDone i j c d (by omega) hc hd hkey.symm hleft
  unfold isStarted at hstarted
  split at hstarted <;> simp_all [CommandPhase.isDone]

/-- A command is called by a microtask, when the earlier ones of its key are done. -/
theorem call (h : SerialInv s) (hc : s.commands[i]? = some c)
    (hstarted : isStarted c = false) (hbefore : DoneBefore s.commands c.key i) :
    SerialInv (s.invoke i c) := by
  obtain ⟨hdone, honce, hholds, hoff⟩ : c.phase.isDone = false ∧ c.phase ≠ .synchronous true ∧
      holdsSignal c = false ∧ isSynchronous c = false := by
    unfold isStarted at hstarted
    split at hstarted <;> simp_all [CommandPhase.isDone, holdsSignal, isSynchronous]
  have hchained : Chained (s.setPhase i (.synchronous false)).commands :=
    h.chained.modify hc hbefore rfl rfl (by simp [hdone])
  have htails : TailsOf (s.setPhase i (.synchronous false)).commands s.tails :=
    h.tails.modify_of_eq hc rfl hdone.symm (iff_of_false (by simp) honce)
  have hcontrols : Indexes (s.setPhase i (.synchronous false)).commands s.controls holdsControl :=
    h.controls.modify_of_eq hc rfl (by
      show (c.control && !false) = (c.control && !c.phase.isDone)
      rw [hdone])
  have hstack : Lists (s.setPhase i (.synchronous false)).commands (i :: s.stack) isSynchronous :=
    h.stack.modify_add (.refl _) hc hoff rfl
  have hlist : Lists (s.setPhase i (.synchronous false)).commands (s.started ++ [i]) isStarted :=
    h.started.modify_add (List.perm_append_singleton _ _) hc hstarted rfl
  have hordered : CallsOrdered (s.setPhase i (.synchronous false)).commands (s.started ++ [i]) := by
    have hsnoc := h.ordered.snoc hc (h.not_started_after hc hstarted)
    intro key
    show (ofKey (s.commands.modify i _) key _).Pairwise _
    rw [ofKey_modify (f := ({ · with phase := .synchronous false })) fun _ => rfl]
    exact hsnoc key
  have hkinds := h.kinds_setPhase (.synchronous false) hc (by simp)
    (by simp)
  have hoffWaits : ∀ key, waitsOn key { c with phase := .synchronous false } = false :=
    fun key => by simp [waitsOn, CommandPhase.isWaiting]
  unfold invoke SessionCommandSerialiser.call
  cases hcontrol : c.control with
  | true =>
    have hactive : Indexes (s.setPhase i (.synchronous false)).commands s.active holdsSignal :=
      h.active.modify_of_eq hc rfl (by rw [hholds]; simp [holdsSignal, hcontrol])
    have husage : UsageOf (s.setPhase i (.synchronous false)).commands s.pending
        s.maxPendingCommands s.maxPendingBytes :=
      h.usage.modify_of_false hc (fun key => by simp [waitsOn, hcontrol]) hoffWaits
    exact ⟨hchained, htails, hactive, hcontrols, husage, hstack, hlist, hordered, hkinds⟩
  | false =>
    -- an ordinary command that has not been called waits
    have hwaits : c.phase.isWaiting = true := by
      unfold isStarted at hstarted
      split at hstarted
      · rename_i hphase
        rw [hphase]
        rfl
      · rename_i hphase
        rw [(h.kinds c (List.mem_of_getElem? hc)).1 hphase] at hcontrol
        cases hcontrol
      · cases hstarted
    have hactive : Indexes (s.setPhase i (.synchronous false)).commands (s.active.set c.key i)
        holdsSignal := by
      apply h.active.modify_set hc rfl (by simp [holdsSignal, hcontrol])
      intro j d hji hd hkey
      by_contra hholdsd
      obtain ⟨hleftd, hdoned⟩ : d.phase.isWaiting = false ∧ d.phase.isDone = false := by
        unfold holdsSignal at hholdsd
        split at hholdsd <;> simp_all [CommandPhase.isWaiting, CommandPhase.isDone]
      rcases Nat.lt_trichotomy j i with hlt | heq | hgt
      · rw [hbefore j d hlt hd hkey] at hdoned
        cases hdoned
      · exact hji heq
      · rw [h.chained.earlierDone i j c d hgt hc hd hkey.symm hleftd] at hdone
        cases hdone
    have husage := usageOf_release (f := ({ · with phase := .synchronous false })) h.usage hc
      hcontrol hwaits hoffWaits
    have hrelease : (s.releasePending c.key c.frameBytes) =
        { s with pending := (s.releasePending c.key c.frameBytes).pending } := by
      unfold releasePending
      split
      · rfl
      · split <;> rfl
    simp only [Bool.false_eq_true, if_false]
    rw [hrelease]
    exact ⟨hchained, htails, hactive, hcontrols, husage, hstack, hlist, hordered, hkinds⟩

theorem microtask (h : SerialInv s) (i : Nat) : SerialInv (s.microtask i) := by
  unfold SessionCommandSerialiser.microtask
  split
  · rename_i c _ hc
    split
    · rename_i previous hphase
      split
      · rename_i hdone
        -- the command before has ended, so every earlier one has
        have hbefore : DoneBefore s.commands c.key i := by
          unfold isDone at hdone
          cases hprevious : s.commands[previous]? with
          | none =>
            rw [hprevious] at hdone
            cases hdone
          | some d =>
            rw [hprevious] at hdone
            exact h.chained.doneBefore_of_previous hc hphase hprevious hdone
        exact h.call hc (by simp [isStarted, hphase]) hbefore
      · exact h
    · rename_i hphase
      exact h.call hc (by simp [isStarted, hphase])
        (h.chained.doneBefore hc (by rw [hphase]; rfl))
    · rename_i ok hphase
      split
      · rename_i hcontrol
        exact h.releaseControl hc hphase hcontrol
      · rename_i hcontrol
        exact h.releaseActive hc hphase (by simpa using hcontrol)
    · rename_i ok hphase
      exact h.removeIdleKey hc hphase
    · exact h
  · exact h

/-! ## Submissions -/

theorem kinds_concat (h : SerialInv s)
    (hc : (c.phase = .ready → c.control = true) ∧ ∀ ok, c.phase = .finished ok → c.control = false) :
    ∀ d ∈ s.commands ++ [c], (d.phase = .ready → d.control = true) ∧
      ∀ ok, d.phase = .finished ok → d.control = false := by
  intro d hd
  rcases List.mem_append.mp hd with hd | hd
  · exact h.kinds d hd
  · rw [List.mem_singleton] at hd
    subst hd
    exact hc

theorem lt_of_started (h : SerialInv s) (hi : i ∈ s.started) : i < s.commands.length := by
  obtain ⟨c, hc, -⟩ := (h.started.mem i).mp hi
  exact lt_length_of_getElem? hc

theorem ordered_concat (h : SerialInv s) (c : SessionCommand) :
    CallsOrdered (s.commands ++ [c]) s.started := by
  intro key
  rw [ofKey_concat fun i hi => h.lt_of_started hi]
  exact h.ordered key

/-- On a key without tail whose first call has returned, everything is done. -/
theorem doneBefore_of_settled (h : SerialInv s) {key : String} (hnone : s.tails.get? key = none)
    (hsettled : s.Settled key) : DoneBefore s.commands key s.commands.length := by
  intro j d _ hd hkey
  rcases h.tails.noTail key hnone j d hd hkey with hdone | honce
  · exact hdone
  · exact absurd honce (hsettled d (List.mem_of_getElem? hd) hkey)

/-- No command of a key with a tail is in its synchronous part at once. -/
theorem settled_of_tail (h : SerialInv s) {key : String} {t : Nat}
    (htail : s.tails.get? key = some t) : s.Settled key := by
  intro c hc hkey honce
  obtain ⟨i, hi⟩ := List.mem_iff_getElem?.mp hc
  have hnone := h.tails.atOnce i c hi honce
  rw [hkey, htail] at hnone
  cases hnone

/-- A command is put behind the tail, or, a control callback, off by a microtask. -/
theorem submit (h : SerialInv s) {pending : JsMap String PendingUsage}
    {controls : JsMap String Nat} (hsettled : s.Settled c.key)
    (hphase : (∃ t, s.tails.get? c.key = some t ∧ c.phase = .waiting t) ∨
      s.tails.get? c.key = none ∧ c.phase = .ready)
    (hready : c.phase = .ready → c.control = true)
    (hcontrols : Indexes (s.commands ++ [c]) controls holdsControl)
    (husage : UsageOf (s.commands ++ [c]) pending s.maxPendingCommands s.maxPendingBytes) :
    SerialInv { s with
      commands := s.commands ++ [c]
      pending := pending
      controls := controls
      tails := s.tails.set c.key s.commands.length } := by
  obtain ⟨hdone, honce, hfinished⟩ : c.phase.isDone = false ∧ c.phase ≠ .synchronous true ∧
      ∀ ok, c.phase ≠ .finished ok := by
    rcases hphase with ⟨t, -, hp⟩ | ⟨-, hp⟩ <;> simp [hp, CommandPhase.isDone]
  obtain ⟨hholds, hoff, hstarted⟩ : holdsSignal c = false ∧ isSynchronous c = false ∧
      isStarted c = false := by
    rcases hphase with ⟨t, -, hp⟩ | ⟨-, hp⟩ <;> simp [hp, holdsSignal, isSynchronous, isStarted]
  refine ⟨?_, ?_, h.active.concat_of_false hholds, hcontrols, husage,
    h.stack.concat_of_false hoff, h.started.concat_of_false hstarted, h.ordered_concat c,
    h.kinds_concat ⟨hready, fun ok hf => absurd hf (hfinished ok)⟩⟩
  · apply h.chained.concat
    · intro p hp
      rcases hphase with ⟨t, ht, hwaits⟩ | ⟨-, hp'⟩
      · rw [hwaits] at hp
        cases hp
        obtain ⟨d, hd, hkey, -, hlast⟩ := h.tails.tail c.key p ht
        exact ⟨⟨d, hd, hkey⟩, hlast⟩
      · rw [hp'] at hp
        cases hp
    · intro hleft
      rcases hphase with ⟨t, -, hwaits⟩ | ⟨hnone, -⟩
      · rw [hwaits] at hleft
        cases hleft
      · exact h.doneBefore_of_settled hnone hsettled
  · exact h.tails.concat_set hdone honce
      (fun j d hd hkey => hsettled d (List.mem_of_getElem? hd) hkey)

theorem run (h : SerialInv s) (key : String) (frameBytes : Int)
    (hsettled : isSafeCount frameBytes = true → s.Settled key) :
    SerialInv (s.run key frameBytes).1 := by
  unfold SessionCommandSerialiser.run
  cases hsafe : isSafeCount frameBytes with
  | false => exact h
  | true =>
    have hnonneg : 0 ≤ frameBytes := by
      simp only [isSafeCount, Bool.and_eq_true, decide_eq_true_eq] at hsafe
      exact hsafe.1
    simp only [Bool.not_true, Bool.false_eq_true, if_false]
    cases htail : s.tails.get? key with
    | some t =>
      simp only [h.usage.entry, usageOf_getD]
      split
      · exact h
      · rename_i hcount
        split
        · exact h
        · rename_i hbytes
          have hfit : (bytesOf (queued s.commands key) : Int) + frameBytes ≤ s.maxPendingBytes := by
            omega
          have husage := h.usage.concat_set (c := ⟨key, false, frameBytes.toNat, .waiting t, false⟩)
            rfl rfl (by simp only; omega) (by simp only; omega)
          have hcharge : (frameBytes.toNat : Int) = frameBytes := Int.toNat_of_nonneg hnonneg
          simp only [hcharge] at husage
          exact h.submit (c := ⟨key, false, frameBytes.toNat, .waiting t, false⟩)
            (h.settled_of_tail htail) (.inl ⟨t, htail, rfl⟩) (by simp)
            (h.controls.concat_of_false rfl) husage
    | none =>
      have hbefore := h.doneBefore_of_settled htail (hsettled hsafe)
      have hother : ∀ (j : Nat) (d : SessionCommand), s.commands[j]? = some d → d.key = key →
          holdsSignal d = false := by
        intro j d hd hkey
        have hdone := hbefore j d (lt_length_of_getElem? hd) hd hkey
        unfold holdsSignal
        split <;> simp_all [CommandPhase.isDone]
      have hwaits : ∀ k, waitsOn k ⟨key, false, frameBytes.toNat, .synchronous true, false⟩ = false :=
        fun k => by simp [waitsOn, CommandPhase.isWaiting]
      refine ⟨h.chained.concat (by simp) fun _ => hbefore,
        h.tails.concat_atOnce rfl htail, h.active.concat_set rfl hother,
        h.controls.concat_of_false rfl, h.usage.concat_of_false hwaits,
        h.stack.concat_add (.refl _) rfl, h.started.concat_add (List.perm_append_singleton _ _) rfl, ?_,
        h.kinds_concat ⟨(by simp), (by simp)⟩⟩
      apply (h.ordered_concat _).snoc (getElem?_concat_eq_some.mpr (.inr ⟨rfl, rfl⟩))
      exact fun j hj _ _ _ => h.lt_of_started hj

theorem serialiseControl (h : SerialInv s) (key : String) (hsettled : s.Settled key) :
    SerialInv (s.serialiseControl key).1 := by
  unfold SessionCommandSerialiser.serialiseControl
  cases hget : s.controls.get? key with
  | some existing => exact h
  | none =>
    have hcontrols : ∀ phase : CommandPhase, phase.isDone = false →
        Indexes (s.commands ++ [⟨key, true, 0, phase, false⟩])
          (s.controls.set key s.commands.length) holdsControl := by
      intro phase hdone
      apply h.controls.concat_set (c := ⟨key, true, 0, phase, false⟩)
      · simp [holdsControl, hdone]
      · intro j d hd hkey
        exact h.controls.eq_false_of_none hget hd hkey
    have husage : ∀ phase : CommandPhase, UsageOf (s.commands ++ [⟨key, true, 0, phase, false⟩])
        s.pending s.maxPendingCommands s.maxPendingBytes :=
      fun phase => h.usage.concat_of_false fun k => rfl
    cases htail : s.tails.get? key with
    | some t =>
      exact h.submit (c := ⟨key, true, 0, .waiting t, false⟩) hsettled (.inl ⟨t, htail, rfl⟩)
        (fun _ => rfl) (hcontrols _ rfl) (husage _)
    | none =>
      exact h.submit (c := ⟨key, true, 0, .ready, false⟩) hsettled (.inr ⟨htail, rfl⟩)
        (fun _ => rfl) (hcontrols _ rfl) (husage _)

/-- **Invariance.** Every step that meets the condition keeps the invariant. -/
theorem step (h : SerialInv s) (event : Event) (hevent : s.NoReentry event) :
    SerialInv (s.step event) := by
  cases event with
  | run key frameBytes => exact h.run key frameBytes hevent
  | serialiseControl key => exact h.serialiseControl key hevent
  | cancelActive key => exact h.cancelActive key
  | returns outcome => exact h.returns outcome
  | settle i ok => exact h.settle i ok
  | microtask i => exact h.microtask i

end SerialInv

/-! ## Everything submitted ends -/

/-- What only finishes submitted commands: the synchronous parts return, the promises settle
    with the given outcomes, the microtasks run. -/
def Completes (outcomes : Nat → Bool) : Event → Prop
  | .returns outcome => outcome = none
  | .settle i ok => ok = outcomes i
  | .microtask _ => True
  | _ => False

/-- How many completions a command still needs, at most. -/
def remaining (c : SessionCommand) : Nat :=
  match c.phase with
  | .waiting _ | .ready => 5
  | .synchronous _ => 4
  | .running => 3
  | .settled _ => 2
  | .finished _ => 1
  | .done _ => 0

def totalRemaining (s : SessionCommandSerialiser) : Nat := (s.commands.map remaining).sum

theorem totalRemaining_lt {s' : SessionCommandSerialiser} {i : Nat}
    (phase : CommandPhase) (hcommands : s'.commands = (s.setPhase i phase).commands)
    (hc : s.commands[i]? = some c) (hless : remaining { c with phase } < remaining c) :
    s'.totalRemaining < s.totalRemaining := by
  have hsum := sum_map_modify (g := remaining) (f := ({ · with phase })) hc
  have heq : s'.totalRemaining = ((s.commands.modify i ({ · with phase })).map remaining).sum := by
    rw [totalRemaining, hcommands]
    rfl
  rw [heq]
  show _ < (s.commands.map remaining).sum
  omega

theorem commands_invoke (s : SessionCommandSerialiser) (i : Nat) (c : SessionCommand) :
    (s.invoke i c).commands = (s.setPhase i (.synchronous false)).commands := by
  unfold invoke call releasePending
  split
  · rfl
  · split
    · rfl
    · split <;> rfl

namespace SerialInv

variable {s : SessionCommandSerialiser}

/-- **Progress.** While a command is not done, some completion brings it nearer. -/
theorem progress (h : SerialInv s) (outcomes : Nat → Bool)
    (hleft : ∃ c ∈ s.commands, c.phase.isDone = false) :
    ∃ event, Completes outcomes event ∧ (s.step event).totalRemaining < s.totalRemaining := by
  cases hstack : s.stack with
  | cons i rest =>
    refine ⟨.returns none, rfl, ?_⟩
    obtain ⟨c, hc, hsync⟩ := (h.stack.mem i).mp (by rw [hstack]; exact List.mem_cons_self)
    have hcommands : (s.returns none).commands = (s.setPhase i .running).commands := by
      simp only [SessionCommandSerialiser.returns, hstack, hc]
      split <;> rfl
    apply totalRemaining_lt .running hcommands hc
    unfold isSynchronous at hsync
    split at hsync <;> simp_all [remaining]
  | nil =>
    -- the first command that is not done: what it waits for is done
    have hfirst : ∃ i : Nat, ∃ c : SessionCommand, s.commands[i]? = some c ∧ c.phase.isDone = false := by
      obtain ⟨c, hc, hdone⟩ := hleft
      obtain ⟨i, hi⟩ := List.mem_iff_getElem?.mp hc
      exact ⟨i, c, hi, hdone⟩
    classical
    obtain ⟨c, hc, hdone⟩ := Nat.find_spec hfirst
    have hmin := fun j hj => Nat.find_min (m := j) hfirst hj
    generalize Nat.find hfirst = i at hc hmin
    have hmicrotask : ∀ phase, (s.microtask i).commands = (s.setPhase i phase).commands →
        remaining { c with phase } < remaining c →
        ∃ event, Completes outcomes event ∧ (s.step event).totalRemaining < s.totalRemaining :=
      fun phase hcommands hless => ⟨.microtask i, trivial, totalRemaining_lt phase hcommands hc hless⟩
    cases hphase : c.phase with
    | waiting p =>
      obtain ⟨hp, ⟨d, hd, -⟩, -⟩ := h.chained.previous i c p hc hphase
      have hdoned : d.phase.isDone = true := by
        by_contra hnot
        exact hmin p hp ⟨d, hd, by simpa using hnot⟩
      apply hmicrotask (.synchronous false)
      · simp only [SessionCommandSerialiser.microtask, hstack, hc, hphase, isDone, hd,
          Option.any_some, hdoned, if_true]
        exact commands_invoke s i c
      · simp [remaining, hphase]
    | ready =>
      apply hmicrotask (.synchronous false)
      · simp only [SessionCommandSerialiser.microtask, hstack, hc, hphase]
        exact commands_invoke s i c
      · simp [remaining, hphase]
    | synchronous atOnce =>
      have hmem := (h.stack.mem i).mpr ⟨c, hc, by simp [isSynchronous, hphase]⟩
      rw [hstack] at hmem
      cases hmem
    | running =>
      refine ⟨.settle i (outcomes i), rfl, ?_⟩
      apply totalRemaining_lt (.settled (outcomes i)) ?_ hc
      · simp [remaining, hphase]
      · simp [SessionCommandSerialiser.step, SessionCommandSerialiser.settle, hc, hphase]
    | settled ok =>
      cases hcontrol : c.control with
      | true =>
        apply hmicrotask (.done ok)
        · simp only [SessionCommandSerialiser.microtask, hstack, hc, hphase, hcontrol, if_true]
          rfl
        · simp [remaining, hphase]
      | false =>
        apply hmicrotask (.finished ok)
        · simp only [SessionCommandSerialiser.microtask, hstack, hc, hphase, hcontrol,
            Bool.false_eq_true, if_false]
          rfl
        · simp [remaining, hphase]
    | finished ok =>
      apply hmicrotask (.done ok)
      · simp only [SessionCommandSerialiser.microtask, hstack, hc, hphase]
        rfl
      · simp [remaining, hphase]
    | done ok =>
      rw [hphase] at hdone
      cases hdone

/-- **No command is blocked.** Whatever the outcomes of the commands are, completions alone
    bring every command to its end. -/
theorem drains (h : SerialInv s) (outcomes : Nat → Bool) :
    ∃ events, (∀ event ∈ events, Completes outcomes event) ∧
      ∀ c ∈ (Lib.run SessionCommandSerialiser.step s events).commands, c.phase.isDone = true := by
  generalize hn : s.totalRemaining = n
  induction n using Nat.strongRecOn generalizing s with
  | ind n ih =>
    by_cases hleft : ∃ c ∈ s.commands, c.phase.isDone = false
    · obtain ⟨event, hcompletes, hless⟩ := h.progress outcomes hleft
      have hstep : SerialInv (s.step event) := by
        apply h.step
        cases event with
        | run key frameBytes => exact absurd hcompletes id
        | serialiseControl key => exact absurd hcompletes id
        | _ => trivial
      obtain ⟨events, hevents, hdone⟩ := ih _ (hn ▸ hless) hstep rfl
      refine ⟨event :: events, ?_, hdone⟩
      intro e he
      rcases List.mem_cons.mp he with rfl | he
      · exact hcompletes
      · exact hevents e he
    · refine ⟨[], by simp, ?_⟩
      intro c hc
      by_contra hnot
      exact hleft ⟨c, hc, by simpa using hnot⟩

end SerialInv

/-! ## The contract -/

/-- What the serialiser promises in a state. -/
structure Serialised (s : SessionCommandSerialiser) : Prop where
  /-- At most one command of a key runs. -/
  exclusive : ∀ (i j : Nat) (c d : SessionCommand), s.commands[i]? = some c →
    s.commands[j]? = some d → c.key = d.key → c.phase.isRunning = true →
    d.phase.isRunning = true → i = j
  /-- The commands of a key have been called in the order of their submission. -/
  ordered : ∀ key, (ofKey s.commands key s.started).Pairwise (· < ·)
  /-- The pending usage is that of the queued commands. -/
  usage : ∀ key, (s.pending.get? key).getD ⟨0, 0⟩ =
    ⟨(queued s.commands key).length, bytesOf (queued s.commands key)⟩
  limits : ∀ key, ((s.pending.get? key).getD ⟨0, 0⟩).count ≤ s.maxPendingCommands ∧
    ((s.pending.get? key).getD ⟨0, 0⟩).bytes ≤ s.maxPendingBytes
  /-- No command blocks the later ones, whatever its outcome. -/
  unblocked : ∀ outcomes : Nat → Bool, ∃ events, (∀ event ∈ events, Completes outcomes event) ∧
    ∀ c ∈ (Lib.run step s events).commands, c.phase.isDone = true
  /-- An idle key has no record. -/
  idle : ∀ key, (∀ c ∈ s.commands, c.key = key → c.phase.isDone = true) →
    s.tails.get? key = none ∧ s.active.get? key = none ∧ s.pending.get? key = none ∧
      s.controls.get? key = none

theorem Indexes.eq_none {map : JsMap String Nat}
    {p : SessionCommand → Bool} (h : Indexes cs map p) {key : String}
    (hnone : ∀ c ∈ cs, c.key = key → p c = false) : map.get? key = none := by
  cases hget : map.get? key with
  | none => rfl
  | some i =>
    obtain ⟨c, hc, hkey, hp⟩ := (h key i).mp hget
    rw [hnone c (List.mem_of_getElem? hc) hkey] at hp
    cases hp

theorem SerialInv.serialised (h : SerialInv s) : s.Serialised where
  exclusive := by
    intro i j c d hc hd hkey hcruns hdruns
    have hphase : ∀ phase : CommandPhase, phase.isRunning = true →
        phase.isWaiting = false ∧ phase.isDone = false := by
      intro phase hruns
      cases phase <;> simp_all [CommandPhase.isRunning, CommandPhase.isWaiting, CommandPhase.isDone]
    exact h.chained.unique hc hd hkey (hphase _ hcruns).1 (hphase _ hcruns).2 (hphase _ hdruns).1
      (hphase _ hdruns).2
  ordered := h.ordered
  usage := by
    intro key
    rw [h.usage.entry key]
    exact usageOf_getD _
  limits := by
    intro key
    rw [h.usage.entry key, usageOf_getD]
    have hcount := h.usage.count key
    have hbytes := h.usage.bytes key
    constructor
    · simp only
      omega
    · simp only
      omega
  unblocked := h.drains
  idle := by
    intro key hdone
    refine ⟨?_, h.active.eq_none ?_, ?_, h.controls.eq_none ?_⟩
    · cases htail : s.tails.get? key with
      | none => rfl
      | some t =>
        obtain ⟨c, hc, hkey, hnot, -⟩ := h.tails.tail key t htail
        rw [hdone c (List.mem_of_getElem? hc) hkey] at hnot
        cases hnot
    · intro c hc hkey
      have := hdone c hc hkey
      unfold holdsSignal
      split <;> simp_all [CommandPhase.isDone]
    · have hnil : queued s.commands key = [] := by
        apply List.filter_eq_nil_iff.mpr
        intro c hc hwaits
        simp only [waitsOn, Bool.and_eq_true, decide_eq_true_eq] at hwaits
        have := hdone c hc hwaits.1.2
        cases hphase : c.phase <;>
          simp_all [CommandPhase.isDone, CommandPhase.isWaiting]
      rw [h.usage.entry key, hnil]
      rfl
    · intro c hc hkey
      unfold holdsControl
      rw [hdone c hc hkey]
      exact Bool.and_false _

theorem SerialInv.new {maxPendingCommands maxPendingBytes : Option Int}
    (h : new maxPendingCommands maxPendingBytes = some s) : SerialInv s := by
  unfold SessionCommandSerialiser.new at h
  simp only at h
  split at h
  · cases h
  · split at h
    · cases h
    · cases h
      constructor
      · exact ⟨by simp, by simp⟩
      · exact ⟨by simp, by simp, by simp⟩
      · intro key i
        simp
      · intro key i
        simp
      · refine ⟨fun key => rfl, fun key => Nat.zero_le _, fun key => Nat.zero_le _⟩
      · exact ⟨by simp, List.nodup_nil⟩
      · exact ⟨by simp, List.nodup_nil⟩
      · intro key
        exact List.Pairwise.nil
      · intro c hc
        cases hc

/-- **The serialiser's contract.** While no command is submitted for a key from the
    synchronous part of a command that `run` has called at once on that key, every state of
    every run has what the serialiser promises. -/
theorem commands_serialised {maxPendingCommands maxPendingBytes : Option Int}
    {s : SessionCommandSerialiser} (hnew : new maxPendingCommands maxPendingBytes = some s)
    (events : List Event) (hevents : Along step NoReentry s events) :
    Always step Serialised s events :=
  (always_of_along (I := SerialInv) (fun _ event h hevent => h.step event hevent)
    (SerialInv.new hnew) hevents).mono fun _ h => h.serialised

/-- A command that fails, one behind it that is cancelled, and a control callback. -/
def mixedCommands : List Event :=
  [.run "s" 10, .returns none, .run "s" 20, .serialiseControl "s", .settle 0 false, .microtask 0,
    .microtask 0, .microtask 1, .returns none, .cancelActive "s", .settle 1 false, .microtask 1,
    .microtask 1, .microtask 2]

theorem commands_serialised_mixed :
    Always step Serialised ⟨64, 67108864, [], [], [], [], [], [], []⟩ mixedCommands :=
  commands_serialised (show new none none = some _ from rfl) _ (by decide)

/-- The first command submits another one before its call has returned: both run. -/
theorem reentrant_command_overlaps :
    ¬ Always step Serialised ⟨64, 67108864, [], [], [], [], [], [], []⟩ [.run "s" 10, .run "s" 20] := by
  intro h
  have hexclusive := h.last.exclusive 0 1 ⟨"s", false, 10, .synchronous true, false⟩
    ⟨"s", false, 20, .synchronous true, false⟩ (by decide) (by decide) rfl rfl rfl
  cases hexclusive

end Bobbit.Server.SessionCommandSerialiser
