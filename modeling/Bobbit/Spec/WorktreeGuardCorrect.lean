import Bobbit.Server.WorktreeReferenceGuard

/-!
# Worktrees in use

Which worktrees the guard lets go. Two paths are the same directory when they resolve to one
path but for case; the guard compares texts instead, and resolves only what has a dot segment
or a short name.

## Key results
- `identityMatches_of_names`: resolved paths are compared rightly, unless the candidate is the root
  or ends in white space.
- `protects_iff`: when no worktree in use is let go.
- `doubled_slash_missed`: a `cwd` with two slashes in a row, and a worktree that is let go.
-/

namespace Bobbit.Server.WorktreeGuard

open Lib Lib.JsString

/-! ## Trailing separators -/

/-- A text without its trailing slashes. -/
def stripped (s : JsString) : JsString := (stripSlashes s.reverse).reverse

variable {s : JsString}

theorem stripped_slash (hs : s ≠ []) : stripped (s ++ [slash]) = stripped s := by
  obtain ⟨d, rest, hrev⟩ := List.exists_cons_of_ne_nil (List.reverse_ne_nil_iff.mpr hs)
  rw [stripped, List.reverse_append, List.reverse_singleton, List.singleton_append, hrev,
    stripSlashes, if_pos rfl, ← hrev, stripped]

theorem stripped_concat {c : UInt16} (hc : c ≠ slash) (s : JsString) :
    stripped (s ++ [c]) = s ++ [c] := by
  rw [stripped, List.reverse_append, List.reverse_singleton, List.singleton_append]
  cases hrev : s.reverse with
  | nil => simpa [stripSlashes] using (List.reverse_eq_nil_iff.mp hrev).symm
  | cons d rest => rw [stripSlashes, if_neg hc, ← hrev, List.reverse_cons, List.reverse_reverse]

theorem exists_stripped_append (s : JsString) :
    ∃ k, s = stripped s ++ List.replicate k slash := by
  induction s using List.reverseRecOn with
  | nil => exact ⟨0, rfl⟩
  | append_singleton s c ih =>
    by_cases hc : c = slash
    · subst hc
      by_cases hs : s = []
      · subst hs
        exact ⟨0, rfl⟩
      · obtain ⟨k, hk⟩ := ih
        refine ⟨k + 1, ?_⟩
        rw [stripped_slash hs, List.replicate_succ', ← List.append_assoc, ← hk]
    · exact ⟨0, by rw [stripped_concat hc, List.replicate_zero, List.append_nil]⟩

theorem stripped_ne_nil (hs : s ≠ []) : stripped s ≠ [] := by
  induction s using List.reverseRecOn with
  | nil => exact absurd rfl hs
  | append_singleton s c ih =>
    by_cases hc : c = slash
    · subst hc
      by_cases hnil : s = []
      · subst hnil
        decide
      · rw [stripped_slash hnil]
        exact ih hnil
    · rw [stripped_concat hc]
      exact List.append_ne_nil_of_right_ne_nil _ (List.cons_ne_nil _ _)

/-- A text that goes on after a slash is stripped down to what comes before, or goes on. -/
theorem stripped_append_slash (hs : s ≠ []) (rest : JsString) :
    stripped (s ++ slash :: rest) = stripped s ∨
      ∃ rest', stripped (s ++ slash :: rest) = s ++ slash :: rest' := by
  induction rest using List.reverseRecOn with
  | nil => exact .inl (stripped_slash hs)
  | append_singleton rest c ih =>
    have hassoc : s ++ slash :: (rest ++ [c]) = (s ++ slash :: rest) ++ [c] := by simp
    by_cases hc : c = slash
    · subst hc
      rw [hassoc, stripped_slash (by simp)]
      exact ih
    · right
      exact ⟨rest ++ [c], by rw [hassoc, stripped_concat hc]⟩

theorem sameOrChild_stripped (hs : s ≠ []) (rest : JsString) :
    isSameOrChildPath (stripped s) (stripped (s ++ slash :: rest)) = true := by
  rw [isSameOrChildPath, Bool.or_eq_true, beq_iff_eq, List.isPrefixOf_iff_prefix]
  rcases stripped_append_slash hs rest with heq | ⟨rest', heq⟩
  · exact .inl heq
  · right
    obtain ⟨k, hk⟩ := exists_stripped_append s
    rw [heq]
    conv => rhs; rw [hk]
    cases k with
    | zero => exact ⟨rest', by simp⟩
    | succ k => exact ⟨List.replicate k slash ++ slash :: rest', by simp [List.replicate_succ]⟩

/-! ## White space and case -/

theorem isTrimmed_slash : isTrimmed slash = false := by decide

theorem isTrimmed_backslash : isTrimmed backslash = false := by decide

theorem trim_eq_self (hfirst : s.head?.any isTrimmed = false)
    (hlast : s.getLast?.any isTrimmed = false) : trim s = s := by
  have hfront : s.dropWhile isTrimmed = s := by
    cases s with
    | nil => rfl
    | cons c rest => exact List.dropWhile_cons_of_neg (by simpa using hfirst)
  rw [trim, hfront, List.rdropWhile_eq_self_iff]
  intro hne
  rw [List.getLast?_eq_getLast_of_ne_nil hne] at hlast
  simpa using hlast

theorem head_of_trim_eq_self (h : trim s = s) : s.head?.any isTrimmed = false := by
  cases s with
  | nil => rfl
  | cons c rest =>
    cases hc : isTrimmed c with
    | false => simpa using hc
    | true =>
      -- the first unit would be dropped
      have hle : (trim (c :: rest)).length ≤ rest.length := by
        rw [trim, List.dropWhile_cons_of_pos hc]
        exact (List.rdropWhile_prefix _ _).length_le.trans (List.dropWhile_suffix _).length_le
      rw [h, List.length_cons] at hle
      omega

theorem trim_append (hs : s ≠ []) (hfirst : s.head?.any isTrimmed = false)
    {sep : UInt16} (hsep : isTrimmed sep = false) (rest : JsString) :
    trim (s ++ sep :: rest) = s ++ sep :: rest.rdropWhile isTrimmed := by
  obtain ⟨c, s, rfl⟩ := List.exists_cons_of_ne_nil hs
  rw [trim, List.cons_append, List.dropWhile_cons_of_neg (by simpa using hfirst),
    ← List.cons_append]
  induction rest using List.reverseRecOn with
  | nil => rw [List.rdropWhile_concat_neg _ _ _ (by simpa using hsep), List.rdropWhile_nil]
  | append_singleton rest d ih =>
    have hassoc : c :: s ++ sep :: (rest ++ [d]) = (c :: s ++ sep :: rest) ++ [d] := by simp
    rw [hassoc, List.rdropWhile_concat, List.rdropWhile_concat]
    split
    · exact ih
    · exact hassoc.symm

theorem forwardSlashes_append (s t : JsString) :
    forwardSlashes (s ++ t) = forwardSlashes s ++ forwardSlashes t := List.map_append

theorem forwardSlashes_eq_nil (s : JsString) : forwardSlashes s = [] ↔ s = [] := List.map_eq_nil_iff

variable (host : Host)

/-- A text that does not end in a slash does not so without case. -/
theorem getLast?_toLowerCase (h : s.getLast? ≠ some slash) :
    (host.toLowerCase s).getLast? ≠ some slash := by
  intro hlower
  have hmem := host.slash_mem s (List.mem_of_getLast? hlower)
  obtain ⟨after, before, heq, hnew⟩ := List.eq_append_cons_of_mem (List.mem_reverse.mpr hmem)
  obtain rfl : s = before.reverse ++ slash :: after.reverse := by
    rw [← List.reverse_reverse s, heq]
    simp
  have hafter : after.reverse ≠ [] := by
    intro hnil
    exact h (by rw [hnil]; simp)
  rw [host.append_slash, List.getLast?_append_cons, List.getLast?_cons_of_ne_nil
    fun hnil => hafter ((host.eq_nil _).mp hnil)] at hlower
  exact hnew (List.mem_reverse.mp (host.slash_mem _ (List.mem_of_getLast? hlower)))

theorem toLowerCase_slash (s : JsString) :
    host.toLowerCase (s ++ [slash]) = host.toLowerCase s ++ [slash] := by
  rw [host.append_slash, (host.eq_nil []).mpr rfl]

theorem toLowerCase_stripped (s : JsString) :
    host.toLowerCase (stripped s) = stripped (host.toLowerCase s) := by
  induction s using List.reverseRecOn with
  | nil =>
    rw [(host.eq_nil []).mpr rfl]
    exact (host.eq_nil []).mpr rfl
  | append_singleton s c ih =>
    by_cases hc : c = slash
    · subst hc
      by_cases hs : s = []
      · subst hs
        have hone := toLowerCase_slash host []
        rw [(host.eq_nil []).mpr rfl] at hone
        rw [hone]
        exact hone
      · rw [stripped_slash hs, toLowerCase_slash, ih,
          stripped_slash fun hnil => hs ((host.eq_nil s).mp hnil)]
    · have hlast := getLast?_toLowerCase host (s := s ++ [c]) (by simpa using hc)
      have hne : host.toLowerCase (s ++ [c]) ≠ [] := fun hnil => by
        simpa using (host.eq_nil _).mp hnil
      obtain ⟨t, d, heq⟩ := (List.eq_nil_or_concat _).resolve_left hne
      rw [List.concat_eq_append] at heq
      rw [heq] at hlast
      rw [stripped_concat hc, heq, stripped_concat (by simpa using hlast)]

/-! ## Compared texts -/

def comparedText (p : JsString) : JsString := stripped (forwardSlashes (trim (host.toLowerCase p)))

theorem normalize_eq (p : JsString) :
    normalizeWorktreeHostPath host (some p) = given (some (comparedText host p)) := by
  have htext : host.toLowerCase (stripped (forwardSlashes (trim p))) = comparedText host p := by
    rw [toLowerCase_stripped, host.forwardSlashes, host.trim, comparedText]
  by_cases hp : p = []
  · subst hp
    have hnil : comparedText host [] = [] := by
      rw [← htext]
      exact (host.eq_nil []).mpr rfl
    rw [hnil]
    rfl
  · have hgiven : given (some p) = some p := by simp [given, hp]
    rw [normalizeWorktreeHostPath, hgiven]
    dsimp only
    split
    · rename_i hnil
      have hnone : comparedText host p = [] := by
        rw [← htext]
        exact (host.eq_nil _).mpr hnil
      rw [hnone]
      rfl
    · rename_i hsome
      have hne : comparedText host p ≠ [] := fun hnil =>
        hsome ((host.eq_nil _).mp (htext.trans hnil))
      rw [given, Option.filter_some, if_pos (by simpa using hne), ← htext, stripped]

/-! ## Directories -/

def Host.sep : UInt16 := if host.win32 then backslash else slash

/-- A resolved path without the separator that a root ends in. -/
def Host.bare (p : JsString) : JsString := if p.getLast? = some host.sep then p.dropLast else p

/-- Two resolved paths of one directory. -/
def Host.SameDirectory (p q : JsString) : Prop := host.toLowerCase q = host.toLowerCase p

/-- A resolved path below another one. -/
def Host.Beneath (p q : JsString) : Prop :=
  ∃ rest, host.toLowerCase q = host.toLowerCase (host.bare p) ++ host.sep :: rest

/-- A reference that the candidate's removal would break. -/
def Host.Names (candidate : JsString) (reference : Reference) : Prop :=
  host.SameDirectory (host.resolve candidate) (host.resolve reference.path) ∨
    reference.descendant = true ∧
      host.Beneath (host.resolve candidate) (host.resolve reference.path)

/-- `path.resolve` gives an absolute path, which does not begin with white space. -/
def Host.ResolvesToRoot : Prop := ∀ p, ∃ c ∈ (host.resolve p).head?, isTrimmed c = false

/-- Without symbolic links a real path differs from the resolved one by case only. -/
def Host.NoSymbolicLinks : Prop :=
  ∀ p q, host.realpathNative p = some q → host.SameDirectory p q

/-- A resolved path that is not the root of all and does not end in white space. -/
def Host.EndsPlainly (p : JsString) : Prop :=
  host.bare p ≠ [] ∧ (host.bare p).getLast?.any isTrimmed = false

theorem Host.isTrimmed_sep : isTrimmed host.sep = false := by
  unfold sep
  split
  · exact isTrimmed_backslash
  · exact isTrimmed_slash

theorem Host.forwardSlashes_sep (rest : JsString) :
    WorktreeGuard.forwardSlashes (host.sep :: rest) =
      slash :: WorktreeGuard.forwardSlashes rest := by
  unfold sep
  split <;> rfl

theorem Host.bare_eq (p : JsString) : p = host.bare p ∨ p = host.bare p ++ [host.sep] := by
  unfold bare
  split
  · rename_i hlast
    exact .inr (List.dropLast_append_getLast? _ hlast).symm
  · exact .inl rfl

variable {host}

theorem Host.EndsPlainly.comparedText {p : JsString} (h : host.EndsPlainly p)
    (hfirst : p.head?.any isTrimmed = false) :
    comparedText host p = stripped (forwardSlashes (host.toLowerCase (host.bare p))) := by
  have hne : forwardSlashes (host.toLowerCase (host.bare p)) ≠ [] := fun hnil =>
    h.1 ((host.eq_nil _).mp ((forwardSlashes_eq_nil _).mp hnil))
  have htrim : trim p = p := by
    refine trim_eq_self hfirst ?_
    rcases host.bare_eq p with heq | heq
    · rw [heq]
      exact h.2
    · rw [heq, List.getLast?_concat]
      exact host.isTrimmed_sep
  rw [WorktreeGuard.comparedText, ← host.trim, htrim]
  rcases host.bare_eq p with heq | heq
  · rw [← heq]
  · conv => lhs; rw [heq]
    rw [← host.forwardSlashes, forwardSlashes_append, host.forwardSlashes_sep]
    have hmap : WorktreeGuard.forwardSlashes [] = [] := rfl
    rw [hmap, toLowerCase_slash, host.forwardSlashes, stripped_slash hne]

theorem sameOrChild_of_beneath {p q : JsString} (h : host.EndsPlainly p)
    (hfirst : p.head?.any isTrimmed = false) (hbeneath : host.Beneath p q) :
    isSameOrChildPath (comparedText host p) (comparedText host q) = true := by
  obtain ⟨rest, hq⟩ := hbeneath
  have hfront : (host.bare p).head?.any isTrimmed = false := by
    rcases host.bare_eq p with heq | heq
    · rw [← heq]
      exact hfirst
    · obtain ⟨c, b, hb⟩ := List.exists_cons_of_ne_nil h.1
      rw [heq, hb] at hfirst
      rw [hb]
      exact hfirst
  have hlower : host.toLowerCase (host.bare p) ≠ [] := fun hnil => h.1 ((host.eq_nil _).mp hnil)
  have hhead : (host.toLowerCase (host.bare p)).head?.any isTrimmed = false := by
    refine head_of_trim_eq_self ?_
    rw [← host.trim, trim_eq_self hfront h.2]
  have htext : comparedText host q =
      stripped (forwardSlashes (host.toLowerCase (host.bare p)) ++
        slash :: forwardSlashes (rest.rdropWhile isTrimmed)) := by
    rw [comparedText, hq, trim_append hlower hhead host.isTrimmed_sep, forwardSlashes_append,
      host.forwardSlashes_sep]
  rw [h.comparedText hfirst, htext]
  exact sameOrChild_stripped (fun hnil => hlower ((forwardSlashes_eq_nil _).mp hnil)) _

theorem comparedText_ne_nil {p : JsString} (h : ∃ c ∈ p.head?, isTrimmed c = false) :
    comparedText host p ≠ [] := by
  obtain ⟨c, hc, htrimmed⟩ := h
  obtain ⟨rest, rfl⟩ : ∃ rest, p = c :: rest := by
    cases p with
    | nil => cases hc
    | cons d rest => exact ⟨rest, by rw [Option.some.inj hc]⟩
  refine stripped_ne_nil fun hnil => ?_
  rw [forwardSlashes_eq_nil, ← host.trim, host.eq_nil, trim,
    List.dropWhile_cons_of_neg (by simp [htrimmed]), List.rdropWhile_eq_nil_iff] at hnil
  simpa [htrimmed] using hnil c List.mem_cons_self

theorem normalize_resolve (hroot : host.ResolvesToRoot) (p : JsString) :
    normalizeWorktreeHostPath host (some (host.resolve p)) =
      some (comparedText host (host.resolve p)) := by
  rw [normalize_eq, given, Option.filter_some,
    if_pos (by simpa using comparedText_ne_nil (hroot p))]

variable {candidate : JsString}

/-- Resolved paths are compared rightly, unless the candidate is the root or ends in white
    space. -/
theorem identityMatches_of_names (hroot : host.ResolvesToRoot)
    {reference : Reference} (hnames : host.Names candidate reference)
    (hplain : host.SameDirectory (host.resolve candidate) (host.resolve reference.path) ∨
      host.EndsPlainly (host.resolve candidate)) :
    identityMatches reference.descendant (comparedText host (host.resolve candidate))
      (comparedText host (host.resolve reference.path)) = true := by
  have hsame (h : host.SameDirectory (host.resolve candidate) (host.resolve reference.path)) :
      identityMatches reference.descendant (comparedText host (host.resolve candidate))
        (comparedText host (host.resolve reference.path)) = true := by
    have heq : comparedText host (host.resolve reference.path) =
        comparedText host (host.resolve candidate) := by rw [comparedText, h, ← comparedText]
    rw [heq, identityMatches]
    split
    · simp [isSameOrChildPath]
    · simp
  rcases hplain with h | hplain
  · exact hsame h
  · rcases hnames with h | ⟨hdescendant, hbeneath⟩
    · exact hsame h
    · obtain ⟨c, hc, htrimmed⟩ := hroot candidate
      rw [identityMatches, if_pos hdescendant]
      refine sameOrChild_of_beneath hplain ?_ hbeneath
      rw [Option.mem_def.mp hc]
      simpa using htrimmed

/-! ## The guard -/

variable (host)

/-- A reference that is resolved, for itself or for the candidate. -/
def Host.Aliased (candidate : JsString) (reference : Reference) : Prop :=
  hasExplicitAliasEvidence host candidate = true ∨
    hasExplicitAliasEvidence host reference.path = true

/-- Resolving changes nothing that the comparison of texts sees. -/
def Host.Settled (p : JsString) : Prop :=
  normalizeWorktreeHostPath host (some (host.resolve p)) = normalizeWorktreeHostPath host (some p)

/-- A reference whose identity is the candidate's, or below it, or is not known. -/
def Host.Identified (candidate : JsString) (reference : Reference) : Prop :=
  ∀ identity ∈ cleanupIdentity host candidate,
    ∀ referenceIdentity ∈ cleanupIdentity host reference.path,
      identityMatches reference.descendant identity referenceIdentity = true

theorem compareIdentities_iff (candidate : JsString) {known : Option JsString}
    (hknown : ∀ identity ∈ known, cleanupIdentity host candidate = some identity)
    (refs : List Reference) :
    compareIdentities host candidate known refs = true ↔
      ∃ reference ∈ refs,
        host.Aliased candidate reference ∧ host.Identified candidate reference := by
  induction refs generalizing known with
  | nil => simp [compareIdentities]
  | cons reference rest ih =>
    have hidentity :
        (known <|> cleanupIdentity host candidate) = cleanupIdentity host candidate := by
      cases known with
      | none => rfl
      | some identity => exact (hknown identity rfl).symm
    rw [compareIdentities, hidentity]
    simp only [List.exists_mem_cons_iff]
    split
    · rename_i hplain
      have hnot : ¬ host.Aliased candidate reference := by
        simp only [Bool.and_eq_true, Bool.not_eq_true'] at hplain
        simp [Host.Aliased, hplain]
      rw [ih hknown]
      simp [hnot]
    · rename_i halias
      have haliased : host.Aliased candidate reference := by
        simp only [Bool.and_eq_true, Bool.not_eq_true', not_and_or, Bool.not_eq_false] at halias
        exact halias
      cases hc : cleanupIdentity host candidate with
      | none => simp [haliased, Host.Identified, hc]
      | some identity =>
        cases hr : cleanupIdentity host reference.path with
        | none => simp [haliased, Host.Identified, hr]
        | some referenceIdentity =>
          have hid : host.Identified candidate reference ↔
              identityMatches reference.descendant identity referenceIdentity = true := by
            simp [Host.Identified, hc, hr]
          dsimp only
          split
          · rename_i hmatch
            simp [haliased, hid.mpr hmatch]
          · rename_i hmatch
            rw [ih (fun known hknown => by rw [hc, Option.mem_def.mp hknown])]
            simp [hid, hmatch]

/-- A reference whose text is the candidate's, or below it, is found as text. -/
theorem referenced_of_text {text : JsString}
    (hcandidate : normalizeWorktreeHostPath host (some candidate) = some text)
    {records : List WorktreeReferenceRecord} {reference : Reference}
    (hmem : reference ∈ references records) {referenceText : JsString}
    (href : normalizeWorktreeHostPath host (some reference.path) = some referenceText)
    (hmatch : identityMatches reference.descendant text referenceText = true) :
    isWorktreePathReferencedByLiveSession host (some candidate) records = true := by
  have hgiven {p : Option JsString} {path : JsString} (h : given p = some path) :
      p = some path := (Option.filter_eq_some_iff.mp h).1
  obtain ⟨session, hsession, hmem⟩ := List.mem_flatMap.mp hmem
  rw [isWorktreePathReferencedByLiveSession, hcandidate]
  refine List.any_eq_true.mpr ⟨session, hsession, ?_⟩
  simp only [Bool.or_eq_true, beq_iff_eq]
  rcases List.mem_append.mp hmem with hmem | hmem
  · rcases List.mem_append.mp hmem with hmem | hmem
    · obtain ⟨path, hpath, rfl⟩ := Option.map_eq_some_iff.mp (Option.mem_toList.mp hmem)
      left; left
      rw [hgiven hpath, href, ← beq_iff_eq.mp hmatch]
    · obtain ⟨path, hpath, rfl⟩ := Option.map_eq_some_iff.mp (Option.mem_toList.mp hmem)
      left; right
      rw [hgiven hpath, href]
      exact hmatch
  · obtain ⟨wt, hwt, hentry⟩ := List.mem_filterMap.mp hmem
    obtain ⟨path, hpath, rfl⟩ := Option.map_eq_some_iff.mp hentry
    right
    refine List.any_eq_true.mpr ⟨wt, hwt, ?_⟩
    rw [hgiven hpath, href, ← beq_iff_eq.mp hmatch, beq_self_eq_true]

/-- Without symbolic links an identity is the compared text of the resolved path. -/
theorem mem_cleanupIdentity (hroot : host.ResolvesToRoot) (hlinks : host.NoSymbolicLinks)
    (p : JsString) :
    ∀ identity ∈ cleanupIdentity host p, identity = comparedText host (host.resolve p) := by
  intro identity hidentity
  rw [cleanupIdentity] at hidentity
  split at hidentity
  · rw [normalize_resolve hroot] at hidentity
    exact (Option.some.inj hidentity).symm
  · cases hreal : host.realpathNative (host.resolve p) with
    | none =>
      rw [hreal] at hidentity
      cases hidentity
    | some q =>
      have hsame := hlinks _ _ hreal
      rw [hreal, normalize_eq, comparedText, hsame, ← comparedText] at hidentity
      exact (Option.some.inj (Option.filter_eq_some_iff.mp hidentity).1).symm

/-- A reference that names the candidate in one of the ways that the guard knows. -/
def Host.Recognised (candidate : JsString) (reference : Reference) : Prop :=
  (host.SameDirectory (host.resolve candidate) (host.resolve reference.path) ∨
      host.EndsPlainly (host.resolve candidate)) ∧
    (host.Aliased candidate reference ∨ host.Settled candidate ∧ host.Settled reference.path)

/-- The guard lets a worktree go only if no live reference names it. -/
def Host.Protects (candidatePath : Option JsString)
    (sessions : List (Option WorktreeReferenceRecord)) (ignoreSessionId : Option String) : Prop :=
  isWorktreePathReferencedByLiveSessionForCleanup host candidatePath sessions ignoreSessionId =
      false →
    ∀ candidate ∈ given candidatePath,
      ∀ reference ∈ references (liveRecords sessions ignoreSessionId),
        ¬ host.Names candidate reference

/-- The guard answers by the texts, and then by the identities. -/
theorem referencedForCleanup_iff {candidatePath : Option JsString}
    (hcandidate : given candidatePath = some candidate)
    (sessions : List (Option WorktreeReferenceRecord)) (ignoreSessionId : Option String) :
    isWorktreePathReferencedByLiveSessionForCleanup host candidatePath sessions ignoreSessionId =
        true ↔
      isWorktreePathReferencedByLiveSession host (some candidate)
          (liveRecords sessions ignoreSessionId) = true ∨
        ∃ reference ∈ references (liveRecords sessions ignoreSessionId),
          host.Aliased candidate reference ∧ host.Identified candidate reference := by
  rw [isWorktreePathReferencedByLiveSessionForCleanup, hcandidate]
  dsimp only
  have hunknown : ∀ identity ∈ (none : Option JsString),
      cleanupIdentity host candidate = some identity := by
    intro identity hnone
    cases hnone
  rw [← compareIdentities_iff host candidate hunknown]
  split
  · rename_i hempty
    rw [List.isEmpty_iff.mp hempty]
    have htext : isWorktreePathReferencedByLiveSession host (some candidate) [] = false := by
      unfold isWorktreePathReferencedByLiveSession
      split <;> rfl
    rw [htext]
    exact iff_of_false (by decide) (by rintro (h | h) <;> cases h)
  · split
    · rename_i htext
      simp [htext]
    · rename_i htext
      simp [htext]

/-- **Worktrees in use.** No worktree in use is let go, iff the text or the identity of some
    live reference is the candidate's or below it, or is not known, or every live reference
    that names the candidate does so in a way that the guard knows. -/
theorem protects_iff (hroot : host.ResolvesToRoot) (hlinks : host.NoSymbolicLinks)
    (candidatePath : Option JsString) (sessions : List (Option WorktreeReferenceRecord))
    (ignoreSessionId : Option String) :
    host.Protects candidatePath sessions ignoreSessionId ↔
      ∀ candidate ∈ given candidatePath,
        isWorktreePathReferencedByLiveSession host (some candidate)
            (liveRecords sessions ignoreSessionId) = true ∨
          (∃ reference ∈ references (liveRecords sessions ignoreSessionId),
            host.Aliased candidate reference ∧ host.Identified candidate reference) ∨
          ∀ reference ∈ references (liveRecords sessions ignoreSessionId),
            host.Names candidate reference → host.Recognised candidate reference := by
  constructor
  · intro h candidate hcandidate
    rw [← or_assoc, ← referencedForCleanup_iff host hcandidate]
    by_cases hresult : isWorktreePathReferencedByLiveSessionForCleanup host candidatePath sessions
        ignoreSessionId = true
    · exact .inl hresult
    · right
      intro reference hmem hnames
      exact absurd hnames
        (h (Bool.eq_false_iff.mpr hresult) candidate hcandidate reference hmem)
  · intro h hresult candidate hcandidate reference hmem hnames
    have hseen := h candidate hcandidate
    rw [← or_assoc, ← referencedForCleanup_iff host hcandidate, hresult] at hseen
    obtain ⟨hplain, hrecognised⟩ := (hseen.resolve_left (by decide)) reference hmem hnames
    have hmatch := identityMatches_of_names hroot hnames hplain
    -- the reference is found after all
    have hfound := (referencedForCleanup_iff host hcandidate sessions ignoreSessionId).mpr
    rw [hresult] at hfound
    refine absurd (hfound ?_) (by decide)
    rcases hrecognised with haliased | ⟨hsettled, hreference⟩
    · right
      refine ⟨reference, hmem, haliased, fun identity hidentity other hother => ?_⟩
      rw [mem_cleanupIdentity host hroot hlinks _ identity hidentity,
        mem_cleanupIdentity host hroot hlinks _ other hother]
      exact hmatch
    · left
      exact referenced_of_text host (hsettled.symm.trans (normalize_resolve hroot candidate)) hmem
        (hreference.symm.trans (normalize_resolve hroot reference.path)) hmatch

/-! ## A missed reference -/

/-- `toLowerCase`, of ASCII letters. -/
def asciiLower (c : UInt16) : UInt16 := if 0x41 ≤ c ∧ c ≤ 0x5A then c + 0x20 else c

theorem asciiLower_cases (c : UInt16) :
    asciiLower c = c ∨ (0x61 ≤ (asciiLower c).toNat ∧ (asciiLower c).toNat ≤ 0x7A) ∧
      0x41 ≤ c.toNat ∧ c.toNat ≤ 0x5A := by
  unfold asciiLower
  split
  · rename_i h
    rw [UInt16.le_iff_toNat_le, UInt16.le_iff_toNat_le] at h
    right
    rw [UInt16.toNat_add]
    simp at h ⊢
    omega
  · exact .inl rfl

theorem asciiLower_eq_iff {d : UInt16} (hd : d = slash ∨ d = backslash) (c : UInt16) :
    asciiLower c = d ↔ c = d := by
  have hletter {x : UInt16} (h : x = d) (hle : 0x41 ≤ x.toNat ∧ x.toNat ≤ 0x5A ∨ 0x61 ≤ x.toNat) :
      False := by
    subst h
    rcases hd with rfl | rfl <;> revert hle <;> decide
  rcases asciiLower_cases c with heq | ⟨hlower, hupper⟩
  · rw [heq]
  · exact iff_of_false (fun h => hletter h (.inr hlower.1)) (fun h => hletter h (.inl hupper))

theorem isTrimmed_asciiLower (c : UInt16) : isTrimmed (asciiLower c) = isTrimmed c := by
  have hletter {x : UInt16}
      (h : 0x41 ≤ x.toNat ∧ x.toNat ≤ 0x5A ∨ 0x61 ≤ x.toNat ∧ x.toNat ≤ 0x7A) :
      isTrimmed x = false := by
    simp [isTrimmed, ← UInt16.toNat_inj, UInt16.le_iff_toNat_le]
    omega
  rcases asciiLower_cases c with heq | ⟨hlower, hupper⟩
  · rw [heq]
  · rw [hletter (.inr hlower), hletter (.inl hupper)]

theorem forwardSlashes_asciiLower (s : JsString) :
    (forwardSlashes s).map asciiLower = forwardSlashes (s.map asciiLower) := by
  rw [forwardSlashes, forwardSlashes, List.map_map, List.map_map]
  refine List.map_congr_left fun c _ => ?_
  simp only [Function.comp_apply, asciiLower_eq_iff (.inr rfl) c]
  split
  · rfl
  · rfl

theorem trim_asciiLower (s : JsString) : (trim s).map asciiLower = trim (s.map asciiLower) := by
  have hdrop (t : JsString) :
      (t.map asciiLower).dropWhile isTrimmed = (t.dropWhile isTrimmed).map asciiLower := by
    rw [List.dropWhile_map]
    congr 2
    exact funext isTrimmed_asciiLower
  rw [trim, trim, List.rdropWhile, List.rdropWhile, hdrop, ← List.map_reverse, hdrop,
    List.map_reverse]

def asciiCase : CaseMap where
  toLowerCase s := s.map asciiLower
  eq_nil _ := List.map_eq_nil_iff
  append_slash _ _ := List.map_append
  slash_mem s h := by
    obtain ⟨c, hc, heq⟩ := List.mem_map.mp h
    rwa [← (asciiLower_eq_iff (.inl rfl) c).mp heq]
  forwardSlashes := forwardSlashes_asciiLower
  trim := trim_asciiLower

/-- The segments that a path resolves to; those so far come in reverse. -/
def resolveSegments : List JsString → List JsString → List JsString
  | resolved, [] => resolved.reverse
  | resolved, segment :: rest =>
    if segment = [] ∨ segment = js "." then resolveSegments resolved rest
    else if segment = js ".." then resolveSegments resolved.tail rest
    else resolveSegments (segment :: resolved) rest

/-- A POSIX host with a working directory and no symbolic links. -/
def posixHost (cwd : JsString) : Host where
  toCaseMap := asciiCase
  win32 := false
  resolve p :=
    let absolute := if p.head? = some slash then p else cwd ++ slash :: p
    slash :: [slash].intercalate (resolveSegments [] (absolute.splitOn slash))
  realpathNative := some

def sessionIn (cwd : String) : WorktreeReferenceRecord where
  id := some "s"
  archived := false
  worktreePath := none
  cwd := some (js cwd)
  repoWorktrees := []

/-- The guard on a session that has a dot segment in its path. -/
theorem dot_segment_protected :
    (posixHost (js "/home")).ResolvesToRoot ∧ (posixHost (js "/home")).NoSymbolicLinks ∧
      ((posixHost (js "/home")).Protects (some (js "/wt/a"))
          [some (sessionIn "/wt/b/../a/src")] none ↔
        ∀ candidate ∈ given (some (js "/wt/a")),
          isWorktreePathReferencedByLiveSession (posixHost (js "/home")) (some candidate)
              (liveRecords [some (sessionIn "/wt/b/../a/src")] none) = true ∨
            (∃ reference ∈ references (liveRecords [some (sessionIn "/wt/b/../a/src")] none),
              (posixHost (js "/home")).Aliased candidate reference ∧
                (posixHost (js "/home")).Identified candidate reference) ∨
            ∀ reference ∈ references (liveRecords [some (sessionIn "/wt/b/../a/src")] none),
              (posixHost (js "/home")).Names candidate reference →
                (posixHost (js "/home")).Recognised candidate reference) := by
  have hroot : (posixHost (js "/home")).ResolvesToRoot := fun p => ⟨slash, rfl, by decide⟩
  have hlinks : (posixHost (js "/home")).NoSymbolicLinks := by
    intro p q hreal
    rw [Option.some.inj hreal]
    rfl
  exact ⟨hroot, hlinks, protects_iff (posixHost (js "/home")) hroot hlinks (some (js "/wt/a"))
    [some (sessionIn "/wt/b/../a/src")] none⟩

/-- Two slashes in a row: the session's directory is below the candidate, which is let go. -/
theorem doubled_slash_missed :
    ¬ (posixHost (js "/home")).Protects (some (js "/wt/a"))
      [some (sessionIn "/wt//a/src")] none := by
  intro h
  have hfalse : isWorktreePathReferencedByLiveSessionForCleanup (posixHost (js "/home"))
      (some (js "/wt/a")) [some (sessionIn "/wt//a/src")] none = false := by decide +kernel
  have hnames : (posixHost (js "/home")).Names (js "/wt/a") ⟨js "/wt//a/src", true⟩ :=
    .inr ⟨rfl, js "src", by decide +kernel⟩
  exact h hfalse (js "/wt/a") (by decide) ⟨js "/wt//a/src", true⟩ (by decide) hnames

end Bobbit.Server.WorktreeGuard
