import Bobbit.Spec.CompactionResolve

/-!
# Which compaction cards a cut transcript keeps

The loop over the retained compactions takes an id out when it comes a second time and does not let
it in again, so what stays are the ids that come once (`get?_retainedBoundaries`). The cards are
grouped by these ids, and a card is copied when it is alone (`mem_copy_iff`).

## Key results
- `mem_copy_iff`: the cards that are copied.
- `checkpoints`: both sides of the correlation of cards and transcript entries.
-/

namespace Bobbit.Spec.CompactionResolve

open Bobbit.Lib Bobbit.Server.CompactionSidecar Relation

variable {ν : Type}

/-! ## The boundaries -/

/-- The retained compactions of an id. -/
def ofId (compactions : List (JsString × JsString)) (id : JsString) : List (JsString × JsString) :=
  compactions.filter fun compaction => compaction.1 = id

theorem ofId_concat (compactions : List (JsString × JsString)) (c : JsString × JsString)
    (id : JsString) :
    ofId (compactions ++ [c]) id = ofId compactions id ++ if c.1 = id then [c] else [] := by
  rw [ofId, ofId, List.filter_append, List.filter_singleton]
  by_cases hid : c.1 = id <;> simp [hid]

/-- **The loop over the retained compactions.** An id has a boundary when it has come once, and is
ambiguous when it has come more often. -/
theorem foldl_addBoundary (compactions : List (JsString × JsString)) (id : JsString) :
    (∀ boundary, (compactions.foldl addBoundary ([], [])).1.get? id = some boundary ↔
      ofId compactions id = [(id, boundary)]) ∧
    (id ∈ (compactions.foldl addBoundary ([], [])).2 ↔ 2 ≤ (ofId compactions id).length) := by
  induction compactions using List.reverseRecOn with
  | nil => simp [ofId]
  | append_singleton compactions c ih =>
    obtain ⟨hboundary, hambiguous⟩ := ih
    rw [List.foldl_append, List.foldl_cons, List.foldl_nil, ofId_concat]
    set state := compactions.foldl addBoundary ([], [])
    rw [addBoundary]
    by_cases hid : c.1 = id
    · subst hid
      rw [if_pos rfl]
      cases hget : state.1.get? c.1 with
      | some boundary =>
        -- the second time: the id is taken out
        have hone := (hboundary boundary).mp hget
        simp [hone, JsMap.get?_erase]
      | none =>
        by_cases hagain : c.1 ∈ state.2
        · have hmany := hambiguous.mp hagain
          simp only [Option.isSome_none, Bool.false_eq_true, if_false, if_pos hagain, hget]
          refine ⟨fun boundary => ?_, ?_⟩
          · simp only [reduceCtorEq, false_iff]
            intro h
            have hlength := congrArg List.length h
            simp only [List.length_append, List.length_singleton] at hlength
            omega
          · simp only [hagain, List.length_append, true_iff]
            omega
        · -- the first time
          have hnil : ofId compactions c.1 = [] := by
            have hfew : ¬ 2 ≤ (ofId compactions c.1).length := fun h => hagain (hambiguous.mpr h)
            cases hof : ofId compactions c.1 with
            | nil => rfl
            | cons d rest =>
              rw [hof, List.length_cons] at hfew
              obtain rfl : rest = [] := List.length_eq_zero_iff.mp (by omega)
              have hd : d ∈ ofId compactions c.1 := by
                rw [hof]
                exact List.mem_cons_self
              have hdid : d.1 = c.1 := by simpa using (List.mem_filter.mp hd).2
              have hsome := (hboundary d.2).mpr (by rw [hof, ← hdid])
              rw [hget] at hsome
              cases hsome
          simp only [Option.isSome_none, Bool.false_eq_true, if_false, hagain, hnil,
            JsMap.get?_set, if_true, List.nil_append]
          refine ⟨fun boundary => ?_, by simp⟩
          rw [List.cons.injEq, Prod.ext_iff]
          simp
    · have hother : (addBoundary state c).1.get? id = state.1.get? id ∧
          (id ∈ (addBoundary state c).2 ↔ id ∈ state.2) := by
        rw [addBoundary]
        split
        · exact ⟨by rw [JsMap.get?_erase, if_neg (Ne.symm hid)], by simp [Ne.symm hid]⟩
        · split
          · exact ⟨rfl, Iff.rfl⟩
          · exact ⟨by rw [JsMap.get?_set, if_neg (Ne.symm hid)], Iff.rfl⟩
      rw [← addBoundary, hother.1, hother.2, if_neg hid, List.append_nil]
      exact ⟨hboundary, hambiguous⟩

/-! ## The candidates -/

/-- A card names a checkpoint and has its boundary. -/
def isCandidate (id boundary : JsString) (entry : CompactionSidecarEntry ν) : Bool :=
  entry.transcriptCompactionEntryId.any (·.1 = id) && entry.firstKeptEntryId = some boundary

variable {retained : List JsString} {boundary : JsString}

/-- **The loop over the sidecar.** Under an id with a boundary are the cards that name the id and
have the boundary. -/
theorem foldl_addCandidate {boundaries : JsMap JsString JsString}
    {id : JsString} (hboundary : boundaries.get? id = some boundary)
    (hid : id ∈ retained) (hretained : boundary ∈ retained)
    (sidecar : List (CompactionSidecarEntry ν)) :
    ((sidecar.foldl (addCandidate boundaries retained) []).get? id).getD [] =
      sidecar.filter (isCandidate id boundary) := by
  induction sidecar using List.reverseRecOn with
  | nil => rfl
  | append_singleton sidecar entry ih =>
    rw [List.foldl_append, List.foldl_cons, List.foldl_nil, List.filter_append, ← ih,
      List.filter_singleton]
    rw [addCandidate, isCandidate]
    cases htranscript : entry.transcriptCompactionEntryId with
    | none => simp
    | some transcriptId =>
      by_cases hsame : transcriptId.1 = id
      · by_cases hkept : entry.firstKeptEntryId = some boundary
        · simp [hsame, hboundary, hid, hretained, hkept, JsMap.get?_set]
        · simp [hsame, hboundary, hkept]
      · simp only [Option.any_some, hsame, decide_false, Bool.false_and, cond_false,
          List.append_nil]
        split
        · rfl
        · split
          · rw [JsMap.get?_set, if_neg (Ne.symm hsame)]
          · rfl

/-- A retained compaction is in the retained part, with its boundary. -/
theorem mem_of_retainedCompaction {entry : Json ν}
    {id : JsString} (h : retainedCompaction retained entry = some (id, boundary)) :
    id ∈ retained ∧ boundary ∈ retained := by
  rw [retainedCompaction] at h
  split at h
  · split at h
    · split at h
      · cases h
      · rename_i hall
        cases h
        simp only [not_or, not_not] at hall
        exact ⟨hall.2.1, hall.2.2.2⟩
    · cases h
  · cases h

/-! ## Copying -/

/-- Among the compaction records whose id and boundary are both retained, one has this id, and this
boundary. -/
def RetainedOnce (retainedCompactions : List (Json ν)) (retained : List JsString)
    (id boundary : JsString) : Prop :=
  ofId (retainedCompactions.filterMap (retainedCompaction retained)) id = [(id, boundary)]

variable {retainedCompactions : List (Json ν)}

theorem get?_retainedBoundaries {id : JsString} :
    (retainedBoundaries retainedCompactions retained).get? id = some boundary ↔
      RetainedOnce retainedCompactions retained id boundary :=
  (foldl_addBoundary _ id).1 boundary

theorem RetainedOnce.mem
    {id : JsString} (h : RetainedOnce retainedCompactions retained id boundary) :
    id ∈ retained ∧ boundary ∈ retained := by
  have hmem : (id, boundary) ∈ ofId (retainedCompactions.filterMap
      (retainedCompaction retained)) id := by
    rw [h]
    exact List.mem_cons_self
  obtain ⟨entry, -, hentry⟩ := List.mem_filterMap.mp (List.mem_filter.mp hmem).1
  exact mem_of_retainedCompaction hentry

/-- **Copying.** A card is copied exactly when it is the only one with the right boundary for a
checkpoint that is retained once, with its boundary. -/
theorem mem_copy_iff {sidecar : List (CompactionSidecarEntry ν)}
 {entry : CompactionSidecarEntry ν} :
    entry ∈ copyCompactionSidecarForTranscript sidecar retainedCompactions retained ↔
      ∃ id boundary, RetainedOnce retainedCompactions retained id boundary ∧
        sidecar.filter (isCandidate id boundary) = [entry] := by
  rw [copyCompactionSidecarForTranscript, List.mem_filterMap]
  have hread : ∀ {id boundary}, RetainedOnce retainedCompactions retained id boundary →
      ((sidecar.foldl (addCandidate (retainedBoundaries retainedCompactions retained) retained)
        []).get? id).getD [] = sidecar.filter (isCandidate id boundary) := by
    intro id boundary h
    exact foldl_addCandidate (get?_retainedBoundaries.mpr h) h.mem.1 h.mem.2 sidecar
  constructor
  · rintro ⟨id, hkey, hentry⟩
    obtain ⟨boundary, hboundary⟩ := Option.isSome_iff_exists.mp (JsMap.get?_isSome_iff.mpr hkey)
    have honce := get?_retainedBoundaries.mp hboundary
    refine ⟨id, boundary, honce, ?_⟩
    split at hentry
    · rename_i candidate hget
      obtain rfl := Option.some.inj hentry
      rw [← hread honce, hget, Option.getD_some]
    · cases hentry
  · rintro ⟨id, boundary, honce, hfilter⟩
    refine ⟨id, JsMap.mem_keys_of_get? (get?_retainedBoundaries.mpr honce), ?_⟩
    have hcandidates := hread honce
    rw [hfilter] at hcandidates
    cases hget : (sidecar.foldl (addCandidate (retainedBoundaries retainedCompactions retained)
        retained) []).get? id with
    | none =>
      rw [hget, Option.getD_none] at hcandidates
      cases hcandidates
    | some candidates =>
      rw [hget, Option.getD_some] at hcandidates
      rw [hcandidates]

/-! ## The correlation -/

/-- **Cards and transcript entries.** Of two snapshots an id is resolved exactly when both are
forests with a known leaf, no entry has gone, the former leaf is on the new branch, and the branch
has exactly one new entry that is the expected compaction. Of a cut transcript exactly those cards
are copied that are the only one with the right boundary for a checkpoint that is retained once. -/
theorem checkpoints [DecidableEq ν] (baseline post : TranscriptEntriesSnapshot ν)
    (expected : CompactionIdentityExpectation ν) (sidecar : List (CompactionSidecarEntry ν))
    (retainedCompactions : List (Json ν)) (retained : List JsString) :
    (∀ x, resolveCompactionTranscriptEntryId baseline post expected = some x ↔
      ∃ before leaf after leaf', WellFormed baseline before leaf ∧ WellFormed post after leaf' ∧
        (∀ e ∈ before, e.id ∈ after.map (·.id)) ∧
        (∀ l, leaf = some l → OnBranch after leaf' l) ∧
        ∃ e, NewCheckpoint before after leaf' expected e ∧ e.id = x ∧
          ∀ e', NewCheckpoint before after leaf' expected e' → e' = e) ∧
    ∀ entry, entry ∈ copyCompactionSidecarForTranscript sidecar retainedCompactions retained ↔
      ∃ id boundary, RetainedOnce retainedCompactions retained id boundary ∧
        sidecar.filter (isCandidate id boundary) = [entry] :=
  ⟨fun _ => resolve_eq_some_iff, fun _ => mem_copy_iff⟩

end Bobbit.Spec.CompactionResolve
