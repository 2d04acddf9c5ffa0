import Bobbit.Lib.List
import Bobbit.Lib.Run
import Bobbit.Server.ProposalFiles

/-!
# Drafts and revisions of a proposal

The operations take no lock: from its first file operation to its snapshot an operation holds
the temporary file, the live draft and the next revision by luck alone. Runs in which no
operation begins to write inside another's such section, and no edit on a base that another
edit has replaced, keep the draft and the revisions in agreement; an operation that fails its
checks changes no file in any run.

## Key results

* `resume_recorded`, `resume_sound` — what every step keeps, and what an uncontended one keeps.
* `drafts_agree` — the agreement along uncontended runs.
* `revision_written_twice` — two writes that overlap get one revision.
-/

namespace Bobbit.Server.ProposalDraft

open Lib

variable {Fields ε ρ : Type} {plugin : ProposalTypePlugin Fields ε}
  {s : ProposalDraft Fields ε ρ} {k : Nat} {call : ProposalCall Fields ε ρ}

/-! ## What is claimed -/

def isEdit (call : ProposalCall Fields ε ρ) : Bool :=
  match call.operation with
  | .editProposalFile _ _ => true
  | _ => false

/-- Call `k` is an edit. -/
def isEditAt (s : ProposalDraft Fields ε ρ) (k : Nat) : Bool :=
  (s.calls[k]?).any isEdit

/-- The operation is between its first file operation and its snapshot. -/
def committing : ProposalPhase Fields ε ρ → Bool
  | .replacing _ => true
  | .scanning _ => true
  | .snapshotting _ _ => true
  | .publishing _ _ => true
  | _ => false

def ended : ProposalPhase Fields ε ρ → Bool
  | .succeeded _ _ => true
  | .failed _ => true
  | _ => false

/-- The operation has been rejected by a check. -/
def rejected : ProposalPhase Fields ε ρ → Bool
  | .failed .thrown => false
  | .failed _ => true
  | _ => false

/-- The operation has made no file operation. -/
def unwritten : ProposalPhase Fields ε ρ → Bool
  | .reading => true
  | .validating _ => true
  | .writing _ => true
  | .failed .thrown => false
  | .failed _ => true
  | _ => false

/-- What the operation writes, once it is known. -/
def candidate? : ProposalPhase Fields ε ρ → Option (Candidate Fields)
  | .reading => none
  | .validating c => some c
  | .writing c => some c
  | .replacing c => some c
  | .scanning c => some c
  | .snapshotting c _ => some c
  | .publishing c _ => some c
  | .succeeded c _ => some c
  | .failed _ => none

def filesAfter (initial : DraftFiles) (log : List (Nat × FileOp)) : DraftFiles :=
  log.foldl (fun files entry => (entry.2.apply files).getD files) initial

/-- A content is what its operation asks for, given the files it read. -/
def Asked (plugin : ProposalTypePlugin Fields ε) (read : DraftFiles)
    (operation : ProposalOperation Fields) (content : JsString) : Prop :=
  match operation with
  | .writeProposalFile fields => content = plugin.serialize fields
  | .editProposalFile oldText newText =>
    ∃ current, read.live = some current ∧
      (replaceOnce current oldText newText : Except (ProposalFailure ε ρ) JsString) = .ok content
  | .restoreSnapshot rev => readSnapshot read rev = some content

structure DraftAgrees (plugin : ProposalTypePlugin Fields ε) (initial : DraftFiles)
    (s : ProposalDraft Fields ε ρ) : Prop where
  distinct : ∀ (k k' : Nat) call call' c c' rev,
    s.calls[k]? = some call → s.calls[k']? = some call' →
      call.phase = .succeeded c rev → call'.phase = .succeeded c' rev → rev ≠ 0 → k = k'
  /-- a snapshot holds what its operation wrote -/
  kept : ∀ (k : Nat) call c rev, s.calls[k]? = some call → call.phase = .succeeded c rev → rev ≠ 0 →
    JsMap.get? s.files.snapshots rev = some c.content ∧
      Asked (ρ := ρ) plugin (filesAfter initial (s.log.take call.readAt)) call.operation c.content
  /-- between the read of an edit and its rename no other edit is renamed to the live draft -/
  edits : ∀ (j k : Nat), s.log[j]? = some (k, .renameTmp) → ∀ call, s.calls[k]? = some call →
    isEdit call = true → ∀ (j' k' : Nat), call.readAt ≤ j' → j' < j →
      s.log[j']? = some (k', .renameTmp) → isEditAt s k' = false
  live : (∀ call ∈ s.calls, ended call.phase = true) →
    s.files.live = JsMap.get? s.files.snapshots (latestRev s.files.snapshots)
  rejected : ∀ (k : Nat) call, s.calls[k]? = some call → rejected call.phase = true →
    ∀ entry ∈ s.log, entry.1 ≠ k

/-- The operation is about to make its first file operation. -/
def aboutToWrite : ProposalPhase Fields ε ρ → Bool
  | .writing _ => true
  | _ => false

/-- No other operation is committing, and when this one is an edit no edit has been renamed to the
    live draft since its read. -/
def Uncontested (s : ProposalDraft Fields ε ρ) (call : ProposalCall Fields ε ρ) : Prop :=
  (∀ call' ∈ s.calls, committing call'.phase = false) ∧
    (isEdit call = true → ∀ entry ∈ s.log.drop call.readAt, entry.2 = .renameTmp →
      isEditAt s entry.1 = false)

instance (s : ProposalDraft Fields ε ρ) (call : ProposalCall Fields ε ρ) :
    Decidable (Uncontested s call) :=
  inferInstanceAs (Decidable (_ ∧ _))

/-- An operation begins to write uncontested. -/
def Uncontended (s : ProposalDraft Fields ε ρ) : Event Fields ρ → Prop
  | .call _ _ => True
  | .resume k _ =>
    ∀ call ∈ s.calls[k]?, aboutToWrite call.phase = true → Uncontested s call

instance (s : ProposalDraft Fields ε ρ) : DecidablePred (Uncontended s)
  | .call _ _ => inferInstanceAs (Decidable True)
  | .resume k _ =>
    inferInstanceAs (Decidable
      (∀ call ∈ s.calls[k]?, aboutToWrite call.phase = true → Uncontested s call))

/-! ## Files and calls -/

variable {files : DraftFiles}

theorem filesAfter_concat (initial : DraftFiles) (log : List (Nat × FileOp)) (k : Nat)
    {op : FileOp} (h : op.apply (filesAfter initial log) = some files) :
    filesAfter initial (log ++ [(k, op)]) = files := by
  unfold filesAfter at h ⊢
  rw [List.foldl_append, List.foldl_cons, List.foldl_nil, h]
  rfl

variable {call' : ProposalCall Fields ε ρ}

theorem isEditAt_set (hk : s.calls[k]? = some call)
    (hop : call'.operation = call.operation) {s' : ProposalDraft Fields ε ρ}
    (hcalls : s'.calls = s.calls.set k call') (j : Nat) : isEditAt s' j = isEditAt s j := by
  unfold isEditAt
  rw [hcalls, getElem?_set_of_some hk]
  split
  · rename_i heq
    subst heq
    rw [hk]
    show isEdit call' = isEdit call
    unfold isEdit
    rw [hop]
  · rfl

/-! ## What every step keeps -/

/-- What is known of a call at any time. -/
structure CallRecorded (plugin : ProposalTypePlugin Fields ε) (initial : DraftFiles)
    (log : List (Nat × FileOp)) (k : Nat) (call : ProposalCall Fields ε ρ) : Prop where
  unwritten : unwritten call.phase = true → ∀ entry ∈ log, entry.1 ≠ k
  readAt : call.readAt ≤ log.length
  asked : ∀ c, candidate? call.phase = some c →
    Asked (ρ := ρ) plugin (filesAfter initial (log.take call.readAt)) call.operation c.content

/-- The log has made the files, by calls that write. -/
structure Recorded (plugin : ProposalTypePlugin Fields ε) (initial : DraftFiles)
    (s : ProposalDraft Fields ε ρ) : Prop where
  files : s.files = filesAfter initial s.log
  known : ∀ entry ∈ s.log, entry.1 < s.calls.length
  calls : ∀ (k : Nat) call, s.calls[k]? = some call → CallRecorded plugin initial s.log k call

variable {initial : DraftFiles}

theorem Recorded.quiet (h : Recorded plugin initial s) (hk : s.calls[k]? = some call)
    (hcall : CallRecorded plugin initial s.log k call') :
    Recorded plugin initial { s with calls := s.calls.set k call' } where
  files := h.files
  known := by
    intro entry hentry
    show entry.1 < (s.calls.set k call').length
    rw [List.length_set]
    exact h.known entry hentry
  calls := by
    intro j c hj
    rcases getElem?_set_eq_some hk hj with ⟨rfl, rfl⟩ | ⟨_, hj⟩
    · exact hcall
    · exact h.calls j c hj

variable {phase : ProposalPhase Fields ε ρ}

theorem Recorded.writes (h : Recorded plugin initial s) (hk : s.calls[k]? = some call)
    (hwritten : ProposalDraft.unwritten phase = false)
    (hcandidate : candidate? phase = candidate? call.phase) {op : FileOp}
    (happly : op.apply s.files = some files) :
    Recorded plugin initial
      { s with calls := s.calls.set k { call with phase := phase }, files := files,
               log := s.log ++ [(k, op)] } where
  files := by
    rw [h.files] at happly
    exact (filesAfter_concat initial s.log k happly).symm
  known := by
    intro entry hentry
    show entry.1 < (s.calls.set k _).length
    rw [List.length_set]
    rcases List.mem_append.mp hentry with hentry | hentry
    · exact h.known entry hentry
    · rw [List.mem_singleton.mp hentry]
      exact (List.getElem?_eq_some_iff.mp hk).1
  calls := by
    intro j c hj
    rcases getElem?_set_eq_some hk hj with ⟨rfl, rfl⟩ | ⟨hne, hj⟩
    · obtain ⟨_, hread, hasked⟩ := h.calls k call hk
      refine ⟨fun hun => ?_, ?_, fun c hc => ?_⟩
      · rw [hwritten] at hun
        cases hun
      · show call.readAt ≤ (s.log ++ [_]).length
        rw [List.length_append]
        exact Nat.le_add_right_of_le hread
      · show Asked plugin (filesAfter initial ((s.log ++ [_]).take call.readAt)) _ _
        rw [List.take_append_of_le_length hread]
        exact hasked c (hcandidate ▸ hc)
    · obtain ⟨huntouched, hread, hasked⟩ := h.calls j c hj
      refine ⟨fun hun entry hentry => ?_, ?_, fun c' hc => ?_⟩
      · rcases List.mem_append.mp hentry with hentry | hentry
        · exact huntouched hun entry hentry
        · rw [List.mem_singleton.mp hentry]
          exact hne
      · show c.readAt ≤ (s.log ++ [_]).length
        rw [List.length_append]
        exact Nat.le_add_right_of_le hread
      · show Asked plugin (filesAfter initial ((s.log ++ [_]).take c.readAt)) _ _
        rw [List.take_append_of_le_length hread]
        exact hasked c' hc

theorem Recorded.perform (h : Recorded plugin initial s) (hk : s.calls[k]? = some call)
    {op : FileOp} {done thrown : ProposalPhase Fields ε ρ}
    (hdone : ProposalDraft.unwritten done = false)
    (hthrown : ProposalDraft.unwritten thrown = false)
    (hcandidate : candidate? done = candidate? call.phase)
    (hcandidate' : ∀ c, candidate? thrown = some c → candidate? call.phase = some c) :
    Recorded plugin initial (s.perform k call op done thrown) := by
  unfold ProposalDraft.perform
  split
  · obtain ⟨_, hread, hasked⟩ := h.calls k call hk
    refine h.quiet hk ⟨fun hun => ?_, hread, fun c hc => hasked c (hcandidate' c hc)⟩
    rw [hthrown] at hun
    cases hun
  · rename_i files happly
    exact h.writes hk hdone hcandidate happly

theorem candidate?_parsed {mode : ProposalParseMode} {content : JsString} {c : Candidate Fields}
    (h : candidate? (parsed plugin mode content : ProposalPhase Fields ε ρ) = some c) :
    c.content = content := by
  unfold parsed at h
  split at h
  · cases h
  · cases h
    rfl

/-- A call that reads finds what its operation asks for in the files. -/
theorem asked_read (hreading : call.phase = .reading) {c : Candidate Fields}
    (h : candidate? (s.read plugin call) = some c) :
    Asked (ρ := ρ) plugin s.files call.operation c.content := by
  unfold read at h
  unfold Asked
  cases hop : call.operation with
  | writeProposalFile fields =>
    simp only [hop, hreading, candidate?] at h
    cases h
  | editProposalFile oldText newText =>
    simp only [hop] at h
    split at h
    · cases h
    · rename_i current hlive
      split at h
      · cases h
      · rename_i next hreplace
        exact ⟨current, hlive, by rw [candidate?_parsed h]; exact hreplace⟩
  | restoreSnapshot rev =>
    simp only [hop] at h
    split at h
    · cases h
    · rename_i content hread
      rw [candidate?_parsed h]
      exact hread

theorem resume_recorded (h : Recorded plugin initial s) (k : Nat) (rejection : Option ρ) :
    Recorded plugin initial (s.resume plugin k rejection) := by
  unfold resume
  cases hk : s.calls[k]? with
  | none => exact h
  | some call =>
    obtain ⟨huntouched, hread, hasked⟩ := h.calls k call hk
    dsimp only
    cases hphase : call.phase with
    | reading =>
      rw [hphase] at huntouched
      refine h.quiet hk ⟨fun _ => huntouched rfl, Nat.le_refl _, fun c hc => ?_⟩
      -- the read is of the files that the whole log has made
      show Asked plugin (filesAfter initial (s.log.take s.log.length)) call.operation c.content
      rw [List.take_length, ← h.files]
      exact asked_read hphase hc
    | validating c =>
      rw [hphase] at huntouched hasked
      dsimp only
      split
      · exact h.quiet hk ⟨fun _ => huntouched rfl, hread, fun c hc => (by cases hc)⟩
      · exact h.quiet hk ⟨fun _ => huntouched rfl, hread, hasked⟩
    | writing c =>
      exact h.perform hk rfl rfl (by rw [hphase]; rfl) fun c hc => by cases hc
    | replacing c =>
      exact h.perform hk rfl rfl (by rw [hphase]; rfl) fun c hc => by cases hc
    | scanning c =>
      rw [hphase] at hasked
      exact h.quiet hk ⟨fun hun => (by cases hun), hread, hasked⟩
    | snapshotting c rev =>
      exact h.perform hk rfl rfl (by rw [hphase]; rfl) fun c hc => by rw [hphase]; exact hc
    | publishing c rev =>
      exact h.perform hk rfl rfl (by rw [hphase]; rfl) fun c hc => by rw [hphase]; exact hc
    | succeeded c rev => exact h
    | failed failure => exact h

theorem invoke_recorded (h : Recorded plugin initial s) (operation : ProposalOperation Fields)
    (validated : Bool) : Recorded plugin initial (s.invoke plugin operation validated) where
  files := h.files
  known := by
    intro entry hentry
    show entry.1 < (s.calls ++ [_]).length
    rw [List.length_append]
    exact Nat.lt_add_right _ (h.known entry hentry)
  calls := by
    intro j c hj
    have hj : (s.calls ++ [_])[j]? = some c := hj
    rw [List.getElem?_append] at hj
    split at hj
    · exact h.calls j c hj
    · rename_i hle
      obtain ⟨hlt, hc⟩ := List.getElem?_eq_some_iff.mp hj
      rw [List.getElem_singleton] at hc
      subst hc
      refine ⟨fun _ entry hentry heq => ?_, Nat.le_refl _, fun c hc => ?_⟩
      · exact hle (heq ▸ h.known entry hentry)
      · cases operation with
        | writeProposalFile fields => exact candidate?_parsed hc
        | editProposalFile oldText newText => cases hc
        | restoreSnapshot rev => cases hc

theorem step_recorded (h : Recorded plugin initial s) (e : Event Fields ρ) :
    Recorded plugin initial (step plugin s e) := by
  cases e with
  | call operation validated => exact invoke_recorded h operation validated
  | resume k rejection => exact resume_recorded h k rejection

/-! ## Revisions -/

theorem le_foldl_max (l : List Nat) (m : Nat) :
    m ≤ l.foldl max m ∧ ∀ n ∈ l, n ≤ l.foldl max m := by
  induction l generalizing m with
  | nil => exact ⟨Nat.le_refl m, fun n hn => (by cases hn)⟩
  | cons n rest ih =>
    obtain ⟨hstart, hall⟩ := ih (max m n)
    refine ⟨Nat.le_trans (Nat.le_max_left m n) hstart, fun n' hn' => ?_⟩
    rcases List.mem_cons.mp hn' with rfl | hn'
    · exact Nat.le_trans (Nat.le_max_right m n') hstart
    · exact hall n' hn'

theorem le_latestRev {snapshots : JsMap Nat JsString} {rev : Nat}
    (h : rev ∈ JsMap.keys snapshots) : rev ≤ latestRev snapshots :=
  (le_foldl_max _ 0).2 rev h

theorem latestRev_set (snapshots : JsMap Nat JsString) (content : JsString) :
    latestRev (JsMap.set snapshots (latestRev snapshots + 1) content) =
      latestRev snapshots + 1 := by
  have hnew : latestRev snapshots + 1 ∉ JsMap.keys snapshots := fun hmem =>
    absurd (le_latestRev hmem) (Nat.not_succ_le_self _)
  have hkeys := JsMap.keys_set snapshots (latestRev snapshots + 1) content
  rw [if_neg hnew] at hkeys
  unfold latestRev at hkeys ⊢
  rw [hkeys, List.foldl_append]
  exact Nat.max_eq_right (Nat.le_succ _)

/-! ## What an uncontended step keeps -/

/-- What a phase says about the files. -/
def Backed (files : DraftFiles) : ProposalPhase Fields ε ρ → Prop
  | .replacing c => files.liveTmp = some c.content
  | .scanning c => files.live = some c.content
  | .snapshotting c rev =>
    files.live = some c.content ∧ rev = latestRev files.snapshots + 1
  | .publishing c rev =>
    files.live = some c.content ∧ rev = latestRev files.snapshots + 1 ∧
      JsMap.get? files.snapshotTmps rev = some c.content
  | .succeeded c rev =>
    rev ≤ latestRev files.snapshots ∧ JsMap.get? files.snapshots rev = some c.content
  | .failed .thrown => False
  | _ => True

/-- What an uncontended run keeps beside the record. -/
structure Sound (s : ProposalDraft Fields ε ρ) : Prop where
  /-- one operation commits at a time -/
  single : ∀ (k k' : Nat) call call', s.calls[k]? = some call → s.calls[k']? = some call' →
    committing call.phase = true → committing call'.phase = true → k = k'
  backed : ∀ (k : Nat) call, s.calls[k]? = some call → Backed s.files call.phase
  agrees : (∀ call ∈ s.calls, committing call.phase = false) →
    s.files.live = JsMap.get? s.files.snapshots (latestRev s.files.snapshots)
  distinct : ∀ (k k' : Nat) call call' c c' rev,
    s.calls[k]? = some call → s.calls[k']? = some call' →
      call.phase = .succeeded c rev → call'.phase = .succeeded c' rev → k = k'
  /-- the base of an edit that is about to replace the live draft is no older than any edit -/
  base : ∀ (k : Nat) call c, s.calls[k]? = some call → call.phase = .replacing c →
    isEdit call = true → ∀ entry ∈ s.log.drop call.readAt, entry.2 = .renameTmp →
      isEditAt s entry.1 = false
  edits : ∀ (j k : Nat), s.log[j]? = some (k, .renameTmp) → ∀ call, s.calls[k]? = some call →
    isEdit call = true → ∀ (j' k' : Nat), call.readAt ≤ j' → j' < j →
      s.log[j']? = some (k', .renameTmp) → isEditAt s k' = false

/-- A phase outside the commit section says the same of files with the same snapshots. -/
theorem Backed.congr {files' : DraftFiles}
    (h : Backed files phase) (hphase : committing phase = false)
    (hsnapshots : files'.snapshots = files.snapshots) : Backed files' phase := by
  cases phase with
  | succeeded c rev =>
    unfold Backed at h ⊢
    rw [hsnapshots]
    exact h
  | failed failure => cases failure <;> exact h
  | reading => trivial
  | validating c => trivial
  | writing c => trivial
  | replacing c => cases hphase
  | scanning c => cases hphase
  | snapshotting c rev => cases hphase
  | publishing c rev => cases hphase

/-- A call that is not committing goes on without a file operation. -/
theorem Sound.quiet (h : Sound s) (hr : Recorded plugin initial s) (hk : s.calls[k]? = some call)
    (hbefore : committing call.phase = false)
    (hop : call'.operation = call.operation) (hafter : committing call'.phase = false)
    (hbacked : Backed s.files call'.phase) (hnot : ∀ c rev, call'.phase ≠ .succeeded c rev)
    (hread : unwritten call.phase = true) :
    Sound { s with calls := s.calls.set k call' } where
  single := by
    intro j j' c c' hj hj' hc hc'
    rcases getElem?_set_eq_some hk hj with ⟨rfl, rfl⟩ | ⟨_, hj⟩
    · rw [hafter] at hc
      cases hc
    · rcases getElem?_set_eq_some hk hj' with ⟨rfl, rfl⟩ | ⟨_, hj'⟩
      · rw [hafter] at hc'
        cases hc'
      · exact h.single j j' c c' hj hj' hc hc'
  backed := by
    intro j c hj
    rcases getElem?_set_eq_some hk hj with ⟨rfl, rfl⟩ | ⟨_, hj⟩
    · exact hbacked
    · exact h.backed j c hj
  agrees := by
    intro hnone
    refine h.agrees fun c hc => ?_
    obtain ⟨j, hj⟩ := List.getElem?_of_mem hc
    by_cases hkj : k = j
    · subst hkj
      rw [hk, Option.some.injEq] at hj
      rw [← hj]
      exact hbefore
    · refine hnone c (List.mem_of_getElem? (i := j) ?_)
      show (s.calls.set k call')[j]? = some c
      rw [getElem?_set_of_some hk, if_neg hkj]
      exact hj
  distinct := by
    intro j j' c c' d d' rev hj hj' hc hc'
    rcases getElem?_set_eq_some hk hj with ⟨rfl, rfl⟩ | ⟨_, hj⟩
    · exact absurd hc (hnot d rev)
    · rcases getElem?_set_eq_some hk hj' with ⟨rfl, rfl⟩ | ⟨_, hj'⟩
      · exact absurd hc' (hnot d' rev)
      · exact h.distinct j j' c c' d d' rev hj hj' hc hc'
  base := by
    intro j c d hj hphase hedit entry hentry hrename
    rw [isEditAt_set hk hop rfl]
    rcases getElem?_set_eq_some hk hj with ⟨rfl, rfl⟩ | ⟨_, hj⟩
    · rw [hphase] at hafter
      cases hafter
    · exact h.base j c d hj hphase hedit entry hentry hrename
  edits := by
    intro j i hi c hc hedit j' i' hle hlt hi'
    rw [isEditAt_set hk hop rfl]
    rcases getElem?_set_eq_some hk hc with ⟨rfl, rfl⟩ | ⟨_, hc⟩
    · -- a call that has written nothing is not in the log
      exact absurd rfl ((hr.calls k call hk).unwritten hread _ (List.mem_of_getElem? hi))
    · exact h.edits j i hi c hc hedit j' i' hle hlt hi'

/-- The step of an operation that no other's commit section overlaps, with the entry it adds to the
    log. -/
structure Commits (s : ProposalDraft Fields ε ρ) (k : Nat) (call : ProposalCall Fields ε ρ)
    (phase : ProposalPhase Fields ε ρ) (files : DraftFiles) (extra : List (Nat × FileOp)) :
    Prop where
  others : ∀ (j : Nat) c, s.calls[j]? = some c → k ≠ j → committing c.phase = false
  backed : Backed files phase
  keeps : ∀ phase' : ProposalPhase Fields ε ρ, committing phase' = false →
    Backed s.files phase' → Backed files phase'
  agrees : committing phase = false →
    files.live = JsMap.get? files.snapshots (latestRev files.snapshots)
  fresh : ∀ c rev, phase = .succeeded c rev → latestRev s.files.snapshots < rev
  base : ∀ c, phase = .replacing c → isEdit call = true →
    ∀ entry ∈ (s.log ++ extra).drop call.readAt, entry.2 = .renameTmp → isEditAt s entry.1 = false
  extra : extra = [] ∨ ∃ op, extra = [(k, op)] ∧ (op = .renameTmp → ∃ c, call.phase = .replacing c)

theorem Sound.commits (h : Sound s) (hk : s.calls[k]? = some call)
    {extra : List (Nat × FileOp)} (hc : Commits s k call phase files extra) : Sound { s with
      calls := s.calls.set k { call with phase := phase }
      files := files
      log := s.log ++ extra } where
  single := by
    intro j j' c c' hj hj' hcommit hcommit'
    have hself : ∀ (j : Nat) c, (s.calls.set k { call with phase := phase })[j]? = some c →
        committing c.phase = true → k = j := by
      intro j c hj hcommit
      rcases getElem?_set_eq_some hk hj with ⟨rfl, _⟩ | ⟨hne, hj⟩
      · rfl
      · rw [hc.others j c hj hne] at hcommit
        cases hcommit
    rw [← hself j c hj hcommit, ← hself j' c' hj' hcommit']
  backed := by
    intro j c hj
    rcases getElem?_set_eq_some hk hj with ⟨rfl, rfl⟩ | ⟨hne, hj⟩
    · exact hc.backed
    · exact hc.keeps c.phase (hc.others j c hj hne) (h.backed j c hj)
  agrees := by
    intro hnone
    refine hc.agrees (hnone { call with phase := phase } ?_)
    refine List.mem_of_getElem? (i := k) ?_
    show (s.calls.set k _)[k]? = _
    rw [getElem?_set_of_some hk, if_pos rfl]
  distinct := by
    -- an earlier revision is not past the latest
    have hearlier : ∀ (j : Nat) c d rev, s.calls[j]? = some c → c.phase = .succeeded d rev →
        rev ≤ latestRev s.files.snapshots := by
      intro j c d rev hj hphase
      have hbacked := h.backed j c hj
      rw [hphase] at hbacked
      exact hbacked.1
    intro j j' c c' d d' rev hj hj' hphase hphase'
    rcases getElem?_set_eq_some hk hj with ⟨rfl, rfl⟩ | ⟨_, hj⟩
    · rcases getElem?_set_eq_some hk hj' with ⟨rfl, _⟩ | ⟨_, hj'⟩
      · rfl
      · exact absurd (hearlier j' c' d' rev hj' hphase') (Nat.not_le.mpr (hc.fresh d rev hphase))
    · rcases getElem?_set_eq_some hk hj' with ⟨rfl, rfl⟩ | ⟨_, hj'⟩
      · exact absurd (hearlier j c d rev hj hphase) (Nat.not_le.mpr (hc.fresh d' rev hphase'))
      · exact h.distinct j j' c c' d d' rev hj hj' hphase hphase'
  base := by
    intro j c d hj hphase hedit entry hentry hrename
    have hop : ({ call with phase := phase } : ProposalCall Fields ε ρ).operation =
      call.operation := rfl
    rw [isEditAt_set hk hop rfl]
    rcases getElem?_set_eq_some hk hj with ⟨rfl, rfl⟩ | ⟨hne, hj⟩
    · exact hc.base d hphase hedit entry hentry hrename
    · have hcommit := hc.others j c hj hne
      rw [hphase] at hcommit
      cases hcommit
  edits := by
    intro j i hi c hcall hedit j' i' hle hlt hi'
    have hop : ({ call with phase := phase } : ProposalCall Fields ε ρ).operation =
      call.operation := rfl
    rw [isEditAt_set hk hop rfl]
    have hcall' : ∃ c₀, s.calls[i]? = some c₀ ∧ isEdit c₀ = isEdit c ∧ c₀.readAt = c.readAt := by
      rcases getElem?_set_eq_some hk hcall with ⟨rfl, rfl⟩ | ⟨_, hcall⟩
      · exact ⟨call, hk, rfl, rfl⟩
      · exact ⟨c, hcall, rfl, rfl⟩
    obtain ⟨c₀, hc₀, hedit₀, hread₀⟩ := hcall'
    rw [← hedit₀] at hedit
    rw [← hread₀] at hle
    have hi : (s.log ++ extra)[j]? = some (i, .renameTmp) := hi
    have hi' : (s.log ++ extra)[j']? = some (i', .renameTmp) := hi'
    by_cases hj : j < s.log.length
    · rw [List.getElem?_append_left hj] at hi
      rw [List.getElem?_append_left (Nat.lt_trans hlt hj)] at hi'
      exact h.edits j i hi c₀ hc₀ hedit j' i' hle hlt hi'
    · -- the entry is the new one: the call was about to replace the live draft
      rcases hc.extra with hnil | ⟨op, hone, hrename⟩
      · rw [hnil, List.append_nil] at hi
        exact absurd (List.getElem?_eq_some_iff.mp hi).1 hj
      · rw [hone, List.getElem?_append_right (Nat.le_of_not_lt hj)] at hi
        obtain ⟨hlast, hentry⟩ := List.getElem?_eq_some_iff.mp hi
        rw [List.getElem_singleton, Prod.mk.injEq] at hentry
        obtain ⟨rfl, rfl⟩ := hentry
        rw [hk, Option.some.injEq] at hc₀
        subst hc₀
        obtain ⟨d, hphase⟩ := hrename rfl
        simp only [List.length_singleton] at hlast
        have hj' : j' < s.log.length := by omega
        rw [List.getElem?_append_left hj'] at hi'
        refine h.base k call d hk hphase hedit (i', .renameTmp) ?_ rfl
        have hdrop : (s.log.drop call.readAt)[j' - call.readAt]? = some (i', .renameTmp) := by
          rw [List.getElem?_drop, Nat.add_sub_cancel' hle]
          exact hi'
        exact List.mem_of_getElem? hdrop

theorem Sound.others (h : Sound s) (hk : s.calls[k]? = some call)
    (hcommit : committing call.phase = true) :
    ∀ (j : Nat) c, s.calls[j]? = some c → k ≠ j → committing c.phase = false := by
  intro j c hj hne
  by_contra hc
  rw [Bool.not_eq_false] at hc
  exact hne (h.single k j call c hk hj hcommit hc)

/-- The phases of an operation that has not begun to write. -/
theorem started_idle (plugin : ProposalTypePlugin Fields ε) (operation : ProposalOperation Fields) :
    committing (started plugin operation : ProposalPhase Fields ε ρ) = false ∧
      (∀ files, Backed files (started plugin operation : ProposalPhase Fields ε ρ)) ∧
      ∀ c rev, (started plugin operation : ProposalPhase Fields ε ρ) ≠ .succeeded c rev := by
  cases operation with
  | writeProposalFile fields =>
    show committing (parsed _ _ _) = false ∧ (∀ files, Backed files (parsed _ _ _)) ∧ _
    unfold started parsed
    dsimp only
    split
    · exact ⟨rfl, fun _ => trivial, fun c rev h => by cases h⟩
    · exact ⟨rfl, fun _ => trivial, fun c rev h => by cases h⟩
  | editProposalFile oldText newText => exact ⟨rfl, fun _ => trivial, fun c rev h => by cases h⟩
  | restoreSnapshot rev => exact ⟨rfl, fun _ => trivial, fun c rev h => by cases h⟩

theorem read_idle (plugin : ProposalTypePlugin Fields ε) (hreading : call.phase = .reading) :
    committing (s.read plugin call) = false ∧ Backed s.files (s.read plugin call) ∧
      ∀ c rev, s.read plugin call ≠ .succeeded c rev := by
  have hparsed : ∀ mode content,
      committing (parsed plugin mode content : ProposalPhase Fields ε ρ) = false ∧
        Backed s.files (parsed plugin mode content : ProposalPhase Fields ε ρ) ∧
        ∀ c rev, (parsed plugin mode content : ProposalPhase Fields ε ρ) ≠ .succeeded c rev := by
    intro mode content
    unfold parsed
    split
    · exact ⟨rfl, trivial, fun c rev h => by cases h⟩
    · exact ⟨rfl, trivial, fun c rev h => by cases h⟩
  unfold read
  split
  · rw [hreading]
    exact ⟨rfl, trivial, fun c rev h => by cases h⟩
  · split
    · exact ⟨rfl, trivial, fun c rev h => by cases h⟩
    · split
      · rename_i failure hreplace
        -- a replacement fails for its text only
        have hfailure : failure = .oldTextNotFound ∨ failure = .oldTextNotUnique := by
          unfold replaceOnce at hreplace
          split at hreplace
          · cases hreplace
            exact .inl rfl
          · split at hreplace
            · cases hreplace
              exact .inr rfl
            · cases hreplace
        rcases hfailure with rfl | rfl
        · exact ⟨rfl, trivial, fun c rev h => by cases h⟩
        · exact ⟨rfl, trivial, fun c rev h => by cases h⟩
      · exact hparsed _ _
  · split
    · exact ⟨rfl, trivial, fun c rev h => by cases h⟩
    · exact hparsed _ _

theorem perform_of_apply {op : FileOp} {done thrown : ProposalPhase Fields ε ρ}
    (h : op.apply s.files = some files) : s.perform k call op done thrown = { s with
      calls := s.calls.set k { call with phase := done }
      files := files
      log := s.log ++ [(k, op)] } := by
  unfold ProposalDraft.perform
  rw [h]
  rfl

/-- **Uncontended steps** keep the draft and the revisions sound. -/
theorem resume_sound (h : Sound s) (hr : Recorded plugin initial s) (k : Nat)
    (rejection : Option ρ) (hguard : Uncontended s (.resume k rejection)) :
    Sound (s.resume plugin k rejection) := by
  unfold resume
  cases hk : s.calls[k]? with
  | none => exact h
  | some call =>
    have hbacked := h.backed k call hk
    dsimp only
    cases hphase : call.phase with
    | reading =>
      obtain ⟨hidle, hback, hnot⟩ := read_idle (s := s) plugin hphase
      exact h.quiet hr hk (by rw [hphase]; rfl) rfl hidle hback hnot (by rw [hphase]; rfl)
    | validating c =>
      dsimp only
      split
      · exact h.quiet hr hk (by rw [hphase]; rfl) rfl rfl trivial (fun c rev h => by cases h)
          (by rw [hphase]; rfl)
      · exact h.quiet hr hk (by rw [hphase]; rfl) rfl rfl trivial (fun c rev h => by cases h)
          (by rw [hphase]; rfl)
    | writing c =>
      obtain ⟨hothers, hedits⟩ := hguard call hk (by rw [hphase]; rfl)
      dsimp only
      rw [perform_of_apply rfl]
      refine h.commits hk ⟨fun j c hj _ => hothers c (List.mem_of_getElem? hj), rfl,
        fun phase' hidle hback => hback.congr hidle rfl, fun hfalse => (by cases hfalse),
        fun c rev hfalse => (by cases hfalse), ?_, .inr ⟨_, rfl, fun hfalse => (by cases hfalse)⟩⟩
      -- the write of the temporary file is no commit
      intro d _ hedit entry hentry hrename
      rw [List.drop_append_of_le_length (hr.calls k call hk).readAt] at hentry
      rcases List.mem_append.mp hentry with hentry | hentry
      · exact hedits hedit entry hentry hrename
      · rw [List.mem_singleton.mp hentry] at hrename
        cases hrename
    | replacing c =>
      have hcommit : committing call.phase = true := by rw [hphase]; rfl
      rw [hphase] at hbacked
      have happly : FileOp.renameTmp.apply s.files =
          some { s.files with live := some c.content, liveTmp := none } := by
        have htmp : s.files.liveTmp = some c.content := hbacked
        simp only [FileOp.apply, htmp]
      dsimp only
      rw [perform_of_apply happly]
      exact h.commits hk ⟨h.others hk hcommit, rfl,
        fun phase' hidle hback => hback.congr hidle rfl, fun hfalse => (by cases hfalse),
        fun c rev hfalse => (by cases hfalse), fun d hfalse => (by cases hfalse),
        .inr ⟨_, rfl, fun _ => ⟨c, hphase⟩⟩⟩
    | scanning c =>
      have hcommit : committing call.phase = true := by rw [hphase]; rfl
      rw [hphase] at hbacked
      have hcommits : Commits s k call (.snapshotting c (latestRev s.files.snapshots + 1))
          s.files [] :=
        ⟨h.others hk hcommit, ⟨hbacked, rfl⟩, fun phase' _ hback => hback,
          fun hfalse => (by cases hfalse), fun c rev hfalse => (by cases hfalse),
          fun d hfalse => (by cases hfalse), .inl rfl⟩
      have hsound := h.commits hk hcommits
      rw [List.append_nil] at hsound
      exact hsound
    | snapshotting c rev =>
      have hcommit : committing call.phase = true := by rw [hphase]; rfl
      rw [hphase] at hbacked
      dsimp only
      rw [perform_of_apply rfl]
      refine h.commits hk ⟨h.others hk hcommit, ⟨hbacked.1, hbacked.2, ?_⟩,
        fun phase' hidle hback => hback.congr hidle rfl, fun hfalse => (by cases hfalse),
        fun c rev hfalse => (by cases hfalse), fun d hfalse => (by cases hfalse),
        .inr ⟨_, rfl, fun hfalse => (by cases hfalse)⟩⟩
      show JsMap.get? (JsMap.set s.files.snapshotTmps rev c.content) rev = _
      rw [JsMap.get?_set, if_pos rfl]
    | publishing c rev =>
      have hcommit : committing call.phase = true := by rw [hphase]; rfl
      rw [hphase] at hbacked
      obtain ⟨hlive, hrev, htmp⟩ := hbacked
      have happly : (FileOp.renameSnapshotTmp rev).apply s.files = some { s.files with
          snapshots := JsMap.set s.files.snapshots rev c.content
          snapshotTmps := JsMap.erase s.files.snapshotTmps rev } := by
        simp only [FileOp.apply, htmp]
      have hlatest : latestRev (JsMap.set s.files.snapshots rev c.content) = rev := by
        rw [hrev, latestRev_set]
      dsimp only
      rw [perform_of_apply happly]
      refine h.commits hk ⟨h.others hk hcommit, ⟨?_, ?_⟩, ?_, fun _ => ?_, ?_,
        fun d hfalse => (by cases hfalse), .inr ⟨_, rfl, fun hfalse => (by cases hfalse)⟩⟩
      · exact Nat.le_of_eq hlatest.symm
      · show JsMap.get? (JsMap.set s.files.snapshots rev c.content) rev = _
        rw [JsMap.get?_set, if_pos rfl]
      · intro phase' hidle hback
        cases phase' with
        | succeeded d rev' =>
          obtain ⟨hle, hget⟩ := hback
          refine ⟨?_, ?_⟩
          · show rev' ≤ latestRev (JsMap.set s.files.snapshots rev c.content)
            omega
          · show JsMap.get? (JsMap.set s.files.snapshots rev c.content) rev' = _
            rw [JsMap.get?_set, if_neg (by omega)]
            exact hget
        | failed failure => cases failure <;> exact hback
        | reading => trivial
        | validating c => trivial
        | writing c => trivial
        | replacing c => cases hidle
        | scanning c => cases hidle
        | snapshotting c rev => cases hidle
        | publishing c rev => cases hidle
      · show s.files.live = JsMap.get? (JsMap.set s.files.snapshots rev c.content)
          (latestRev (JsMap.set s.files.snapshots rev c.content))
        rw [hlatest, JsMap.get?_set, if_pos rfl, hlive]
      · intro d rev' heq
        cases heq
        omega
    | succeeded c rev => exact h
    | failed failure => exact h

theorem invoke_sound (h : Sound s) (hr : Recorded plugin initial s)
    (operation : ProposalOperation Fields) (validated : Bool) :
    Sound (s.invoke plugin operation validated) := by
  obtain ⟨hidle, hback, hnot⟩ := started_idle (ρ := ρ) plugin operation
  -- a call of the longer list is an old one or the new one
  have hcases : ∀ (j : Nat) c, (s.invoke plugin operation validated).calls[j]? = some c →
      s.calls[j]? = some c ∨ (j = s.calls.length ∧ c.phase = started plugin operation) := by
    intro j c hj
    have hj : (s.calls ++ [_])[j]? = some c := hj
    rw [List.getElem?_append] at hj
    split at hj
    · exact .inl hj
    · obtain ⟨hlt, hc⟩ := List.getElem?_eq_some_iff.mp hj
      rw [List.getElem_singleton] at hc
      subst hc
      simp only [List.length_singleton] at hlt
      exact .inr ⟨by omega, rfl⟩
  have hedit : ∀ entry ∈ s.log,
      isEditAt (s.invoke plugin operation validated) entry.1 = isEditAt s entry.1 := by
    intro entry hentry
    show ((s.calls ++ [_])[entry.1]?).any isEdit = (s.calls[entry.1]?).any isEdit
    rw [List.getElem?_append_left (hr.known entry hentry)]
  refine ⟨?_, ?_, ?_, ?_, ?_, ?_⟩
  · intro j j' c c' hj hj' hc hc'
    rcases hcases j c hj with hj | ⟨_, hphase⟩
    · rcases hcases j' c' hj' with hj' | ⟨_, hphase⟩
      · exact h.single j j' c c' hj hj' hc hc'
      · rw [hphase, hidle] at hc'
        cases hc'
    · rw [hphase, hidle] at hc
      cases hc
  · intro j c hj
    rcases hcases j c hj with hj | ⟨_, hphase⟩
    · exact h.backed j c hj
    · rw [hphase]
      exact hback s.files
  · intro hnone
    exact h.agrees fun c hc => hnone c (List.mem_append_left _ hc)
  · intro j j' c c' d d' rev hj hj' hc hc'
    rcases hcases j c hj with hj | ⟨_, hphase⟩
    · rcases hcases j' c' hj' with hj' | ⟨_, hphase⟩
      · exact h.distinct j j' c c' d d' rev hj hj' hc hc'
      · rw [hphase] at hc'
        exact absurd hc' (hnot d' rev)
    · rw [hphase] at hc
      exact absurd hc (hnot d rev)
  · intro j c d hj hc hcedit entry hentry hrename
    rw [hedit entry (List.mem_of_mem_drop hentry)]
    rcases hcases j c hj with hj | ⟨_, hphase⟩
    · exact h.base j c d hj hc hcedit entry hentry hrename
    · rw [← hphase, hc] at hidle
      cases hidle
  · intro j i hi c hc hcedit j' i' hle hlt hi'
    rw [hedit (i', .renameTmp) (List.mem_of_getElem? hi')]
    rcases hcases i c hc with hc | ⟨hlength, _⟩
    · exact h.edits j i hi c hc hcedit j' i' hle hlt hi'
    · have hknown := hr.known _ (List.mem_of_getElem? hi)
      exact absurd hlength (Nat.ne_of_lt hknown)

theorem step_sound (h : Sound s) (hr : Recorded plugin initial s) (e : Event Fields ρ)
    (hguard : Uncontended s e) : Sound (step plugin s e) := by
  cases e with
  | call operation validated => exact invoke_sound h hr operation validated
  | resume k rejection => exact resume_sound h hr k rejection hguard

/-! ## Runs -/

def loadedFiles (snapshots : JsMap Nat JsString) : DraftFiles where
  live := JsMap.get? snapshots (latestRev snapshots)
  liveTmp := none
  snapshots := snapshots
  snapshotTmps := []

theorem loaded_recorded (type : ProposalType) (snapshots : JsMap Nat JsString) :
    Recorded (ρ := ρ) plugin (loadedFiles snapshots) (loaded type snapshots) where
  files := rfl
  known := by
    intro entry hentry
    cases hentry
  calls := by
    intro k call hk
    cases hk

theorem loaded_sound (type : ProposalType) (snapshots : JsMap Nat JsString) :
    Sound (loaded type snapshots : ProposalDraft Fields ε ρ) where
  single := by
    intro k k' call call' hk
    cases hk
  backed := by
    intro k call hk
    cases hk
  agrees := fun _ => rfl
  distinct := by
    intro k k' call call' c c' rev hk
    cases hk
  base := by
    intro k call c hk
    cases hk
  edits := by
    intro j k hj
    cases hj

theorem rejected_unwritten (h : ProposalDraft.rejected phase = true) :
    ProposalDraft.unwritten phase = true := by
  cases phase with
  | failed failure => cases failure <;> first | rfl | cases h
  | _ => cases h

theorem not_committing_of_ended (h : ended phase = true) : committing phase = false := by
  cases phase with
  | succeeded c rev => rfl
  | failed failure => rfl
  | _ => cases h

theorem Sound.draftAgrees (h : Sound s) (hr : Recorded plugin initial s) :
    DraftAgrees plugin initial s where
  distinct := fun k k' call call' c c' rev hk hk' hc hc' _ =>
    h.distinct k k' call call' c c' rev hk hk' hc hc'
  kept := by
    intro k call c rev hk hphase _
    have hbacked := h.backed k call hk
    rw [hphase] at hbacked
    exact ⟨hbacked.2, (hr.calls k call hk).asked c (by rw [hphase]; rfl)⟩
  edits := h.edits
  live := fun hended => h.agrees fun call hcall => not_committing_of_ended (hended call hcall)
  rejected := fun k call hk hrejected =>
    (hr.calls k call hk).unwritten (rejected_unwritten hrejected)

/-- **Drafts and revisions.** Along uncontended runs they agree, and no operation gets revision 0;
    in every run the log accounts for the files, and a rejected operation is not in it. -/
theorem drafts_agree (plugin : ProposalTypePlugin Fields ε) (type : ProposalType)
    (snapshots : JsMap Nat JsString) (events : List (Event Fields ρ)) :
    ((run (step plugin) (loaded type snapshots) events).files =
        filesAfter (loadedFiles snapshots) (run (step plugin) (loaded type snapshots) events).log ∧
      ∀ (k : Nat) call, (run (step plugin) (loaded type snapshots) events).calls[k]? = some call →
        rejected call.phase = true →
          ∀ entry ∈ (run (step plugin) (loaded type snapshots) events).log, entry.1 ≠ k) ∧
    (Along (step plugin) Uncontended (loaded type snapshots) events →
      DraftAgrees plugin (loadedFiles snapshots)
        (run (step plugin) (loaded type snapshots) events)) := by
  have hr : Recorded plugin (loadedFiles snapshots)
      (run (step plugin) (loaded type snapshots) events) :=
    inv_run (I := Recorded plugin (loadedFiles snapshots)) (fun s e h => step_recorded h e)
      (loaded_recorded type snapshots) events
  refine ⟨⟨hr.files, fun k call hk hrejected =>
    (hr.calls k call hk).unwritten (rejected_unwritten hrejected)⟩, fun hrun => ?_⟩
  have hinv := always_of_along
    (I := fun s => Recorded plugin (loadedFiles snapshots) s ∧ Sound s)
    (fun s e h hguard => ⟨step_recorded h.1 e, step_sound h.2 h.1 e hguard⟩)
    ⟨loaded_recorded type snapshots, loaded_sound type snapshots⟩ hrun
  exact hinv.last.2.draftAgrees hr

/-! ## Two runs -/

/-- A plugin that writes its text as it is. -/
def verbatim : ProposalTypePlugin JsString Unit where
  serialize := id
  parse := fun content _ => .ok content

/-- Resumptions without a rejection. -/
def resumed (ks : List Nat) : List (Event JsString Unit) := ks.map (.resume · none)

/-- An edit waits for its validator while another operation commits. -/
def overlappingChecks : List (Event JsString Unit) :=
  [.call (.writeProposalFile [97, 98]) false] ++ resumed (List.replicate 6 0) ++
    [.call (.editProposalFile [98] [99]) true, .call (.writeProposalFile [100, 98]) true] ++
    resumed [2, 1, 2, 2, 2, 2, 2, 2] ++ resumed (List.replicate 7 1)

theorem drafts_agree_overlappingChecks :
    DraftAgrees verbatim (loadedFiles [])
      (run (step verbatim) (loaded .goal []) overlappingChecks) :=
  (drafts_agree verbatim .goal [] overlappingChecks).2 (by decide)

/-- Two writes that look for the latest revision before either has its snapshot. -/
def overlappingWrites : List (Event JsString Unit) :=
  [.call (.writeProposalFile [97]) false, .call (.writeProposalFile [98]) false] ++
    resumed [0, 0, 0, 1, 1, 1, 0, 1, 0, 0, 1, 1]

/-- Both writes succeed with revision 1, which holds the second. -/
theorem revision_written_twice :
    ¬ DraftAgrees verbatim (loadedFiles [])
      (run (step verbatim) (loaded .goal []) overlappingWrites) := by
  intro h
  have hsame : 0 = 1 :=
    h.distinct 0 1 _ _ { content := [97], fields := [97] } { content := [98], fields := [98] } 1
      rfl rfl rfl rfl (by decide)
  cases hsame

end Bobbit.Server.ProposalDraft
