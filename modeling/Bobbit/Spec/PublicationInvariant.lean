import Mathlib
import Bobbit.Server.SqlitePersistence

/-!
# Reports of publications

The rows that a drain writes are those of the moment it runs, while the reports
about them are made by whoever waits for its barrier. `PublicationInv` says how
far the two agree: every reportable change of a durable write has been reported,
or is about to be, by the continuations of the barriers that the write settled.
It rests on the order of the microtasks: the continuations of one write read
`lastPublication` and report before the next drain runs.

Key results:

- `PublicationInv.drain`, `.drained`, `.published`, `.report`: what each microtask
  keeps. A drain keeps the invariant when each change that it is about to make
  durable is covered by exactly one waiting continuation (`Settles`).
- `Calls`: what the synchronous calls of a store are made of; `PublicationInv.calls`.
- `PublicationInv.reported_once`: what holds when no microtask is left.
-/

namespace Bobbit.Server

variable {κ α ω ε φ τ : Type} [DecidableEq κ]

/-- What a store reports about publications. `topic` names the change that a fact
    is about, `covers` the changes that a continuation looks at. -/
structure Reporting (κ α ω φ τ : Type) [DecidableEq κ] [DecidableEq τ] where
  facts : ω → Publication κ α → List φ
  changed : (κ → Option α) → (κ → Option α) → τ → Bool
  covers : ω → τ → Bool
  topic : φ → Option τ
  countP_facts : ∀ (waiter : ω) (write : Write κ α) (t : τ),
    changed write.before write.after t = true →
      (facts waiter write.publication).countP (topic · = some t) = if covers waiter t then 1 else 0

/-! ## The order of the microtasks -/

/-- May the second job stand behind the first? -/
def Job.canPrecede : Job κ α ω ε → Job κ α ω ε → Bool
  | .drain, .drain => false
  | .drain, .drained => false
  | .drain, .published _ => false
  | .drain, .report .. => false
  | .drained, .drain => false
  | .drained, .drained => false
  | .drained, .published _ => false
  | .published _, .drain => false
  | _, _ => true

def Job.isDrainStep : Job κ α ω ε → Bool
  | .drain => true
  | .drained => true
  | _ => false

/-- Is a job no step of a drain, and makes no report? -/
def Job.isQuiet : Job κ α ω ε → Bool
  | .drain => false
  | .drained => false
  | .published _ => false
  | .report .. => false
  | _ => true

omit [DecidableEq κ] in
theorem Job.isDrainStep_of_isQuiet {job : Job κ α ω ε} (h : job.isQuiet = true) :
    job.isDrainStep = false := by
  cases job <;> simp_all [isQuiet, isDrainStep]

namespace SqlitePersistence

variable [DecidableEq τ] (R : Reporting κ α ω φ τ)

/-- The reports that a queued job will make about a topic. -/
def due (t : τ) : Job κ α ω ε → Bool
  | .published waiter => R.covers waiter t
  | .report waiter _ _ => R.covers waiter t
  | _ => false

theorem due_of_isQuiet {job : Job κ α ω ε} (h : job.isQuiet = true) (t : τ) : due R t job = false := by
  cases job <;> simp_all [Job.isQuiet, due]

/-- The reports made about a topic of a publication. -/
def reportedCount (s : SqlitePersistence κ α ω ε φ) (number : Nat) (t : τ) : Nat :=
  s.reported.countP fun entry => entry.1 = number ∧ R.topic entry.2 = some t

/-- The reports still to be made about a topic of the last publication. -/
def dueCount (s : SqlitePersistence κ α ω ε φ) (t : τ) : Nat := s.jobs.countP (due R t)

/-- Each change that a drain would write now is covered by exactly one of the
    continuations that wait. -/
def Settles (s : SqlitePersistence κ α ω ε φ) : Prop :=
  ∀ t, R.changed s.nextWrite.before s.nextWrite.after t = true →
    (waitersOf s.barriers).countP (R.covers · t) = 1

end SqlitePersistence

open SqlitePersistence

/-- The bookkeeping of publications and reports. -/
structure PublicationInv [DecidableEq τ] (R : Reporting κ α ω φ τ)
    (s : SqlitePersistence κ α ω ε φ) : Prop where
  barrier_revision : ∀ b ∈ s.barriers, b.revision ≤ s.revision
  order : s.jobs.Pairwise fun a b => a.canPrecede b = true
  inFlight : ∀ job ∈ s.jobs, job.isDrainStep = true → s.inFlight = true
  drained_after : ∀ waiter, .published waiter ∈ s.jobs → .drained ∈ s.jobs
  last : ∀ write ∈ s.writes.getLast?, s.lastPublication = write.publication ∧ write.after = s.durable
  published : ∀ waiter, .published waiter ∈ s.jobs → s.writes ≠ []
  report : ∀ waiter publication number, .report waiter publication number ∈ s.jobs →
    number = s.writes.length ∧ publication = s.lastPublication ∧ s.writes ≠ []
  linked : s.writes.IsChain fun write next => write.after = next.before
  numbers : ∀ entry ∈ s.reported, 1 ≤ entry.1 ∧ entry.1 ≤ s.writes.length
  sorted : s.reported.Pairwise fun entry later => entry.1 ≤ later.1
  sound : ∀ entry ∈ s.reported, ∃ waiter write, s.writes[entry.1 - 1]? = some write ∧
    entry.2 ∈ R.facts waiter write.publication
  account : ∀ i write, s.writes[i]? = some write → ∀ t,
    R.changed write.before write.after t = true →
      reportedCount R s (i + 1) t + (if i + 1 = s.writes.length then dueCount R s t else 0) = 1

namespace PublicationInv

variable [DecidableEq τ] {R : Reporting κ α ω φ τ} {s : SqlitePersistence κ α ω ε φ}

theorem loaded (rows : Lib.JsMap κ α) :
    PublicationInv R (SqlitePersistence.loaded rows : SqlitePersistence κ α ω ε φ) := by
  constructor <;> simp [SqlitePersistence.loaded]

/-! ## Calls -/

theorem setRows (h : PublicationInv R s) (rows : Lib.JsMap κ α) :
    PublicationInv R { s with rows := rows } :=
  { h with }

theorem schedule (h : PublicationInv R s) (keys : List κ) : PublicationInv R (s.schedule keys) := by
  unfold SqlitePersistence.schedule
  split
  · exact h
  · exact { h with barrier_revision := fun b hb => Nat.le_succ_of_le (h.barrier_revision b hb) }

theorem enqueue (h : PublicationInv R s) {job : Job κ α ω ε}
    (horder : ∀ earlier ∈ s.jobs, earlier.canPrecede job = true)
    (hstep : job.isDrainStep = true → s.inFlight = true)
    (hpublished : ∀ waiter, job ≠ .published waiter)
    (hreport : ∀ waiter publication number, job ≠ .report waiter publication number) :
    PublicationInv R (s.enqueue job) := by
  have hdue : ∀ t, due R t job = false := by
    intro t
    cases job <;> simp_all [due]
  refine { h with
    order := ?_, inFlight := ?_, drained_after := ?_, published := ?_, report := ?_, account := ?_ }
  · exact List.pairwise_append.mpr ⟨h.order, List.pairwise_singleton _ _, by simpa using horder⟩
  · intro j hj
    rcases List.mem_append.mp hj with hj | hj
    · exact h.inFlight j hj
    · rw [List.mem_singleton.mp hj]
      exact hstep
  · intro waiter hw
    rcases List.mem_append.mp hw with hw | hw
    · exact List.mem_append_left _ (h.drained_after waiter hw)
    · exact absurd (List.mem_singleton.mp hw).symm (hpublished waiter)
  · intro waiter hw
    rcases List.mem_append.mp hw with hw | hw
    · exact h.published waiter hw
    · exact absurd (List.mem_singleton.mp hw).symm (hpublished waiter)
  · intro waiter publication number hw
    rcases List.mem_append.mp hw with hw | hw
    · exact h.report waiter publication number hw
    · exact absurd (List.mem_singleton.mp hw).symm (hreport waiter publication number)
  · intro i write hi t ht
    have hcount : dueCount R (s.enqueue job) t = dueCount R s t := by
      simp [dueCount, SqlitePersistence.enqueue, hdue]
    rw [hcount]
    exact h.account i write hi t ht

theorem enqueue_other (h : PublicationInv R s) (job : ε) :
    PublicationInv R (s.enqueue (.other job)) :=
  h.enqueue (fun earlier _ => by cases earlier <;> rfl) (by simp [Job.isDrainStep]) (by simp) (by simp)

theorem resume (h : PublicationInv R s) (job : ε) : PublicationInv R (s.resume job) := by
  have hmem : ∀ {j : Job κ α ω ε}, j ∈ (s.resume job).jobs → j = .other job ∨ j ∈ s.jobs :=
    fun hj => List.mem_cons.mp hj
  refine { h with
    order := List.pairwise_cons.mpr ⟨fun later _ => by cases later <;> rfl, h.order⟩
    inFlight := fun j hj hstep => ?_
    drained_after := fun waiter hw => ?_
    published := fun waiter hw => ?_
    report := fun waiter publication number hw => ?_
    account := fun i write hi t ht => ?_ }
  · rcases hmem hj with rfl | hj
    · cases hstep
    · exact h.inFlight j hj hstep
  · exact List.mem_cons_of_mem _ (h.drained_after waiter ((hmem hw).resolve_left (by simp)))
  · exact h.published waiter ((hmem hw).resolve_left (by simp))
  · exact h.report waiter publication number ((hmem hw).resolve_left (by simp))
  · have hcount : dueCount R (s.resume job) t = dueCount R s t := by
      simp [dueCount, SqlitePersistence.resume, due]
    rw [hcount]
    exact h.account i write hi t ht

theorem startDrain (h : PublicationInv R s) : PublicationInv R s.startDrain := by
  unfold SqlitePersistence.startDrain
  split
  · exact h
  · rename_i hidle
    have hbusy : PublicationInv R { s with inFlight := true } := { h with inFlight := fun _ _ _ => rfl }
    have horder : ∀ earlier ∈ s.jobs, earlier.canPrecede (.drain : Job κ α ω ε) = true := by
      intro earlier hearlier
      cases earlier with
      | drain => exact absurd (h.inFlight _ hearlier rfl) hidle
      | drained => exact absurd (h.inFlight _ hearlier rfl) hidle
      | published waiter => exact absurd (h.inFlight _ (h.drained_after waiter hearlier) rfl) hidle
      | _ => rfl
    exact hbusy.enqueue horder (fun _ => rfl) (by simp) (by simp)

theorem requestBarrier (h : PublicationInv R s) (waiter : Option ω) :
    PublicationInv R (s.requestBarrier waiter) := by
  refine startDrain { h with barrier_revision := fun b hb => ?_ }
  rcases List.mem_append.mp hb with hb | hb
  · exact Nat.le_succ_of_le (h.barrier_revision b hb)
  · rw [List.mem_singleton.mp hb]

theorem publishStrict (h : PublicationInv R s) (keys : List κ) (waiter : ω) :
    PublicationInv R (s.publishStrict keys waiter) := by
  have hdirty : PublicationInv R { s with dirty := s.dirty.addAll keys } := { h with }
  exact hdirty.requestBarrier (some waiter)

theorem flush (h : PublicationInv R s) : PublicationInv R s.flush := by
  unfold SqlitePersistence.flush
  split
  · exact h.requestBarrier none
  · exact h

theorem timerFired (h : PublicationInv R s) : PublicationInv R s.timerFired := by
  unfold SqlitePersistence.timerFired
  split
  · exact startDrain { h with }
  · exact h

/-! ## Microtasks -/

section Pop

variable {job : Job κ α ω ε} {rest : List (Job κ α ω ε)}

/-- A microtask that makes no report is taken off the queue. -/
theorem popped (h : PublicationInv R s) (hjobs : s.jobs = job :: rest)
    (hdue : ∀ t, due R t job = false) : PublicationInv R s.popped := by
  have htail : s.popped.jobs = rest := by simp [SqlitePersistence.popped, hjobs]
  have horder := h.order
  rw [hjobs, List.pairwise_cons] at horder
  refine { h with
    order := ?_, inFlight := ?_, drained_after := ?_, published := ?_, report := ?_, account := ?_ }
  · rw [htail]
    exact horder.2
  · intro j hj
    exact h.inFlight j (by rw [hjobs]; exact List.mem_cons_of_mem _ (htail ▸ hj))
  · intro waiter hw
    rw [htail] at hw ⊢
    have hdrained := h.drained_after waiter (by rw [hjobs]; exact List.mem_cons_of_mem _ hw)
    rw [hjobs, List.mem_cons] at hdrained
    rcases hdrained with rfl | hdrained
    · exact absurd (horder.1 _ hw) (by simp [Job.canPrecede])
    · exact hdrained
  · intro waiter hw
    exact h.published waiter (by rw [hjobs]; exact List.mem_cons_of_mem _ (htail ▸ hw))
  · intro waiter publication number hw
    exact h.report waiter publication number
      (by rw [hjobs]; exact List.mem_cons_of_mem _ (htail ▸ hw))
  · intro i write hi t ht
    have hcount : dueCount R s.popped t = dueCount R s t := by
      simp [dueCount, htail, hjobs, hdue]
    rw [hcount]
    exact h.account i write hi t ht

/-- The queue behind a drain has no step of a drain and no report. -/
theorem behind_drain (h : PublicationInv R s) (hjobs : s.jobs = .drain :: rest) :
    ∀ job ∈ rest, job.isQuiet = true := by
  intro job hjob
  have horder := h.order
  rw [hjobs, List.pairwise_cons] at horder
  have hprecede := horder.1 job hjob
  cases job <;> simp_all [Job.canPrecede, Job.isQuiet]

theorem drained_step (h : PublicationInv R s) (hjobs : s.jobs = .drained :: rest) :
    PublicationInv R s.popped.drained := by
  have hpopped := h.popped hjobs (fun _ => rfl)
  have hidle : PublicationInv R { s.popped with inFlight := false } := by
    refine { hpopped with inFlight := fun job hjob hstep => ?_ }
    have horder := h.order
    rw [hjobs, List.pairwise_cons] at horder
    have hmem : job ∈ rest := by simpa [SqlitePersistence.popped, hjobs] using hjob
    have hprecede := horder.1 job hmem
    cases job <;> simp_all [Job.canPrecede, Job.isDrainStep]
  unfold SqlitePersistence.drained
  dsimp only
  split
  · exact hidle.enqueue (fun earlier _ => by cases earlier <;> rfl) (by simp [Job.isDrainStep])
      (by simp) (by simp)
  · exact hidle

/-- The reaction of a settled barrier reads the publication that settled it. -/
theorem published_step (h : PublicationInv R s) {waiter : ω}
    (hjobs : s.jobs = .published waiter :: rest) :
    PublicationInv R (s.popped.published waiter) := by
  have horder := h.order
  rw [hjobs, List.pairwise_cons] at horder
  have hnext : (s.popped.published waiter).jobs =
      rest ++ [.report waiter s.lastPublication s.writes.length] := by
    simp [SqlitePersistence.published, SqlitePersistence.enqueue, SqlitePersistence.popped, hjobs]
  have hmem : ∀ {job : Job κ α ω ε}, job ∈ rest → job ∈ s.jobs := fun hjob => by
    rw [hjobs]
    exact List.mem_cons_of_mem _ hjob
  refine { h with
    order := ?_, inFlight := ?_, drained_after := ?_, published := ?_, report := ?_, account := ?_ }
  · rw [hnext]
    refine List.pairwise_append.mpr ⟨horder.2, List.pairwise_singleton _ _, ?_⟩
    intro earlier hearlier later hlater
    rw [List.mem_singleton.mp hlater]
    have hprecede := horder.1 earlier hearlier
    cases earlier <;> simp_all [Job.canPrecede]
  · intro job hjob hstep
    rw [hnext, List.mem_append, List.mem_singleton] at hjob
    rcases hjob with hjob | rfl
    · exact h.inFlight job (hmem hjob) hstep
    · cases hstep
  · intro w hw
    rw [hnext, List.mem_append, List.mem_singleton] at hw ⊢
    rcases hw with hw | hw
    · have hdrained := h.drained_after w (hmem hw)
      rw [hjobs, List.mem_cons] at hdrained
      exact .inl (hdrained.resolve_left (by simp))
    · cases hw
  · intro w hw
    rw [hnext, List.mem_append, List.mem_singleton] at hw
    rcases hw with hw | hw
    · exact h.published w (hmem hw)
    · cases hw
  · intro w publication number hw
    rw [hnext, List.mem_append, List.mem_singleton] at hw
    rcases hw with hw | hw
    · exact h.report w publication number (hmem hw)
    · cases hw
      exact ⟨rfl, rfl, h.published waiter (by rw [hjobs]; exact List.mem_cons_self)⟩
  · intro i write hi t ht
    have hcount : dueCount R (s.popped.published waiter) t = dueCount R s t := by
      simp only [dueCount, hnext, hjobs, List.countP_append, List.countP_cons, List.countP_nil]
      rw [Nat.zero_add]
      rfl
    rw [hcount]
    exact h.account i write hi t ht

theorem report_step (h : PublicationInv R s) {waiter : ω} {publication : Publication κ α}
    {number : Nat} (hjobs : s.jobs = .report waiter publication number :: rest) :
    PublicationInv R (s.popped.report number (R.facts waiter publication)) := by
  have horder := h.order
  rw [hjobs, List.pairwise_cons] at horder
  obtain ⟨rfl, rfl, hne⟩ := h.report waiter publication number (by rw [hjobs]; exact List.mem_cons_self)
  have hnext : (s.popped.report s.writes.length (R.facts waiter s.lastPublication)).jobs = rest := by
    simp [SqlitePersistence.report, SqlitePersistence.popped, hjobs]
  have hmem : ∀ {job : Job κ α ω ε}, job ∈ rest → job ∈ s.jobs := fun hjob => by
    rw [hjobs]
    exact List.mem_cons_of_mem _ hjob
  obtain ⟨write, hwrite⟩ := Option.isSome_iff_exists.mp (List.getLast?_isSome.mpr hne)
  have hlast := (h.last write hwrite).1
  have hlength : s.writes.length ≠ 0 := fun hzero => hne (List.length_eq_zero_iff.mp hzero)
  refine { h with
    order := ?_, inFlight := ?_, drained_after := ?_, published := ?_, report := ?_, numbers := ?_,
    sorted := ?_, sound := ?_, account := ?_ }
  · rw [hnext]
    exact horder.2
  · intro job hjob
    exact h.inFlight job (hmem (hnext ▸ hjob))
  · intro w hw
    rw [hnext] at hw ⊢
    have hdrained := h.drained_after w (hmem hw)
    rw [hjobs, List.mem_cons] at hdrained
    exact hdrained.resolve_left (by simp)
  · intro w hw
    exact h.published w (hmem (hnext ▸ hw))
  · intro w p n hw
    exact h.report w p n (hmem (hnext ▸ hw))
  · intro entry hentry
    rcases List.mem_append.mp hentry with hentry | hentry
    · exact h.numbers entry hentry
    · obtain ⟨fact, -, rfl⟩ := List.mem_map.mp hentry
      exact ⟨Nat.one_le_iff_ne_zero.mpr hlength, Nat.le_refl _⟩
  · refine List.pairwise_append.mpr ⟨h.sorted, ?_, ?_⟩
    · exact List.pairwise_map.mpr (List.pairwise_of_forall fun _ _ => Nat.le_refl _)
    · intro entry hentry later hlater
      obtain ⟨fact, -, rfl⟩ := List.mem_map.mp hlater
      exact (h.numbers entry hentry).2
  · intro entry hentry
    rcases List.mem_append.mp hentry with hentry | hentry
    · exact h.sound entry hentry
    · obtain ⟨fact, hfact, rfl⟩ := List.mem_map.mp hentry
      exact ⟨waiter, write, by rw [← hwrite, List.getLast?_eq_getElem?]; rfl, hlast ▸ hfact⟩
  · intro i w hi t ht
    have hold := h.account i w hi t ht
    have hdue : dueCount R s t = dueCount R (s.popped.report s.writes.length
        (R.facts waiter s.lastPublication)) t + if R.covers waiter t then 1 else 0 := by
      simp only [dueCount, hnext, hjobs, List.countP_cons]
      rfl
    have hreported : reportedCount R (s.popped.report s.writes.length
        (R.facts waiter s.lastPublication)) (i + 1) t = reportedCount R s (i + 1) t +
          (R.facts waiter s.lastPublication).countP fun fact =>
            s.writes.length = i + 1 ∧ R.topic fact = some t := by
      simp [reportedCount, SqlitePersistence.report, SqlitePersistence.popped, List.countP_append,
        List.countP_map, Function.comp_def]
    rw [hreported]
    have hwrites : (s.popped.report s.writes.length (R.facts waiter s.lastPublication)).writes =
      s.writes := rfl
    rw [hwrites]
    by_cases hi' : i + 1 = s.writes.length
    · have hw : w = write := by
        have hi : s.writes[i]? = some w := hi
        rw [List.getLast?_eq_getElem?, show s.writes.length - 1 = i by omega, hi] at hwrite
        exact Option.some.inj hwrite
      subst hw
      have hcount := R.countP_facts waiter w t ht
      rw [← hlast] at hcount
      simp only [hi', if_true, true_and, hcount] at hold ⊢
      omega
    · have hne' : ¬ s.writes.length = i + 1 := fun heq => hi' heq.symm
      simpa [hi', hne'] using hold

theorem drainFailed (h : PublicationInv R s) : PublicationInv R s.drainFailed := by
  have henqueue : ∀ (waiters : List ω) {s : SqlitePersistence κ α ω ε φ}, PublicationInv R s →
      PublicationInv R { s with jobs := s.jobs ++ waiters.map .rejected } := by
    intro waiters
    induction waiters with
    | nil => intro s h; simpa using h
    | cons waiter rest ih =>
      intro s h
      have hone : PublicationInv R (s.enqueue (.rejected waiter)) :=
        h.enqueue (fun earlier _ => by cases earlier <;> rfl) (by simp [Job.isDrainStep]) (by simp)
          (by simp)
      simpa [SqlitePersistence.enqueue] using ih hone
  have hjobs := henqueue (waitersOf (s.barriers.filter (·.revision ≤ s.revision))) h
  exact { hjobs with
    barrier_revision := fun b hb => h.barrier_revision b (List.mem_of_mem_filter hb) }

/-- The waiters of a committed drain are queued, then the end of the drain. -/
theorem drainCommitted (h : PublicationInv R s) (hbusy : s.inFlight = true)
    (hjobs : ∀ job ∈ s.jobs, job.isQuiet = true) (hsettles : Settles R s) : PublicationInv R (s.drainCommitted.enqueue .drained) := by
  have hall : s.barriers.filter (·.revision ≤ max s.publishedRevision s.revision) = s.barriers :=
    List.filter_eq_self.mpr fun b hb => by
      have := h.barrier_revision b hb
      simp only [decide_eq_true_eq]
      omega
  have hnext : (s.drainCommitted.enqueue .drained).jobs =
      s.jobs ++ (waitersOf s.barriers).map .published ++ [.drained] := by
    simp only [SqlitePersistence.drainCommitted, SqlitePersistence.enqueue, hall]
  have hmem : ∀ {job : Job κ α ω ε}, job ∈ (s.drainCommitted.enqueue .drained).jobs →
      job ∈ s.jobs ∨ (∃ waiter, job = .published waiter) ∨ job = .drained := by
    intro job hjob
    rw [hnext, List.mem_append, List.mem_append, List.mem_map, List.mem_singleton] at hjob
    rcases hjob with (hjob | ⟨waiter, -, rfl⟩) | rfl
    · exact .inl hjob
    · exact .inr (.inl ⟨waiter, rfl⟩)
    · exact .inr (.inr rfl)
  have hwrites : (s.drainCommitted.enqueue .drained).writes = s.writes ++ [s.nextWrite] := rfl
  have hlength : (s.drainCommitted.enqueue .drained).writes.length = s.writes.length + 1 := by
    rw [hwrites, List.length_append, List.length_singleton]
  have hreported : (s.drainCommitted.enqueue .drained).reported = s.reported := rfl
  constructor
  · intro b hb
    simp [SqlitePersistence.drainCommitted, SqlitePersistence.enqueue] at hb
    have := h.barrier_revision b hb.1
    omega
  · rw [hnext]
    refine List.pairwise_append.mpr ⟨List.pairwise_append.mpr ⟨h.order, ?_, ?_⟩,
      List.pairwise_singleton _ _, ?_⟩
    · exact List.pairwise_map.mpr (List.pairwise_of_forall fun _ _ => rfl)
    · intro earlier hearlier later hlater
      obtain ⟨waiter, -, rfl⟩ := List.mem_map.mp hlater
      have hquiet := hjobs earlier hearlier
      cases earlier <;> simp_all [Job.canPrecede, Job.isQuiet]
    · intro earlier hearlier later hlater
      rw [List.mem_singleton.mp hlater]
      rcases List.mem_append.mp hearlier with hearlier | hearlier
      · have hquiet := hjobs earlier hearlier
        cases earlier <;> simp_all [Job.canPrecede, Job.isQuiet]
      · obtain ⟨waiter, -, rfl⟩ := List.mem_map.mp hearlier
        rfl
  · exact fun _ _ _ => hbusy
  · intro waiter _
    rw [hnext]
    simp
  · intro write hwrite
    rw [hwrites, List.getLast?_concat] at hwrite
    obtain rfl := Option.some.inj hwrite
    exact ⟨rfl, rfl⟩
  · intro _ _
    simp [hwrites]
  · intro waiter publication number hreport
    rcases hmem hreport with hjob | ⟨w, hw⟩ | hw
    · cases hjobs _ hjob
    · cases hw
    · cases hw
  · rw [hwrites, List.isChain_append]
    refine ⟨h.linked, List.isChain_singleton _, fun last hlast next hnext => ?_⟩
    obtain rfl := Option.some.inj hnext
    exact (h.last last hlast).2
  · intro entry hentry
    have := h.numbers entry hentry
    rw [hlength]
    omega
  · exact h.sorted
  · intro entry hentry
    obtain ⟨waiter, write, hwrite, hfact⟩ := h.sound entry hentry
    exact ⟨waiter, write, by rw [hwrites, List.getElem?_append_left (by
      have := h.numbers entry hentry
      omega), hwrite], hfact⟩
  · intro i write hi t ht
    have hdue : dueCount R s t = 0 := List.countP_eq_zero.mpr fun job hjob => by
      simp [due_of_isQuiet R (hjobs job hjob) t]
    have hcount : reportedCount R (s.drainCommitted.enqueue .drained) (i + 1) t =
      reportedCount R s (i + 1) t := rfl
    rw [hcount, hlength]
    by_cases hi' : i < s.writes.length
    · rw [hwrites, List.getElem?_append_left hi'] at hi
      have hold := h.account i write hi t ht
      rw [if_neg (by omega)]
      simpa [hdue] using hold
    · have hlast : i = s.writes.length := by
        have := (List.getElem?_eq_some_iff.mp hi).1
        omega
      subst hlast
      rw [hwrites, List.getElem?_concat_length] at hi
      obtain rfl := Option.some.inj hi
      have hnone : reportedCount R s (s.writes.length + 1) t = 0 :=
        List.countP_eq_zero.mpr fun entry hentry => by
          have := (h.numbers entry hentry).2
          simp [show ¬ entry.1 = s.writes.length + 1 by omega]
      have hnow : dueCount R (s.drainCommitted.enqueue .drained) t =
          (waitersOf s.barriers).countP (R.covers · t) := by
        rw [dueCount, hnext, List.countP_append, List.countP_append, ← dueCount, hdue,
          List.countP_map]
        simp [due, Function.comp_def]
      rw [hnone, if_pos rfl, hnow, hsettles t ht]

theorem drain_step (h : PublicationInv R s) (hjobs : s.jobs = .drain :: rest) {fails : Bool}
    (hsettles : s.requested = true → fails = false → Settles R s) :
    PublicationInv R (s.popped.drain fails) := by
  have hpopped := h.popped hjobs (fun _ => rfl)
  have hbusy : s.inFlight = true := h.inFlight .drain (by rw [hjobs]; exact List.mem_cons_self) rfl
  have hbehind : ∀ job ∈ s.popped.jobs, job.isQuiet = true := by
    intro job hjob
    exact h.behind_drain hjobs job (by simpa [SqlitePersistence.popped, hjobs] using hjob)
  have hdrained : ∀ {s : SqlitePersistence κ α ω ε φ}, PublicationInv R s → s.inFlight = true →
      (∀ job ∈ s.jobs, job.isDrainStep = false) → PublicationInv R (s.enqueue .drained) := by
    intro s h hbusy hstep
    refine h.enqueue (fun earlier hearlier => ?_) (fun _ => hbusy) (by simp) (by simp)
    have := hstep earlier hearlier
    cases earlier <;> simp_all [Job.canPrecede, Job.isDrainStep]
  unfold SqlitePersistence.drain
  split
  · exact hdrained hpopped hbusy fun job hjob =>
      Job.isDrainStep_of_isQuiet (hbehind job hjob)
  · rename_i hrequested
    split
    · refine hdrained hpopped.drainFailed hbusy fun job hjob => ?_
      rcases List.mem_append.mp hjob with hjob | hjob
      · exact Job.isDrainStep_of_isQuiet (hbehind job hjob)
      · obtain ⟨waiter, -, rfl⟩ := List.mem_map.mp hjob
        rfl
    · rename_i hcommits
      exact hpopped.drainCommitted hbusy hbehind
        (hsettles (by simpa [SqlitePersistence.popped] using hrequested) (by simpa using hcommits))

end Pop

/-! ## What the invariant says -/

/-- When no microtask is left, every change of a durable write that can be reported
    has been reported once. -/
theorem reported_once (h : PublicationInv R s) (hjobs : s.jobs = []) {i : Nat} {write : Write κ α}
    (hi : s.writes[i]? = some write) {t : τ}
    (ht : R.changed write.before write.after t = true) : reportedCount R s (i + 1) t = 1 := by
  have haccount := h.account i write hi t ht
  simpa [dueCount, hjobs] using haccount

theorem reported_at_most_once (h : PublicationInv R s) {i : Nat} {write : Write κ α}
    (hi : s.writes[i]? = some write) {t : τ}
    (ht : R.changed write.before write.after t = true) : reportedCount R s (i + 1) t ≤ 1 := by
  have haccount := h.account i write hi t ht
  omega

end PublicationInv

/-! ## Calls of a store -/

/-- What the synchronous calls of a store do to its persistence. -/
inductive Calls : SqlitePersistence κ α ω ε φ → SqlitePersistence κ α ω ε φ → Prop
  | refl (s) : Calls s s
  | setRows {s s'} (h : Calls s s') (rows : Lib.JsMap κ α) : Calls s { s' with rows := rows }
  | schedule {s s'} (h : Calls s s') (keys : List κ) : Calls s (s'.schedule keys)
  | publishStrict {s s'} (h : Calls s s') (keys : List κ) (waiter : ω) :
      Calls s (s'.publishStrict keys waiter)
  | flush {s s'} (h : Calls s s') : Calls s s'.flush
  | enqueue {s s'} (h : Calls s s') (job : ε) : Calls s (s'.enqueue (.other job))

variable {s s' : SqlitePersistence κ α ω ε φ}

theorem Calls.trans {s'' : SqlitePersistence κ α ω ε φ} (h : Calls s s') (h' : Calls s' s'') :
    Calls s s'' := by
  induction h' with
  | refl => exact h
  | setRows _ rows ih => exact ih.setRows rows
  | schedule _ keys ih => exact ih.schedule keys
  | publishStrict _ keys waiter ih => exact ih.publishStrict keys waiter
  | flush _ ih => exact ih.flush
  | enqueue _ job ih => exact ih.enqueue job

theorem PublicationInv.calls [DecidableEq τ] {R : Reporting κ α ω φ τ}
    (hcalls : Calls s s') (h : PublicationInv R s) : PublicationInv R s' := by
  induction hcalls with
  | refl => exact h
  | setRows _ rows ih => exact ih.setRows rows
  | schedule _ keys ih => exact ih.schedule keys
  | publishStrict _ keys waiter ih => exact ih.publishStrict keys waiter
  | flush _ ih => exact ih.flush
  | enqueue _ job ih => exact ih.enqueue_other job

omit [DecidableEq κ] in
theorem SqlitePersistence.startDrain_writes (s : SqlitePersistence κ α ω ε φ) :
    s.startDrain.writes = s.writes ∧ s.startDrain.durable = s.durable ∧
      s.startDrain.reported = s.reported := by
  unfold SqlitePersistence.startDrain
  split <;> exact ⟨rfl, rfl, rfl⟩

theorem SqlitePersistence.publishStrict_rows (s : SqlitePersistence κ α ω ε φ) (keys : List κ)
    (waiter : ω) : (s.publishStrict keys waiter).rows = s.rows := by
  unfold SqlitePersistence.publishStrict SqlitePersistence.requestBarrier
    SqlitePersistence.startDrain
  dsimp only
  split <;> rfl

omit [DecidableEq κ] in
theorem SqlitePersistence.startDrain_jobs (s : SqlitePersistence κ α ω ε φ) :
    ∃ more, s.startDrain.jobs = s.jobs ++ more := by
  unfold SqlitePersistence.startDrain
  split
  · exact ⟨[], (List.append_nil _).symm⟩
  · exact ⟨[.drain], rfl⟩

theorem Calls.jobs (h : Calls s s') : s.jobs ⊆ s'.jobs := by
  have hbarrier : ∀ (s : SqlitePersistence κ α ω ε φ) (waiter : Option ω),
      s.jobs ⊆ (s.requestBarrier waiter).jobs := by
    intro s waiter
    unfold SqlitePersistence.requestBarrier
    dsimp only
    obtain ⟨more, hmore⟩ := SqlitePersistence.startDrain_jobs { s with
      revision := s.revision + 1
      requested := true
      timer := false
      barriers := s.barriers ++ [⟨s.revision + 1, waiter⟩] }
    rw [hmore]
    exact List.subset_append_left _ _
  induction h with
  | refl => exact List.Subset.refl _
  | setRows _ rows ih => exact ih
  | schedule _ keys ih =>
    unfold SqlitePersistence.schedule
    split
    · exact ih
    · exact ih
  | @publishStrict s' _ keys waiter ih =>
    exact List.Subset.trans ih (hbarrier { s' with dirty := s'.dirty.addAll keys } (some waiter))
  | flush _ ih =>
    unfold SqlitePersistence.flush
    split
    · exact List.Subset.trans ih (hbarrier _ _)
    · exact ih
  | enqueue _ job ih => exact List.Subset.trans ih (List.subset_append_left _ _)

theorem Calls.frame (h : Calls s s') :
    s'.writes = s.writes ∧ s'.durable = s.durable ∧ s'.reported = s.reported := by
  induction h with
  | refl => exact ⟨rfl, rfl, rfl⟩
  | setRows _ rows ih => exact ih
  | schedule _ keys ih =>
    unfold SqlitePersistence.schedule
    split
    · exact ih
    · exact ih
  | publishStrict _ keys waiter ih =>
    obtain ⟨hwrites, hdurable, hreported⟩ := startDrain_writes _
    exact ⟨hwrites.trans ih.1, hdurable.trans ih.2.1, hreported.trans ih.2.2⟩
  | flush _ ih =>
    unfold SqlitePersistence.flush
    split
    · obtain ⟨hwrites, hdurable, hreported⟩ := startDrain_writes _
      exact ⟨hwrites.trans ih.1, hdurable.trans ih.2.1, hreported.trans ih.2.2⟩
    · exact ih
  | enqueue _ job ih => exact ih

end Bobbit.Server
