import Bobbit.Lib.Run
import Bobbit.Server.TaskManager

/-!
# Task hierarchy and dependencies

Key results:

- `hierarchy_iff`: sub-tasks are nested one level deep and complete tasks have
  settled sub-tasks exactly in the runs that create no sub-task of a complete task.
- `child_of_complete`: such a run.
- `dependencies_checked`: dependencies never form a cycle, and an update that brings
  new ones is rejected exactly when one does not exist or they would close a cycle.
- `unknown_dependency_rejected`: a rejected update that would close no cycle.
-/

namespace Bobbit.Server

open Lib

namespace TaskManager

def Settled (task : PersistedTask) : Prop := task.state = .complete ∨ task.state = .skipped

instance (task : PersistedTask) : Decidable (Settled task) := inferInstanceAs (Decidable (_ ∨ _))

/-- A new id occurs nowhere in the store. -/
def Fresh (tasks : Tasks) (id : String) : Prop :=
  id ≠ "" ∧ ∀ entry ∈ tasks, entry.1 ≠ id ∧ entry.2.parentTaskId ≠ some id ∧
    id ∉ entry.2.dependsOn.getD []

/-- `randomUUID` returns a new id. -/
def FreshId (tasks : Tasks) : Event → Prop
  | .createTask id .. => Fresh tasks id
  | _ => True

instance (tasks : Tasks) (id : String) : Decidable (Fresh tasks id) :=
  inferInstanceAs (Decidable (_ ∧ ∀ _ ∈ _, _))

instance (tasks : Tasks) : (event : Event) → Decidable (FreshId tasks event)
  | .createTask id .. => inferInstanceAs (Decidable (Fresh tasks id))
  | .updateTask .. => inferInstanceAs (Decidable True)
  | .deleteTask .. => inferInstanceAs (Decidable True)
  | .deleteTasksForGoal .. => inferInstanceAs (Decidable True)
  | .assignTask .. => inferInstanceAs (Decidable True)
  | .completeTask .. => inferInstanceAs (Decidable True)
  | .transitionTask .. => inferInstanceAs (Decidable True)

/-! ## What an operation does to the tasks -/

/-- One task turns into another: its place in the hierarchy stays, its state follows
    the table, a completed task has no open sub-task and new dependencies are checked. -/
structure Change (tasks : Tasks) (id : String) (task next : PersistedTask) : Prop where
  get : tasks.get? id = some task
  sameId : next.id = task.id
  goalId : next.goalId = task.goalId
  parentTaskId : next.parentTaskId = task.parentTaskId
  state : next.state = task.state ∨ next.state ∈ validTransitions task.state
  completed : next.state = .complete → task.state = .complete ∨ incomplete tasks id = []
  dependsOn : next.dependsOn = task.dependsOn ∨
    ∃ ids, next.dependsOn = some ids ∧ detectCycle tasks id ids = false

/-- A task that `createTask` adds. -/
structure Created (tasks : Tasks) (id : String) (task : PersistedTask) : Prop where
  sameId : task.id = id
  state : task.state = .todo
  parent : checkParent tasks task.goalId task.parentTaskId = .ok ()
  dependsOn : ∀ depId ∈ task.dependsOn.getD [], (tasks.get? depId).isSome = true

/-- The dependencies that `createTask` checks. -/
def newDependencies (opts : CreateTaskOptions) : List String :=
  (opts.dependsOn.map fun ids => (JsSet.ofList ids).members).getD []

/-- A `createTask` that passes its checks. -/
def Creates (tasks : Tasks) (event : Event) (id : String) (parentTaskId : Option String) : Prop :=
  match event with
  | .createTask newId goalId _ _ opts _ => newId = id ∧ opts.parentTaskId = parentTaskId ∧
      checkParent tasks goalId opts.parentTaskId = .ok () ∧
        missingDependency tasks (newDependencies opts) = none
  | _ => False

variable {tasks : Tasks} {event : Event} {id : String}

theorem Creates.fresh {parentTaskId : Option String}
    (h : Creates tasks event id parentTaskId) (hfresh : FreshId tasks event) : Fresh tasks id := by
  cases event with
  | createTask => exact h.1 ▸ hfresh
  | _ => cases h

/-- What an operation does to the tasks. -/
inductive StepCase (tasks after : Tasks) (event : Event) : Prop
  | same (eq : after = tasks)
  | created (id : String) (task : PersistedTask) (created : Created tasks id task)
      (creates : Creates tasks event id task.parentTaskId) (eq : after = tasks.set id task)
  | changed (id : String) (task next : PersistedTask) (change : Change tasks id task next)
      (eq : after = tasks.set id next)
  /-- a sub-task and its parent -/
  | both (id parentId : String) (task next parent started : PersistedTask)
      (change : Change tasks id task next)
      (parentOf : truthyId task.parentTaskId = some parentId)
      (start : Change (tasks.set id next) parentId parent started)
      (eq : after = (tasks.set id next).set parentId started)
  /-- whole families -/
  | removed (ids : List String)
      (children : ∀ entry ∈ tasks, ∀ parentId ∈ ids, entry.2.parentTaskId = some parentId →
        entry.2.id ∈ ids)
      (eq : after = removeMany tasks ids)

variable {task : PersistedTask}

theorem mem_getByParentTaskId {parentTaskId : String} :
    task ∈ getByParentTaskId tasks parentTaskId ↔
      (∃ key, (key, task) ∈ tasks) ∧ task.parentTaskId = some parentTaskId := by
  simp [getByParentTaskId]

theorem checkState_ok {state : Option TaskState} (h : checkState tasks id task state = .ok ()) :
    (state.getD task.state = task.state ∨ state.getD task.state ∈ validTransitions task.state) ∧
      (state.getD task.state = .complete → task.state = .complete ∨ incomplete tasks id = []) := by
  cases state with
  | none => exact ⟨.inl rfl, .inl⟩
  | some target =>
    simp only [checkState] at h
    simp only [Option.getD_some]
    split at h
    · rename_i hsame
      exact ⟨.inl hsame, fun hcomplete => .inl (hsame.symm.trans hcomplete)⟩
    · split at h
      · cases h
      · rename_i hvalid
        split at h
        · cases h
        · rename_i hopen
          refine ⟨.inr ?_, fun hcomplete => .inr ?_⟩
          · simpa [isValidTransition] using hvalid
          · by_contra hne
            exact hopen ⟨hcomplete, hne⟩

theorem checkDependencies_ok {ids : List String}
    (h : checkDependencies tasks id (some ids) = .ok ()) : detectCycle tasks id ids = false := by
  simp only [checkDependencies] at h
  split at h
  · cases h
  · split at h
    · cases h
    · rename_i hcycle
      simpa using hcycle

theorem createTask_case (tasks : Tasks) (id goalId title type : String) (opts : CreateTaskOptions)
    (now : Nat) :
    StepCase tasks (after tasks (createTask tasks id goalId title type opts now))
      (.createTask id goalId title type opts now) := by
  unfold createTask
  dsimp only
  split
  · exact .same rfl
  · rename_i hparent
    split
    · exact .same rfl
    · rename_i hmissing
      refine .created id _ ⟨rfl, rfl, hparent, fun depId hdep => ?_⟩ ⟨rfl, rfl, hparent, hmissing⟩ rfl
      have hmem : depId ∈ ((opts.dependsOn.map fun ids => (JsSet.ofList ids).members).getD []) := by
        simp only at hdep
        split at hdep
        · cases hdep
        · exact hdep
      have hnone := List.find?_eq_none.mp hmissing depId hmem
      cases hget : tasks.get? depId with
      | none => simp [hget] at hnone
      | some _ => rfl

theorem updateTask_case (tasks : Tasks) (id : String) (updates : TaskUpdates) (now : Nat) :
    StepCase tasks (after tasks (updateTask tasks id updates now)) (.updateTask id updates now) := by
  unfold updateTask
  split
  · exact .same rfl
  · rename_i task hget
    split
    · exact .same rfl
    · rename_i hstate
      obtain ⟨hvalid, hcompleted⟩ := checkState_ok hstate
      dsimp only
      split
      · exact .same rfl
      · rename_i hdependencies
        split
        · exact .same rfl
        · refine .changed id task _ ?_ rfl
          refine ⟨hget, rfl, rfl, rfl, hvalid, hcompleted, ?_⟩
          cases hdeps : updates.dependsOn with
          | none => exact .inl (by simp [PersistedTask.assign])
          | some ids =>
            rw [hdeps, Option.map_some] at hdependencies
            exact .inr ⟨cleanDependencies id ids, by simp [PersistedTask.assign],
              checkDependencies_ok hdependencies⟩

theorem enter_change {state : TaskState}
    {now : Nat} (hget : tasks.get? id = some task) (hid : task.id = id)
    (hvalid : isValidTransition task.state state = true)
    (hcompleted : state = .complete → incomplete tasks id = []) (event : Event) :
    StepCase tasks (enter tasks task state now).tasks event := by
  subst hid
  refine .changed task.id task _ ?_ rfl
  refine ⟨hget, rfl, rfl, rfl, .inr ?_, fun h => .inr (hcompleted h), .inl rfl⟩
  simpa [isValidTransition] using hvalid

theorem completeTask_case {taskId : String}
    (hid : ∀ task, tasks.get? taskId = some task → task.id = taskId) (now : Nat) (event : Event) :
    StepCase tasks (after tasks (completeTask tasks taskId now)) event := by
  unfold completeTask
  split
  · exact .same rfl
  · rename_i task hget
    split
    · exact .same rfl
    · rename_i hvalid
      split
      · exact .same rfl
      · rename_i hopen
        exact enter_change hget (hid task hget) (by simpa using hvalid)
          (fun _ => by simpa using hopen) event

theorem transitionTask_case {taskId : String}
    (hid : ∀ task, tasks.get? taskId = some task → task.id = taskId) (newState : TaskState)
    (now : Nat) (event : Event) :
    StepCase tasks (after tasks (transitionTask tasks taskId newState now)) event := by
  unfold transitionTask
  split
  · exact .same rfl
  · rename_i task hget
    split
    · exact .same rfl
    · split
      · exact .same rfl
      · rename_i hvalid
        split
        · exact completeTask_case hid now event
        · rename_i hcomplete
          exact enter_change hget (hid task hget) (by simpa using hvalid)
            (fun h => absurd h hcomplete) event

theorem startParent_case (parentTaskId : Option String) (now : Nat)
    (hid : ∀ key task, tasks.get? key = some task → task.id = key) :
    (startParent tasks parentTaskId now).1 = tasks ∨ ∃ parentId parent started,
      truthyId parentTaskId = some parentId ∧ Change tasks parentId parent started ∧
        (startParent tasks parentTaskId now).1 = tasks.set parentId started := by
  unfold startParent
  split
  · exact .inl rfl
  · rename_i parent hparent
    obtain ⟨parentId, htruthy, hget⟩ := Option.bind_eq_some_iff.mp hparent
    split
    · rename_i htodo
      have hkey := hid parentId parent hget
      subst hkey
      refine .inr ⟨parent.id, parent, _, htruthy, ?_, rfl⟩
      exact ⟨hget, rfl, rfl, rfl, .inr (by simp [htodo, validTransitions]), by simp, .inl rfl⟩
    · exact .inl rfl

theorem assignTask_case
    (hid : ∀ key task, tasks.get? key = some task → task.id = key) (taskId sessionId : String)
    (now : Nat) (event : Event) :
    StepCase tasks (assignTask tasks taskId sessionId now).tasks event := by
  unfold assignTask
  split
  · exact .same rfl
  · rename_i task hget
    dsimp only
    split
    · rename_i hchanged
      generalize hnext : ({ task with
        assignedSessionId := some sessionId
        updatedAt := monotonicNow now task.updatedAt
        state := if task.state = .todo then .inProgress else task.state } : PersistedTask) = next
      have hchange : Change tasks taskId task next := by
        subst hnext
        refine ⟨hget, rfl, rfl, rfl, ?_, ?_, .inl rfl⟩
        · dsimp only
          split
          · rename_i htodo
            exact .inr (by simp [htodo, validTransitions])
          · exact .inl rfl
        · dsimp only
          split
          · simp
          · exact .inl
      have hid' : ∀ key t, (tasks.set taskId next).get? key = some t → t.id = key := by
        intro key t ht
        rw [JsMap.get?_set] at ht
        split at ht
        · rename_i hkey
          obtain rfl := Option.some.inj ht
          rw [hkey, hchange.sameId]
          exact hid taskId task hget
        · exact hid key t ht
      rcases startParent_case task.parentTaskId now hid' with
        hsame | ⟨parentId, parent, started, hparent, hstart, heq⟩
      · exact .changed taskId task next hchange hsame
      · exact .both taskId parentId task next parent started hchange hparent hstart heq
    · rcases startParent_case task.parentTaskId now hid with
        hsame | ⟨parentId, parent, started, -, hstart, heq⟩
      · exact .same hsame
      · exact .changed parentId parent started hstart heq

/-! ## Bookkeeping -/

/-- Each task is stored once, under its id, and the parent of a sub-task is a task of
    the same goal that is no sub-task. -/
structure TaskInv (tasks : Tasks) : Prop where
  nodup : tasks.keys.Nodup
  id : ∀ key task, tasks.get? key = some task → task.id = key
  nonempty : tasks.get? "" = none
  parent : ∀ key task parentId, tasks.get? key = some task →
    truthyId task.parentTaskId = some parentId → ∃ parent, tasks.get? parentId = some parent ∧
      truthyId parent.parentTaskId = none ∧ parent.goalId = task.goalId

theorem truthyId_eq {id : Option String} {parentId : String} :
    truthyId id = some parentId ↔ id = some parentId ∧ parentId ≠ "" := by
  cases id with
  | none => simp [truthyId]
  | some value =>
    simp only [truthyId, Option.filter_eq_some_iff, Option.some.injEq]
    constructor
    · rintro ⟨rfl, hne⟩
      exact ⟨rfl, by simpa using hne⟩
    · rintro ⟨rfl, hne⟩
      exact ⟨rfl, by simpa using hne⟩

theorem Fresh.get?_eq_none (h : Fresh tasks id) : tasks.get? id = none := by
  cases hget : tasks.get? id with
  | none => rfl
  | some task => exact absurd rfl (h.2 _ (JsMap.mem_of_get? hget)).1

namespace TaskInv

variable {tasks : Tasks}

theorem empty : TaskInv [] := by
  constructor <;> simp [JsMap.keys]

variable {task : PersistedTask}

theorem get?_of_mem (h : TaskInv tasks) {key : String}
    (hmem : (key, task) ∈ tasks) : tasks.get? key = some task :=
  JsMap.get?_of_mem h.nodup hmem

theorem ne_empty (h : TaskInv tasks) {key : String}
    (hget : tasks.get? key = some task) : key ≠ "" := by
  rintro rfl
  exact absurd (h.nonempty.symm.trans hget) (by simp)

theorem top_of_parent (h : TaskInv tasks) {key parentId : String} {parent : PersistedTask}
    (hget : tasks.get? key = some task) (hparent : task.parentTaskId = some parentId)
    (hparentGet : tasks.get? parentId = some parent) : truthyId parent.parentTaskId = none := by
  obtain ⟨other, hother, htop, -⟩ := h.parent key task parentId hget
    (truthyId_eq.mpr ⟨hparent, h.ne_empty hparentGet⟩)
  obtain rfl := Option.some.inj (hparentGet.symm.trans hother)
  exact htop

theorem deleteTask_case (h : TaskInv tasks) (id : String) :
    StepCase tasks (deleteTask tasks id).tasks (.deleteTask id) := by
  unfold deleteTask
  split
  · exact .same rfl
  · rename_i task hget
    refine .removed _ (fun entry hentry parentId hmem hparent => ?_) rfl
    rw [List.mem_append, List.mem_singleton] at hmem ⊢
    rcases hmem with hmem | rfl
    · obtain ⟨child, hchild, rfl⟩ := List.mem_map.mp hmem
      obtain ⟨⟨key, hkey⟩, hchildParent⟩ := mem_getByParentTaskId.mp hchild
      have hchildGet := h.get?_of_mem hkey
      rw [h.id key child hchildGet] at hparent
      have htop := h.top_of_parent (h.get?_of_mem hentry) hparent hchildGet
      rw [hchildParent] at htop
      have htruthy := truthyId_eq.mpr ⟨rfl, h.ne_empty hget⟩
      exact absurd (htop.symm.trans htruthy) (by simp)
    · exact .inl (List.mem_map.mpr ⟨entry.2, mem_getByParentTaskId.mpr ⟨⟨entry.1, hentry⟩, hparent⟩,
        rfl⟩)

theorem deleteTasksForGoal_case (h : TaskInv tasks) (goalId : String) :
    StepCase tasks (deleteTasksForGoal tasks goalId) (.deleteTasksForGoal goalId) := by
  refine .removed _ (fun entry hentry parentId hmem hparent => ?_) rfl
  obtain ⟨parent, hparentMem, rfl⟩ := List.mem_map.mp hmem
  simp only [getByGoalId, List.mem_filter, List.mem_map, decide_eq_true_eq] at hparentMem
  obtain ⟨⟨⟨key, task⟩, hkey, rfl⟩, hgoal⟩ := hparentMem
  have hparentGet := h.get?_of_mem hkey
  have hid := h.id key task hparentGet
  rw [hid] at hparent
  obtain ⟨other, hother, -, hsame⟩ := h.parent entry.1 entry.2 key (h.get?_of_mem hentry)
    (truthyId_eq.mpr ⟨hparent, h.ne_empty hparentGet⟩)
  obtain rfl := Option.some.inj (hparentGet.symm.trans hother)
  refine List.mem_map.mpr ⟨entry.2, ?_, rfl⟩
  simp only [getByGoalId, List.mem_filter, List.mem_map, decide_eq_true_eq]
  exact ⟨⟨entry, hentry, rfl⟩, hsame.symm.trans hgoal⟩

theorem step_case (h : TaskInv tasks) (event : Event) : StepCase tasks (step tasks event) event := by
  cases event with
  | createTask id goalId title type opts now => exact createTask_case tasks id goalId title type opts now
  | updateTask id updates now => exact updateTask_case tasks id updates now
  | deleteTask id => exact h.deleteTask_case id
  | deleteTasksForGoal goalId => exact h.deleteTasksForGoal_case goalId
  | assignTask taskId sessionId now => exact assignTask_case h.id taskId sessionId now _
  | completeTask taskId now => exact completeTask_case (h.id taskId) now _
  | transitionTask taskId newState now => exact transitionTask_case (h.id taskId) newState now _

theorem change (h : TaskInv tasks) {id : String} {next : PersistedTask}
    (hchange : Change tasks id task next) : TaskInv (tasks.set id next) where
  nodup := JsMap.nodup_set h.nodup id next
  id key t ht := by
    rw [JsMap.get?_set] at ht
    split at ht
    · rename_i hkey
      obtain rfl := Option.some.inj ht
      rw [hkey, hchange.sameId]
      exact h.id id task hchange.get
    · exact h.id key t ht
  nonempty := by
    rw [JsMap.get?_set, if_neg, h.nonempty]
    rintro rfl
    exact absurd (h.nonempty.symm.trans hchange.get) (by simp)
  parent key t parentId ht hparent := by
    have hold : ∃ t', tasks.get? key = some t' ∧ t'.parentTaskId = t.parentTaskId ∧
        t'.goalId = t.goalId := by
      rw [JsMap.get?_set] at ht
      split at ht
      · rename_i hkey
        obtain rfl := Option.some.inj ht
        exact ⟨task, hkey ▸ hchange.get, hchange.parentTaskId.symm, hchange.goalId.symm⟩
      · exact ⟨t, ht, rfl, rfl⟩
    obtain ⟨t', ht', hsame, hgoal⟩ := hold
    obtain ⟨parent, hget, htop, hparentGoal⟩ := h.parent key t' parentId ht' (hsame ▸ hparent)
    rw [JsMap.get?_set]
    by_cases hid : parentId = id
    · subst hid
      obtain rfl := Option.some.inj (hget.symm.trans hchange.get)
      exact ⟨next, if_pos rfl, by rw [hchange.parentTaskId, htop], by
        rw [hchange.goalId, hparentGoal, hgoal]⟩
    · exact ⟨parent, by rw [if_neg hid, hget], htop, hparentGoal.trans hgoal⟩

theorem created (h : TaskInv tasks) {id : String}
    (hcreated : Created tasks id task) (hfresh : Fresh tasks id) : TaskInv (tasks.set id task) where
  nodup := JsMap.nodup_set h.nodup id task
  id key t ht := by
    rw [JsMap.get?_set] at ht
    split at ht
    · rename_i hkey
      obtain rfl := Option.some.inj ht
      exact hcreated.sameId.trans hkey.symm
    · exact h.id key t ht
  nonempty := by
    rw [JsMap.get?_set, if_neg (Ne.symm hfresh.1), h.nonempty]
  parent key t parentId ht hparent := by
    have hother : ∀ parent, tasks.get? parentId = some parent → (tasks.set id task).get? parentId =
        some parent := by
      intro parent hget
      rw [JsMap.get?_set, if_neg, hget]
      rintro rfl
      exact absurd (hfresh.get?_eq_none.symm.trans hget) (by simp)
    rw [JsMap.get?_set] at ht
    split at ht
    · obtain rfl := Option.some.inj ht
      have hcheck := hcreated.parent
      simp only [checkParent, hparent] at hcheck
      split at hcheck
      · cases hcheck
      · rename_i parent hget
        split at hcheck
        · cases hcheck
        · rename_i htop
          split at hcheck
          · cases hcheck
          · rename_i hgoal
            exact ⟨parent, hother parent hget, by simpa using htop, by simpa using hgoal⟩
    · obtain ⟨parent, hget, htop, hgoal⟩ := h.parent key t parentId ht hparent
      exact ⟨parent, hother parent hget, htop, hgoal⟩

theorem get?_removeMany (tasks : Tasks) (ids : List String) (key : String) :
    (removeMany tasks ids).get? key = if key ∈ ids then none else tasks.get? key :=
  JsMap.get?_foldl_erase tasks ids key

theorem removed (h : TaskInv tasks) {ids : List String}
    (hchildren : ∀ entry ∈ tasks, ∀ parentId ∈ ids, entry.2.parentTaskId = some parentId →
      entry.2.id ∈ ids) : TaskInv (removeMany tasks ids) where
  nodup := JsMap.nodup_foldl_erase h.nodup ids
  id key task hget := by
    rw [get?_removeMany] at hget
    split at hget
    · cases hget
    · exact h.id key task hget
  nonempty := by
    rw [get?_removeMany, h.nonempty]
    split <;> rfl
  parent key task parentId hget hparent := by
    rw [get?_removeMany] at hget
    split at hget
    · cases hget
    · rename_i hkept
      obtain ⟨parent, hparentGet, htop, hgoal⟩ := h.parent key task parentId hget hparent
      refine ⟨parent, ?_, htop, hgoal⟩
      rw [get?_removeMany, if_neg, hparentGet]
      intro hmem
      have := hchildren _ (JsMap.mem_of_get? hget) parentId hmem (truthyId_eq.mp hparent).1
      exact hkept (h.id key task hget ▸ this)

theorem step (h : TaskInv tasks) {event : Event} (hfresh : FreshId tasks event) :
    TaskInv (step tasks event) := by
  cases h.step_case event with
  | same heq =>
    rw [heq]
    exact h
  | created id task hcreated hcreates heq =>
    exact heq ▸ h.created hcreated (hcreates.fresh hfresh)
  | changed id task next hchange heq => exact heq ▸ h.change hchange
  | both id parentId task next parent started hchange hparent hstart heq =>
    exact heq ▸ (h.change hchange).change hstart
  | removed ids hchildren heq => exact heq ▸ h.removed hchildren

end TaskInv

/-! ## The hierarchy -/

/-- Complete tasks have settled sub-tasks, and the parent of a sub-task is none. -/
structure HierarchyOk (tasks : Tasks) : Prop where
  settled : ∀ key task childKey child, tasks.get? key = some task → task.state = .complete →
    tasks.get? childKey = some child → child.parentTaskId = some key → Settled child
  one_level : ∀ key task parentId parent, tasks.get? key = some task →
    task.parentTaskId = some parentId → tasks.get? parentId = some parent →
      truthyId parent.parentTaskId = none

/-- The state of each task that stays follows the table. -/
def StatesFollowTable (tasks : Tasks) (event : Event) : Prop :=
  ∀ key task next, tasks.get? key = some task → (step tasks event).get? key = some next →
    next.state = task.state ∨ next.state ∈ validTransitions task.state

/-- A created sub-task has no complete parent. -/
def OpenParent (tasks : Tasks) (event : Event) : Prop :=
  ∀ id parentId parent, Creates tasks event id (some parentId) → tasks.get? parentId = some parent →
    parent.state ≠ .complete

/-- The sub-tasks of complete tasks are settled. -/
def ChildrenSettled (tasks : Tasks) : Prop :=
  ∀ key task childKey child, tasks.get? key = some task → task.state = .complete →
    tasks.get? childKey = some child → child.parentTaskId = some key → Settled child

theorem TaskInv.hierarchyOk (h : TaskInv tasks) (hsettled : ChildrenSettled tasks) :
    HierarchyOk tasks :=
  ⟨hsettled, fun _ _ _ _ hget hparent hparentGet => h.top_of_parent hget hparent hparentGet⟩

variable {next : PersistedTask}

theorem Change.settled
    (h : Change tasks id task next) (hsettled : Settled task) : Settled next := by
  rcases hsettled with hstate | hstate
  · have := h.state
    rw [hstate] at this
    exact .inl (this.resolve_right (by simp [validTransitions]))
  · have := h.state
    rw [hstate] at this
    exact .inr (this.resolve_right (by simp [validTransitions]))

theorem ChildrenSettled.change (h : ChildrenSettled tasks) (hchange : Change tasks id task next) :
    ChildrenSettled (tasks.set id next) := by
  intro key parent childKey child hparent hcomplete hchild hparentOf
  rw [JsMap.get?_set] at hparent hchild
  -- the child as it was before
  obtain ⟨child', hchild', hsame, hsettles⟩ : ∃ child', tasks.get? childKey = some child' ∧
      child'.parentTaskId = child.parentTaskId ∧ (Settled child' → Settled child) := by
    split at hchild
    · rename_i hkey
      obtain rfl := Option.some.inj hchild
      exact ⟨task, hkey ▸ hchange.get, hchange.parentTaskId.symm, hchange.settled⟩
    · exact ⟨child, hchild, rfl, fun hsettled => hsettled⟩
  refine hsettles ?_
  split at hparent
  · rename_i hkey
    obtain rfl := Option.some.inj hparent
    subst hkey
    rcases hchange.completed hcomplete with hold | hnone
    · exact h key task childKey child' hchange.get hold hchild' (hsame.trans hparentOf)
    · have hmem : child' ∈ getByParentTaskId tasks key :=
        mem_getByParentTaskId.mpr ⟨⟨childKey, JsMap.mem_of_get? hchild'⟩, hsame.trans hparentOf⟩
      have hnot := List.filter_eq_nil_iff.mp hnone child' hmem
      unfold Settled
      by_contra hopen
      exact hnot (by simpa [not_or] using hopen)
  · exact h key parent childKey child' hparent hcomplete hchild' (hsame.trans hparentOf)

theorem ChildrenSettled.created (h : ChildrenSettled tasks) (hcreated : Created tasks id task)
    (hopen : ∀ parentId parent, task.parentTaskId = some parentId →
      tasks.get? parentId = some parent → parent.state ≠ .complete) :
    ChildrenSettled (tasks.set id task) := by
  intro key parent childKey child hparent hcomplete hchild hparentOf
  rw [JsMap.get?_set] at hparent hchild
  split at hparent
  · obtain rfl := Option.some.inj hparent
    rw [hcreated.state] at hcomplete
    cases hcomplete
  · split at hchild
    · obtain rfl := Option.some.inj hchild
      exact absurd hcomplete (hopen key parent hparentOf hparent)
    · exact h key parent childKey child hparent hcomplete hchild hparentOf

theorem ChildrenSettled.removed (h : ChildrenSettled tasks) (ids : List String) :
    ChildrenSettled (removeMany tasks ids) := by
  intro key parent childKey child hparent hcomplete hchild hparentOf
  rw [TaskInv.get?_removeMany] at hparent hchild
  split at hparent
  · cases hparent
  · split at hchild
    · cases hchild
    · exact h key parent childKey child hparent hcomplete hchild hparentOf

/-- A step that creates no sub-task of a complete task keeps sub-tasks settled. -/
theorem ChildrenSettled.step (h : ChildrenSettled tasks) (hinv : TaskInv tasks)
    (hopen : OpenParent tasks event) : ChildrenSettled (step tasks event) := by
  cases hinv.step_case event with
  | same heq =>
    rw [heq]
    exact h
  | created id task hcreated hcreates heq =>
    exact heq ▸ h.created hcreated fun parentId parent hparent =>
      hopen id parentId parent (hparent ▸ hcreates)
  | changed id task next hchange heq => exact heq ▸ h.change hchange
  | both id parentId task next parent started hchange hparent hstart heq =>
    exact heq ▸ (h.change hchange).change hstart
  | removed ids hchildren heq => exact heq ▸ h.removed ids

theorem follows_set (h : Change tasks id task next) {key : String} {before after : PersistedTask}
    (hbefore : tasks.get? key = some before) (hafter : (tasks.set id next).get? key = some after) :
    (key = id → before = task ∧ after = next) ∧ (key ≠ id → after = before) := by
  rw [JsMap.get?_set] at hafter
  constructor
  · rintro rfl
    rw [if_pos rfl] at hafter
    exact ⟨Option.some.inj (hbefore.symm.trans h.get), (Option.some.inj hafter).symm⟩
  · intro hne
    rw [if_neg hne] at hafter
    exact Option.some.inj (hafter.symm.trans hbefore)

theorem TaskInv.statesFollowTable (h : TaskInv tasks)
    (hfresh : FreshId tasks event) : StatesFollowTable tasks event := by
  intro key before after hbefore hafter
  cases h.step_case event with
  | same heq =>
    rw [heq] at hafter
    exact .inl (congrArg _ (Option.some.inj (hafter.symm.trans hbefore)))
  | created id task hcreated hcreates heq =>
    rw [heq, JsMap.get?_set, if_neg] at hafter
    · exact .inl (congrArg _ (Option.some.inj (hafter.symm.trans hbefore)))
    · rintro rfl
      exact absurd ((hcreates.fresh hfresh).get?_eq_none.symm.trans hbefore) (by simp)
  | changed id task next hchange heq =>
    rw [heq] at hafter
    by_cases hkey : key = id
    · obtain ⟨rfl, rfl⟩ := (follows_set hchange hbefore hafter).1 hkey
      exact hchange.state
    · exact .inl (congrArg _ ((follows_set hchange hbefore hafter).2 hkey))
  | both id parentId task next parent started hchange hparent hstart heq =>
    rw [heq] at hafter
    have hmid : ∃ mid, (tasks.set id next).get? key = some mid := by
      rw [JsMap.get?_set]
      split
      · exact ⟨next, rfl⟩
      · exact ⟨before, hbefore⟩
    obtain ⟨mid, hmid⟩ := hmid
    by_cases hkey : key = parentId
    · -- the parent is not the task itself
      have hne : key ≠ id := by
        rintro rfl
        obtain ⟨hparentOf, -⟩ := truthyId_eq.mp hparent
        have htop := h.top_of_parent hchange.get (hkey ▸ hparentOf) hchange.get
        rw [hparent] at htop
        cases htop
      obtain rfl := (follows_set hchange hbefore hmid).2 hne
      obtain ⟨rfl, rfl⟩ := (follows_set hstart hmid hafter).1 hkey
      exact hstart.state
    · obtain rfl := (follows_set hstart hmid hafter).2 hkey
      by_cases hid : key = id
      · obtain ⟨rfl, rfl⟩ := (follows_set hchange hbefore hmid).1 hid
        exact hchange.state
      · exact .inl (congrArg _ ((follows_set hchange hbefore hmid).2 hid))
  | removed ids hchildren heq =>
    rw [heq, TaskInv.get?_removeMany] at hafter
    split at hafter
    · cases hafter
    · exact .inl (congrArg _ (Option.some.inj (hafter.symm.trans hbefore)))

/-- A sub-task of a complete task breaks the hierarchy at once. -/
theorem not_hierarchyOk_of_create (hfresh : FreshId tasks event)
    (hopen : ¬ OpenParent tasks event) : ¬ HierarchyOk (step tasks event) := by
  unfold OpenParent at hopen
  push Not at hopen
  obtain ⟨id, parentId, parent, hcreates, hparent, hcomplete⟩ := hopen
  intro hok
  have hid := hcreates.fresh hfresh
  cases event with
  | createTask newId goalId title type opts now =>
    obtain ⟨rfl, hparentOf, hcheck, hmissing⟩ := hcreates
    have hmissing : missingDependency tasks
        ((opts.dependsOn.map fun ids => (JsSet.ofList ids).members).getD []) = none := hmissing
    have hstep : ∃ task, step tasks (.createTask newId goalId title type opts now) =
        tasks.set newId task ∧ task.state = .todo ∧ task.parentTaskId = opts.parentTaskId := by
      simp only [step, createTask, hcheck, hmissing]
      exact ⟨_, rfl, rfl, rfl⟩
    obtain ⟨task, hstep, htodo, htaskParent⟩ := hstep
    have hne : parentId ≠ newId := by
      rintro rfl
      exact absurd (hid.get?_eq_none.symm.trans hparent) (by simp)
    have hsettled := hok.settled parentId parent newId task
      (by rw [hstep, JsMap.get?_set, if_neg hne, hparent]) hcomplete
      (by rw [hstep, JsMap.get?_set, if_pos rfl]) (htaskParent.trans hparentOf)
    simp [Settled, htodo] at hsettled
  | _ => cases hcreates

/-- **The task hierarchy**: with new ids for new tasks, the hierarchy is right in
    every state of a run exactly when the run creates no sub-task of a complete task;
    states follow the table in any case. -/
theorem hierarchy_iff (events : List Event) (hfresh : Along step FreshId [] events) :
    (Always step HierarchyOk [] events ↔ Along step OpenParent [] events) ∧
      Along step StatesFollowTable [] events := by
  constructor
  · refine always_iff_along (I := fun tasks => TaskInv tasks ∧ ChildrenSettled tasks)
      (fun tasks event h henv hopen => ⟨h.1.step henv, h.2.step h.1 hopen⟩)
      (fun tasks h => h.1.hierarchyOk h.2)
      (fun tasks event h henv hopen => not_hierarchyOk_of_create henv hopen) ?_ hfresh
    exact ⟨.empty, fun _ _ _ _ hget => by cases hget⟩
  · exact along_of_along (I := TaskInv) (fun _ _ h henv => h.step henv)
      (fun _ _ h henv => h.statesFollowTable henv) .empty hfresh

/-- A new task without further options. -/
def plainOptions : CreateTaskOptions := ⟨none, none, none, none, none⟩

/-- A task with a sub-task, both brought to their end. -/
def finishedFamily : List Event :=
  [.createTask "p" "g" "Parent" "work" plainOptions 1,
    .createTask "c" "g" "Child" "work" { plainOptions with parentTaskId := some "p" } 2,
    .assignTask "c" "s" 3, .completeTask "c" 4, .completeTask "p" 5]

theorem hierarchy_iff_finishedFamily :
    (Always step HierarchyOk [] finishedFamily ↔ Along step OpenParent [] finishedFamily) ∧
      Along step StatesFollowTable [] finishedFamily :=
  hierarchy_iff finishedFamily (by decide +kernel)

/-- A task that gets a sub-task after its completion. -/
def lateChild : List Event :=
  [.createTask "p" "g" "Parent" "work" plainOptions 1, .assignTask "p" "s" 2, .completeTask "p" 3,
    .createTask "c" "g" "Child" "work" { plainOptions with parentTaskId := some "p" } 4]

/-- `createTask` does not look at the state of the parent. -/
theorem child_of_complete :
    Along step FreshId [] lateChild ∧ ¬ Always step HierarchyOk [] lateChild := by
  refine ⟨by decide +kernel, fun h => ?_⟩
  have hsettled := h.last.settled "p" _ "c" _ rfl (by decide +kernel) rfl (by decide +kernel)
  exact absurd hsettled (by decide +kernel)

/-! ## Dependencies -/

/-- An existing task depends on another. -/
def DependsOn (tasks : Tasks) (a b : String) : Prop :=
  b ∈ dependencies tasks a ∧ (tasks.get? b).isSome = true

/-- The dependencies between existing tasks form no cycle. -/
def AcyclicTasks (tasks : Tasks) : Prop := ∀ a, ¬ Relation.TransGen (DependsOn tasks) a a

theorem isSome_of_dependency {a b : String} (h : b ∈ dependencies tasks a) :
    (tasks.get? a).isSome = true := by
  unfold dependencies at h
  cases hget : tasks.get? a with
  | none => simp [hget] at h
  | some _ => rfl

theorem acyclicTasks_iff : AcyclicTasks tasks ↔ Dfs.Acyclic (dependencies tasks) := by
  have hlift : ∀ {a b}, Relation.TransGen (Dfs.Edge (dependencies tasks)) a b →
      (tasks.get? b).isSome = true → Relation.TransGen (DependsOn tasks) a b := by
    intro a b h
    induction h with
    | single hedge => exact fun hb => .single ⟨hedge, hb⟩
    | tail _ hedge ih => exact fun hc => (ih (isSome_of_dependency hedge)).tail ⟨hedge, hc⟩
  constructor
  · intro h a hcycle
    obtain ⟨b, hedge, -⟩ := Relation.TransGen.head'_iff.mp hcycle
    exact h a (hlift hcycle (isSome_of_dependency hedge))
  · intro h a hcycle
    exact h a (Relation.TransGen.mono (fun _ _ hedge => hedge.1) a a hcycle)

theorem dependencies_set (tasks : Tasks) (id : String) (task : PersistedTask) :
    dependencies (tasks.set id task) =
      Dfs.replace (dependencies tasks) id (task.dependsOn.getD []) := by
  funext key
  unfold dependencies Dfs.replace
  rw [JsMap.get?_set]
  split <;> rfl

theorem detectCycle_iff (tasks : Tasks) (id : String) (ids : List String) :
    detectCycle tasks id ids = true ↔
      ∃ depId ∈ ids, Relation.ReflTransGen (Dfs.Edge (dependencies tasks)) depId id := by
  unfold detectCycle
  rw [Option.isNone_iff_eq_none]
  have hnodes : ∀ key, dependencies tasks key ≠ [] → key ∈ tasks.keys := by
    intro key hne
    obtain ⟨dep, hdep⟩ := List.exists_mem_of_ne_nil _ hne
    obtain ⟨task, hget⟩ := Option.isSome_iff_exists.mp (isSome_of_dependency hdep)
    exact JsMap.mem_keys_of_get? hget
  exact Dfs.search_eq_none_iff hnodes (by simp [JsMap.keys]) ids

/-- New dependencies make no cycle exactly when `detectCycle` finds none. -/
theorem acyclicTasks_set_iff (h : AcyclicTasks tasks) (id : String) (task : PersistedTask) :
    AcyclicTasks (tasks.set id task) ↔ detectCycle tasks id (task.dependsOn.getD []) = false := by
  rw [acyclicTasks_iff, dependencies_set, Dfs.acyclic_replace_iff (acyclicTasks_iff.mp h),
    ← detectCycle_iff, Bool.not_eq_true]

theorem AcyclicTasks.change (h : AcyclicTasks tasks) (hchange : Change tasks id task next) :
    AcyclicTasks (tasks.set id next) := by
  rcases hchange.dependsOn with hsame | ⟨ids, hids, hcycle⟩
  · have hdeps : dependencies (tasks.set id next) = dependencies tasks := by
      funext key
      rw [dependencies_set, Dfs.replace]
      split
      · rename_i hkey
        rw [hkey, hsame, dependencies, hchange.get]
        rfl
      · rfl
    rw [acyclicTasks_iff, hdeps, ← acyclicTasks_iff]
    exact h
  · rw [acyclicTasks_set_iff h, hids]
    exact hcycle

theorem AcyclicTasks.created (h : AcyclicTasks tasks)
    (hcreated : Created tasks id task) (hfresh : Fresh tasks id) :
    AcyclicTasks (tasks.set id task) := by
  rw [acyclicTasks_iff, dependencies_set, Dfs.acyclic_replace_iff (acyclicTasks_iff.mp h)]
  rintro ⟨depId, hdep, hreach⟩
  rcases Relation.ReflTransGen.cases_tail hreach with rfl | ⟨key, -, hedge⟩
  · have hexists := hcreated.dependsOn id hdep
    simp [hfresh.get?_eq_none] at hexists
  · obtain ⟨other, hget⟩ := Option.isSome_iff_exists.mp (isSome_of_dependency hedge)
    refine (hfresh.2 _ (JsMap.mem_of_get? hget)).2.2 ?_
    simpa [Dfs.Edge, dependencies, hget] using hedge

theorem AcyclicTasks.removed (h : AcyclicTasks tasks) (ids : List String) :
    AcyclicTasks (removeMany tasks ids) := by
  intro a hcycle
  refine h a (Relation.TransGen.mono (fun b c hdep => ?_) a a hcycle)
  obtain ⟨hmem, hexists⟩ := hdep
  unfold dependencies at hmem
  rw [TaskInv.get?_removeMany] at hmem hexists
  split at hmem
  · cases hmem
  · split at hexists
    · cases hexists
    · exact ⟨hmem, hexists⟩

theorem AcyclicTasks.step (h : AcyclicTasks tasks) (hinv : TaskInv tasks)
    (hfresh : FreshId tasks event) : AcyclicTasks (step tasks event) := by
  cases hinv.step_case event with
  | same heq =>
    rw [heq]
    exact h
  | created id task hcreated hcreates heq => exact heq ▸ h.created hcreated (hcreates.fresh hfresh)
  | changed id task next hchange heq => exact heq ▸ h.change hchange
  | both id parentId task next parent started hchange hparent hstart heq =>
    exact heq ▸ (h.change hchange).change hstart
  | removed ids hchildren heq => exact heq ▸ h.removed ids

/-- `updateTask` throws. -/
def Rejected (tasks : Tasks) (id : String) (updates : TaskUpdates) (now : Nat) : Prop :=
  ∃ error, updateTask tasks id updates now = .error error

/-- The tasks with new dependencies of one of them, its own id left out. -/
def withDependencies (tasks : Tasks) (id : String) (task : PersistedTask) (deps : List String) :
    Tasks :=
  tasks.set id { task with dependsOn := some (cleanDependencies id deps) }

/-- What holds of the dependencies of the tasks and of their updates. An update whose
    state is fine is rejected for its dependencies only. -/
structure DependenciesChecked (tasks : Tasks) : Prop where
  acyclic : AcyclicTasks tasks
  rejected_iff : ∀ id task updates deps now, tasks.get? id = some task →
    checkState tasks id task updates.state = .ok () → updates.dependsOn = some deps →
      (Rejected tasks id updates now ↔
        (∃ depId ∈ cleanDependencies id deps, tasks.get? depId = none) ∨
          ¬ AcyclicTasks (withDependencies tasks id task deps))
  unchanged : ∀ id updates now, Rejected tasks id updates now →
    step tasks (.updateTask id updates now) = tasks

theorem rejected_iff_checkDependencies
    {updates : TaskUpdates} {deps : List String} {now : Nat} (hget : tasks.get? id = some task)
    (hstate : checkState tasks id task updates.state = .ok ()) (hdeps : updates.dependsOn = some deps) :
    Rejected tasks id updates now ↔
      ∃ error, checkDependencies tasks id (some (cleanDependencies id deps)) = .error error := by
  unfold Rejected updateTask
  simp only [hget, hstate, hdeps, Option.map_some]
  cases checkDependencies tasks id (some (cleanDependencies id deps)) with
  | error error => simp
  | ok =>
    dsimp only
    split <;> simp

theorem AcyclicTasks.dependenciesChecked (h : AcyclicTasks tasks) : DependenciesChecked tasks where
  acyclic := h
  rejected_iff id task updates deps now hget hstate hdeps := by
    rw [rejected_iff_checkDependencies hget hstate hdeps, withDependencies, acyclicTasks_set_iff h,
      Option.getD_some, Bool.not_eq_false]
    simp only [checkDependencies]
    split
    · rename_i depId hmissing
      have hnone := List.find?_some hmissing
      exact iff_of_true ⟨_, rfl⟩ (.inl ⟨depId, List.mem_of_find?_eq_some hmissing, by simpa using hnone⟩)
    · rename_i hmissing
      have hexists : ¬ ∃ depId ∈ cleanDependencies id deps, tasks.get? depId = none := by
        rintro ⟨depId, hmem, hnone⟩
        exact List.find?_eq_none.mp hmissing depId hmem (by simp [hnone])
      split
      · rename_i hcycle
        exact iff_of_true ⟨_, rfl⟩ (.inr hcycle)
      · rename_i hcycle
        exact iff_of_false (by simp) (not_or.mpr ⟨hexists, hcycle⟩)
  unchanged id updates now := by
    rintro ⟨error, herror⟩
    show after tasks (updateTask tasks id updates now) = tasks
    rw [herror]
    rfl

/-- **Task dependencies**: with new ids for new tasks they form no cycle in any state
    of a run, an update with new ones is rejected exactly when one does not exist or
    they would close a cycle, and a rejected update changes nothing. -/
theorem dependencies_checked (events : List Event) (hfresh : Along step FreshId [] events) :
    Always step DependenciesChecked [] events := by
  have hempty : AcyclicTasks [] := by
    rw [acyclicTasks_iff]
    intro a hcycle
    obtain ⟨b, hedge, -⟩ := Relation.TransGen.head'_iff.mp hcycle
    simp [Dfs.Edge, dependencies] at hedge
  exact (always_of_along (I := fun tasks => TaskInv tasks ∧ AcyclicTasks tasks)
    (fun tasks event h henv => ⟨h.1.step henv, h.2.step h.1 henv⟩) ⟨.empty, hempty⟩ hfresh).mono
      fun tasks h => h.2.dependenciesChecked

def dependenciesOnly (deps : List String) : TaskUpdates :=
  ⟨none, none, none, none, some deps, none, none, none, none, none, none⟩

/-- Two tasks that are made to depend on each other; the second update is rejected. -/
def mutualDependency : List Event :=
  [.createTask "a" "g" "A" "work" plainOptions 1,
    .createTask "b" "g" "B" "work" { plainOptions with dependsOn := some ["a"] } 2,
    .updateTask "a" (dependenciesOnly ["a", "b"]) 3]

theorem dependencies_checked_mutual : Always step DependenciesChecked [] mutualDependency :=
  dependencies_checked mutualDependency (by decide +kernel)

def oneTask : List Event := [.createTask "a" "g" "A" "work" plainOptions 1]

/-- An update with an unknown dependency is rejected although it closes no cycle. -/
theorem unknown_dependency_rejected :
    Along step FreshId [] oneTask ∧
      Rejected (run step [] oneTask) "a" (dependenciesOnly ["z"]) 2 ∧
      ∃ task, (run step [] oneTask).get? "a" = some task ∧
        AcyclicTasks (withDependencies (run step [] oneTask) "a" task ["z"]) := by
  refine ⟨by decide +kernel, ⟨_, rfl⟩, _, rfl, fun a hcycle => ?_⟩
  obtain ⟨b, ⟨hdep, hexists⟩, -⟩ := Relation.TransGen.head'_iff.mp hcycle
  rw [withDependencies, dependencies_set, Dfs.replace] at hdep
  split at hdep
  · have hclean : cleanDependencies "a" ["z"] = ["z"] := by decide
    rw [Option.getD_some, hclean, List.mem_singleton] at hdep
    subst hdep
    exact absurd hexists (by decide +kernel)
  · rename_i hne
    have hsome := isSome_of_dependency hdep
    have hrun : run step [] oneTask = [("a", _)] := rfl
    rw [hrun, JsMap.get?_cons, if_neg (Ne.symm hne)] at hsome
    cases hsome

end TaskManager

end Bobbit.Server
