import Bobbit.Lib.Dfs
import Bobbit.Lib.JsMap
import Bobbit.Lib.JsSet

/-!
# Task manager

Model of `TaskManager` in `src/server/agent/task-manager.ts` over the tasks of its
store. The tasks that the store hands out are the ones it holds, so that an
assignment to a field changes the store; each operation returns the tasks after it
and its calls of `commitTask`. Ids of new tasks come from `randomUUID`.
-/

namespace Bobbit.Server

open Lib

inductive TaskState
  | todo | inProgress | blocked | complete | skipped
deriving DecidableEq

def TaskState.name : TaskState → String
  | .todo => "todo"
  | .inProgress => "in-progress"
  | .blocked => "blocked"
  | .complete => "complete"
  | .skipped => "skipped"

/-- `VALID_TRANSITIONS`. -/
def validTransitions : TaskState → List TaskState
  | .todo => [.inProgress, .skipped]
  | .inProgress => [.complete, .blocked, .todo]
  | .blocked => [.inProgress, .skipped]
  | .complete => []
  | .skipped => []

structure PersistedTask where
  id : String
  goalId : String
  parentTaskId : Option String
  title : String
  type : String
  state : TaskState
  assignedSessionId : Option String
  spec : Option String
  createdAt : Nat
  updatedAt : Nat
  completedAt : Option Nat
  dependsOn : Option (List String)
  baseSha : Option String
  headSha : Option String
  branch : Option String
  resultSummary : Option String
  workflowGateId : Option String
  inputGateIds : Option (List String)
deriving DecidableEq

inductive TaskCommittedFact
  | taskCreated (taskId goalId type : String) (state : TaskState) (parentTaskId : Option String)
      (revision : Nat)
  | taskUpdated (taskId goalId : String) (state : TaskState) (changedFields : List String)
      (revision : Nat)
  | taskStateChanged (taskId goalId : String) (previousState state : TaskState) (revision : Nat)
deriving DecidableEq

/-- `TASK_UPDATED_FIELDS`. -/
inductive TaskUpdatedField
  | title | spec | assignedSessionId | dependsOn | workflowGateId | inputGateIds
  | headSha | baseSha | branch | resultSummary
deriving DecidableEq

def taskUpdatedFields : List TaskUpdatedField :=
  [.title, .spec, .assignedSessionId, .dependsOn, .workflowGateId, .inputGateIds, .headSha,
    .baseSha, .branch, .resultSummary]

/-- `TASK_UPDATED_PUBLIC_FIELD_MAP`. -/
def TaskUpdatedField.publicName : TaskUpdatedField → Option String
  | .title => some "title"
  | .spec => some "spec"
  | .assignedSessionId => some "assignedSessionId"
  | .dependsOn => some "dependsOn"
  | .workflowGateId => some "workflowGateId"
  | .inputGateIds => some "inputGateIds"
  | .headSha => some "headSha"
  | .resultSummary => some "resultSummary"
  | .baseSha => none
  | .branch => none

def projectTaskUpdatedFields (changedFields : List TaskUpdatedField) : List String :=
  (JsSet.ofList (changedFields.filterMap (·.publicName))).members.mergeSort (· ≤ ·)

/-- The updates of `updateTask`. -/
structure TaskUpdates where
  title : Option String
  spec : Option String
  state : Option TaskState
  assignedSessionId : Option String
  dependsOn : Option (List String)
  workflowGateId : Option String
  inputGateIds : Option (List String)
  headSha : Option String
  baseSha : Option String
  branch : Option String
  resultSummary : Option String

/-- The options of `createTask`. -/
structure CreateTaskOptions where
  parentTaskId : Option String
  spec : Option String
  dependsOn : Option (List String)
  workflowGateId : Option String
  inputGateIds : Option (List String)

/-- The value of a field, as `valuesEqual` compares it. -/
inductive FieldValue
  | text (text : String)
  | ids (ids : List String)
deriving DecidableEq

def PersistedTask.value (task : PersistedTask) : TaskUpdatedField → Option FieldValue
  | .title => some (.text task.title)
  | .spec => task.spec.map .text
  | .assignedSessionId => task.assignedSessionId.map .text
  | .dependsOn => task.dependsOn.map .ids
  | .workflowGateId => task.workflowGateId.map .text
  | .inputGateIds => task.inputGateIds.map .ids
  | .headSha => task.headSha.map .text
  | .baseSha => task.baseSha.map .text
  | .branch => task.branch.map .text
  | .resultSummary => task.resultSummary.map .text

def TaskUpdates.value (updates : TaskUpdates) : TaskUpdatedField → Option FieldValue
  | .title => updates.title.map .text
  | .spec => updates.spec.map .text
  | .assignedSessionId => updates.assignedSessionId.map .text
  | .dependsOn => updates.dependsOn.map .ids
  | .workflowGateId => updates.workflowGateId.map .text
  | .inputGateIds => updates.inputGateIds.map .ids
  | .headSha => updates.headSha.map .text
  | .baseSha => updates.baseSha.map .text
  | .branch => updates.branch.map .text
  | .resultSummary => updates.resultSummary.map .text

/-- `Object.assign(task, cleaned)`, the completion time apart. -/
def PersistedTask.assign (task : PersistedTask) (updates : TaskUpdates) : PersistedTask :=
  { task with
    title := updates.title.getD task.title
    spec := updates.spec <|> task.spec
    state := updates.state.getD task.state
    assignedSessionId := updates.assignedSessionId <|> task.assignedSessionId
    dependsOn := updates.dependsOn <|> task.dependsOn
    workflowGateId := updates.workflowGateId <|> task.workflowGateId
    inputGateIds := updates.inputGateIds <|> task.inputGateIds
    headSha := updates.headSha <|> task.headSha
    baseSha := updates.baseSha <|> task.baseSha
    branch := updates.branch <|> task.branch
    resultSummary := updates.resultSummary <|> task.resultSummary }

abbrev Tasks := JsMap String PersistedTask

/-- A call of `commitTask`. -/
structure Commit where
  task : PersistedTask
  facts : List TaskCommittedFact

/-- What an operation returns and leaves behind. -/
structure Done (ρ : Type) where
  result : ρ
  tasks : Tasks
  commits : List Commit

def monotonicNow (now previous : Nat) : Nat := max now (previous + 1)

def truthyId (id : Option String) : Option String := id.filter (· ≠ "")

namespace TaskManager

def getByParentTaskId (tasks : Tasks) (parentTaskId : String) : List PersistedTask :=
  (tasks.map (·.2)).filter (·.parentTaskId = some parentTaskId)

def getByGoalId (tasks : Tasks) (goalId : String) : List PersistedTask :=
  (tasks.map (·.2)).filter (·.goalId = goalId)

def removeMany (tasks : Tasks) (ids : List String) : Tasks := ids.foldl JsMap.erase tasks

def isValidTransition (source target : TaskState) : Bool := target ∈ validTransitions source

/-- The sub-tasks that are neither complete nor skipped. -/
def incomplete (tasks : Tasks) (id : String) : List PersistedTask :=
  (getByParentTaskId tasks id).filter fun task => task.state ≠ .complete ∧ task.state ≠ .skipped

/-- The dependencies of a task; a task that is gone has none. -/
def dependencies (tasks : Tasks) (id : String) : List String :=
  ((tasks.get? id).bind (·.dependsOn)).getD []

/-- `detectCycle`: does the walk from the new dependencies meet the task? -/
def detectCycle (tasks : Tasks) (taskId : String) (newDeps : List String) : Bool :=
  (Dfs.search (dependencies tasks) taskId (tasks.length + 1) newDeps).isNone

def transitionError (source target : TaskState) : String :=
  "Invalid state transition: " ++ source.name ++ " → " ++ target.name

/-- The check that dependencies exist. -/
def missingDependency (tasks : Tasks) (dependsOn : List String) : Option String :=
  dependsOn.find? fun depId => (tasks.get? depId).isNone

/-- The checks of `createTask` on the parent. -/
def checkParent (tasks : Tasks) (goalId : String) (parentTaskId : Option String) : Except String Unit :=
  match truthyId parentTaskId with
  | none => .ok ()
  | some parentId =>
    match tasks.get? parentId with
    | none => .error ("Parent task " ++ parentId ++ " not found")
    | some parent =>
      if (truthyId parent.parentTaskId).isSome then
        .error "Sub-tasks cannot have sub-tasks (max one level of nesting)"
      else if parent.goalId ≠ goalId then
        .error "Sub-task must belong to the same goal as its parent"
      else .ok ()

/-- `createTask`; `id` is the new UUID. -/
def createTask (tasks : Tasks) (id goalId title type : String) (opts : CreateTaskOptions)
    (now : Nat) : Except String (Done PersistedTask) :=
  let dependsOn := (opts.dependsOn.map fun ids => (JsSet.ofList ids).members).getD []
  match checkParent tasks goalId opts.parentTaskId with
  | .error error => .error error
  | .ok () =>
    match missingDependency tasks dependsOn with
    | some depId => .error ("Dependency task " ++ depId ++ " not found")
    | none =>
      let task : PersistedTask := {
        id := id
        goalId := goalId
        parentTaskId := opts.parentTaskId
        title := title
        type := type
        state := .todo
        assignedSessionId := none
        spec := opts.spec
        createdAt := now
        updatedAt := now
        completedAt := none
        dependsOn := if dependsOn = [] then none else some dependsOn
        baseSha := none
        headSha := none
        branch := none
        resultSummary := none
        workflowGateId := opts.workflowGateId
        inputGateIds := opts.inputGateIds.filter (· ≠ []) }
      .ok ⟨task, tasks.set id task,
        [⟨task, [.taskCreated id goalId type .todo opts.parentTaskId now]⟩]⟩

/-- The checks of `updateTask` on a change of state. -/
def checkState (tasks : Tasks) (id : String) (task : PersistedTask) (state : Option TaskState) :
    Except String Unit :=
  match state with
  | none => .ok ()
  | some target =>
    if target = task.state then .ok ()
    else if ! isValidTransition task.state target then .error (transitionError task.state target)
    else if target = .complete ∧ incomplete tasks id ≠ [] then
      .error ("Cannot complete task: " ++ toString (incomplete tasks id).length ++
        " sub-task(s) still incomplete")
    else .ok ()

/-- The new dependencies of a task, without repetitions and itself. -/
def cleanDependencies (id : String) (dependsOn : List String) : List String :=
  (JsSet.ofList dependsOn).members.filter (· ≠ id)

/-- The checks of `updateTask` on new dependencies. -/
def checkDependencies (tasks : Tasks) (id : String) (dependsOn : Option (List String)) :
    Except String Unit :=
  match dependsOn with
  | none => .ok ()
  | some dependsOn =>
    match missingDependency tasks dependsOn with
    | some depId => .error ("Dependency task " ++ depId ++ " not found")
    | none => if detectCycle tasks id dependsOn then .error "Circular dependency detected" else .ok ()

/-- `updateTask`; the result says whether the task exists. -/
def updateTask (tasks : Tasks) (id : String) (updates : TaskUpdates) (now : Nat) :
    Except String (Done Bool) :=
  match tasks.get? id with
  | none => .ok ⟨false, tasks, []⟩
  | some task =>
    match checkState tasks id task updates.state with
    | .error error => .error error
    | .ok () =>
      let updates := { updates with dependsOn := updates.dependsOn.map (cleanDependencies id) }
      match checkDependencies tasks id updates.dependsOn with
      | .error error => .error error
      | .ok () =>
        let changedFields := taskUpdatedFields.filter fun field =>
          (updates.value field).isSome ∧ task.value field ≠ updates.value field
        let stateChanged := updates.state ≠ none ∧ updates.state ≠ some task.state
        if ¬ stateChanged ∧ changedFields = [] then .ok ⟨true, tasks, []⟩
        else
          let now := monotonicNow now task.updatedAt
          let assigned := task.assign updates
          let updated := { assigned with
            updatedAt := now
            completedAt :=
              if stateChanged ∧ (updates.state = some .complete ∨ updates.state = some .skipped)
              then some now else task.completedAt }
          let facts : List TaskCommittedFact :=
            (if changedFields = [] then []
              else [.taskUpdated task.id task.goalId updated.state
                (projectTaskUpdatedFields changedFields) now]) ++
            if stateChanged then
              [.taskStateChanged task.id task.goalId task.state updated.state now]
            else []
          .ok ⟨true, tasks.set id updated, [⟨updated, facts⟩]⟩

def deleteTask (tasks : Tasks) (id : String) : Done Bool :=
  match tasks.get? id with
  | none => ⟨false, tasks, []⟩
  | some _ => ⟨true, removeMany tasks ((getByParentTaskId tasks id).map (·.id) ++ [id]), []⟩

def deleteTasksForGoal (tasks : Tasks) (goalId : String) : Tasks :=
  removeMany tasks ((getByGoalId tasks goalId).map (·.id))

/-- The part of `assignTask` that changes the parent of a sub-task. -/
def startParent (tasks : Tasks) (parentTaskId : Option String) (now : Nat) : Tasks × List Commit :=
  match (truthyId parentTaskId).bind tasks.get? with
  | none => (tasks, [])
  | some parent =>
    if parent.state = .todo then
      let revision := monotonicNow now parent.updatedAt
      let started := { parent with state := .inProgress, updatedAt := revision }
      (tasks.set parent.id started,
        [⟨started, [.taskStateChanged parent.id parent.goalId .todo .inProgress revision]⟩])
    else (tasks, [])

def assignTask (tasks : Tasks) (taskId sessionId : String) (now : Nat) : Done Bool :=
  match tasks.get? taskId with
  | none => ⟨false, tasks, []⟩
  | some task =>
    let assignmentChanged := task.assignedSessionId ≠ some sessionId
    let stateChanged := task.state = .todo
    let (own, commits) : Tasks × List Commit :=
      if assignmentChanged ∨ stateChanged then
        let revision := monotonicNow now task.updatedAt
        let assigned := { task with
          assignedSessionId := some sessionId
          updatedAt := revision
          state := if stateChanged then .inProgress else task.state }
        let facts : List TaskCommittedFact :=
          (if assignmentChanged then
            [.taskUpdated task.id task.goalId assigned.state ["assignedSessionId"] revision]
            else []) ++
          if stateChanged then
            [.taskStateChanged task.id task.goalId task.state assigned.state revision]
          else []
        (tasks.set taskId assigned, [⟨assigned, facts⟩])
      else (tasks, [])
    let (tasks, parentCommits) := startParent own task.parentTaskId now
    ⟨true, tasks, commits ++ parentCommits⟩

def enter (tasks : Tasks) (task : PersistedTask) (state : TaskState) (now : Nat) : Done Bool :=
  let revision := monotonicNow now task.updatedAt
  let entered := { task with
    state := state
    updatedAt := revision
    completedAt := if state = .complete ∨ state = .skipped then some revision else task.completedAt }
  ⟨true, tasks.set task.id entered,
    [⟨entered, [.taskStateChanged task.id task.goalId task.state state revision]⟩]⟩

def completeTask (tasks : Tasks) (taskId : String) (now : Nat) : Except String (Done Bool) :=
  match tasks.get? taskId with
  | none => .ok ⟨false, tasks, []⟩
  | some task =>
    if ! isValidTransition task.state .complete then .error (transitionError task.state .complete)
    else if incomplete tasks taskId ≠ [] then
      .error ("Cannot complete task: " ++ toString (incomplete tasks taskId).length ++
        " sub-task(s) are not complete or skipped")
    else .ok (enter tasks task .complete now)

def transitionTask (tasks : Tasks) (taskId : String) (newState : TaskState) (now : Nat) :
    Except String (Done Bool) :=
  match tasks.get? taskId with
  | none => .ok ⟨false, tasks, []⟩
  | some task =>
    if task.state = newState then .ok ⟨true, tasks, []⟩
    else if ! isValidTransition task.state newState then
      .error (transitionError task.state newState)
    else if newState = .complete then completeTask tasks taskId now
    else .ok (enter tasks task newState now)

inductive Event
  | createTask (id goalId title type : String) (opts : CreateTaskOptions) (now : Nat)
  | updateTask (id : String) (updates : TaskUpdates) (now : Nat)
  | deleteTask (id : String)
  | deleteTasksForGoal (goalId : String)
  | assignTask (taskId sessionId : String) (now : Nat)
  | completeTask (taskId : String) (now : Nat)
  | transitionTask (taskId : String) (newState : TaskState) (now : Nat)

/-- The tasks after an operation; an error leaves them as they are. -/
def after {ρ : Type} (tasks : Tasks) : Except String (Done ρ) → Tasks
  | .error _ => tasks
  | .ok done => done.tasks

def step (tasks : Tasks) : Event → Tasks
  | .createTask id goalId title type opts now =>
    after tasks (createTask tasks id goalId title type opts now)
  | .updateTask id updates now => after tasks (updateTask tasks id updates now)
  | .deleteTask id => (deleteTask tasks id).tasks
  | .deleteTasksForGoal goalId => deleteTasksForGoal tasks goalId
  | .assignTask taskId sessionId now => (assignTask tasks taskId sessionId now).tasks
  | .completeTask taskId now => after tasks (completeTask tasks taskId now)
  | .transitionTask taskId newState now => after tasks (transitionTask tasks taskId newState now)

end TaskManager

end Bobbit.Server
