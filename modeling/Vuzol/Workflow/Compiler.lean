import Vuzol.Workflow.Model

/-! The factory of the fixed executor chain (`workflows/compiler.py`) and the rows that
    `materialize_run` writes for it. -/

namespace Vuzol.Workflow

inductive TaskType where
  | coding | architecture | research | infrastructure | fileProcessing | general
  deriving DecidableEq

inductive TaskOperation where
  | inspect | explain | create | modify | fix | deploy | monitor
  deriving DecidableEq

structure TaskDraft where
  taskType : TaskType
  operation : TaskOperation
  requiredCapabilities : List Capability := []

structure StepDefinition where
  key : StepType
  queueClass : QueueClass := .light
  capabilities : List Capability := []
  retryClass : RetryClass := .never
  idempotencyClass : IdempotencyClass := .readOnly
  maxAttempts : Nat := 1

def TaskDraft.report (draft : TaskDraft) : Bool :=
  [TaskType.architecture, .research, .general].contains draft.taskType ||
    [TaskOperation.inspect, .explain, .monitor].contains draft.operation

def TaskDraft.executorCapabilities (draft : TaskDraft) : List Capability :=
  if draft.report then
    .repositoryRead :: (if draft.requiredCapabilities.contains .webResearch ||
      (draft.taskType = .research && draft.requiredCapabilities.isEmpty) then [.webResearch] else [])
  else [.codeEdit, .projectShell]

/-- The definitions `compile_workflow` lists; a compiled key is also the step's type. -/
def stepDefinitions (draft : TaskDraft) : List StepDefinition :=
  let report := draft.report
  [ { key := .interpret },
    { key := .ensureCapabilities, queueClass := .privileged, capabilities := [.hostAdmin],
      idempotencyClass := .unknownEffectsPossible },
    { key := .prepareContext, capabilities := [.repositoryRead] },
    { key := .prepareWorktree, queueClass := .heavy, capabilities := [.git, .filesystemWrite],
      idempotencyClass := .isolatedRetryable },
    { key := if report then .executeAgent else .executeCode, queueClass := .heavy,
      capabilities := draft.executorCapabilities, retryClass := .policy,
      idempotencyClass := if report then .readOnly else .unknownEffectsPossible },
    { key := .ensureDependencies, queueClass := .heavy, capabilities := [.projectShell, .filesystemWrite],
      idempotencyClass := .unknownEffectsPossible },
    { key := .validate, queueClass := .heavy,
      capabilities := if report then [.repositoryRead] else [.projectShell] },
    { key := .review, retryClass := .transient, maxAttempts := 3 } ] ++
  (if report then [] else
    [ { key := .produceArtifacts, queueClass := .heavy, capabilities := [.projectShell],
        idempotencyClass := .unknownEffectsPossible },
      { key := .buildStatic, queueClass := .heavy, capabilities := [.projectShell], retryClass := .transient,
        idempotencyClass := .isolatedRetryable, maxAttempts := 2 } ]) ++
  [ { key := .approval, queueClass := .privileged, capabilities := [.git], idempotencyClass := .idempotent,
      maxAttempts := 2 } ] ++
  (if report then [] else
    [ { key := .publishStatic, capabilities := [.filesystemWrite], retryClass := .transient,
        idempotencyClass := .idempotent, maxAttempts := 3 } ]) ++
  [ { key := .finalize, queueClass := .control } ]

/-- The row of the `index`-th definition. -/
def materializedStep (report : Bool) (createdAt index : Nat) (d : StepDefinition) : Step where
  id := index
  ordinal := index
  templateKey := .chain d.key
  predecessorOrdinals := if index = 0 then [] else [index - 1]
  stepType := d.key
  queueClass := d.queueClass
  requiredCapabilities := d.capabilities
  retryClass := d.retryClass
  idempotencyClass := d.idempotencyClass
  resultKind := some (if report then .report else .change)
  requestedAction := if d.key = .approval then some .applyResult else none
  createdAt := createdAt
  status := if index = 0 then .completed else .pending
  maxAttempts := d.maxAttempts

def compileWorkflow (draft : TaskDraft) (createdAt : Nat) : List Step :=
  (stepDefinitions draft).mapIdx (materializedStep draft.report createdAt)

/-- What `materialize_run` is given besides the compiled workflow. -/
structure Materialization where
  draft : TaskDraft
  task : Task
  recoveryPolicy : RecoveryPolicy := defaultRecoveryPolicy
  configurationRevision : String := ""
  policyRevision : String := ""
  now : Nat := 0

/-- `materialize_run` for a task that is ready for a run; an automatic start is a `startRun` after it. -/
def materializeRun (m : Materialization) : Except Failure State :=
  if m.task.status = .interpreted then
    .ok { task := { m.task with version := m.task.version + 1 }
          run := { status := .created, recoveryPolicy := m.recoveryPolicy
                   configurationRevision := m.configurationRevision, policyRevision := m.policyRevision }
          steps := compileWorkflow m.draft m.now }
  else .error (.valueError ("task is not ready for a run: " ++ m.task.status.value))

theorem materializeRun_eq_ok {m : Materialization} {s : State} (h : materializeRun m = .ok s) :
    s.task.status = .interpreted ∧ s.run.status = .created ∧ s.steps = compileWorkflow m.draft m.now := by
  unfold materializeRun at h
  split at h
  · cases h
    exact ⟨by assumption, rfl, rfl⟩
  · cases h

end Vuzol.Workflow
