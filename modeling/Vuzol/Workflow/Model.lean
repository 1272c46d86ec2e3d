import Vuzol.Lib.Rows
import Vuzol.Workflow.RecoveryPolicy

/-! The rows of the workflow engine (`storage/models.py`): one task, its run, the steps of the run in
    ordinal order, the approvals of these steps and the effects they recorded. A transaction maps a state
    to a new one, or raises and leaves the rows as they were. -/

namespace Vuzol.Workflow

/-- The payload keys that bind a step the engine added to the step that waits for it. They are written
    when the row is created and never again. -/
structure Links where
  repairForStepId : Option Nat := none
  resumeAfterValidationStepId : Option Nat := none
  capabilityForStepId : Option Nat := none
  validationEnvironmentForStepId : Option Nat := none
  deriving DecidableEq

/-- The columns, metadata and payload keys of a step that no operation changes after its creation. Row
    identities are drawn from a counter: a new row of a run takes the first unused number. -/
structure StepSpec where
  id : Nat
  ordinal : Nat
  templateKey : TemplateKey
  predecessorOrdinals : List Nat
  repairForOrdinal : Option Nat := none
  stepType : StepType
  queueClass : QueueClass
  requiredCapabilities : List Capability
  retryClass : RetryClass
  idempotencyClass : IdempotencyClass
  resultKind : Option ResultKind := none
  requestedAction : Option RequestedAction := none
  links : Links := {}
  createdAt : Nat := 0
  deriving DecidableEq

/-- An approval envelope. Its SHA-256 digest is taken to be collision free, so that an approval holds the
    envelope it was requested for in place of the digest. -/
structure Envelope where
  requestedAction : RequestedAction
  stepId : Nat
  body : String
  configurationRevision : Option String := none
  policyRevision : Option String := none
  deriving DecidableEq

/-- The payload keys that operations rewrite. -/
structure Payload where
  repairCount : Nat := 0
  repairScheduledStepId : Option Nat := none
  failureFingerprintHistory : List String := []
  capabilityPreflightStepId : Option Nat := none
  environmentRecoveryStepId : Option Nat := none
  backpressureCount : Nat := 0
  reviewOnlyRecovery : Bool := false
  capabilityWaitApprovalId : Option Nat := none
  actionEnvelope : Option Envelope := none
  deriving DecidableEq

structure Step extends StepSpec where
  status : StepStatus
  payload : Payload := {}
  result : Option String := none
  externalIdempotencyKey : Option String := none
  attemptCount : Nat := 0
  maxAttempts : Nat := 1
  availableAt : Nat := 0
  leaseOwner : Option String := none
  leaseExpiresAt : Option Nat := none
  leaseGeneration : Nat := 0
  failureCategory : Option String := none
  failureSummary : Option String := none
  unknownEffects : Bool := false
  deriving DecidableEq

abbrev Step.key (x : Step) : Nat := x.id

structure Task where
  status : TaskStatus
  version : Nat := 1
  budgetEpoch : Nat := 0
  userId : Int
  projectId : Option String := none

/-- A `fixed_executor` run: its execution contract is `execution-contract.v2`, so it carries the recovery
    policy that was frozen when it was materialized. -/
structure Run where
  status : RunStatus
  recoveryPolicy : RecoveryPolicy
  recoveryEpochStartedAt : Option Nat := none
  startedAt : Option Nat := none
  failureCategory : Option String := none
  failureSummary : Option String := none
  configurationRevision : String := ""
  policyRevision : String := ""

structure Approval where
  id : Nat
  stepId : Nat
  requestedAction : RequestedAction
  actionEnvelope : Envelope
  status : ApprovalStatus := .pending
  expiresAt : Nat
  decidingUserId : Option Int := none

structure Effect where
  stepId : Nat
  status : EffectStatus

structure State where
  task : Task
  run : Run
  steps : List Step
  approvals : List Approval := []
  effects : List Effect := []

structure LeaseToken where
  stepId : Nat
  owner : String
  generation : Nat
  deriving DecidableEq

/-- What a transaction raises. `IllegalTransition` and `LeaseLost` are storage errors; only `ValueError`
    is recorded as a rejection by the control consumer. -/
inductive Failure where
  | valueError (message : String)
  | illegalTask (previous target : TaskStatus)
  | illegalRun (previous target : RunStatus)
  | illegalStep (previous target : StepStatus)
  | leaseLost (stepId : Nat)
  deriving DecidableEq

/-- `IllegalTransition`, raised by one of the three transition tables. -/
def Failure.isIllegalTransition : Failure → Bool
  | .illegalTask .. | .illegalRun .. | .illegalStep .. => true
  | _ => false

def Failure.isValueError : Failure → Bool
  | .valueError _ => true
  | _ => false

/-- What a transaction reads outside the rows above: the clock, hashes over the worktree and the
    environment, and rows of other runs. -/
structure Facts where
  now : Nat := 0
  /-- `failure_fingerprint` of the failure that is committed. -/
  fingerprint : String := ""
  /-- The `repair_code` steps of the task's other runs. -/
  otherRepairs : Nat := 0
  /-- The outcome names the current environment revision of the project and its content hash. -/
  environmentCurrent : Bool := false
  /-- The status of the shared approval a capability step waits for. -/
  sharedApproval : Option ApprovalStatus := none
  /-- The body of the result envelope, when the worktree is measured and its evidence passes. -/
  evidence : Option String := none
  retryDelaySeconds : Nat := 0

namespace State

def step? (s : State) (id : Nat) : Option Step := s.steps.find? (·.id == id)

def putStep (s : State) (x : Step) : State := { s with steps := Lib.put Step.key x s.steps }

def appendStep (s : State) (x : Step) : State := { s with steps := s.steps ++ [x] }

def nextId (s : State) : Nat := s.steps.length

/-- `coalesce(max(ordinal), 0) + 1`. -/
def nextOrdinal (s : State) : Nat := (s.steps.map (·.ordinal)).foldl max 0 + 1

end State

/-- The owner, generation and status that `commit_step_outcome`, `start_step` and `heartbeat_step` compare. -/
def LeaseToken.holds (token : LeaseToken) (x : Step) : Bool :=
  x.leaseOwner == some token.owner && x.leaseGeneration == token.generation

end Vuzol.Workflow
