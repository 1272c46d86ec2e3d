import Mathlib.Data.List.Basic

/-! The closed vocabularies of the workflow engine (`storage/types.py`, `workflows/domain.py`,
    `config/models.py`): statuses, step types and the classes a step is compiled with. -/

namespace Vuzol.Workflow

inductive TaskStatus where
  | received | interpreted | contextPrepared | planned | waitingApproval | executing | validating | reviewing
  | awaitingUser | paused | retrying | quotaExhausted | blocked | failed | cancelled | rolledBack | completed
  deriving DecidableEq

inductive RunStatus where
  | created | running | awaitingUser | paused | blocked | failed | cancelled | completed
  deriving DecidableEq

inductive StepStatus where
  | pending | queued | leased | running | waitingApproval | awaitingUser | blocked | failed | cancelled | completed
  deriving DecidableEq

/-- The stored spelling of a status, which rejections quote. -/
def TaskStatus.value : TaskStatus → String
  | .received => "received"
  | .interpreted => "interpreted"
  | .contextPrepared => "context_prepared"
  | .planned => "planned"
  | .waitingApproval => "waiting_approval"
  | .executing => "executing"
  | .validating => "validating"
  | .reviewing => "reviewing"
  | .awaitingUser => "awaiting_user"
  | .paused => "paused"
  | .retrying => "retrying"
  | .quotaExhausted => "quota_exhausted"
  | .blocked => "blocked"
  | .failed => "failed"
  | .cancelled => "cancelled"
  | .rolledBack => "rolled_back"
  | .completed => "completed"

def RunStatus.value : RunStatus → String
  | .created => "created"
  | .running => "running"
  | .awaitingUser => "awaiting_user"
  | .paused => "paused"
  | .blocked => "blocked"
  | .failed => "failed"
  | .cancelled => "cancelled"
  | .completed => "completed"

inductive StepType where
  | interpret | ensureCapabilities | prepareContext | prepareWorktree | executeCode | executeAgent
  | ensureDependencies | validate | review | produceArtifacts | buildStatic | approval | publishStatic | finalize
  deriving DecidableEq

/-- `dependency_metadata["template_key"]`: the key of a compiled step (`approve_result` is the key of the
    `approval` step, every other key is its step type), or of a step the engine adds to a run. -/
inductive TemplateKey where
  | chain (key : StepType)
  | repairCode
  | repairValidate
  | ensureCapabilitiesAfterCode
  | validationEnvironmentRecovery
  deriving DecidableEq

inductive RetryClass where
  | never | transient | policy
  deriving DecidableEq

inductive IdempotencyClass where
  | readOnly | idempotent | isolatedRetryable | nonIdempotent | unknownEffectsPossible
  deriving DecidableEq

inductive QueueClass where
  | control | light | heavy | privileged
  deriving DecidableEq

inductive Capability where
  | repositoryRead | filesystemWrite | codeEdit | git | projectShell | network | webResearch | transcription
  | secrets | hostAdmin | telegramSend
  deriving DecidableEq

inductive ApprovalStatus where
  | pending | approved | rejected | expired | consumed
  deriving DecidableEq

/-- `Approval.requested_action`. -/
inductive RequestedAction where
  | applyResult | installCapabilities | installDependencies | publishStatic
  deriving DecidableEq

inductive ResultKind where
  | report | change
  deriving DecidableEq

inductive OutcomeKind where
  | succeeded | transientFailure | permanentFailure | needsUserInput | needsApproval | blocked | cancelled
  deriving DecidableEq

inductive EffectStatus where
  | intentRecorded | dispatched | settled | uncertain | failed
  deriving DecidableEq

/-- `StepOutcome`. The result document is opaque to the engine: it is stored, hashed and compared. -/
structure StepOutcome where
  kind : OutcomeKind
  result : String := ""
  category : Option String := none
  summary : Option String := none
  unknownEffects : Bool := false

/-- `str.startswith`. -/
def startsWith (p s : String) : Bool := p.toList.isPrefixOf s.toList

def StepType.isWorker : StepType → Bool
  | .executeCode | .executeAgent => true
  | _ => false

def RunStatus.isTerminal : RunStatus → Bool
  | .failed | .cancelled | .completed => true
  | _ => false

def StepStatus.isTerminal : StepStatus → Bool
  | .failed | .cancelled | .completed => true
  | _ => false

def StepStatus.isHeld : StepStatus → Bool
  | .leased | .running => true
  | _ => false

end Vuzol.Workflow
