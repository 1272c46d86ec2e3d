import Vuzol.Lib.Machine
import Vuzol.Workflow.Transitions

/-! Activation of ready steps, the projection of a run onto its task, and the commit of a step outcome
    (`workflows/service.py`). Events, cards and delivery rows that the functions also write are no part of
    the state: no operation of the engine reads them back. -/

namespace Vuzol.Workflow

open Vuzol.Lib

def resultApprovalTtl : Nat := 7 * 24 * 3600

def resultEnvelope (s : State) (x : Step) (body : String) : Envelope where
  requestedAction := .applyResult
  stepId := x.id
  body := body
  configurationRevision := some s.run.configurationRevision
  policyRevision := some s.run.policyRevision

/-- `ensure_result_approval`: the approval of a result is requested once, when the approval step becomes
    ready. A `v2` run is never approved by its plan. -/
def ensureResultApproval (f : Facts) (s : State) (x : Step) : Except Failure State :=
  if x.requestedAction ≠ some .applyResult then .ok s
  else if s.approvals.any fun a => a.stepId = x.id then .ok s
  else match f.evidence with
    | none => .error (.valueError "result approval requires a retained measured worktree")
    | some body =>
      let envelope := resultEnvelope s x body
      let approval : Approval :=
        { id := s.approvals.length, stepId := x.id, requestedAction := .applyResult, actionEnvelope := envelope
          expiresAt := f.now + resultApprovalTtl }
      .ok { s.putStep { x with payload := { x.payload with actionEnvelope := some envelope }
                               externalIdempotencyKey := some ("apply-result:" ++ body) } with
            approvals := s.approvals ++ [approval] }

def Step.ready (steps : List Step) (x : Step) : Bool :=
  x.status = .pending &&
    x.predecessorOrdinals.all fun o => steps.any fun y => y.ordinal = o && y.status = .completed

def activateStep (f : Facts) (s : State) (x : Step) : Except Failure State := do
  let target := if x.stepType = .approval then StepStatus.waitingApproval else .queued
  let y ← transitionStep x target
  if target = .waitingApproval then ensureResultApproval f (s.putStep y) y else .ok (s.putStep y)

/-- `activate_ready_steps`. An activation never completes a step, so that reading the rows found at the
    start is the same as reading them while they change. -/
def activateReadySteps (f : Facts) (s : State) : Except Failure State :=
  if s.run.status ≠ .running then .ok s
  else (s.steps.filter (Step.ready s.steps)).foldlM (activateStep f) s

/-- The statuses that `derive_task_status` does not count as finished, stopped or waiting. -/
def Step.unfinished (x : Step) : Bool := !([.completed, .cancelled, .failed, .blocked].contains x.status)

def activeRepairTargets (steps : List Step) : List Nat :=
  let linked (key : Step → Option Nat) := steps.filterMap fun x => if x.unfinished then key x else none
  let targets := linked (·.links.repairForStepId) ++ linked (·.links.resumeAfterValidationStepId) ++
    linked (·.links.capabilityForStepId)
  steps.foldl (fun acc x =>
    if x.unfinished || acc.contains x.id then acc ++ x.links.validationEnvironmentForStepId.toList else acc) targets

def Step.decisive (targets : List Nat) (x : Step) : Bool :=
  !([.pending, .completed, .cancelled].contains x.status) && !(x.status = .blocked && targets.contains x.id)

def StepSpec.workStatus (c : StepSpec) : TaskStatus :=
  if c.links.capabilityForStepId.isSome then .executing
  else if c.links.repairForStepId.isSome || c.links.resumeAfterValidationStepId.isSome then .retrying
  else match c.stepType with
    | .ensureCapabilities | .prepareContext => .contextPrepared
    | .validate => .validating
    | .review => .reviewing
    | _ => .executing

def Step.taskStatus (x : Step) : TaskStatus :=
  match x.status with
  | .waitingApproval => .waitingApproval
  | .awaitingUser => .awaitingUser
  | .blocked => .blocked
  | .failed => .failed
  | _ => x.toStepSpec.workStatus

def deriveTaskStatus (steps : List Step) : RunStatus → TaskStatus
  | .created => .interpreted
  | .paused => .paused
  | .awaitingUser => .awaitingUser
  | .blocked => .blocked
  | .failed => .failed
  | .cancelled => .cancelled
  | .completed => .completed
  | .running =>
    match steps.find? (Step.decisive (activeRepairTargets steps)) with
    | none => .executing
    | some x => x.taskStatus

def startRun (f : Facts) (s : State) : Except Failure State := do
  if s.run.status = .running then .ok s
  else if s.run.status ≠ .created then .error (.valueError ("run cannot start from " ++ s.run.status.value))
  else
    let s ← transitionRun s .running
    let s ← activateReadySteps f { s with run := { s.run with startedAt := some f.now } }
    moveTask s (deriveTaskStatus s.steps s.run.status)

def canRetry (x : Step) : Bool :=
  x.retryClass = .transient && x.attemptCount < x.maxAttempts &&
    (x.idempotencyClass = .readOnly || x.idempotencyClass = .idempotent)

def recoveryDeadlineExceeded (run : Run) (x : Step) (policy : RecoveryPolicy) (now : Nat) : Bool :=
  let exceeded (started : Nat) : Bool := policy.recoveryDeadlineSeconds < now - started
  match run.recoveryEpochStartedAt with
  | some started => now < started || exceeded started
  | none => exceeded (run.startedAt.getD x.createdAt)

def buildRecoveryState (f : Facts) (s : State) (x : Step) (outcome : StepOutcome) : RecoveryState where
  outcomeKind := outcome.kind
  category := outcome.category
  stepType := x.stepType
  unknownEffects := outcome.unknownEffects
  retryable := canRetry x
  fingerprint := some f.fingerprint
  seenFingerprints := x.payload.failureFingerprintHistory
  repairCount := x.payload.repairCount
  taskRepairCount := s.steps.countP (fun y => y.templateKey = .repairCode) + f.otherRepairs
  backpressureCount := x.payload.backpressureCount
  deadlineExceeded := recoveryDeadlineExceeded s.run x s.run.recoveryPolicy f.now

/-- The newest completed step of a kind (`order_by(ordinal.desc()).limit(1)`). -/
def lastCompleted (p : StepType → Bool) (s : State) : Option Step :=
  (s.steps.filter fun x => p x.stepType && x.status = .completed).getLast?

def blockForAttention (s : State) (x : Step) : Except Failure (State × Step) := do
  let y ← transitionStep x .blocked
  let s ← transitionRun s .blocked
  .ok (s.putStep y, y)

/-- The source repair of a failed step, a copy of the step that wrote the source. -/
def repairStep (f : Facts) (s : State) (failed worker : Step) : Step where
  id := s.nextId
  ordinal := s.nextOrdinal
  templateKey := .repairCode
  predecessorOrdinals := []
  repairForOrdinal := some failed.ordinal
  stepType := worker.stepType
  queueClass := worker.queueClass
  requiredCapabilities := worker.requiredCapabilities
  retryClass := worker.retryClass
  idempotencyClass := worker.idempotencyClass
  resultKind := worker.resultKind
  links := { repairForStepId := some failed.id }
  createdAt := f.now
  status := .queued
  availableAt := f.now

/-- `_schedule_bounded_repair`; `none` is its refusal. -/
def scheduleBoundedRepair (f : Facts) (s : State) (x : Step) (outcome : StepOutcome) :
    Except Failure (Option (State × Step)) := do
  let state := buildRecoveryState f s x outcome
  -- An explicit review recovery grants review, not source regeneration.
  if x.stepType = .review && x.payload.reviewOnlyRecovery then .ok none
  else if decideRecovery state s.run.recoveryPolicy ≠ .repair then .ok none
  else match lastCompleted StepType.isWorker s with
    | none => .ok none
    | some worker =>
      let repair := repairStep f s x worker
      let y ← transitionStep x .blocked
      let y := { y with
        failureCategory := outcome.category
        failureSummary := outcome.summary
        result := some outcome.result
        unknownEffects := false
        payload := { y.payload with
          repairCount := state.repairCount + 1
          repairScheduledStepId := some repair.id
          failureFingerprintHistory :=
            appendFingerprintHistory y.payload.failureFingerprintHistory f.fingerprint } }
      .ok (some ((s.appendStep repair).putStep y, y))

/-- The privileged step that installs what the dependency step `target` misses. -/
def preflightStep (f : Facts) (s : State) (target : Step) : Step where
  id := s.nextId
  ordinal := s.nextOrdinal
  templateKey := .ensureCapabilitiesAfterCode
  predecessorOrdinals := []
  stepType := .ensureCapabilities
  queueClass := .privileged
  requiredCapabilities := [.hostAdmin]
  retryClass := .never
  idempotencyClass := .unknownEffectsPossible
  links := { capabilityForStepId := some target.id }
  createdAt := f.now
  status := .pending
  availableAt := f.now

def bindPreflight (x : Step) (preflight : Nat) : Step :=
  { x with payload := { x.payload with capabilityPreflightStepId := some preflight } }

/-- `_schedule_capability_preflight`: the state with the new row, and the target bound to it. -/
def scheduleCapabilityPreflight (f : Facts) (s : State) (x : Step) : Option (State × Step) :=
  if s.task.projectId = none || !f.environmentCurrent ||
      s.steps.any (fun y => y.stepType = .ensureCapabilities && y.links.capabilityForStepId = some x.id) then none
  else
    let preflight := preflightStep f s x
    some (s.appendStep preflight, bindPreflight x preflight.id)

def resumeAfterCapabilityPreflight (s : State) (preflight : Step) : Except Failure State :=
  if preflight.stepType ≠ .ensureCapabilities then .ok s
  else match preflight.links.capabilityForStepId with
    | none => .ok s
    | some id =>
      match s.steps.find? fun y => y.id = id && y.stepType = .ensureDependencies && y.status = .blocked with
      | none => .error (.valueError "completed capability preflight has no bound dependency waiter")
      | some target =>
        if target.failureCategory ≠ some "capability_preflight_required" ||
            target.payload.capabilityPreflightStepId ≠ some preflight.id then
          .error (.valueError "completed capability preflight has no bound dependency waiter")
        else do
          let y ← transitionStep target .queued
          .ok (s.putStep { y with attemptCount := y.attemptCount - 1, failureCategory := none, failureSummary := none })

def grantAttempt (x : Step) : Step :=
  { x with maxAttempts := if x.maxAttempts ≤ x.attemptCount then x.maxAttempts + 1 else x.maxAttempts }

def resumeAfterValidationEnvironment (s : State) (preparation : Step) : Except Failure State :=
  if preparation.stepType ≠ .ensureDependencies then .ok s
  else match preparation.links.validationEnvironmentForStepId with
    | none => .ok s
    | some id =>
      match s.steps.find? fun y => y.id = id && y.stepType = .validate && y.status = .blocked with
      | none => .error (.valueError "environment preparation has no mutually bound validation waiter")
      | some target =>
        if target.payload.environmentRecoveryStepId ≠ some preparation.id then
          .error (.valueError "environment preparation has no mutually bound validation waiter")
        else do
          let y ← transitionStep target .queued
          .ok (s.putStep { grantAttempt y with failureCategory := none, failureSummary := none })

/-- The validation of a repaired result, a copy of the validation before it. -/
def revalidationStep (f : Facts) (s : State) (target validation : Step) : Step where
  id := s.nextId
  ordinal := s.nextOrdinal
  templateKey := .repairValidate
  predecessorOrdinals := []
  repairForOrdinal := some target.ordinal
  stepType := .validate
  queueClass := validation.queueClass
  requiredCapabilities := validation.requiredCapabilities
  retryClass := validation.retryClass
  idempotencyClass := validation.idempotencyClass
  resultKind := validation.resultKind
  links := { resumeAfterValidationStepId := some target.id }
  createdAt := f.now
  status := .queued
  availableAt := f.now

def resumeRepairedStep (f : Facts) (s : State) (repair : Step) : Except Failure State :=
  match repair.links.repairForStepId with
  | none => .ok s
  | some id =>
    match s.step? id with
    | none => .ok s
    | some target =>
      if target.status ≠ .blocked then .ok s
      else if target.stepType = .review then
        match lastCompleted (· = .validate) s with
        | none => .ok s
        | some validation => .ok (s.appendStep (revalidationStep f s target validation))
      else do
        let y ← transitionStep target .queued
        .ok (s.putStep { grantAttempt y with failureCategory := none, failureSummary := none, unknownEffects := false })

def resumeReviewAfterValidation (s : State) (validation : Step) : Except Failure State :=
  match validation.links.resumeAfterValidationStepId with
  | none => .ok s
  | some id =>
    match s.step? id with
    | none => .ok s
    | some target =>
      if target.stepType ≠ .review || target.status ≠ .blocked then .ok s
      else do
        let y ← transitionStep target .queued
        .ok (s.putStep { grantAttempt y with failureCategory := none, failureSummary := none })

/-- `_ACTIVE_STATUSES` of an effect: its outcome is not settled. -/
def EffectStatus.isActive : EffectStatus → Bool
  | .intentRecorded | .dispatched | .uncertain => true
  | .settled | .failed => false

def State.unsettled (s : State) : Bool :=
  s.effects.any fun e => e.status.isActive && s.steps.any fun x => x.id = e.stepId

def finalizeIfComplete (s : State) : Except Failure State :=
  if s.steps.isEmpty || s.steps.any (fun x => x.status ≠ .completed) then .ok s
  else if s.run.status ≠ .running then .ok s
  else if s.unsettled then .ok s
  else transitionRun s .completed

def recordTaskProgress (s : State) : State := { s with task := { s.task with version := s.task.version + 1 } }

/-- `abandon_capability_installation`: the open installation approvals of a step that cannot lead any more
    expire. The waiters it wakes are steps of other runs. -/
def abandonCapabilityInstallation (s : State) (id : Nat) : State :=
  { s with approvals := s.approvals.map fun a =>
      if a.stepId = id ∧ a.requestedAction = .installCapabilities ∧ (a.status = .pending ∨ a.status = .approved) then
        { a with status := .expired }
      else a }

def sharedApprovalSettled (f : Facts) (x : Step) : Bool :=
  x.payload.capabilityWaitApprovalId.isSome &&
    f.sharedApproval.any fun status => status ≠ .pending && status ≠ .approved

/-- The branch of `commit_step_outcome` for a transient failure. -/
def retryOutcome (f : Facts) (s : State) (x : Step) (outcome : StepOutcome) : Except Failure (State × Step) :=
  let state := buildRecoveryState f s x outcome
  match decideRecovery state s.run.recoveryPolicy with
  | .wait => do
    -- Backpressure does not burn an attempt.
    let y ← transitionStep x .queued
    let y := { y with
      availableAt := f.now + f.retryDelaySeconds
      attemptCount := y.attemptCount - 1
      payload := { y.payload with backpressureCount := state.backpressureCount + 1 } }
    .ok (s.putStep y, y)
  | .retry => do
    let y ← transitionStep x .queued
    let y := { y with availableAt := f.now + f.retryDelaySeconds }
    .ok (s.putStep y, y)
  | _ => blockForAttention s x

/-- The branch of `commit_step_outcome` for a dependency step that misses a shared capability. -/
def preflightOutcome (f : Facts) (s : State) (x : Step) : Except Failure (State × Step) :=
  match scheduleCapabilityPreflight f s x with
  | none => blockForAttention s x
  | some (s, x) => do
    let y ← transitionStep x .blocked
    let s ← activateReadySteps f (s.putStep y)
    .ok (s, y)

/-- The branch of `commit_step_outcome` for a blocked step, or one with unknown effects. -/
def blockedOutcome (f : Facts) (s : State) (x : Step) (outcome : StepOutcome) : Except Failure (State × Step) := do
  match ← scheduleBoundedRepair f s x outcome with
  | some scheduled => .ok scheduled
  | none =>
    let (s, y) ← blockForAttention s x
    let y := { y with unknownEffects := outcome.unknownEffects }
    .ok (s.putStep y, y)

/-- The dispatch of `commit_step_outcome` on the outcome. -/
def applyOutcome (f : Facts) (s : State) (x : Step) (outcome : StepOutcome) : Except Failure (State × Step) :=
  match outcome.kind with
  | .succeeded => do
    let y ← transitionStep x .completed
    let y := { y with result := some outcome.result }
    .ok (s.putStep y, y)
  | .transientFailure => retryOutcome f s x outcome
  | .needsUserInput => do
    let y ← transitionStep x .awaitingUser
    let s ← transitionRun s .awaitingUser
    .ok (s.putStep y, y)
  | .needsApproval =>
    if sharedApprovalSettled f x then do
      let y ← transitionStep x .queued
      let y := { y with attemptCount := y.attemptCount - 1 }
      .ok (s.putStep y, y)
    else do
      let y ← transitionStep x .waitingApproval
      .ok (s.putStep y, y)
  | kind =>
    if kind = .blocked && outcome.category = some "capability_preflight_required" && x.stepType = .ensureDependencies &&
        !outcome.unknownEffects then preflightOutcome f s x
    else if kind = .blocked || outcome.unknownEffects then blockedOutcome f s x outcome
    else if kind = .cancelled then do
      let y ← transitionStep x .cancelled
      .ok (s.putStep y, y)
    else do
      let y ← transitionStep x .failed
      let s ← transitionRun s .failed
      .ok (s.putStep y, y)

def releaseStep (outcome : StepOutcome) (x : Step) : Step :=
  if outcome.kind = .succeeded then { x with leaseOwner := none, leaseExpiresAt := none }
  else { x with failureCategory := outcome.category, failureSummary := outcome.summary
                leaseOwner := none, leaseExpiresAt := none }

def recordRunFailure (outcome : StepOutcome) (s : State) (x : Step) : State :=
  if outcome.kind ≠ .succeeded ∧ (s.run.status = .blocked ∨ s.run.status = .failed ∨ s.run.status = .cancelled) then
    let s := { s with run := { s.run with failureCategory := outcome.category, failureSummary := outcome.summary } }
    if x.stepType = .ensureCapabilities then abandonCapabilityInstallation s x.id else s
  else s

def afterCompletion (f : Facts) (s : State) (x : Step) : Except Failure State := do
  let s ← resumeAfterValidationEnvironment s x
  let s ← resumeAfterCapabilityPreflight s x
  let s ← resumeRepairedStep f s x
  let s ← resumeReviewAfterValidation s x
  let s ← activateReadySteps f s
  finalizeIfComplete s

def projectTask (outcome : StepOutcome) (s : State) : Except Failure State :=
  let target := deriveTaskStatus s.steps s.run.status
  if target ≠ s.task.status then transitionTask s target
  else if outcome.kind = .succeeded then .ok (recordTaskProgress s)
  else .ok s

/-- The lease guard of `commit_step_outcome`. -/
def leasedRow (s : State) (token : LeaseToken) : Except Failure Step :=
  match s.step? token.stepId with
  | none => .error (.leaseLost token.stepId)
  | some x =>
    if !token.holds x || !x.status.isHeld then .error (.leaseLost token.stepId)
    else if s.run.status.isTerminal then .error (.leaseLost token.stepId)
    -- A paused run cannot authorize a late outcome, even for old persisted leases.
    else if s.run.status = .paused then .error (.leaseLost token.stepId)
    else .ok x

def commitRows (f : Facts) (s : State) (x : Step) (outcome : StepOutcome) : Except Failure State := do
  let (s, y) ← applyOutcome f s x outcome
  let z := releaseStep outcome y
  let s := (recordRunFailure outcome s z).putStep z
  if z.status = .completed then afterCompletion f s z else .ok s

def commitStepOutcome (f : Facts) (s : State) (token : LeaseToken) (outcome : StepOutcome) : Except Failure State := do
  let x ← leasedRow s token
  let s ← commitRows f s x outcome
  projectTask outcome s

end Vuzol.Workflow
