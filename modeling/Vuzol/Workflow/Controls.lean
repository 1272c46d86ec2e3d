import Vuzol.Workflow.RetryPolicy
import Vuzol.Workflow.Service

/-! What the owner, an operator, a decision or another subsystem does to a run: the controls of
    `workflows/controls.py` and `workflows/application.py`, and the writes of `workflows/dispatch.py`,
    `providers/routing.py` and `projects/capability_provisioning.py` to the same rows. -/

namespace Vuzol.Workflow

open Vuzol.Lib

/-- `_check_task_version`: a stale control never applies; `none` is the unchecked path. -/
def checkTaskVersion (s : State) (expected : Option Nat) : Except Failure Unit :=
  match expected with
  | none => .ok ()
  | some version =>
    if s.task.version ≠ version then .error (.valueError ("stale task version: expected " ++ toString version))
    else .ok ()

def ownerPaused : String := "owner_paused"
def ownerPausedBeforeStart : String := "owner_paused_before_start"

/-- A leased step is parked: its lease is revoked and the fence advances. -/
def parkStep (x : Step) : Except Failure Step :=
  if x.status.isHeld then do
    let wasRunning := x.status = .running
    let y ← transitionStep { x with
      unknownEffects := x.unknownEffects || (wasRunning && !repeatableWithoutNewMutation x) } .blocked
    .ok { y with
      failureCategory := some (if wasRunning then ownerPaused else ownerPausedBeforeStart)
      failureSummary := some "Owner paused execution; the previous lease is revoked"
      leaseOwner := none
      leaseExpiresAt := none
      leaseGeneration := y.leaseGeneration + 1 }
  else .ok x

def pauseTask (s : State) (expectedVersion : Option Nat) : Except Failure State := do
  checkTaskVersion s expectedVersion
  if s.run.status = .paused then .ok s
  else if s.run.status.isTerminal then .error (.valueError ("terminal run cannot pause: " ++ s.run.status.value))
  else
    let s ← transitionRun s .paused
    let s ← transitionTask s .paused
    let steps ← s.steps.mapM parkStep
    .ok { s with steps := steps }

def continuable (x : Step) : Bool :=
  x.status = .blocked &&
    [some leaseExpiredAttemptsExhausted, some ownerPaused, some ownerPausedBeforeStart].contains x.failureCategory &&
    !x.unknownEffects &&
    (repeatableWithoutNewMutation x || x.failureCategory = some ownerPausedBeforeStart)

def startBudgetEpoch (s : State) (now : Nat) : State :=
  { s with task := { s.task with budgetEpoch := s.task.budgetEpoch + 1 }
           run := { s.run with recoveryEpochStartedAt := some now } }

def continuePausedStep (s : State) (x : Step) (now : Nat) : Except Failure State := do
  let y ← transitionStep (grantAttempt x) .queued
  .ok (startBudgetEpoch (s.putStep { y with failureCategory := none, failureSummary := none }) now)

def continueParked (s : State) (parked : Option Step) (now : Nat) : Except Failure State :=
  match parked with
  | none => .ok s
  | some x => continuePausedStep s x now

def restoreRun (s : State) (target : TaskStatus) : Except Failure State :=
  if target = .blocked then transitionRun s .blocked else .ok s

/-- `resume_task`. `undrained`: a supervised process of the run has not exited. -/
def resumeTask (f : Facts) (s : State) (expectedVersion : Option Nat) (undrained : Bool) : Except Failure State := do
  checkTaskVersion s expectedVersion
  if s.run.status = .running then .ok s
  else if s.run.status ≠ .paused then .error (.valueError ("run cannot resume from " ++ s.run.status.value))
  else if s.task.status = .failed ∨ s.task.status = .cancelled ∨ s.task.status = .completed then
    .error (.valueError
      ("task is " ++ s.task.status.value ++ " while its run is paused; no automatic repair is applied"))
  else if undrained then .error (.valueError "resume requires the previous supervised process to stop")
  else if s.steps.any fun x => x.status = .blocked && x.unknownEffects then
    .error (.valueError "resume cannot continue a step with unknown external effects; reconcile the effect or cancel")
  else
    let parked := s.steps.filter continuable
    if 1 < parked.length then .error (.valueError "resume requires one continuable paused step")
    else
      let s ← transitionRun s .running
      let s ← continueParked s parked.head? f.now
      let s ← activateReadySteps f s
      let target := deriveTaskStatus s.steps s.run.status
      let s ← restoreRun s target
      transitionTask s target

def cancelStep (x : Step) : Except Failure Step :=
  if x.status.isTerminal then .ok x
  else do
    let y ← transitionStep { x with unknownEffects := x.unknownEffects || x.status = .running } .cancelled
    .ok { y with leaseOwner := none, leaseExpiresAt := none }

def settleTask (retainFailure : Bool) (s : State) : Except Failure State :=
  if retainFailure then .ok (recordTaskProgress s) else transitionTask s .cancelled

/-- `cancel_task` for a task that has a run. -/
def cancelTask (s : State) (expectedVersion : Option Nat) : Except Failure State := do
  checkTaskVersion s expectedVersion
  if s.run.status = .cancelled then .ok s
  else if s.task.status = .completed ∧ s.run.status = .paused then
    .error (.valueError
      ("task is " ++ s.task.status.value ++ " while its run is paused; no automatic repair is applied"))
  else if s.run.status = .failed ∨ s.run.status = .completed then
    .error (.valueError ("terminal run cannot cancel: " ++ s.run.status.value))
  else
    let retainFailure := s.task.status = .failed && s.run.status = .paused
    let steps ← s.steps.mapM cancelStep
    let s ← transitionRun { s with steps := steps } .cancelled
    let s ← settleTask retainFailure s
    .ok ((s.steps.filter fun x => x.stepType = .ensureCapabilities).foldl
      (fun s x => abandonCapabilityInstallation s x.id) s)

def reopenRun (s : State) : Except Failure State :=
  if s.run.status = .blocked then do
    let s ← transitionRun s .running
    .ok { s with run := { s.run with failureCategory := none, failureSummary := none } }
  else .ok s

def retryBlockedStep (s : State) (id now : Nat) : Except Failure State := do
  match s.step? id with
  | none => .error (.valueError "only a blocked step can be retried")
  | some x =>
    if x.status ≠ .blocked then .error (.valueError "only a blocked step can be retried")
    else if !blockedStepIsRetryable x then .error (.valueError "blocked step is not safely retryable")
    else
      let s := startBudgetEpoch s now
      -- Each explicit user retry grants exactly one additional bounded attempt.
      let y ← transitionStep (grantAttempt x) .queued
      let s := s.putStep { y with failureCategory := none, failureSummary := none }
      let s ← reopenRun s
      if s.task.status = .blocked ∨ s.task.status = .quotaExhausted then transitionTask s .retrying else .ok s

structure RetryRequest where
  userId : Int
  expectedVersion : Option Nat
  stepId : Option Nat := none
  now : Nat

/-- The row that a request continues: the one current blocked step of a blocked run. `command` is the word
    for the request in its rejections. -/
def retryTarget (s : State) (r : RetryRequest) (command : String) : Except Failure Step :=
  if s.task.userId ≠ r.userId then
    .error (.valueError ("task " ++ command ++ " requires the task owner's principal"))
  else if r.expectedVersion ≠ some s.task.version then .error (.valueError ("stale task version for " ++ command))
  else if s.run.status = .paused then
    .error (.valueError "run is paused; resume to continue the saved work or cancel to close it")
  else match currentRetryTarget s.steps with
    | none => .error (.valueError (command ++ " requires one unambiguous current blocked step"))
    | some target =>
      if s.run.status ≠ .blocked ∨ (r.stepId.isSome ∧ r.stepId ≠ some target.id) then
        .error (.valueError (command ++ " requires one unambiguous current blocked step"))
      else .ok target

/-- `apply_task_command` with `RETRY`. -/
def retryTask (s : State) (r : RetryRequest) : Except Failure State := do
  let target ← retryTarget s r "retry"
  retryBlockedStep s target.id r.now

inductive OwnerAction where
  | admitCeiling | acceptUncertainty | reconcileCost

def ownerCategory : OwnerAction → String
  | .admitCeiling => "admission_only_consent_required"
  | .acceptUncertainty | .reconcileCost => "money_cap_uncertified"

/-- `_continue_owner_decision`. `recorded`: the decision is well formed and the budget ledger took it. -/
def continueOwnerDecision (s : State) (action : OwnerAction) (r : RetryRequest) (recorded : Bool) :
    Except Failure State := do
  let target ← retryTarget s r "continuation"
  if target.failureCategory ≠ some (ownerCategory action) then
    .error (.valueError "owner action does not match the blocked step")
  else if !recorded then .error (.valueError "owner decision requires a reason")
  else retryBlockedStep s target.id r.now

inductive Decision where
  | approve | redo | reject

/-- `verified_envelope`: the envelope on the step is the one that the approval was requested for. -/
def verifiedEnvelope (x : Step) (a : Approval) : Except Failure Envelope :=
  match x.payload.actionEnvelope with
  | none => .error (.valueError "approval action envelope is missing or has changed")
  | some e =>
    if e ≠ a.actionEnvelope then .error (.valueError "approval action envelope is missing or has changed")
    else if e.stepId ≠ x.id then .error (.valueError "approval action envelope targets another step")
    else .ok e

def drifted (pinned : Option String) (current : String) : Bool := pinned.any (· ≠ current)

def putApproval (s : State) (a : Approval) : State :=
  { s with approvals := s.approvals.map fun b => if b.id = a.id then a else b }

def decidableEnvelope (s : State) (a : Approval) (userId : Int) (e : Envelope) : Except Failure Unit :=
  if drifted e.configurationRevision s.run.configurationRevision then
    .error (.valueError "approval envelope configuration_revision drifted since request")
  else if drifted e.policyRevision s.run.policyRevision then
    .error (.valueError "approval envelope policy_revision drifted since request")
  else if a.requestedAction = .publishStatic ∧ userId ≠ s.task.userId then
    .error (.valueError "result approval requires the task owner")
  else .ok ()

/-- The guards of `decide_result`. -/
def decidable (s : State) (approvalId : Nat) (userId : Int) (now : Nat) : Except Failure (Approval × Step) :=
  match s.approvals.find? (·.id == approvalId) with
  | none => .error (.valueError "result approval workflow is missing")
  | some a =>
    match s.step? a.stepId with
    | none => .error (.valueError "result approval workflow is missing")
    | some x =>
      if a.status ≠ .pending then .error (.valueError "result approval is missing or already decided")
      else if a.expiresAt ≤ now then .error (.valueError "result approval has expired")
      else if x.status ≠ .waitingApproval then
        .error (.valueError "result approval step is not waiting for a decision")
      else do
        let e ← verifiedEnvelope x a
        decidableEnvelope s a userId e
        .ok (a, x)

def RequestedAction.isEffect (a : RequestedAction) : Bool := a ≠ .applyResult

def decideApproval (s : State) (a : Approval) (status : ApprovalStatus) (userId : Int) : State :=
  putApproval s { a with status := status, decidingUserId := some userId }

def approveResult (s : State) (a : Approval) (x : Step) : Except Failure State := do
  let x := { x with attemptCount := if a.requestedAction.isEffect then x.attemptCount - 1 else x.attemptCount }
  let y ← transitionStep x .queued
  transitionTask (s.putStep y) .executing

def refuseResult (s : State) (x : Step) : Except Failure State := do
  let y ← transitionStep x .cancelled
  let s ← transitionRun (s.putStep y) .cancelled
  transitionTask s .cancelled

def decideResult (s : State) (approvalId : Nat) (decision : Decision) (userId : Int) (now : Nat) :
    Except Failure State := do
  let (a, x) ← decidable s approvalId userId now
  match decision with
  | .approve => approveResult (decideApproval s a .approved userId) a x
  | .redo =>
    if a.requestedAction.isEffect then .error (.valueError "effect approval does not support redo")
    else refuseResult (decideApproval s a .rejected userId) x
  | .reject => refuseResult (decideApproval s a .rejected userId) x

/-- An operator's recovery request (the `cli` ingress). -/
structure OperatorRequest where
  userId : Int
  expectedVersion : Option Nat
  stepId : Nat
  now : Nat

/-- The preparation that a failed validation waits for. -/
def preparationStep (s : State) (target : Step) (now : Nat) : Step where
  id := s.nextId
  ordinal := s.nextOrdinal
  templateKey := .validationEnvironmentRecovery
  predecessorOrdinals := []
  stepType := .ensureDependencies
  queueClass := .heavy
  requiredCapabilities := [.projectShell, .filesystemWrite]
  retryClass := .never
  idempotencyClass := .unknownEffectsPossible
  links := { validationEnvironmentForStepId := some target.id }
  createdAt := now
  status := .queued
  availableAt := now

/-- The one other blocked step, a source repair that never started, is retired. -/
def retireRepair (s : State) (target : Step) (unused : Bool) : Except Failure State :=
  match s.steps.filter fun x => x.status = .blocked && x.id ≠ target.id with
  | [] => .ok s
  | [repair] =>
    if repair.stepType ≠ .executeCode || repair.attemptCount ≠ 0 || repair.unknownEffects ||
        repair.links.repairForStepId ≠ some target.id || target.payload.repairScheduledStepId ≠ some repair.id ||
        repair.templateKey ≠ .repairCode || repair.repairForOrdinal ≠ some target.ordinal then
      .error (.valueError "source repair has already started or is not mutually bound")
    else if !unused then .error (.valueError "source repair has execution or accounting evidence")
    else do
      let y ← transitionStep repair .cancelled
      .ok (s.putStep y)
  | _ => .error (.valueError "unrelated blocked steps require attention")

/-- The failed validation that an environment recovery may continue. `retained`: the worktree of the run is
    retained and unfinalized. -/
def environmentRecoveryTarget (s : State) (r : OperatorRequest) (retained : Bool) : Except Failure Step :=
  if s.task.userId ≠ r.userId then .error (.valueError "environment recovery requires the task owner's principal")
  else if r.expectedVersion ≠ some s.task.version then
    .error (.valueError "stale task version for environment recovery")
  else match s.step? r.stepId with
    | none => .error (.valueError "environment recovery requires an unambiguous failed validation")
    | some target =>
      if s.run.status ≠ .blocked || target.stepType ≠ .validate || target.status ≠ .blocked || target.unknownEffects ||
          s.task.projectId = none ||
          !([some "validation_gate_failed", some "validation_environment_missing_tool"].contains
            target.failureCategory) ||
          target.payload.environmentRecoveryStepId.isSome then
        .error (.valueError "environment recovery requires an unambiguous failed validation")
      else if s.steps.any (fun x => x.status.isHeld) then
        .error (.valueError "environment recovery cannot race active work")
      else if !retained || !s.steps.any (fun x => x.stepType = .executeCode && x.status = .completed) then
        .error (.valueError "environment recovery requires retained, unfinalized completed source")
      else .ok target

def bindPreparation (s : State) (target : Step) (now : Nat) : State :=
  let preparation := preparationStep s target now
  (s.appendStep preparation).putStep
    { target with payload := { target.payload with environmentRecoveryStepId := some preparation.id } }

/-- `recover_validation_environment`. `unused`: no process, usage record or reservation belongs to the
    repair that is retired. -/
def recoverValidationEnvironment (s : State) (r : OperatorRequest) (retained unused : Bool) : Except Failure State := do
  let target ← environmentRecoveryTarget s r retained
  let s ← retireRepair s target unused
  let s ← transitionRun (bindPreparation s target r.now) .running
  transitionTask s .retrying

def deliveryStepTypes : List StepType :=
  [.produceArtifacts, .buildStatic, .approval, .publishStatic, .finalize]

/-- The failed review that a review recovery may continue. `pinned`: the review is bound to its reviewer
    profile; `unsent`: no transport evidence exists for the failed generation; `retained`: the worktree is
    retained with a result commit; `accounted`: the failed epoch's reservations match and carry no receipt. -/
def reviewRecoveryTarget (s : State) (r : OperatorRequest) (pinned unsent retained accounted : Bool) :
    Except Failure Step :=
  if s.task.userId ≠ r.userId then .error (.valueError "review recovery requires the task owner's principal")
  else if r.expectedVersion ≠ some s.task.version then .error (.valueError "stale task version for review recovery")
  else match s.step? r.stepId with
    | none => .error (.valueError "review recovery requires one failed, pinned prelaunch CLI review")
    | some target =>
      if s.task.status ≠ .failed || s.run.status ≠ .failed || target.stepType ≠ .review || target.status ≠ .failed ||
          target.failureCategory ≠ some "handler_exception" || target.failureSummary ≠ some "LeaseLost" ||
          target.unknownEffects || target.leaseOwner.isSome || target.leaseGeneration < 1 ||
          s.task.projectId = none || !pinned then
        .error (.valueError "review recovery requires one failed, pinned prelaunch CLI review")
      else if s.steps.any (fun x => x.status.isHeld ||
          ((x.status = .failed || x.status = .blocked) && x.id ≠ target.id)) then
        .error (.valueError "review recovery cannot race active work or unrelated failures")
      else if !unsent then .error (.valueError "review recovery refuses a generation with transport evidence")
      else if !retained || !s.steps.any (fun x => x.stepType.isWorker && x.status = .completed) ||
          !s.steps.any (fun x => x.stepType = .validate && x.status = .completed) ||
          s.steps.any (fun x => target.ordinal < x.ordinal && deliveryStepTypes.contains x.stepType &&
            x.attemptCount ≠ 0) then
        .error (.valueError "review recovery requires retained validated source before delivery")
      else if !accounted then .error (.valueError "review recovery requires matching failed-epoch accounting")
      else .ok target

def reopenedReview (target : Step) : Step :=
  { target with
    status := .queued
    payload := { target.payload with reviewOnlyRecovery := true }
    maxAttempts := target.attemptCount + 1
    failureCategory := none
    failureSummary := none }

/-- `recover_unsent_cli_review`; it writes the statuses without asking the transition tables. -/
def recoverUnsentCliReview (s : State) (r : OperatorRequest) (pinned unsent retained accounted : Bool) :
    Except Failure State := do
  let target ← reviewRecoveryTarget s r pinned unsent retained accounted
  let s := (startBudgetEpoch s r.now).putStep (reopenedReview target)
  .ok { s with
    run := { s.run with status := .running, failureCategory := none, failureSummary := none }
    task := { s.task with status := .retrying, version := s.task.version + 1 } }

/-- `_continue_task`: the owner's answer continues the step that waits for it. -/
def continueTask (s : State) : Except Failure State :=
  if s.run.status ≠ .awaitingUser then .error (.valueError "target is not awaiting user input")
  else match s.steps.find? fun x => x.status = .awaitingUser with
    | none => .error (.valueError "awaiting-user step not found")
    | some x => do
      let y ← transitionStep x .queued
      let s ← transitionRun (s.putStep y) .running
      transitionTask s .executing

def unroutedStep (category summary : String) (x : Step) : Step :=
  { x with failureCategory := some category, failureSummary := some summary }

def recordRoute (s : State) (category summary : String) : State :=
  { s with run := { s.run with failureCategory := some category, failureSummary := some summary } }

/-- `_block_route`: a candidate of `claim_routed_step` that no profile may serve. -/
def blockRoute (s : State) (id now : Nat) (category summary : String) (quota : Bool) : Except Failure State :=
  match s.step? id with
  | none => .ok s
  | some x =>
    if x.status ≠ .queued || now < x.availableAt || x.maxAttempts ≤ x.attemptCount || s.run.status ≠ .running then .ok s
    else do
      let y ← transitionStep x .blocked
      let s ← transitionRun (s.putStep (unroutedStep category summary y)) .blocked
      moveTask (recordRoute s category summary) (if quota then .quotaExhausted else .blocked)

def handlerAction : StepType → Option RequestedAction
  | .ensureCapabilities => some .installCapabilities
  | .publishStatic => some .publishStatic
  | _ => none

def joinApproval (s : State) (x : Step) (shared : Nat) : State :=
  if x.stepType = .ensureCapabilities then
    s.putStep { x with payload := { x.payload with capabilityWaitApprovalId := some shared } }
  else s

def openApproval (s : State) (x : Step) (action : RequestedAction) (body : String) (expiresAt : Nat) : State :=
  let envelope : Envelope := { requestedAction := action, stepId := x.id, body := body }
  let approval : Approval :=
    { id := s.approvals.length, stepId := x.id, requestedAction := action, actionEnvelope := envelope
      expiresAt := expiresAt }
  { s.putStep { x with payload := { x.payload with actionEnvelope := some envelope }
                       externalIdempotencyKey := some body } with
    approvals := s.approvals ++ [approval] }

/-- A handler under its lease requests an approval (`_request_approval`), or joins the shared one it names. -/
def requestApproval (s : State) (token : LeaseToken) (body : String) (shared : Option Nat) (expiresAt : Nat) :
    Except Failure State :=
  match s.step? token.stepId with
  | none => .error (.leaseLost token.stepId)
  | some x =>
    if !token.holds x || !x.status.isHeld then .error (.leaseLost token.stepId)
    else match handlerAction x.stepType with
      | none => .error (.valueError "step requests no approval")
      | some action =>
        if s.approvals.any fun a => a.stepId = x.id && a.requestedAction = action then .ok s
        else match shared with
          | some id => .ok (joinApproval s x id)
          | none => .ok (openApproval s x action body expiresAt)

/-- `wake_capability_waiters` for one waiter: a shared installation of another run settled. -/
def wakeCapabilityWaiter (s : State) (id approvalId : Nat) : Except Failure State :=
  match s.step? id with
  | none => .ok s
  | some x =>
    if x.status ≠ .waitingApproval || x.payload.capabilityWaitApprovalId ≠ some approvalId ||
        s.run.status ≠ .running then .ok s
    else do
      let y ← transitionStep x .queued
      let s := s.putStep { y with attemptCount := y.attemptCount - 1 }
      if s.task.status = .waitingApproval then transitionTask s .executing else .ok s

def recordEffects (s : State) (effects : List Effect) : State := { s with effects := effects }

end Vuzol.Workflow
