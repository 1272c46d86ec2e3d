import Vuzol.Discussion.Packages
import Vuzol.Workflow.Controls
import Vuzol.Workflow.ResultEvidence

/-! The approval of a retained result: `ensure_result_approval` where its step is activated, `decide_result` for an
    approval of a result, `accept_result` of the lead (`leadership/tasks.py`), and what others do to the rows that
    these read. A transaction is one step. -/

namespace Vuzol.Workflow.Results

open Vuzol.Discussion (WorkPackageStatus)

/-- `selected_route["managed_task"]`, and `execution_binding`. -/
structure Binding where
  goalId : Nat
  scopeRevision : Nat
  planRevisionId : Nat
  planRevisionItemId : Nat
  specRevision : Option String
  deriving DecidableEq

structure TaskRow where
  status : TaskStatus
  specRevision : Option String := none
  /-- `spec_digest(task.task_draft)`. -/
  draftDigest : String := ""

structure RunRow where
  status : RunStatus
  /-- The execution contract is `execution-contract.v2`. -/
  fixedContract : Bool := false
  configurationRevision : Option String := none
  policyRevision : Option String := none
  managedTask : Option Binding := none

structure PackageRow where
  status : WorkPackageStatus
  managedGoalId : Option Nat := none
  integrationBaseCommit : Option String := none
  integrationTargetBranch : Option String := none
  headRevisionId : Option Nat := none
  approvedRevisionId : Option Nat := none
  runningRevisionId : Option Nat := none

/-- The materialization link of the task, with the items of its revision and its package. -/
structure LinkRow where
  ordinal : Nat
  itemCount : Nat
  planRevisionId : Nat
  planRevisionItemId : Nat
  package : Option PackageRow

structure GoalRow where
  id : Nat
  scopeRevision : Nat
  integrationBranch : Option String := none

structure ApprovalRow where
  id : Nat
  stepId : Nat
  actionEnvelope : ResultEnvelope
  status : ApprovalStatus := .pending
  expiresAt : Nat
  decidingUserId : Option Int := none
  /-- The steps that the evidence was collected from; no operation reads them. -/
  collected : List StepRow

abbrev ApprovalRow.key (a : ApprovalRow) : Nat := a.id

inductive Approver where
  | plan
  | owner (userId : Int)
  | lead
  deriving DecidableEq

/-- The release of a result to its application: the approval before the decision, and the envelope on the step. -/
structure Release where
  stepId : Nat
  approver : Approver
  approval : ApprovalRow
  envelope : Option ResultEnvelope
  releasedAt : Nat

structure ResultState where
  now : Nat := 0
  task : TaskRow
  run : RunRow
  steps : List StepRow
  approvals : List ApprovalRow := []
  worktree : Option WorktreeRow := none
  link : Option LinkRow := none
  goal : Option GoalRow := none
  /-- There is a `result.accepted_by_lead` event. -/
  acceptedByLead : Bool := false
  releases : List Release := []

/-- The payload of `accept_result`, and what rows of others say: the task is in the goal's package, the branch is not
    the goal's to write, new effects are blocked, effects of the package are unknown. -/
structure AcceptRequest where
  scopeRevision : Nat
  planRevisionId : Nat
  specRevision : Option String
  resultCommit : Option String
  reportHash : Option String := none
  inPackage : Bool := true
  branchForbidden : Bool := false
  blocker : Option String := none
  unknownEffects : Bool := false

def StepRow.appliesResult (x : StepRow) : Bool := x.stepType = .approval && x.requestedAction = some .applyResult

def verifiedEnvelope (x : StepRow) (a : ApprovalRow) : Except String ResultEnvelope :=
  match x.actionEnvelope with
  | none => .error "approval action envelope is missing or has changed"
  | some e =>
    if e ≠ a.actionEnvelope then .error "approval action envelope is missing or has changed"
    else if e.stepId ≠ x.id then .error "approval action envelope targets another step"
    else .ok e

namespace ResultState

def step? (s : ResultState) (id : Nat) : Option StepRow := s.steps.find? (·.id = id)

def approval? (s : ResultState) (id : Nat) : Option ApprovalRow := s.approvals.find? (·.id = id)

def putStep (s : ResultState) (x : StepRow) : ResultState := { s with steps := Lib.put StepRow.key x s.steps }

def putApproval (s : ResultState) (a : ApprovalRow) : ResultState :=
  { s with approvals := Lib.put ApprovalRow.key a s.approvals }

def moveTo (s : ResultState) (x : StepRow) (target : StepStatus) : Except String ResultState :=
  if target ∈ stepTransitions x.status then .ok (s.putStep { x with status := target }) else .error "illegal transition"

def transitionTask (s : ResultState) (target : TaskStatus) : Except String ResultState :=
  if target ∈ taskTransitions s.task.status then .ok { s with task := { s.task with status := target } }
  else .error "illegal transition"

def transitionRun (s : ResultState) (target : RunStatus) : Except String ResultState :=
  if target ∈ runTransitions s.run.status then .ok { s with run := { s.run with status := target } }
  else .error "illegal transition"

def logRelease (s : ResultState) (r : Release) : ResultState := { s with releases := s.releases ++ [r] }

def release (s : ResultState) (x : StepRow) (a : ApprovalRow) (approver : Approver) (userId : Option Int) :
    Except String ResultState :=
  ((s.putApproval { a with status := .approved, decidingUserId := userId }).logRelease
    { stepId := x.id, approver := approver, approval := a, envelope := x.actionEnvelope, releasedAt := s.now }).moveTo x
      .queued

/-- Where the result goes: the last item of a package outside a goal goes to the package's target. -/
def applyTarget (s : ResultState) (w : WorktreeRow) : Except String (String × String) :=
  match s.link with
  | none => .ok (w.defaultBranch, w.expectedTargetHead)
  | some link =>
    match link.package with
    | none => .error "package integration state is missing"
    | some package =>
      match package.integrationBaseCommit with
      | none => .error "package integration state is missing"
      | some base =>
        if link.ordinal = link.itemCount ∧ package.managedGoalId = none then
          match package.integrationTargetBranch with
          | none => .error "package target branch is missing"
          | some branch => .ok (branch, base)
        else .ok (w.defaultBranch, w.expectedTargetHead)

/-- `_plan_approval_covers_intermediate_result`. -/
def planCovers (s : ResultState) : Bool :=
  match s.link with
  | none => false
  | some link => link.package.all (·.managedGoalId = none) && link.ordinal < link.itemCount

def resultEnvelope (s : ResultState) (x : StepRow) (w : WorktreeRow) (e : Evidence) (target : String × String) :
    ResultEnvelope where
  reportHash := if x.resultKind = some .report then some e.reportHash else none
  requestedAction := .applyResult
  stepId := x.id
  projectId := w.projectId
  repositoryIdentityHash := w.repositoryIdentityHash
  targetBranch := target.1
  expectedTargetHead := target.2
  baseCommit := w.baseCommit
  resultCommit := w.resultCommit
  diffHash := w.diffHash
  gates := e.gates
  changedFiles := e.changedFiles
  noChange := if e.noChange then some e.noChangeReason else none
  validation := e.validation
  review := e.review
  staticBuild := e.staticBuild
  artifacts := e.artifacts
  configurationRevision := s.run.configurationRevision
  policyRevision := s.run.policyRevision

def resultApprovalTtl : Nat := 7 * 24 * 3600

def requestedApproval (s : ResultState) (x : StepRow) (envelope : ResultEnvelope) : ApprovalRow where
  id := s.approvals.length
  stepId := x.id
  actionEnvelope := envelope
  expiresAt := s.now + resultApprovalTtl
  collected := s.steps

def request (s : ResultState) (x : StepRow) (envelope : ResultEnvelope) : ResultState :=
  { s.putStep { x with actionEnvelope := some envelope } with
    approvals := s.approvals ++ [s.requestedApproval x envelope] }

def ensureResultApproval (s : ResultState) (x : StepRow) : Except String ResultState :=
  if x.requestedAction ≠ some .applyResult then .ok s
  else if s.approvals.any (·.stepId = x.id) then .ok s
  else
    match s.worktree with
    | none => .error "result approval requires a retained measured worktree"
    | some w =>
      if w.resultCommit = none ∨ w.diffHash = none then .error "result approval requires a retained measured worktree"
      else do
        let e ← validationEvidence s.steps w
        let target ← s.applyTarget w
        let envelope := s.resultEnvelope x w e target
        if ¬s.run.fixedContract ∧ s.planCovers then
          (s.request x envelope).release { x with actionEnvelope := some envelope } (s.requestedApproval x envelope) .plan none
        else .ok (s.request x envelope)

def checkRevisions (s : ResultState) (e : ResultEnvelope) : Except String Unit :=
  if e.configurationRevision.isSome ∧ e.configurationRevision ≠ s.run.configurationRevision then
    .error "approval envelope configuration_revision drifted since request"
  else if e.policyRevision.isSome ∧ e.policyRevision ≠ s.run.policyRevision then
    .error "approval envelope policy_revision drifted since request"
  else .ok ()

/-- The guards of `decide_result`. -/
def decidable (s : ResultState) (approvalId : Nat) : Except String (StepRow × ApprovalRow) :=
  match s.approval? approvalId with
  | none => .error "result approval workflow is missing"
  | some a =>
    match s.step? a.stepId with
    | none => .error "result approval workflow is missing"
    | some x =>
      if a.status ≠ .pending then .error "result approval is missing or already decided"
      else if a.expiresAt ≤ s.now then .error "result approval has expired"
      else if x.status ≠ .waitingApproval then .error "result approval step is not waiting for a decision"
      else do
        let e ← verifiedEnvelope x a
        s.checkRevisions e
        .ok (x, a)

def refuse (s : ResultState) (x : StepRow) (a : ApprovalRow) (userId : Int) : Except String ResultState := do
  let s ← (s.putApproval { a with status := .rejected, decidingUserId := some userId }).moveTo x .cancelled
  let s ← s.transitionRun .cancelled
  s.transitionTask .cancelled

/-- `decide_result`; a redo and a rejection differ in their traces only. -/
def decideResult (s : ResultState) (approvalId : Nat) (decision : Decision) (userId : Int) : Except String ResultState := do
  let (x, a) ← s.decidable approvalId
  match decision with
  | .approve =>
    let s ← s.release x a (.owner userId) (some userId)
    s.transitionTask .executing
  | .redo | .reject => s.refuse x a userId

def executionBinding (s : ResultState) : Except String (Option Binding) :=
  match s.link with
  | none => .ok none
  | some link =>
    match link.package.bind (·.managedGoalId) with
    | none => .ok none
    | some _ =>
      match s.goal with
      | none => .error "managed_goal_missing"
      | some goal => .ok (some ⟨goal.id, goal.scopeRevision, link.planRevisionId, link.planRevisionItemId, s.task.specRevision⟩)

/-- The run was materialized for the revisions that still count, and the request names them. -/
def checkBinding (s : ResultState) (r : AcceptRequest) : Except String Unit := do
  let expected ← s.executionBinding
  match s.run.managedTask, s.link.bind (·.package), s.goal with
  | some binding, some package, some goal =>
    if some binding ≠ expected ∨ package.status ≠ .running ∨ package.runningRevisionId ≠ some binding.planRevisionId ∨
        package.headRevisionId ≠ package.runningRevisionId ∨ package.approvedRevisionId ≠ package.runningRevisionId ∨
        r.scopeRevision ≠ goal.scopeRevision ∨ r.planRevisionId ≠ binding.planRevisionId ∨
        r.specRevision ≠ s.task.specRevision ∨ s.task.specRevision ≠ some s.task.draftDigest then
      .error "result_revision_stale"
    else .ok ()
  | _, _, _ => .error "result_revision_stale"

def StepRow.isBusy (x : StepRow) : Bool :=
  x.unknownEffects ||
    match x.status with
    | .running | .leased | .queued | .blocked | .awaitingUser => true
    | _ => false

def waitingStep (s : ResultState) : Except String StepRow :=
  match s.steps.find? fun x => StepRow.appliesResult x && x.status = .waitingApproval with
  | none => .error "validation_or_repair_pending"
  | some x => if s.steps.any StepRow.isBusy then .error "validation_or_repair_pending" else .ok x

def isCurrent (s : ResultState) (r : AcceptRequest) (w : WorktreeRow) (envelope : ResultEnvelope) (e : Evidence) : Bool :=
  r.resultCommit = w.resultCommit && (envelope.reportHash = none || r.reportHash = e.reportHash) &&
    envelope.resultCommit = w.resultCommit && envelope.diffHash = w.diffHash && envelope.baseCommit = w.baseCommit &&
    some envelope.targetBranch = s.goal.bind (·.integrationBranch) &&
    envelope.configurationRevision = s.run.configurationRevision && envelope.policyRevision = s.run.policyRevision &&
    envelope.validation = e.validation && envelope.review = e.review && envelope.staticBuild = e.staticBuild &&
    envelope.artifacts = e.artifacts

/-- The approval of the waiting step, with evidence that is collected again. -/
def acceptable (s : ResultState) (r : AcceptRequest) : Except String (StepRow × ApprovalRow) := do
  let x ← s.waitingStep
  match s.approvals.find? (·.stepId = x.id), s.worktree with
  | some a, some w =>
    if a.status ≠ .pending ∨ a.expiresAt ≤ s.now then .error "result_approval_stale"
    else
      match verifiedEnvelope x a, validationEvidence s.steps w with
      | .ok envelope, .ok e => if s.isCurrent r w envelope e then .ok (x, a) else .error "result_commit_stale"
      | _, _ => .error "result_evidence_stale"
  | _, _ => .error "result_approval_stale"

def acceptResult (s : ResultState) (r : AcceptRequest) : Except String ResultState :=
  if ¬r.inPackage then .error "task_out_of_scope"
  else if s.acceptedByLead then .ok s
  else if s.task.status ≠ .waitingApproval ∨ s.run.status ≠ .running then .error "result_not_ready"
  else do
    s.checkBinding r
    if r.branchForbidden then .error "integration_branch_forbidden"
    else if r.blocker.isSome ∨ r.unknownEffects then .error (r.blocker.getD "unknown_effects_open")
    else do
      let (x, a) ← s.acceptable r
      let s ← s.release x a .lead none
      let s ← s.transitionTask .executing
      .ok { s with acceptedByLead := true }

def isReady (s : ResultState) (x : StepRow) : Bool :=
  x.status = .pending &&
    x.predecessorOrdinals.all fun o => s.steps.any fun y => y.ordinal = o && y.status = .completed

/-- `activate_ready_steps` for the approval step of a result; the other steps move as others move them. -/
def activate (s : ResultState) (id : Nat) : Except String ResultState :=
  match s.step? id with
  | none => .error "no step"
  | some x =>
    if ¬x.appliesResult ∨ ¬s.isReady x ∨ s.run.status ≠ .running then .ok s
    else do
      let s ← s.moveTo x .waitingApproval
      s.ensureResultApproval { x with status := .waitingApproval }

def expirePendingApprovals (s : ResultState) : ResultState :=
  { s with approvals := s.approvals.map fun a => if a.status = .pending then { a with expiresAt := s.now } else a }

/-- Workers, recoveries and controls move a step by the table, or reopen a failed review; the step of a result is left
    to its activation and to the decisions until it is queued, but for a block, a failure or a cancellation. -/
def moveStep (s : ResultState) (id : Nat) (target : StepStatus) (result : Option StepResult) : Except String ResultState :=
  match s.step? id with
  | none => .error "no step"
  | some x =>
    if x.status = .failed ∧ x.stepType = .review ∧ target = .queued then .ok (s.putStep { x with status := .queued })
    else if target ∉ stepTransitions x.status then .error "illegal transition"
    else if x.appliesResult ∧ (x.status = .pending ∨ x.status = .waitingApproval) ∧
        (target = .queued ∨ target = .waitingApproval ∨ target = .awaitingUser) then
      .error "decided elsewhere"
    else .ok (s.putStep { x with status := target, result := result.or x.result })

def isAddedKind : StepType → Bool
  | .executeCode | .executeAgent | .validate | .ensureCapabilities | .ensureDependencies => true
  | _ => false

def addStep (s : ResultState) (x : StepRow) : Except String ResultState :=
  if (s.step? x.id).isSome ∨ ¬isAddedKind x.stepType ∨ (x.status ≠ .pending ∧ x.status ≠ .queued) then .error "no new step"
  else .ok { s with steps := s.steps ++ [x] }

end ResultState

inductive ResultOp where
  | activate (id : Nat)
  | decideResult (approvalId : Nat) (decision : Decision) (userId : Int)
  | acceptResult (r : AcceptRequest)
  | expirePendingApprovals
  | measure (w : Option WorktreeRow)
  | replan (link : Option LinkRow) (goal : Option GoalRow)
  | moveStep (id : Nat) (target : StepStatus) (result : Option StepResult)
  | addStep (x : StepRow)
  /-- Everything else that writes the task or the run, a change of the configuration included. -/
  | project (task : TaskRow) (run : RunRow)
  | wait

namespace ResultState

def perform (s : ResultState) : ResultOp → Except String ResultState
  | .activate id => s.activate id
  | .decideResult approvalId decision userId => s.decideResult approvalId decision userId
  | .acceptResult r => s.acceptResult r
  | .expirePendingApprovals => .ok s.expirePendingApprovals
  | .measure w => .ok { s with worktree := w }
  | .replan link goal => .ok { s with link := link, goal := goal }
  | .moveStep id target result => s.moveStep id target result
  | .addStep x => s.addStep x
  | .project task run => .ok { s with task := task, run := run }
  | .wait => .ok { s with now := s.now + 1 }

abbrev Reaches (s u : ResultState) : Prop := Lib.Reach perform (fun _ _ => True) s u

end ResultState

end Vuzol.Workflow.Results
