import Vuzol.Discussion.Packages
import Vuzol.Workflow.Service

/-! `WorkPackageService` (`discussion/service.py`): the commands that write, approve and close a plan, and the
    owner's queue controls. -/

namespace Vuzol.Discussion

open Vuzol.Lib

/-- One round of `resolve_item_identities`: an explicit identity or a package-local slug is reused, anything
    else becomes a new identity. -/
def resolveItemIdentity (drafts : List WorkItemDraft) (item : PlanItemDraft) :
    Except Error (Nat × List WorkItemDraft) :=
  match item.itemId with
  | some id =>
    match drafts.find? (·.id == id) with
    | none => .error (.valueError "item identity does not belong to work package")
    | some row =>
      if item.localId.isSome ∧ row.localId ≠ item.localId then .error (.domain .revisionConflict)
      else .ok (row.id, drafts)
  | none =>
    match item.localId.bind fun l => drafts.find? (·.localId == some l) with
    | some row => .ok (row.id, drafts)
    | none => .ok (drafts.length, drafts ++ [{ id := drafts.length, localId := item.localId }])

/-- `resolve_item_identities`: the identities in the order of the items, and the identities of the package. -/
def resolveItemIdentities : List WorkItemDraft → List PlanItemDraft → Except Error (List Nat × List WorkItemDraft)
  | drafts, [] => .ok ([], drafts)
  | drafts, item :: items => do
    let (id, drafts) ← resolveItemIdentity drafts item
    let (ids, drafts) ← resolveItemIdentities drafts items
    .ok (id :: ids, drafts)

def numbered (items : List PlanItemDraft) (ids : List Nat) : List (Nat × PlanItemDraft × Nat) :=
  (List.range' 1 items.length).zip (items.zip ids)

def canonicalPlanBody (plan : PlanDraft) (ids : List Nat) : PlanBody where
  title := plan.title
  items := (numbered plan.items ids).map fun (ordinal, item, id) =>
    { itemId := id, localId := item.localId, ordinal := ordinal, contract := item.contract }
  environmentDelta := plan.environmentDelta

def revisionItems (plan : PlanDraft) (ids : List Nat) : List PlanRevisionItem :=
  (numbered plan.items ids).map fun (ordinal, item, id) =>
    { itemId := id, ordinal := ordinal, contract := item.contract }

def revisionBody (s : State) (plan : PlanDraft) (ids : List Nat) (parent : Option PlanRevision)
    (sourceRepoCommit : Option String) : PlanBody :=
  let body := canonicalPlanBody plan ids
  match s.goal with
  | none => body
  | some goal => { body with
      scopeRevision := some goal.scopeRevision
      sourceRepoCommit :=
        sourceRepoCommit <|> s.package.integrationHeadCommit <|> parent.bind (·.body.sourceRepoCommit) }

/-- The row of a new revision. `digest` is `canonical_plan_hash`. -/
def newRevision (digest : PlanBody → Digest) (s : State) (plan : PlanDraft) (ids : List Nat)
    (parent : Option PlanRevision) (sourceRepoCommit : Option String) : PlanRevision :=
  let body := revisionBody s plan ids parent sourceRepoCommit
  { id := s.revisions.length
    number := parent.elim 1 (·.number + 1)
    parentId := parent.map (·.id)
    contentHash := digest body
    body := body
    items := revisionItems plan ids }

def addRevision (s : State) (drafts : List WorkItemDraft) (revision : PlanRevision) : State :=
  { s with
    drafts := drafts
    revisions := s.revisions ++ [revision]
    package := { s.package with
      title := revision.body.title
      headRevisionId := some revision.id
      intentRevision := some revision.contentHash } }

def createRevision (digest : PlanBody → Digest) (s : State) (plan : PlanDraft) (parent : Option PlanRevision)
    (sourceRepoCommit : Option String) : Except Error State := do
  let (ids, drafts) ← resolveItemIdentities s.drafts plan.items
  -- `uq_plan_revision_item_identity`.
  if ids.Nodup then .ok (addRevision s drafts (newRevision digest s plan ids parent sourceRepoCommit))
  else .error .integrityError

/-- What `create_draft` reads of the topic and of its other packages. -/
structure Topic where
  projectMatches : Bool := true
  activePackage : Bool := false
  duplicateTerminalPlan : Bool := false

def ManagedGoal.forNewPackage (goal : ManagedGoal) : ManagedGoal :=
  { goal with parked := goal.parked.map fun p => { p with package := none } }

def createDraft (digest : PlanBody → Digest) (topic : Topic) (goal : Option ManagedGoal)
    (delegations : List GoalDelegation) (plan : PlanDraft) (sourceRepoCommit : Option String) :
    Except Error State :=
  if !topic.projectMatches then .error (.domain .projectMismatch)
  else if topic.activePackage then .error (.domain .activePackageExists)
  else if topic.duplicateTerminalPlan then .error (.domain .duplicateTerminalPlan)
  else
    let s : State := {
      package := {}
      goal := goal.map ManagedGoal.forNewPackage
      delegations := delegations
      activeInTopic := true }
    createRevision digest s plan none sourceRepoCommit

def expirePending (now : Nat) (run : Run) : Run :=
  { run with approvals := run.approvals.map fun a =>
      if a.status = .pending ∧ run.steps.any (·.id == a.stepId) then { a with expiresAt := now } else a }

/-- `_expire_pending_approvals`: those of the tasks that are linked to the package. -/
def expirePendingApprovals (s : State) (now : Nat) : State :=
  { s with runs := s.runs.map fun run =>
      if s.links.any (·.taskId == run.taskId) then expirePending now run else run }

def isHistory (s : State) (cursor : Nat) (item : PlanRevisionItem) : Bool :=
  item.ordinal < cursor || s.links.any (·.workItemDraftId == item.itemId)

def keepsItem (plan : PlanDraft) (ids : List Nat) (item : PlanRevisionItem) : Bool :=
  match (plan.items.zip ids)[item.ordinal - 1]? with
  | none => false
  | some (draft, id) => id == item.itemId && draft.contract = item.contract

/-- `_require_future_only_revision`. The identities that it resolves stay. -/
def requireFutureOnlyRevision (s : State) (cursor : Nat) (previous : PlanRevision) (plan : PlanDraft) :
    Except Error State := do
  let (ids, drafts) ← resolveItemIdentities s.drafts plan.items
  if (previous.items.filter (isHistory s cursor)).all (keepsItem plan ids) then .ok { s with drafts := drafts }
  else .error (.domain .revisionConflict)

def hasUnfinishedTask (s : State) : Bool :=
  s.tasks.any fun t => (s.linkOf t.id).isSome && !isUserTerminal t.status

structure ReviseRequest where
  generation : Nat
  plan : PlanDraft
  expectedIntentRevision : Option Digest := none
  allowStopped : Bool := false
  sourceRepoCommit : Option String := none
  now : Nat := 0

def requireIntent (s : State) (expected : Option Digest) : Except Error Unit :=
  match expected, s.package.intentRevision with
  | some e, some current => if current ≠ e then .error (.domain .staleIntentRevision) else .ok ()
  | _, _ => .ok ()

def requireRevisable (status : WorkPackageStatus) (allowStopped : Bool) : Except Error Unit :=
  if allowStopped ∧ status = .stopped then .ok () else requireMutable status

/-- The revision that a new one replaces. -/
def revisable (s : State) (r : ReviseRequest) : Except Error PlanRevision := do
  requireRevisable s.package.status r.allowStopped
  requireGeneration s.package.version r.generation
  requireIntent s r.expectedIntentRevision
  match s.package.headRevisionId with
  | none => .error (.domain .revisionNotFound)
  | some id =>
    match s.revision? id with
    | none => .error .lookupError
    | some previous => .ok previous

def keepHistory (s : State) (previous : PlanRevision) (plan : PlanDraft) : Except Error State :=
  match s.package.cursorOrdinal with
  | none => .ok s
  | some cursor => requireFutureOnlyRevision s cursor previous plan

def requireManagedChange (s : State) (previous : PlanRevision) (plan : PlanDraft) : Except Error State :=
  if !s.isManaged then .ok s
  else if s.package.status = .running then .error (.domain .dispatchMustStop)
  else do
    let s ← keepHistory s previous plan
    if hasUnfinishedTask s then .error (.domain .currentTaskUnfinished) else .ok s

def supersede (s : State) (previous : PlanRevision) : State :=
  { s.putRevision { previous with state := .superseded } with
    package := { s.package with status := .draft, approvedRevisionId := none, version := s.package.version + 1 } }

def reviseDraft (digest : PlanBody → Digest) (s : State) (r : ReviseRequest) : Except Error State := do
  let previous ← revisable s r
  let s ← requireManagedChange s previous r.plan
  let s ← createRevision digest (supersede s previous) r.plan (some { previous with state := .superseded })
    r.sourceRepoCommit
  .ok (expirePendingApprovals s r.now)

/-- `_plan_from_revision_body`: the constructor of a plan takes the stored items as they are, since they
    come from a plan. -/
def planFromRevisionBody (body : PlanBody) : Except Error PlanDraft :=
  let items : List PlanItemDraft := body.items.map fun i =>
    { itemId := some i.itemId, localId := i.localId, contract := i.contract }
  if h : items ≠ [] ∧ (items.filterMap (·.localId)).Nodup ∧ (items.filterMap (·.itemId)).Nodup ∧
      dependenciesPrecede [] items = true then
    .ok { title := body.title, items := items, environmentDelta := body.environmentDelta, nonempty := h.1,
          localIds := h.2.1, itemIds := h.2.2.1, ordered := h.2.2.2 }
  else .error (.domain .invalidPlan)

def restartPlan (digest : PlanBody → Digest) (s : State) (fence : Fence) (now : Nat) : Except Error State := do
  requireGeneration s.package.version fence.generation
  controlTransitionTarget s.package.status .restartPackage
  let revision ← fencedRevision s fence
  if s.package.headRevisionId ≠ some revision.id ∨ s.package.approvedRevisionId ≠ some revision.id then
    .error (.domain .approvalBindingMismatch)
  else
    let plan ← planFromRevisionBody revision.body
    let s ← reviseDraft digest s { generation := fence.generation, plan := plan, allowStopped := true, now := now }
    .ok { s with package := { s.package with pauseReason := none, lastFailureTaskId := none } }

def requireManagedRevision (digest : PlanBody → Digest) (goal : ManagedGoal) (revision : PlanRevision) :
    Except Error Unit :=
  if !goal.currentPackage || goal.isFinished || goal.pendingAmendment ||
      revision.body.scopeRevision.getD goal.scopeRevision != goal.scopeRevision ||
      digest revision.body != revision.contentHash then .error (.domain .staleRevision)
  else .ok ()

def GoalDelegation.isLive (d : GoalDelegation) (now : Nat) : Bool :=
  !d.revoked && d.currentPolicy && !delegationIsExpired d.expiresAt now

structure ApproveRequest where
  fence : Fence
  userId : Int
  contentHash : Option Digest := none
  scopeRevision : Option Nat := none
  /-- `apply_approved_environment_delta` takes the delta of the plan. -/
  environmentApplies : Bool := true
  now : Nat := 0

def mandateIsLive (s : State) (goal : ManagedGoal) (now : Nat) : Bool :=
  !goal.mandateRequired || ((goal.delegationId.bind s.delegation?).any fun d => d.isLive now)

/-- The owner of a managed goal approves the revision they have seen; an earlier answer is superseded. -/
def authorizeApproval (digest : PlanBody → Digest) (s : State) (r : ApproveRequest) (revision : PlanRevision) :
    Except Error State :=
  match s.goal with
  | none => .ok s
  | some goal => do
    requireManagedRevision digest goal revision
    if r.userId ≠ goal.ownerUserId then .error (.domain .controlUnauthorized)
    else if !mandateIsLive s goal r.now then .error (.domain .delegationInactive)
    else if r.contentHash ≠ some revision.contentHash ∨ r.scopeRevision ≠ some goal.scopeRevision then
      .error (.domain .staleRevision)
    else .ok { s with goal := some { goal with ownerAnswer := goal.ownerAnswer.map fun _ => true } }

def ManagedGoal.planApproved (goal : ManagedGoal) : ManagedGoal :=
  let answered := goal.lifecycle = .draft ∨ goal.lifecycle = .waiting
  { goal with
    ownerMandateScope := if goal.mandateRequired then some goal.scopeRevision else goal.ownerMandateScope
    lifecycle := if answered then .active else goal.lifecycle
    waitingReason := if answered then none else goal.waitingReason
    version := goal.version + 1
    fenceEpoch := goal.fenceEpoch + 1 }

/-- `grant_owner_mandate` widens the delegation of a goal that requires a mandate. -/
def grantOwnerMandate (goal : ManagedGoal) (d : GoalDelegation) : GoalDelegation :=
  if goal.mandateRequired ∧ goal.delegationId = some d.id then { d with startsWork := true } else d

def settleGoal (s : State) : State :=
  match s.goal with
  | none => { s with package := { s.package with integrationHeadCommit := none } }
  | some goal => { s with
      delegations := s.delegations.map (grantOwnerMandate goal)
      goal := some goal.planApproved }

def bindApproval (s : State) (revision : PlanRevision) (now : Nat) : State :=
  expirePendingApprovals { s.putRevision { revision with state := .approved } with
    package := { s.package with
      status := .approved
      approvedRevisionId := some revision.id
      version := s.package.version + 1 } } now

def approve (digest : PlanBody → Digest) (s : State) (r : ApproveRequest) : Except Error State := do
  requireGeneration s.package.version r.fence.generation
  let revision ← fencedRevision s r.fence
  let s ← authorizeApproval digest s r revision
  if s.package.status = .approved ∧ s.package.approvedRevisionId = some revision.id then .ok s
  else if s.package.status ≠ .draft then .error (.domain .invalidTransition)
  else if s.package.headRevisionId ≠ some revision.id ∨ revision.state ≠ .draft then .error (.domain .staleRevision)
  else if !r.environmentApplies then .error (.domain .environmentRefused)
  else .ok (settleGoal (bindApproval s { revision with approvedByUserId := some r.userId } r.now))

structure BindRequest where
  fence : Fence
  delegationId : Nat
  /-- `revision_needs_owner`: the plan goes beyond what the owner has approved. -/
  needsOwner : Bool := false
  now : Nat := 0

def delegatingGoal (s : State) (r : BindRequest) : Except Error ManagedGoal :=
  match s.goal with
  | none => .error (.domain .delegationInactive)
  | some goal =>
    if !goal.hasOwnerMandate then .error (.domain .ownerMandateRequired)
    else if goal.delegationId = some r.delegationId ∧
        (s.delegation? r.delegationId).any (fun d => d.isLive r.now && d.startsWork) then .ok goal
    else .error (.domain .delegationInactive)

def bindDelegatedApproval (digest : PlanBody → Digest) (s : State) (r : BindRequest) : Except Error State := do
  requireGeneration s.package.version r.fence.generation
  if s.package.status ≠ .draft then .error (.domain .invalidTransition)
  else
    let revision ← fencedRevision s r.fence
    if s.package.headRevisionId ≠ some revision.id ∨ revision.state ≠ .draft then .error (.domain .staleRevision)
    else
      let goal ← delegatingGoal s r
      requireManagedRevision digest goal revision
      if r.needsOwner then .error (.domain .ownerPlanApprovalRequired)
      else
        .ok (bindApproval s
          { revision with approvedByUserId := none, approvedByDelegationId := some r.delegationId } r.now)

def ManagedGoal.planDiscarded (goal : ManagedGoal) : ManagedGoal :=
  if goal.isFinished then goal
  else
    let waited := goal.lifecycle = .waiting ∧ goal.waitingReason = some "plan_approval"
    { goal with
      lifecycle := if waited then .active else goal.lifecycle
      waitingReason := if waited then none else goal.waitingReason
      version := goal.version + 1
      fenceEpoch := goal.fenceEpoch + 1 }

def closePackage (s : State) (revision : PlanRevision) : State :=
  { s.putRevision { revision with state := .discarded } with
    package := { s.package with
      status := .discarded
      approvedRevisionId := none
      version := s.package.version + 1 }
    activeInTopic := false }

def discard (s : State) (fence : Fence) : Except Error State := do
  requireGeneration s.package.version fence.generation
  controlTransitionTarget s.package.status .discard
  let revision ← fencedRevision s fence
  if s.package.headRevisionId ≠ some revision.id then .error (.domain .staleRevision)
  else
    let s := closePackage s revision
    .ok { s with goal := s.goal.map ManagedGoal.planDiscarded }

def finishPackage (s : State) (fence : Fence) (c : Cancellation) : Except Error State := do
  requireGeneration s.package.version fence.generation
  controlTransitionTarget s.package.status .finishPackage
  let revision ← fencedRevision s fence
  if s.package.headRevisionId ≠ some revision.id then .error (.domain .staleRevision)
  else
    let s ← cancelLive s s.currentTask c
    let s := closePackage s revision
    .ok { s with package := { s.package with pauseReason := none } }

def queueControlPackage (s : State) (fence : Fence) : Except Error PlanRevision := do
  requireMutable s.package.status
  requireGeneration s.package.version fence.generation
  let revision ← fencedRevision s fence
  if s.package.headRevisionId ≠ some revision.id then .error (.domain .staleRevision) else .ok revision

def stopPackage (s : State) (fence : Fence) (c : Cancellation) : Except Error State := do
  let _ ← queueControlPackage s fence
  controlTransitionTarget s.package.status .stopPackage
  let s ← cancelLive s s.currentTask c
  .ok { s with package := { s.package with
    status := .stopped, pauseReason := none, version := s.package.version + 1 } }

def requireFailurePause (s : State) : Except Error Unit :=
  match s.package.pauseReason with
  | some .itemFailed | some .itemBlocked => .ok ()
  | _ => .error (.domain .failureContextMissing)

def lastStep? (s : State) (taskId : Nat) (status : Workflow.StepStatus) : Option (Run × Workflow.Step) :=
  let found := (s.runs.filter (·.taskId == taskId)).flatMap fun run =>
    (run.steps.filter (·.status = status)).map fun x => (run, x)
  found.foldl (fun best x => if best.all fun b => b.2.ordinal ≤ x.2.ordinal then some x else best) none

def queueStep (run : Run) (x : Workflow.Step) : Run :=
  { run with steps := put Workflow.Step.key { Workflow.grantAttempt x with
      status := .queued, failureCategory := none, failureSummary := none } run.steps }

/-- `retry_blocked_step` on the step of a run: the step is queued, and its task goes on. -/
def retryBlockedStep (s : State) (run : Run) (x : Workflow.Step) : Except Error State :=
  if !Workflow.blockedStepIsRetryable x then .error (.valueError "blocked step is not safely retryable")
  else
    let s := { s with runs := put Run.key (queueStep run x) s.runs }
    match s.task? run.taskId with
    | none => .error .lookupError
    | some t =>
      if t.status = .blocked ∨ t.status = .quotaExhausted then transitionTask s t .retrying else .ok s

def ManagedGoal.retryAnswered (goal : ManagedGoal) : ManagedGoal :=
  if goal.lifecycle = .waiting then
    { goal with
      lifecycle := if goal.hasOwnerMandate then .active else .draft
      waitingReason := none
      version := goal.version + 1
      fenceEpoch := goal.fenceEpoch + 1 }
  else goal

/-- The refusals of the retry become `item_not_safely_retryable`. -/
def asNotRetryable {α : Type} : Except Error α → Except Error α
  | .error (.valueError _) => .error (.domain .itemNotSafelyRetryable)
  | r => r

def retryItem (s : State) (fence : Fence) : Except Error State := do
  let _ ← queueControlPackage s fence
  controlTransitionTarget s.package.status .retryItem
  requireFailurePause s
  if s.package.cursorOrdinal = none then .error (.domain .failureContextMissing)
  else if s.package.pauseReason ≠ some .itemBlocked then .error (.domain .itemNotSafelyRetryable)
  else match s.package.lastFailureTaskId.bind fun id => lastStep? s id .blocked with
    | none => .error (.domain .itemNotSafelyRetryable)
    | some (run, x) =>
      let s ← asNotRetryable (retryBlockedStep s run x)
      .ok { s with
        package := { s.package with status := .running, pauseReason := none, version := s.package.version + 1 }
        goal := s.goal.map ManagedGoal.retryAnswered }

/-- `skip_item`: its event names no item identity. -/
def skipItem (s : State) (fence : Fence) : Except Error State := do
  let revision ← queueControlPackage s fence
  controlTransitionTarget s.package.status .skipItem
  requireFailurePause s
  match s.package.cursorOrdinal with
  | none => .error (.domain .failureContextMissing)
  | some ordinal =>
    .ok { s with
      package := { s.package with
        cursorOrdinal := some (ordinal + 1)
        status := .running
        pauseReason := none
        lastFailureTaskId := none
        version := s.package.version + 1 }
      events := s.events ++ [.itemSkipped revision.id ordinal none] }

structure PauseRequest where
  fence : Fence
  ordinal : Nat
  blocked : Bool
  failureTaskId : Option Nat := none

def pauseForItemOutcome (s : State) (r : PauseRequest) : Except Error State := do
  requireGeneration s.package.version r.fence.generation
  if s.package.status ≠ .running then .error (.domain .invalidTransition)
  else
    let revision ← fencedRevision s r.fence
    if s.package.runningRevisionId ≠ some revision.id ∨ s.package.headRevisionId ≠ some revision.id then
      .error (.domain .staleRevision)
    else if (revision.itemAt r.ordinal).isNone then .error (.domain .staleRevision)
    else if s.package.cursorOrdinal.any (· ≠ r.ordinal) then .error (.domain .staleCursor)
    else .ok { s with package := { s.package with
      status := .paused
      pauseReason := some (if r.blocked then .itemBlocked else .itemFailed)
      cursorOrdinal := some r.ordinal
      lastFailureTaskId := r.failureTaskId
      version := s.package.version + 1 } }

end Vuzol.Discussion
