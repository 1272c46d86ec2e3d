import Vuzol.Lib.Machine
import Vuzol.Workflow.RetryPolicy
import Vuzol.Workflow.Transitions

/-! The rows of a work package (`storage/models.py`) and its pure rules (`discussion/domain.py`): one package
    with the revisions of its plan, the stable identities of the plan's items, the tasks that were
    materialized from them, and the managed goal that the package may belong to. -/

namespace Vuzol.Discussion

open Vuzol.Lib
open Vuzol.Workflow (TaskStatus taskTransitions)

inductive WorkPackageStatus where
  | draft | approved | running | paused | completed | stopped | discarded
  deriving DecidableEq

inductive PlanRevisionState where
  | draft | approved | superseded | discarded
  deriving DecidableEq

inductive WorkPackagePauseReason where
  | user | itemFailed | itemBlocked | replanRequired | policy
  deriving DecidableEq

inductive RiskLevel where
  | low | medium | high | privileged
  deriving DecidableEq

inductive EstimatedComplexity where
  | small | medium | large
  deriving DecidableEq

inductive PackageControlAction where
  | approve | start | discard | retryItem | skipItem | stopPackage | finishPackage | restartPackage

/-- The codes of `DomainError`. -/
inductive Code where
  | invalidPlan | activePackageExists | projectMismatch | duplicateTerminalPlan
  | terminalPackage | staleGeneration | invalidTransition | staleIntentRevision | revisionNotFound
  | dispatchMustStop | currentTaskUnfinished | revisionConflict | staleRevision | staleCursor
  | approvalBindingMismatch | controlUnauthorized | delegationInactive | ownerMandateRequired
  | ownerPlanApprovalRequired | environmentRefused | leadDispatchRequired | dependenciesUnfinished
  | materializedTaskMissing | taskNotTerminal | nothingToSkip | runningRevisionMissing
  | itemNotSafelyRetryable | leadRevisionRequired | failureContextMissing | approvalProvenanceMissing
  | cursorMissing | goalNotParkable | goalNotParked | goalLiveBlocksReturn
  deriving DecidableEq

/-- What a transaction raises. A `DomainError` is a rejection; the others come from the repository, from the
    workflow controls and from the constraints of the tables. -/
inductive Error where
  | domain (code : Code)
  | lookupError
  | valueError (message : String)
  | illegalTransition (previous target : TaskStatus)
  | integrityError
  deriving DecidableEq

def Error.isDomain : Error → Bool
  | .domain _ => true
  | _ => false

/-- `ITEM_CONTRACT_FIELDS`: the fields of an item that decide whether it is still the same work. Texts are
    the stripped ones, and the SHA-256 of a contract is taken to be collision free, so that the contract
    stands for `item_contract_hash_of`. -/
structure ItemContract where
  summary : String
  goal : String := ""
  expectedOutcome : String := ""
  completionCriteria : List String := []
  allowedScope : String := ""
  outOfScope : List String := []
  dependencies : List String := []
  trustedChecks : List String := []
  suggestedRisk : RiskLevel := .low
  needsApproval : Bool := false
  estimatedComplexity : EstimatedComplexity := .medium
  deriving DecidableEq

structure PlanItemDraft where
  itemId : Option Nat := none
  localId : Option String := none
  contract : ItemContract

def dependenciesPrecede : List String → List PlanItemDraft → Bool
  | _, [] => true
  | seen, item :: items =>
    item.contract.dependencies.all seen.contains && dependenciesPrecede (item.localId.toList ++ seen) items

/-- A plan as its constructor leaves it: `PlanDraft.__post_init__` refuses an empty plan, repeated
    identities and unknown or cyclic dependencies, and sorts the items so that dependencies come first. -/
structure PlanDraft where
  title : String
  items : List PlanItemDraft
  environmentDelta : String := ""
  nonempty : items ≠ []
  localIds : (items.filterMap (·.localId)).Nodup
  itemIds : (items.filterMap (·.itemId)).Nodup
  ordered : dependenciesPrecede [] items = true

/-- One entry of `items` in a stored plan body. -/
structure BodyItem where
  itemId : Nat
  localId : Option String
  ordinal : Nat
  contract : ItemContract

/-- `canonical_plan_body`, with the keys that a managed package adds. -/
structure PlanBody where
  title : String
  items : List BodyItem
  environmentDelta : String := ""
  scopeRevision : Option Nat := none
  sourceRepoCommit : Option String := none

structure Digest where
  h8 : String
  rest : String := ""
  deriving DecidableEq

structure PlanRevisionItem where
  itemId : Nat
  ordinal : Nat
  contract : ItemContract

def samePlanItem (left right : PlanRevisionItem) : Bool := left.contract = right.contract

structure PlanRevision where
  id : Nat
  number : Nat
  parentId : Option Nat := none
  state : PlanRevisionState := .draft
  contentHash : Digest
  body : PlanBody
  items : List PlanRevisionItem
  approvedByUserId : Option Int := none
  approvedByDelegationId : Option Nat := none

abbrev PlanRevision.key (r : PlanRevision) : Nat := r.id

def PlanRevision.itemAt (r : PlanRevision) (ordinal : Nat) : Option PlanRevisionItem :=
  r.items.find? (·.ordinal == ordinal)

structure WorkItemDraft where
  id : Nat
  localId : Option String

/-- A link with its `plan_revision_item_id`, which is the item of the revision at the ordinal. -/
structure MaterializationLink where
  planRevisionId : Nat
  workItemDraftId : Nat
  taskId : Nat
  ordinal : Nat
  deriving DecidableEq

/-- `uq_materialization_ordinal`, within one package. -/
abbrev MaterializationLink.key (l : MaterializationLink) : Nat × Nat := (l.planRevisionId, l.ordinal)

structure Task where
  id : Nat
  status : TaskStatus
  version : Nat := 1

abbrev Task.key (t : Task) : Nat := t.id

/-- A run of a task, with the steps of the run and the approvals of these steps. -/
structure Run where
  id : Nat
  taskId : Nat
  /-- The execution contract of the run is `execution-contract.v2`. -/
  fixedContract : Bool := false
  steps : List Workflow.Step := []
  approvals : List Workflow.Approval := []

abbrev Run.key (r : Run) : Nat := r.id

inductive WorkPackageEvent where
  | itemSkipped (revisionId ordinal : Nat) (workItemDraftId : Option Nat)
  | itemMaterialized (revisionId ordinal taskId : Nat)
  | itemRetried (ordinal previousTaskId taskId : Nat)

/-- A row of the `work_package_sequence` outbox, under the key `work-package:terminal:task:version`. -/
structure SequenceItem where
  taskId : Nat
  version : Nat
  consumed : Bool := false

structure WorkPackage where
  status : WorkPackageStatus := .draft
  title : String := ""
  version : Nat := 1
  headRevisionId : Option Nat := none
  approvedRevisionId : Option Nat := none
  runningRevisionId : Option Nat := none
  cursorOrdinal : Option Nat := none
  pauseReason : Option WorkPackagePauseReason := none
  lastFailureTaskId : Option Nat := none
  startGeneration : Option Nat := none
  intentRevision : Option Digest := none
  integrationHeadCommit : Option String := none

inductive Lifecycle where
  | draft | active | waiting | paused | parked | completed | cancelled
  deriving DecidableEq

structure GoalDelegation where
  id : Nat
  ownerUserId : Int
  revoked : Bool := false
  /-- `policy_revision` is the current `POLICY_REVISION`. -/
  currentPolicy : Bool := true
  expiresAt : Option Nat := none
  /-- `allowed_actions` has `start_task` or `start_batch`. -/
  startsWork : Bool := true

abbrev GoalDelegation.key (d : GoalDelegation) : Nat := d.id

def delegationIsExpired (expiresAt : Option Nat) (now : Nat) : Bool := expiresAt.any (· ≤ now)

/-- `constraints["parked"]`. -/
structure Parked where
  lifecycle : Lifecycle
  waitingReason : Option String
  /-- The status of the package when it was live, and whether its topic showed it. -/
  package : Option (WorkPackageStatus × Bool)
  interruptedTaskId : Option Nat

/-- The columns of a managed goal, and the keys of its `constraints`, that work packages read or write. -/
structure ManagedGoal where
  lifecycle : Lifecycle := .active
  waitingReason : Option String := none
  version : Nat := 1
  fenceEpoch : Nat := 0
  scopeRevision : Nat := 1
  ownerUserId : Int
  delegationId : Option Nat := none
  /-- `current_package_id` is this package. -/
  currentPackage : Bool := true
  pendingAmendment : Bool := false
  mandateRequired : Bool := false
  ownerMandateScope : Option Nat := none
  /-- `owner_answer`, and whether it is superseded. -/
  ownerAnswer : Option Bool := none
  parked : Option Parked := none

def ManagedGoal.hasOwnerMandate (g : ManagedGoal) : Bool :=
  !g.mandateRequired || g.ownerMandateScope == some g.scopeRevision

def ManagedGoal.isFinished (g : ManagedGoal) : Bool := g.lifecycle = .completed || g.lifecycle = .cancelled

/-- One package and the rows around it. New revisions, items and tasks take the first unused number. -/
structure State where
  package : WorkPackage
  revisions : List PlanRevision := []
  drafts : List WorkItemDraft := []
  links : List MaterializationLink := []
  tasks : List Task := []
  runs : List Run := []
  events : List WorkPackageEvent := []
  outbox : List SequenceItem := []
  goal : Option ManagedGoal := none
  delegations : List GoalDelegation := []
  /-- `active_work_package_id` of the discussion session is this package. -/
  activeInTopic : Bool := false

namespace State

def revision? (s : State) (id : Nat) : Option PlanRevision := s.revisions.find? (·.id == id)

def task? (s : State) (id : Nat) : Option Task := s.tasks.find? (·.id == id)

def linkAt (s : State) (revisionId ordinal : Nat) : Option MaterializationLink :=
  s.links.find? fun l => l.planRevisionId == revisionId && l.ordinal == ordinal

def linkOf (s : State) (taskId : Nat) : Option MaterializationLink := s.links.find? (·.taskId == taskId)

def delegation? (s : State) (id : Nat) : Option GoalDelegation := s.delegations.find? (·.id == id)

def putRevision (s : State) (r : PlanRevision) : State := { s with revisions := put PlanRevision.key r s.revisions }

def putTask (s : State) (t : Task) : State := { s with tasks := put Task.key t s.tasks }

def itemOf (s : State) (l : MaterializationLink) : Option PlanRevisionItem :=
  (s.revision? l.planRevisionId).bind (·.itemAt l.ordinal)

def currentLink (s : State) : Option MaterializationLink := do
  let revisionId ← s.package.runningRevisionId
  let ordinal ← s.package.cursorOrdinal
  s.linkAt revisionId ordinal

def isManaged (s : State) : Bool := s.goal.isSome

end State

/-- `USER_TERMINAL_TASK_STATUSES`. -/
def isUserTerminal (status : TaskStatus) : Bool :=
  [.blocked, .failed, .cancelled, .rolledBack, .completed].contains status

/-- `require_mutable`: `TERMINAL_PACKAGE_STATUSES` are refused. -/
def requireMutable : WorkPackageStatus → Except Error Unit
  | .completed | .stopped | .discarded => .error (.domain .terminalPackage)
  | _ => .ok ()

def requireGeneration (actual expected : Nat) : Except Error Unit :=
  if actual ≠ expected then .error (.domain .staleGeneration) else .ok ()

/-- The statuses from which `control_transition_target` lets an action go. -/
def controlSources : PackageControlAction → List WorkPackageStatus
  | .approve => [.draft]
  | .start => [.approved]
  | .discard => [.draft, .approved]
  | .retryItem | .skipItem => [.paused]
  | .stopPackage => [.draft, .approved, .running, .paused]
  | .finishPackage => [.approved, .running, .paused, .stopped]
  | .restartPackage => [.stopped]

def controlTransitionTarget (status : WorkPackageStatus) (action : PackageControlAction) : Except Error Unit :=
  if status ∈ controlSources action then .ok () else .error (.domain .invalidTransition)

def WorkPackageStatus.isLive : WorkPackageStatus → Bool
  | .draft | .approved | .running | .paused => true
  | _ => false

structure Fence where
  revisionNumber : Nat
  h8 : String
  generation : Nat

/-- `get_fenced_revision`. -/
def fencedRevision? (s : State) (fence : Fence) : Option PlanRevision :=
  s.revisions.find? fun r => r.number == fence.revisionNumber && r.contentHash.h8 == fence.h8

def fencedRevision (s : State) (fence : Fence) : Except Error PlanRevision :=
  match fencedRevision? s fence with
  | none => .error (.domain .staleRevision)
  | some r => .ok r

/-- `OBSERVED_TASK_STATUSES` without `WAITING_APPROVAL`, which only wakes the lead. -/
def publishesTerminal (status : TaskStatus) : Bool :=
  [.completed, .cancelled, .failed, .blocked, .quotaExhausted].contains status

/-- `publish_task_event`: the outbox row of a linked task, once under its key. -/
def publishTaskEvent (s : State) (t : Task) : State :=
  if (s.linkOf t.id).isSome && publishesTerminal t.status &&
      !s.outbox.any (fun x => x.taskId == t.id && x.version == t.version) then
    { s with outbox := s.outbox ++ [{ taskId := t.id, version := t.version }] }
  else s

def transitionTask (s : State) (t : Task) (target : TaskStatus) : Except Error State :=
  if target ∈ taskTransitions t.status then
    let moved := { t with status := target, version := t.version + 1 }
    .ok (publishTaskEvent (s.putTask moved) moved)
  else .error (.illegalTransition t.status target)

/-- What `cancel_task` finds in the run of the task: it can be settled, it is cancelled already, or it has
    ended otherwise. -/
inductive Cancellation where
  | settles | alreadyCancelled | refused

def cancelTask (s : State) (t : Task) : Cancellation → Except Error State
  | .settles => transitionTask s t .cancelled
  | .alreadyCancelled => .ok s
  | .refused => .error (.valueError "terminal run cannot cancel")

def cancelLive (s : State) (task : Option Task) (c : Cancellation) : Except Error State :=
  match task with
  | none => .ok s
  | some t => if isUserTerminal t.status then .ok s else cancelTask s t c

def State.currentTask (s : State) : Option Task := s.currentLink.bind fun l => s.task? l.taskId

end Vuzol.Discussion
