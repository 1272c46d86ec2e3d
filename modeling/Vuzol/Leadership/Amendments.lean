import Vuzol.Leadership.Goals
import Vuzol.Plans.Reader

/-! Changes of a goal's scope by its owner (`leadership/amendments.py`). An amendment is stored with the message it came
    from and takes effect between two tasks. -/

namespace Vuzol.Amendments

open Vuzol.Lib
open Vuzol.Discussion (Lifecycle WorkPackageStatus WorkPackagePauseReason isUserTerminal)
open Vuzol.Leadership (GoalDelegation InflightPolicy WakeupCondition delegatedActions draftActions isTerminal)
open Vuzol.Plans (Runtime pyStr isSlug)
open Vuzol.Workflow (TaskStatus IdempotencyClass)

/-- The codes of `DomainError`; a policy that is a list or a dict cannot be looked up in a set. -/
inductive Error where
  | delegationInactive | criteriaRequired | criteriaInvalid | amendmentScopeAndReasonRequired | amendmentPolicyInvalid
  | amendmentSourceRequired | amendmentSourceMismatch | amendmentSourceConsumed | amendmentPending | actionNotDelegated
  | unhashable

structure Criterion where
  id : Text
  description : Text

structure Amendment where
  scope : Text
  criteria : List Criterion
  reason : Text
  sourceEventId : Uuid
  baseVersion : Nat
  scopeRevision : Nat
  delegationId : Nat
  inflightPolicy : InflightPolicy

structure Mandate where
  scopeRevision : Nat
  preapprovedBy : Option Uuid := none

structure Constraints where
  pendingAmendment : Option Amendment := none
  queuedAmendment : Option Amendment := none
  lastAmendment : Option Amendment := none
  amendmentSources : List Uuid := []
  pausedChildren : List (Nat × WorkPackageStatus) := []
  legacyPlanRevision : Bool := false
  mandateRequired : Bool := false
  ownerMandate : Option Mandate := none

structure ManagedGoal where
  id : Nat
  ownerUserId : Nat
  delegationId : Nat
  scopeText : Text
  criteria : List Criterion := []
  scopeRevision : Nat := 1
  constraints : Constraints := {}
  lifecycle : Lifecycle := .active
  waitingReason : Option String := none
  wakeupCondition : Option WakeupCondition := none
  currentPackageId : Option Nat := none
  version : Nat := 1
  fenceEpoch : Nat := 1

structure Step where
  stepType : String
  idempotencyClass : IdempotencyClass
  requiredCapabilities : List String := []
  unknownEffects : Bool := false

structure Run where
  workflowType : String
  steps : List Step := []

structure Task where
  status : TaskStatus
  runs : List Run := []

/-- A package, with the tasks that were materialized for it. -/
structure WorkPackage where
  id : Nat
  sessionId : Nat
  status : WorkPackageStatus
  pauseReason : Option WorkPackagePauseReason := none
  approvedRevisionId : Option Nat := none
  version : Nat := 1
  tasks : List Task := []

structure DiscussionSession where
  id : Nat
  activeWorkPackageId : Option Nat := none

/-- A row of the outbox, with the keys of its payload that are read here. -/
structure OutboxItem where
  id : Uuid
  destination : String
  linkedEntityId : Nat
  wakeupKind : String
  ownerUserId : Option Nat := none
  delegationId : Option Nat := none
  scopeRevision : Option Nat := none
  requestPreapproved : Bool := false

structure State where
  goal : ManagedGoal
  delegations : List GoalDelegation := []
  outbox : List OutboxItem := []
  packages : List WorkPackage := []
  sessions : List DiscussionSession := []

section Store
variable (rt : Runtime)

/-- `str(value or "")`. -/
def textOrEmpty (value : Option Json) : Text := (value.filter Json.truthy).elim [] (pyStr rt)

/-- One round of `_criteria`. -/
def criterionOf (seen : List Criterion) : Json → Except Error (List Criterion)
  | .obj fields => do
    let id := textOrEmpty rt (Json.get? (.obj fields) "id")
    let description := strip (textOrEmpty rt (Json.get? (.obj fields) "description"))
    raiseIf (isSlug id = false ∨ description = []) .criteriaInvalid
    raiseIf (seen.any (·.id == id)) .criteriaInvalid
    .ok (seen ++ [{ id := id, description := description }])
  | _ => .error .criteriaInvalid

/-- `_criteria`. -/
def criteriaOf : Option Json → Except Error (List Criterion)
  | some (.arr (item :: items)) => (item :: items).foldlM (criterionOf rt) []
  | _ => .error .criteriaRequired

def policyOf : Option Json → Except Error InflightPolicy
  | some (.str t) =>
    if t = "finish_current".toList then .ok .finishCurrent
    else if t = "cancel_current".toList then .ok .cancelCurrent
    else if t = "queue".toList then .ok .queue
    else .error .amendmentPolicyInvalid
  | some (.arr _) | some (.obj _) => .error .unhashable
  | _ => .error .amendmentPolicyInvalid

/-- `uuid.UUID(str(value))`; an absent value is read as the text `None`. -/
def sourceIdOf (value : Option Json) : Except Error Uuid :=
  match uuidOfText rt.decimal (pyStr rt (value.getD .null)) with
  | some id => .ok id
  | none => .error .amendmentSourceRequired

def isSource (g : ManagedGoal) (d : GoalDelegation) (e : OutboxItem) : Bool :=
  e.destination == "project_lead" && e.linkedEntityId == g.id && e.wakeupKind == "owner_message" &&
    e.ownerUserId == some g.ownerUserId && e.delegationId == some d.id && e.scopeRevision == some g.scopeRevision

def Constraints.store (c : Constraints) (a : Amendment) : Constraints :=
  let consumed := { c with amendmentSources := c.amendmentSources ++ [a.sourceEventId] }
  if a.inflightPolicy = .queue then { consumed with queuedAmendment := some a }
  else { consumed with pendingAmendment := some a }

def State.store (s : State) (a : Amendment) : State :=
  { s with goal := { s.goal with constraints := s.goal.constraints.store a } }

def storeAmendment (s : State) (d : GoalDelegation) (payload : Json) (reason : Text) (now : Nat) :
    Except Error (State × Amendment) := do
  raiseIf (d.inForce now = false) .delegationInactive
  let scope := strip (textOrEmpty rt (payload.get? "scope"))
  let criteria ← criteriaOf rt (payload.get? "criteria")
  raiseIf (scope = [] ∨ strip reason = []) .amendmentScopeAndReasonRequired
  let policy ← policyOf (payload.get? "inflight_policy")
  let sourceId ← sourceIdOf rt (payload.get? "source_event_id")
  raiseIf (((s.outbox.find? (·.id == sourceId)).any (isSource s.goal d)) = false) .amendmentSourceMismatch
  raiseIf (sourceId ∈ s.goal.constraints.amendmentSources) .amendmentSourceConsumed
  raiseIf (s.goal.constraints.pendingAmendment.isSome ∨ s.goal.constraints.queuedAmendment.isSome) .amendmentPending
  raiseIf (policy = .cancelCurrent ∧ "cancel_goal" ∉ d.allowedActions) .actionNotDelegated
  let a : Amendment :=
    { scope := scope, criteria := criteria, reason := reason, sourceEventId := sourceId
      baseVersion := s.goal.version, scopeRevision := s.goal.scopeRevision, delegationId := d.id
      inflightPolicy := policy }
  .ok (s.store a, a)

end Store

def confinedSteps : List String :=
  ["prepare_context", "plan", "prepare_worktree", "execute_code", "execute_agent", "validate", "review", "build_static"]

def unknownEffectsBlockWork (t : Task) (r : Run) (st : Step) : Bool :=
  st.unknownEffects &&
    !(t.status = .cancelled && r.workflowType ∈ ["coding", "architecture", "fixed_executor"] &&
      st.stepType ∈ confinedSteps &&
      st.idempotencyClass ∈ [.readOnly, .isolatedRetryable, .unknownEffectsPossible] &&
      st.requiredCapabilities.all
        (· ∈ ["repository_read", "filesystem_write", "code_edit", "git", "project_shell"]))

def packageHasUnknownEffects (p : WorkPackage) : Bool :=
  p.tasks.any fun t => t.runs.any fun r => r.steps.any (unknownEffectsBlockWork t r)

def unfinished (p : WorkPackage) : Bool := p.tasks.any fun t => !isUserTerminal t.status

def currentPackage (s : State) : Option WorkPackage :=
  s.goal.currentPackageId.bind fun id => s.packages.find? (·.id == id)

def blocksAmendment (pending : Bool) (p : WorkPackage) : Bool :=
  !pending && p.status ∈ [.draft, .approved, .running, .paused] || unfinished p || packageHasUnknownEffects p

def WorkPackage.retire (p : WorkPackage) : WorkPackage :=
  let ended := if p.status ∈ [.completed, .stopped, .discarded] then p else { p with status := .stopped, pauseReason := none }
  { ended with approvedRevisionId := none, version := p.version + 1 }

def DiscussionSession.leave (packageId : Nat) (d : DiscussionSession) : DiscussionSession :=
  if d.activeWorkPackageId = some packageId then { d with activeWorkPackageId := none } else d

def State.retirePackage (s : State) : State :=
  match currentPackage s with
  | none => s
  | some p =>
    { s with
      packages := put WorkPackage.id p.retire s.packages
      sessions := s.sessions.map fun d => if d.id = p.sessionId then d.leave p.id else d }

def Constraints.applied (c : Constraints) (a : Amendment) : Constraints :=
  { c with
    pendingAmendment := none
    queuedAmendment := none
    pausedChildren := []
    lastAmendment := some a
    legacyPlanRevision := true }

def ManagedGoal.endWait (g : ManagedGoal) : ManagedGoal :=
  if g.lifecycle = .waiting then { g with lifecycle := .active, waitingReason := none, wakeupCondition := none } else g

def ManagedGoal.amended (g : ManagedGoal) (a : Amendment) : ManagedGoal :=
  { g.endWait with constraints := g.constraints.applied a, scopeText := a.scope, criteria := a.criteria }

def actionsSorted (actions : List String) : List String := actions.mergeSort fun a b => decide (a ≤ b)

def State.demote (s : State) (d : GoalDelegation) : State :=
  if s.goal.constraints.mandateRequired then
    { s with
      delegations := put GoalDelegation.id
        { d with allowedActions := actionsSorted draftActions, version := d.version + 1 } s.delegations
      goal := { s.goal with lifecycle := if s.goal.lifecycle = .active then .draft else s.goal.lifecycle } }
  else s

def State.reviseScope (s : State) : State :=
  { s with goal := { s.goal with scopeRevision := s.goal.scopeRevision + 1 } }

def grantPreapproval (s : State) (source : Uuid) : State :=
  let granted (d : GoalDelegation) : GoalDelegation :=
    { d with
      allowedActions := actionsSorted (delegatedActions.filter (· ∉ ["propose_batch", "request_revision"]))
      version := d.version + 1 }
  { s with
    delegations := s.delegations.map fun d => if d.id = s.goal.delegationId then granted d else d
    goal :=
      { s.goal with
        constraints :=
          { s.goal.constraints with
            ownerMandate := some { scopeRevision := s.goal.scopeRevision, preapprovedBy := some source } }
        lifecycle := if s.goal.lifecycle = .draft then .active else s.goal.lifecycle
        version := s.goal.version + 1 } }

def State.preapprove (s : State) (source : Uuid) : State :=
  if (s.outbox.find? (·.id == source)).any (·.requestPreapproved) then grantPreapproval s source else s

def State.bump (s : State) : State :=
  { s with goal := { s.goal with version := s.goal.version + 1, fenceEpoch := s.goal.fenceEpoch + 1 } }

def State.amend (s : State) (d : GoalDelegation) (a : Amendment) : State :=
  let retired := s.retirePackage
  let changed := { retired with goal := retired.goal.amended a }
  ((changed.demote d).reviseScope.preapprove a.sourceEventId).bump

def admits (g : ManagedGoal) (d : GoalDelegation) (a : Amendment) (now : Nat) : Bool :=
  d.inForce now && a.delegationId == g.delegationId && a.scopeRevision == g.scopeRevision && !isTerminal g.lifecycle

def applyPendingAmendment (s : State) (now : Nat) : State × Bool :=
  let c := s.goal.constraints
  match c.pendingAmendment.or c.queuedAmendment, s.delegations.find? (·.id == s.goal.delegationId) with
  | some a, some d =>
    if !admits s.goal d a now then (s, false)
    else if (currentPackage s).any (blocksAmendment c.pendingAmendment.isSome) then (s, false)
    else (s.amend d a, true)
  | _, _ => (s, false)

def State.written (s u : State) : State :=
  { u with
    goal :=
      { u.goal with
        constraints :=
          { u.goal.constraints with
            pendingAmendment := s.goal.constraints.pendingAmendment
            queuedAmendment := s.goal.constraints.queuedAmendment
            amendmentSources := s.goal.constraints.amendmentSources } } }

end Vuzol.Amendments
