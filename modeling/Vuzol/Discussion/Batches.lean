import Mathlib.Data.List.MinMax
import Vuzol.Discussion.Transactions

/-! The plans of a managed goal (`leadership/batches.py`). A goal has one package after the other; the lead
    proposes their plans and starts their items. Whether only the owner can approve a plan is decided against
    the last plan that the owner has approved, in whichever package it stands. -/

namespace Vuzol.Discussion

open Vuzol.Lib

structure Provenance where
  derived : Bool := true
  sourceTurnRef : Option String := none
  sourceSpecRevision : Option String := none
  deriving DecidableEq

structure Planned where
  packageId : Nat
  revision : PlanRevision

abbrev Planned.key (p : Planned) : Nat × Nat := (p.packageId, p.revision.id)

abbrev Planned.items (p : Planned) : List BodyItem := p.revision.body.items

def riskRank : RiskLevel → Nat
  | .low => 0
  | .medium => 1
  | .high => 2
  | .privileged => 3

def delegatedGrowth : Nat := 2

namespace BodyItem

def risk (item : BodyItem) : Nat := riskRank item.contract.suggestedRisk

def isLarge (item : BodyItem) : Bool := item.contract.estimatedComplexity = .large

def isGated (item : BodyItem) : Bool := item.contract.needsApproval

end BodyItem

def maxRisk (items : List BodyItem) : Nat := (items.map BodyItem.risk).foldr max 0

def isSingleLowRisk (p : Planned) : Bool :=
  p.items.length == 1 &&
    p.items.all (fun item => item.contract.suggestedRisk = .low && !item.isGated && !item.isLarge) &&
    p.revision.body.environmentDelta == ""

def isFollowUp (p baseline : Planned) : Bool :=
  !baseline.items.isEmpty && p.items.length ≤ baseline.items.length + delegatedGrowth &&
    p.revision.body.environmentDelta == baseline.revision.body.environmentDelta

section
-- The origin of an item, by the package, the revision and the ordinal.
variable (provenance : Nat → Nat → Nat → Provenance)

/-- `_decision_content`: everything but the identity and the position. -/
def decisionContent (p : Planned) (item : BodyItem) : Option String × ItemContract × Provenance :=
  (item.localId, item.contract, provenance p.packageId p.revision.id item.ordinal)

def decided (p baseline : Planned) (item : BodyItem) : Bool :=
  (baseline.items.map (decisionContent provenance baseline)).contains (decisionContent provenance p item)

def exceeds (p baseline : Planned) (item : BodyItem) : Bool :=
  !decided provenance p baseline item &&
    (maxRisk baseline.items < item.risk || (item.isLarge && !baseline.items.any (·.isLarge)) ||
      (item.isGated && !baseline.items.any (·.isGated)))

def ownerApprovalRequired (p : Planned) (baseline : Option Planned) : Bool :=
  match baseline.filter (isFollowUp p) with
  | some baseline => p.items.any (exceeds provenance p baseline)
  | none => !isSingleLowRisk p

end

/-- A package with the `approved_at` of its revisions. -/
structure GoalPackage where
  rows : State
  approvedAt : Nat → Nat := fun _ => 0

/-- A goal with its packages. A package has its place in the list as its id, and the goal that its rows
    repeat is read from here. -/
structure GoalState where
  goal : ManagedGoal
  delegations : List GoalDelegation := []
  packages : List GoalPackage := []
  currentPackageId : Option Nat := none
  maxPackages : Option Nat := none
  maxItemsPerPackage : Option Nat := none
  repeatFingerprint : Option Digest := none
  repeatCount : Nat := 0
  /-- `repeat_evidence`: the package and its integration head. -/
  repeatEvidence : Option (Nat × Option String) := none

inductive BatchError where
  | package (e : Error)
  | planRequired | taskSpecStale | projectTaskRunning | unknownEffectsOpen | packageStillLive
  | repeatWithoutNewEvidence | workItemLimitReached | workPackageLimitReached
  | sourceRepositoryUnavailable | plannerHeadChanged

def fromPackage {α : Type} : Except Error α → Except BatchError α
  | .ok a => .ok a
  | .error e => .error (.package e)

namespace GoalState

def planned (s : GoalState) : List Planned :=
  s.packages.zipIdx.flatMap fun (p, i) => p.rows.revisions.map fun r => { packageId := i, revision := r }

def approvedAt (s : GoalState) (p : Planned) : Nat := (s.packages[p.packageId]?).elim 0 (·.approvedAt p.revision.id)

def ownerApproved (s : GoalState) (p : Planned) : List Planned :=
  s.planned.filter fun q => q.key ≠ p.key ∧ q.revision.approvedByUserId.isSome

/-- `owner_baseline`: the owner's last approval, when it was given under the scope of this plan. -/
def ownerBaseline (s : GoalState) (p : Planned) : Option Planned :=
  ((s.ownerApproved p).argmax s.approvedAt).filter fun q =>
    q.revision.body.scopeRevision = p.revision.body.scopeRevision

def revisionNeedsOwner (provenance : Nat → Nat → Nat → Provenance) (s : GoalState) (p : Planned) : Bool :=
  ownerApprovalRequired provenance p (s.ownerBaseline p)

def view (s : GoalState) (i : Nat) (p : GoalPackage) : State :=
  { p.rows with
    goal := some { s.goal with currentPackage := s.currentPackageId == some i }
    delegations := s.delegations }

end GoalState

/-- `approved_at` is written where a revision becomes approved. -/
def stampApproval (before after : State) (now : Nat) (approvedAt : Nat → Nat) (id : Nat) : Nat :=
  if (after.revision? id).any (·.state = .approved) && !(before.revision? id).any (·.state = .approved) then now
  else approvedAt id

def GoalPackage.store (p : GoalPackage) (rows : State) (now : Nat) : GoalPackage :=
  { rows := rows, approvedAt := stampApproval p.rows rows now p.approvedAt }

def GoalState.store (s : GoalState) (i : Nat) (rows : State) (now : Nat) : GoalState :=
  { s with
    goal := rows.goal.getD s.goal
    delegations := rows.delegations
    packages := s.packages.modify i (·.store rows now) }

def GoalState.onPackage (s : GoalState) (i now : Nat) (f : State → Except Error State) : Except BatchError GoalState :=
  match s.packages[i]? with
  | none => .error (.package .lookupError)
  | some p => (fromPackage (f (s.view i p))).map fun rows => s.store i rows now

def GoalState.current (s : GoalState) : Option (Nat × GoalPackage) :=
  s.currentPackageId.bind fun i => (s.packages[i]?).map fun p => (i, p)

/-- `check_batch_limits`. `admitted` counts the package that is about to be created. -/
def checkBatchLimits (s : GoalState) (items admitted : Nat) : Except BatchError Unit :=
  if s.maxItemsPerPackage.any (· < items) then .error .workItemLimitReached
  else if s.maxPackages.any (· < s.packages.length + admitted) then .error .workPackageLimitReached
  else .ok ()

section
variable (digest semanticHash : PlanBody → Digest) (provenance : Nat → Nat → Nat → Provenance)

structure ProposeRequest where
  plan : PlanDraft
  /-- The tip of the integration branch, or of the default branch; none when the repository cannot be read. -/
  sourceCommit : Option String
  expectedSourceCommit : Option String := none
  topic : Topic := {}
  now : Nat := 0

def requireSource (r : ProposeRequest) : Except BatchError String :=
  match r.sourceCommit with
  | none => .error .sourceRepositoryUnavailable
  | some commit => if r.expectedSourceCommit.any (· ≠ commit) then .error .plannerHeadChanged else .ok commit

/-- `apply_outcome` stops a running package before its plan is replaced. -/
def pauseRunning (s : State) : State :=
  if s.package.status = .running then
    { s with package := { s.package with status := .paused, version := s.package.version + 1 } }
  else s

def revisePackage (s : GoalState) (i : Nat) (p : GoalPackage) (r : ProposeRequest) (commit : String) :
    Except BatchError GoalState := do
  checkBatchLimits s r.plan.items.length 0
  s.onPackage i r.now fun rows =>
    reviseDraft digest (pauseRunning rows)
      { generation := (pauseRunning p.rows).package.version, plan := r.plan, sourceRepoCommit := some commit,
        now := r.now }

def admitPackage (s : GoalState) (r : ProposeRequest) (commit : String) : Except BatchError GoalState := do
  checkBatchLimits s r.plan.items.length 1
  let rows ← fromPackage (createDraft digest r.topic (some s.goal) s.delegations r.plan (some commit))
  .ok { s with
    goal := rows.goal.getD s.goal
    packages := s.packages ++ [{ rows := rows }]
    currentPackageId := some s.packages.length }

def GoalState.headPlan (s : GoalState) : Option (GoalPackage × Planned) := do
  let (i, p) ← s.current
  let id ← p.rows.package.headRevisionId
  let revision ← p.rows.revision? id
  some (p, { packageId := i, revision := revision })

def ManagedGoal.proposed (goal : ManagedGoal) (approvalRequired : Bool) : ManagedGoal :=
  if approvalRequired ∧ goal.lifecycle ≠ .paused then
    { goal with lifecycle := .waiting, waitingReason := some "plan_approval" }
  else if goal.waitingReason = some "plan_approval" then { goal with lifecycle := .active, waitingReason := none }
  else goal

def storePlan (s : GoalState) (r : ProposeRequest) (commit : String) : Except BatchError GoalState :=
  match s.current with
  | some (i, p) =>
    if p.rows.package.status.isLive then revisePackage digest s i p r commit else admitPackage digest s r commit
  | none => admitPackage digest s r commit

def proposePlan (s : GoalState) (r : ProposeRequest) : Except BatchError GoalState := do
  let commit ← requireSource r
  let s ← storePlan digest s r commit
  match s.headPlan with
  | none => .error .planRequired
  | some (_, p) =>
    let approvalRequired := !s.goal.hasOwnerMandate || s.revisionNeedsOwner provenance p
    .ok { s with goal := s.goal.proposed approvalRequired }

structure BatchRequest where
  delegationId : Nat
  /-- `check_start_spec`, for `start_task`: the command names the item as it stands. -/
  specMatches : Bool := true
  /-- A task of the project beside these packages is unfinished. -/
  projectBusy : Bool := false
  unknownEffects : Bool := false
  repeatLimit : Nat
  now : Nat := 0

/-- `busy_project_task`. -/
def GoalState.isBusy (s : GoalState) : Bool := s.packages.any fun p => p.rows.tasks.any (!isUserTerminal ·.status)

def ManagedGoal.dispatched (goal : ManagedGoal) : ManagedGoal :=
  { goal with
    lifecycle := .active
    waitingReason := none
    version := goal.version + 1
    fenceEpoch := goal.fenceEpoch + 1 }

def ManagedGoal.awaitsPlanApproval (goal : ManagedGoal) : ManagedGoal :=
  { goal with
    lifecycle := .waiting
    waitingReason := some "plan_approval"
    version := goal.version + 1
    fenceEpoch := goal.fenceEpoch + 1 }

def currentFence (rows : State) (r : PlanRevision) : Fence :=
  { revisionNumber := r.number, h8 := r.contentHash.h8, generation := rows.package.version }

/-- `bind_delegated_approval` asks again whether the plan needs the owner. -/
def bindForLead (s : GoalState) (i : Nat) (r : BindRequest) : Except BatchError GoalState :=
  s.onPackage i r.now fun rows =>
    let needsOwner := (fencedRevision? rows r.fence).any fun revision =>
      s.revisionNeedsOwner provenance { packageId := i, revision := revision }
    bindDelegatedApproval digest rows { r with needsOwner := needsOwner }

def evidenceToken (i : Nat) (rows : State) : Nat × Option String := (i, rows.package.integrationHeadCommit)

def countRepeat (s : GoalState) (p : Planned) (rows : State) : GoalState :=
  let fingerprint := semanticHash p.revision.body
  if s.repeatFingerprint = some fingerprint ∧ s.repeatEvidence = some (evidenceToken p.packageId rows) then
    { s with repeatCount := s.repeatCount + 1 }
  else { s with repeatCount := 1, repeatFingerprint := some fingerprint }

/-- The approved plan starts. -/
def startBatch (s : GoalState) (p : Planned) (r : BatchRequest) : Except BatchError GoalState :=
  match s.packages[p.packageId]? with
  | none => .error (.package .lookupError)
  | some package => do
    let s := countRepeat semanticHash s p package.rows
    raiseIf (s.repeatCount > r.repeatLimit) .repeatWithoutNewEvidence
    let s ← s.onPackage p.packageId r.now fun rows =>
      (start digest rows { fence := currentFence rows p.revision, agent := true, now := r.now }).map Prod.fst
    .ok { s with
      goal := s.goal.dispatched
      repeatEvidence := (s.packages[p.packageId]?).map fun package => evidenceToken p.packageId package.rows }

/-- The package of a plan that may start: it goes on, it is bound and started, or it waits for the owner. -/
def dispatchPlan (s : GoalState) (package : GoalPackage) (p : Planned) (r : BatchRequest) :
    Except BatchError GoalState :=
  match package.rows.package.status with
  | .running => do
    let s ← s.onPackage p.packageId r.now fun rows => (materializeRunning rows r.now).map Prod.fst
    .ok { s with goal := s.goal.dispatched }
  | .draft =>
    if s.revisionNeedsOwner provenance p then .ok { s with goal := s.goal.awaitsPlanApproval }
    else do
      let s ← bindForLead digest provenance s p.packageId
        { fence := currentFence package.rows p.revision, delegationId := r.delegationId, now := r.now }
      startBatch digest semanticHash s p r
  | .approved => startBatch digest semanticHash s p r
  | _ => .error .packageStillLive

def executeBatch (s : GoalState) (r : BatchRequest) : Except BatchError GoalState := do
  raiseIf (s.goal.hasOwnerMandate = false) (.package (.domain .ownerMandateRequired))
  match s.headPlan with
  | none => .error .planRequired
  | some (package, p) => do
    raiseIf (r.specMatches = false) .taskSpecStale
    raiseIf (p.revision.body.scopeRevision.getD s.goal.scopeRevision ≠ s.goal.scopeRevision) .taskSpecStale
    raiseIf (s.isBusy || r.projectBusy) .projectTaskRunning
    raiseIf r.unknownEffects .unknownEffectsOpen
    checkBatchLimits s p.items.length 0
    dispatchPlan digest semanticHash provenance s package p r

structure AmendmentRequest where
  queued : Bool := false
  /-- The amendment was stored under the delegation and the scope that are in force. -/
  bound : Bool := true
  unknownEffects : Bool := false
  /-- The owner's message approved the request that it brings. -/
  preapproved : Bool := false

def amendmentWaits (s : GoalState) (rows : State) (r : AmendmentRequest) : Bool :=
  (!s.goal.pendingAmendment && rows.package.status.isLive) || hasUnfinishedTask rows || r.unknownEffects

def stopForAmendment (s : State) : State :=
  { s with
    package := { s.package with
      status := if s.package.status.isLive then .stopped else s.package.status
      pauseReason := if s.package.status.isLive then none else s.package.pauseReason
      approvedRevisionId := none
      version := s.package.version + 1 }
    activeInTopic := false }

/-- The goal under its new scope. A mandate was given for the old one, unless the owner gave it with the
    request. -/
def ManagedGoal.amended (goal : ManagedGoal) (preapproved : Bool) : ManagedGoal :=
  let lifecycle := if goal.lifecycle = .waiting then .active else goal.lifecycle
  let lifecycle := if goal.mandateRequired ∧ lifecycle = .active then .draft else lifecycle
  { goal with
    pendingAmendment := false
    lifecycle := if preapproved ∧ lifecycle = .draft then .active else lifecycle
    waitingReason := if goal.lifecycle = .waiting then none else goal.waitingReason
    ownerMandateScope := if preapproved then some (goal.scopeRevision + 1) else goal.ownerMandateScope
    scopeRevision := goal.scopeRevision + 1
    version := goal.version + (if preapproved then 2 else 1)
    fenceEpoch := goal.fenceEpoch + 1 }

def narrowDelegation (goal : ManagedGoal) (preapproved : Bool) (d : GoalDelegation) : GoalDelegation :=
  if goal.delegationId = some d.id ∧ (goal.mandateRequired ∨ preapproved) then { d with startsWork := preapproved }
  else d

def amendGoal (s : GoalState) (r : AmendmentRequest) : GoalState :=
  { s with
    goal := s.goal.amended r.preapproved
    delegations := s.delegations.map (narrowDelegation s.goal r.preapproved) }

/-- `apply_pending_amendment`. Nothing changes while it has to wait. -/
def applyPendingAmendment (s : GoalState) (r : AmendmentRequest) : GoalState :=
  if (!s.goal.pendingAmendment && !r.queued) || !r.bound || s.goal.isFinished then s
  else
    match s.current with
    | none => amendGoal s r
    | some (i, p) =>
      if amendmentWaits s p.rows r then s
      else
        amendGoal
          { s with packages := s.packages.modify i fun p => { p with rows := stopForAmendment p.rows } } r

inductive GoalOp where
  | proposePlan (r : ProposeRequest)
  | executeBatch (r : BatchRequest)
  | applyPendingAmendment (r : AmendmentRequest)
  | package (i : Nat) (op : Op) (now : Nat)
  | leadWrites (goal : ManagedGoal) (delegations : List GoalDelegation)

def Op.isParking : Op → Bool
  | .parkGoal .. | .unparkGoal .. => true
  | _ => false

/-- A transaction that reaches one package: the owner's approval, a control, the end of a task. The lead's
    approval is checked against the plans of the goal, and a goal parks its current package. -/
def performPackage (s : GoalState) (i now : Nat) : Op → Except BatchError GoalState
  | .bindDelegatedApproval r => bindForLead digest provenance s i r
  | op =>
    if op.isParking ∧ s.currentPackageId ≠ some i then .error (.package .lookupError)
    else s.onPackage i now fun rows => perform digest rows op

def GoalState.perform (s : GoalState) : GoalOp → Except BatchError GoalState
  | .proposePlan r => Discussion.proposePlan digest provenance s r
  | .executeBatch r => Discussion.executeBatch digest semanticHash provenance s r
  | .applyPendingAmendment r => .ok (Discussion.applyPendingAmendment s r)
  | .package i op now => performPackage digest provenance s i now op
  | .leadWrites goal delegations =>
    .ok { s with goal := { goal with parked := s.goal.parked }, delegations := delegations }

end

def GoalState.New (s : GoalState) : Prop := s.packages = [] ∧ s.currentPackageId = none

end Vuzol.Discussion
