import Vuzol.Execution.Git
import Vuzol.Workflow.Types

/-! The rows of an approved result and what is written to them: the intent (`execution/effect.py`), the receipt
    (`ResultApplyHandler` in `execution/result_apply.py`) and the settlement by a reconciler
    (`execution/effect_reconciliation.py`). The times of receipts and the events are left out. -/

namespace Vuzol.Execution

open Vuzol.Workflow (ApprovalStatus EffectStatus StepStatus)

inductive ReconcileStatus where
  | notStarted | confirmed | denied | uncertain
  deriving DecidableEq

inductive ReceiptStatus where
  | applied | failed

inductive TargetKind where
  | gitRef | other
  deriving DecidableEq

/-- The fields of an intent that a retry has to repeat. -/
structure Purpose where
  stepId : Nat
  taskId : Nat
  runId : Nat
  targetKind : TargetKind := .gitRef
  effectClass : String := "isolated_mutation"
  idempotency : String := "reconcilable"
  targetReference : String
  payloadHash : String
  approvalId : Nat
  approvalEnvelopeHash : String
  permissionEnvelopeHash : String
  projectId : String
  worktreeId : Nat
  change : Change
  deriving DecidableEq

structure EffectIntent where
  operationKey : String
  purpose : Purpose
  leaseGeneration : Nat

structure Effect where
  operationKey : String
  purpose : Purpose
  leaseGeneration : Nat
  launchGeneration : Nat
  status : EffectStatus := .dispatched
  receiptStatus : Option ReceiptStatus := none
  receiptExternalRef : Option String := none
  reconcileStatus : ReconcileStatus := .notStarted

/-- `_ACTIVE_STATUSES`. -/
def isActive : EffectStatus → Bool
  | .intentRecorded | .dispatched | .uncertain => true
  | _ => false

inductive WorktreeDeliveryState where
  | active | worktreeRetained | patchDelivered | applied | merged | pushed | cleaned
  deriving DecidableEq

def WorktreeDeliveryState.isApplicable : WorktreeDeliveryState → Bool
  | .worktreeRetained | .applied => true
  | _ => false

structure StepRow where
  status : StepStatus
  leaseOwner : Option String := none
  leaseGeneration : Nat := 0
  unknownEffects : Bool := false

structure ApprovalRow where
  status : ApprovalStatus
  consumedAt : Option Nat := none

def ApprovalRow.isGranted (a : ApprovalRow) : Bool := a.status = .approved || a.status = .consumed

def ApprovalRow.consume (a : ApprovalRow) (now : Nat) : ApprovalRow :=
  { a with status := .consumed, consumedAt := some (a.consumedAt.getD now) }

structure WorktreeRow where
  deliveryState : WorktreeDeliveryState
  resultCommit : String
  deliveryOperationHash : Option String := none
  deliveredRef : Option String := none

structure GoalRow where
  id : Nat
  integrationBranch : String
  scopeRevision : Nat := 1
  criteria : List String := []

structure PackageRow where
  integrationBranch : String
  integrationHeadCommit : Option String := none
  managedGoal : Option GoalRow := none

structure HeadEvidence where
  goalId : Nat
  criterionId : String
  scopeRevision : Nat
  resultCommit : String
  deriving DecidableEq

structure ApplyRows where
  step : StepRow
  approval : ApprovalRow
  worktree : WorktreeRow
  package : Option PackageRow := none
  effect : Option Effect := none
  evidence : List HeadEvidence := []

/-- What the envelope of the approval fixes, with the rows it is about. -/
structure ApprovedResult where
  approvalId : Nat
  stepId : Nat
  taskId : Nat
  runId : Nat
  projectId : String
  worktreeId : Nat
  envelopeHash : String
  change : Change

def headRef (branch : String) : String := "refs/heads/" ++ branch

/-- `apply_operation_key`. -/
def ApprovedResult.operationKey (res : ApprovedResult) : String :=
  "apply:" ++ toString res.approvalId ++ ":" ++ res.change.resultCommit ++ ":" ++ res.change.targetBranch

def ApprovedResult.purpose (res : ApprovedResult) : Purpose where
  stepId := res.stepId
  taskId := res.taskId
  runId := res.runId
  targetReference := headRef res.change.targetBranch
  payloadHash := res.envelopeHash
  approvalId := res.approvalId
  approvalEnvelopeHash := res.envelopeHash
  permissionEnvelopeHash := res.envelopeHash
  projectId := res.projectId
  worktreeId := res.worktreeId
  change := res.change

def ApprovedResult.intent (res : ApprovedResult) (leaseGeneration : Nat) : EffectIntent :=
  ⟨res.operationKey, res.purpose, leaseGeneration⟩

/-- `record_intent` on the row of the operation key. -/
def recordIntent (existing : Option Effect) (intent : EffectIntent) : Except String Effect :=
  match existing with
  | none => .ok {
      operationKey := intent.operationKey
      purpose := intent.purpose
      leaseGeneration := intent.leaseGeneration
      launchGeneration := intent.leaseGeneration }
  | some e =>
    if e.status = .uncertain ∨ e.reconcileStatus = .uncertain then
      .error "effect is uncertain; manual reconciliation required"
    else if e.status = .failed ∧ e.reconcileStatus = .denied then
      -- the reconciler found that no mutation occurred
      if intent.purpose.targetKind ≠ .gitRef ∨ e.purpose ≠ intent.purpose then
        .error "denied effect retry does not match the approved intent"
      else if intent.leaseGeneration ≤ e.leaseGeneration then .error "denied effect retry requires a newer lease"
      else .ok { e with
        leaseGeneration := intent.leaseGeneration
        launchGeneration := intent.leaseGeneration
        receiptStatus := none
        receiptExternalRef := none
        reconcileStatus := .notStarted
        status := .dispatched }
    else if e.status = .settled ∨ e.status = .failed then .ok e
    else .ok { e with status := .dispatched, launchGeneration := e.leaseGeneration }

namespace Effect

def settleApplied (e : Effect) (externalRef : String) : Effect :=
  { e with
    status := .settled
    receiptStatus := some .applied
    receiptExternalRef := some (String.ofList (externalRef.toList.take 500))
    reconcileStatus := .confirmed }

def markDenied (e : Effect) : Effect :=
  { e with status := .failed, receiptStatus := some .failed, reconcileStatus := .denied }

def markUncertain (e : Effect) : Effect := { e with status := .uncertain, reconcileStatus := .uncertain }

end Effect

structure StepLease where
  owner : String
  generation : Nat
  deriving DecidableEq

def StepLease.holds (l : StepLease) (x : StepRow) : Bool :=
  x.status.isHeld && x.leaseOwner = some l.owner && x.leaseGeneration = l.generation

namespace ApplyRows

/-- `_record_intent`; `blocker` is `new_effect_blocker`. -/
def recordIntent (s : ApplyRows) (res : ApprovedResult) (l : StepLease) (blocker : Option String) :
    Except String ApplyRows :=
  match blocker with
  | some reason => .error reason
  | none =>
    if ¬l.holds s.step then .error "apply step lease lost before effect intent"
    else if ¬s.approval.isGranted then .error "result has not been approved"
    else do .ok { s with effect := some (← Execution.recordIntent s.effect (res.intent l.generation)) }

/-- `record_head_evidence`: a row for every criterion of the goal that has none for the commit. -/
def recordHeadEvidence (s : ApplyRows) (p : PackageRow) : ApplyRows :=
  match p.managedGoal with
  | none => s
  | some g =>
    if s.worktree.resultCommit = "" ∨ p.integrationBranch ≠ g.integrationBranch then s
    else
      let add (rows : List HeadEvidence) (id : String) : List HeadEvidence :=
        let x : HeadEvidence := ⟨g.id, id, g.scopeRevision, s.worktree.resultCommit⟩
        if id = "" ∨ x ∈ rows then rows else rows ++ [x]
      { s with evidence := g.criteria.foldl add s.evidence }

def advancePackage (s : ApplyRows) (commit : String) : PackageRow → ApplyRows :=
  fun p => { s with package := some { p with integrationHeadCommit := some commit } }

def followApplied (s : ApplyRows) (targetBranch : String) : ApplyRows :=
  match s.package with
  | none => s
  | some p =>
    if targetBranch = p.integrationBranch then (s.advancePackage s.worktree.resultCommit p).recordHeadEvidence p else s

def settleEffect (s : ApplyRows) (externalRef : String) : ApplyRows :=
  match s.effect with
  | none => s
  | some e => if isActive e.status then { s with effect := some (e.settleApplied externalRef) } else s

def recordApplied (s : ApplyRows) (res : ApprovedResult) (l : StepLease) (now : Nat) : Except String ApplyRows :=
  if ¬l.holds s.step then .error "apply step lease lost before persistence"
  else if ¬s.approval.isGranted then .error "approval changed before apply was recorded"
  else if ¬s.worktree.deliveryState.isApplicable then .error "worktree is not in an applicable delivery state"
  else
    let s := { s with
      approval := s.approval.consume now
      worktree := { s.worktree with
        deliveryState := .applied
        deliveryOperationHash := some res.envelopeHash
        deliveredRef := some (headRef res.change.targetBranch) } }
    let s := s.followApplied res.change.targetBranch
    .ok (s.settleEffect (headRef res.change.targetBranch ++ "@" ++ s.worktree.resultCommit))

end ApplyRows

inductive EffectObservation where
  | applied | notApplied | uncertain
  deriving DecidableEq

def classifyEffectObservation (observedRef : Option String) (resultCommit expectedHead : String) : EffectObservation :=
  match observedRef with
  | none => .uncertain
  | some ref => if ref = resultCommit then .applied else if ref = expectedHead then .notApplied else .uncertain

/-- `_observe`; there is no repository when the project is not registered or Git fails. -/
def observe (treeOf : String → String) (e : Effect) (repository : Option Repository) : EffectObservation × String :=
  if e.purpose.targetKind ≠ .gitRef then (.uncertain, "")
  else
    match repository with
    | none => (.uncertain, "")
    | some r =>
      if e.purpose.change.isNoOp ∧ ¬r.isClean treeOf then (.uncertain, "")
      else (classifyEffectObservation r.target e.purpose.change.resultCommit e.purpose.change.expectedHead, r.target.getD "")

namespace ApplyRows

def settleBusinessState (s : ApplyRows) (e : Effect) (observedRef : String) (now : Nat) : Option ApplyRows :=
  if s.worktree.resultCommit ≠ observedRef then none
  else if ¬s.worktree.deliveryState.isApplicable then none
  else
    let s := { s with
      worktree := { s.worktree with
        deliveryState := .applied
        deliveryOperationHash := some e.purpose.payloadHash
        deliveredRef := some e.purpose.targetReference }
      approval := if s.approval.isGranted then s.approval.consume now else s.approval }
    match s.package with
    | none => some s
    | some p =>
      if e.purpose.targetReference = headRef p.integrationBranch then some (s.advancePackage observedRef p) else some s

def StepRow.flagUnknown (x : StepRow) : StepRow :=
  match x.status with
  | .blocked | .failed | .cancelled | .completed => x
  | _ => { x with unknownEffects := true }

/-- `_reconcile_one`, once the ref is observed. -/
def reconcileOne (s : ApplyRows) (observation : EffectObservation × String) (now : Nat) : ApplyRows :=
  match s.effect with
  | none => s
  | some e =>
    if ¬isActive e.status then s
    else
      match observation.1 with
      | .applied =>
        match s.settleBusinessState e observation.2 now with
        | none => { s with effect := some e.markUncertain }
        | some s => { s with effect := some (e.settleApplied (e.purpose.targetReference ++ "@" ++ observation.2)) }
      | .notApplied => { s with effect := some e.markDenied }
      | .uncertain => { s with effect := some e.markUncertain, step := StepRow.flagUnknown s.step }

def pass (treeOf : String → String) (s : ApplyRows) (repository : Option Repository) (now : Nat) : ApplyRows :=
  match s.effect with
  | none => s
  | some e => s.reconcileOne (observe treeOf e repository) now

end ApplyRows

end Vuzol.Execution
