import Vuzol.Discussion.Packages

/-! The rows of a managed goal (`leadership/persistence.py`): the goal, and the owner's grant to its lead. Columns that no
    modelled command reads or writes (the request a goal came from, the environments and the branch of a grant) are left
    out. -/

namespace Vuzol.Leadership

open Vuzol.Discussion (Lifecycle)

def policyRevision : String := "project-lead-policy.v1"

/-- The owner's grant. -/
structure GoalDelegation where
  id : Nat
  projectId : String
  ownerUserId : Nat
  agentPrincipalId : String
  policyRevision : String := Leadership.policyRevision
  allowedActions : List String
  expiresAt : Option Nat := none
  revokedAt : Option Nat := none
  version : Nat := 1

def delegationIsExpired (expiresAt : Option Nat) (now : Nat) : Bool := expiresAt.any (· ≤ now)

def GoalDelegation.inForce (d : GoalDelegation) (now : Nat) : Bool :=
  d.revokedAt.isNone && !delegationIsExpired d.expiresAt now && d.policyRevision = Leadership.policyRevision

/-- A stored `wakeup_condition` other than a quota wait. -/
inductive Condition where
  | owner (question : String) (scopeRevision askedVersion : Nat) (options : List String)
      (restartFromEventId : Option Nat)
  | planApproval (revisionId : Nat)
  | package (packageId : Nat)

structure Resume where
  lifecycle : Lifecycle
  waitingReason : Option String
  wakeupCondition : Option Condition

inductive WakeupCondition where
  | plain (condition : Condition)
  | quota (retryAt : Nat) (resume : Resume)

inductive InflightPolicy where
  | finishCurrent | cancelCurrent | queue
  deriving DecidableEq

/-- The keys of `constraints` that the watchdog and the turns read or write. -/
structure Constraints where
  mandateRequired : Bool := false
  ownerMandate : Option Nat := none
  watchdog : Option String := none

structure ManagedGoal where
  id : Nat
  scopeRevision : Nat := 1
  constraints : Constraints := {}
  lifecycle : Lifecycle := .active
  waitingReason : Option String := none
  wakeupCondition : Option WakeupCondition := none
  currentPackageId : Option Nat := none
  version : Nat := 1
  fenceEpoch : Nat := 1
  leaseOwner : Option String := none
  leaseEpoch : Nat := 0
  leaseUntil : Option Nat := none

def ManagedGoal.hasOwnerMandate (g : ManagedGoal) : Bool :=
  !g.constraints.mandateRequired || g.constraints.ownerMandate = some g.scopeRevision

/-- `_TERMINAL`. -/
def isTerminal : Lifecycle → Bool
  | .completed | .cancelled => true
  | _ => false

/-- `LIVE_GOAL_LIFECYCLES`. -/
def isLive : Lifecycle → Bool
  | .draft | .active | .waiting | .paused => true
  | _ => false

def ManagedGoal.working (g : ManagedGoal) : Lifecycle := if g.hasOwnerMandate then .active else .draft

def ManagedGoal.bump (g : ManagedGoal) : ManagedGoal :=
  { g with version := g.version + 1, fenceEpoch := g.fenceEpoch + 1 }

def ManagedGoal.release (g : ManagedGoal) : ManagedGoal := { g with leaseOwner := none, leaseUntil := none }

def delegatedActions : List String :=
  ["get_goal", "get_project_state", "get_capabilities", "get_result", "propose_batch", "request_plan",
    "revise_plan", "start_batch", "start_task", "cancel_task", "start_job", "cancel_job", "accept_result",
    "request_revision", "amend_goal", "request_permission", "wait_for", "propose_completion", "pause_goal",
    "cancel_goal", "apply_integration"]

def draftActions : List String :=
  ["get_goal", "get_project_state", "get_capabilities", "get_result", "start_job", "cancel_job", "request_plan",
    "revise_plan", "amend_goal", "request_permission", "pause_goal", "cancel_goal"]

end Vuzol.Leadership
