import Vuzol.Leadership.Goals
import Vuzol.Leadership.Wakeups

/-! The watchdog of waiting goals (`leadership/watchdog.py`): a goal whose wakeup can never arrive is woken once, then its
    owner decides. -/

namespace Vuzol.Watchdog

open Vuzol.Discussion (Lifecycle WorkPackageStatus isUserTerminal)
open Vuzol.Leadership (ManagedGoal Condition WakeupCondition GoalWakeup enqueueGoalWakeup outstandingWakeup)
open Vuzol.Workflow (TaskStatus)

/-- `GRACE`, in seconds. -/
def grace : Nat := 120

def stalledReason : String := "goal_stalled"

structure WorkPackage where
  id : Nat
  managedGoalId : Option Nat
  status : WorkPackageStatus
  version : Nat := 1
  /-- The head revision is a draft, and `revision_needs_owner`. -/
  awaitsOwner : Bool := false
  tasks : List TaskStatus := []
  /-- `task_turn_ready`. -/
  taskTurnReady : Bool := true

structure State where
  goal : ManagedGoal
  updatedAt : Nat
  packages : List WorkPackage := []
  outbox : List GoalWakeup := []

def package? (s : State) (id : Option Nat) : Option WorkPackage := id.bind fun id => s.packages.find? (·.id == id)

inductive Kind where
  | owner | planApproval | package | quota
  deriving DecidableEq

def kindOf : WakeupCondition → Kind
  | .plain (.owner ..) => .owner
  | .plain (.planApproval _) => .planApproval
  | .plain (.package _) => .package
  | .quota .. => .quota

def packageIdOf : WakeupCondition → Option Nat
  | .plain (.package id) => some id
  | _ => none

/-- What `_fingerprint` hashes. -/
structure Fingerprint where
  kind : Option Kind
  scopeRevision : Nat
  package : Option (Nat × WorkPackageStatus × Nat)
  deriving DecidableEq

/-- `_fingerprint`, less its hash. -/
def fingerprint (s : State) : Fingerprint where
  kind := s.goal.wakeupCondition.map kindOf
  scopeRevision := s.goal.scopeRevision
  package :=
    (package? s ((s.goal.wakeupCondition.bind packageIdOf).or s.goal.currentPackageId)).map fun p => (p.id, p.status, p.version)

def quotaRetryAt : Option WakeupCondition → Option Nat
  | some (.quota retryAt _) => some retryAt
  | _ => none

def pendingOwnerPlan (s : State) : Bool :=
  !([.completed, .cancelled, .parked].contains s.goal.lifecycle) &&
    (package? s s.goal.currentPackageId).any fun p => (p.status = .draft || p.status = .paused) && p.awaitsOwner

/-- `package_has_live_task`. -/
def hasLiveTask (p : WorkPackage) : Bool := p.tasks.any (!isUserTerminal ·)

/-- `_waiting_exit_ready`, of the package that the goal waits for. -/
def waitingExitReady (p : WorkPackage) : Bool :=
  if p.managedGoalId.isSome ∧ p.status = .running then p.taskTurnReady
  else p.status ∈ [.completed, .paused, .stopped, .discarded]

inductive Stuck where
  | noPendingPlan | packageMissing | packageReady | packageIdle | noWakeupCondition

def stuckReason (s : State) : Option Stuck :=
  match s.goal.wakeupCondition with
  | some (.plain (.owner ..)) => none
  | some (.plain (.planApproval _)) => if pendingOwnerPlan s then none else some .noPendingPlan
  | some (.plain (.package id)) =>
    match package? s (some id) with
    | none => some .packageMissing
    | some p =>
      if hasLiveTask p then none else some (if waitingExitReady p then .packageReady else .packageIdle)
  | _ => some .noWakeupCondition

/-- `resume_planning` of a goal that waits for the planner's quota. -/
def resumePlanning (s : State) (now : Nat) : State :=
  match s.goal.wakeupCondition with
  | some (.quota _ resume) =>
    { s with
      goal :=
        { s.goal.bump with
          lifecycle := resume.lifecycle
          waitingReason := resume.waitingReason
          wakeupCondition := resume.wakeupCondition.map .plain }
      updatedAt := now
      outbox := s.outbox ++
        [{ linkedEntityId := s.goal.id, key := .quotaRetry s.goal.id s.goal.version, kind := "plan_requested" }] }
  | _ => s

/-- The question of `request_owner_recovery`: about the stopped item, if there is one. -/
def recoveryQuestion (stopped : Option String) : String :=
  stopped.getD
    ("Цель стояла без движения, и разбуженный руководитель снова встал. " ++
      "Напиши, что делать: например, «запусти следующий шаг», «покажи, что осталось» или «закрой цель».")

inductive Verdict where
  /-- The goal is left alone: the pass returns `False`. -/
  | left
  | resumed | woke | escalated
  deriving DecidableEq

def escalate (s : State) (now : Nat) (stopped : Option String) : State :=
  { s with
    goal :=
      { s.goal.bump with
        waitingReason := some stalledReason
        wakeupCondition :=
          some (.plain (.owner (recoveryQuestion stopped) s.goal.scopeRevision (s.goal.version + 1) [] none)) }
    updatedAt := now }

/-- The lead gets its chance. -/
def wake (digest : Fingerprint → String) (s : State) (now : Nat) : State :=
  { s with
    goal :=
      { s.goal.bump with
        constraints := { s.goal.constraints with watchdog := some (digest (fingerprint s)) }
        lifecycle := .active
        waitingReason := none
        wakeupCondition := none }
    updatedAt := now
    outbox := enqueueGoalWakeup s.outbox {
      linkedEntityId := s.goal.id
      key := .watchdog s.goal.id (s.goal.version + 1)
      kind := "watchdog"
      packageId := s.goal.currentPackageId } }

/-- `watch_waiting_goal`, of a goal without a live lease. `stopped` is the question about a stopped item. -/
def watchWaitingGoal (digest : Fingerprint → String) (s : State) (now : Nat) (stopped : Option String) : Verdict × State :=
  if s.goal.lifecycle ≠ .waiting ∨ now < s.updatedAt + grace then (.left, s)
  else if outstandingWakeup s.outbox s.goal.id then (.left, s)
  else
    match quotaRetryAt s.goal.wakeupCondition with
    | some retryAt => if now < retryAt then (.left, s) else (.resumed, resumePlanning s now)
    | none =>
      match stuckReason s with
      | none => (.left, s)
      | some _ =>
        if s.goal.constraints.watchdog = some (digest (fingerprint s)) ∨ s.goal.hasOwnerMandate = false then
          (.escalated, escalate s now stopped)
        else (.woke, wake digest s now)

/-- Turns of the lead and everything else write what they like, but none of them writes `constraints["watchdog"]`. -/
def State.written (s u : State) : State :=
  { u with
    goal := { u.goal with constraints := { u.goal.constraints with watchdog := s.goal.constraints.watchdog } } }

end Vuzol.Watchdog
