import Vuzol.Discussion.Packages
import Vuzol.Leadership.Wakeups

/-! The next turn of a lead whose decision left nothing to execute (`leadership/continuation.py`), and the waits that
    its own wakeups may leave (`_waiting_exit_ready` of `leadership/worker.py`). -/

namespace Vuzol.Continuation

open Vuzol.Discussion (Lifecycle WorkPackageStatus)
open Vuzol.Leadership (WakeupKey GoalWakeup enqueueGoalWakeup outstandingWakeup)
open Vuzol.Workflow (TaskStatus)

inductive WakeupCondition where
  | owner (question : String) (scopeRevision askedVersion : Nat)
  | package (packageId : Nat)
  | other (kind : String)
  deriving DecidableEq

/-- What counts as progress between two idle turns. The package's columns are absent without a package. -/
structure Progress where
  scopeRevision : Nat
  packageId : Option Nat
  runningRevisionId : Option (Option Nat)
  cursorOrdinal : Option Nat
  head : Option String
  ownerAnswerVersion : Option Nat
  deriving DecidableEq

/-- `constraints["continuation"]`. -/
structure Counter where
  progress : Progress
  count : Nat
  deriving DecidableEq

structure ManagedGoal where
  id : Nat
  lifecycle : Lifecycle
  waitingReason : Option String := none
  wakeupCondition : Option WakeupCondition := none
  scopeRevision : Nat := 1
  version : Nat := 1
  fenceEpoch : Nat := 0
  currentPackageId : Option Nat := none
  leaseOwner : Option String := none
  leaseUntil : Option Nat := none
  /-- The version of `constraints["owner_answer"]`. -/
  ownerAnswerVersion : Option Nat := none
  continuation : Option Counter := none
  deriving DecidableEq

structure MaterializationLink where
  planRevisionId : Nat
  ordinal : Nat
  status : TaskStatus
  deriving DecidableEq

structure WorkPackage where
  id : Nat
  managedGoalId : Option Nat
  status : WorkPackageStatus
  runningRevisionId : Option Nat := none
  cursorOrdinal : Option Nat := none
  integrationHeadCommit : Option String := none
  links : List MaterializationLink := []
  deriving DecidableEq

/-- `task_turn_ready`: every task of the item at the cursor has stopped, or there is none. -/
def taskTurnReady (p : WorkPackage) : Bool :=
  p.links.all fun l =>
    !(some l.planRevisionId == p.runningRevisionId && some l.ordinal == p.cursorOrdinal) ||
      l.status ∈ [.waitingApproval, .completed, .failed, .cancelled, .blocked, .quotaExhausted]

structure State where
  goal : ManagedGoal
  packages : List WorkPackage := []
  outbox : List GoalWakeup := []
  deriving DecidableEq

def package? (s : State) (id : Nat) : Option WorkPackage := s.packages.find? (·.id == id)

def currentPackage (s : State) : Option WorkPackage := s.goal.currentPackageId.bind (package? s)

def executing (s : State) : Bool :=
  (currentPackage s).any fun p => p.managedGoalId == some s.goal.id && p.status = .running && !taskTurnReady p

def outstanding (s : State) : Bool := outstandingWakeup s.outbox s.goal.id

def progress (s : State) : Progress where
  scopeRevision := s.goal.scopeRevision
  packageId := (currentPackage s).map (·.id)
  runningRevisionId := (currentPackage s).map (·.runningRevisionId)
  cursorOrdinal := (currentPackage s).bind (·.cursorOrdinal)
  head := (currentPackage s).bind (·.integrationHeadCommit)
  ownerAnswerVersion := s.goal.ownerAnswerVersion

def count (s : State) : Nat :=
  match s.goal.continuation with
  | some previous => if previous.progress = progress s then previous.count + 1 else 1
  | none => 1

def continuationKey (s : State) : WakeupKey := .continuation s.goal.id s.goal.version

def continuation (s : State) : GoalWakeup where
  linkedEntityId := s.goal.id
  key := continuationKey s
  kind := "continuation"
  packageId := s.goal.currentPackageId

def continuationWithoutProgress : String := "continuation_without_progress"

/-- The question of `request_owner_recovery` for a goal that went on without progress: about the stopped item, if there
    is one. -/
def recoveryQuestion (stopped : Option String) : String :=
  stopped.getD
    ("Руководитель несколько ходов подряд ничего не запустил и остановился, " ++
      "чтобы не ходить по кругу. Напиши, что делать: например, «запусти следующий шаг», " ++
      "«покажи, что осталось» или «закрой цель».")

def block (g : ManagedGoal) (stopped : Option String) : ManagedGoal :=
  { g with
    lifecycle := .waiting
    waitingReason := some continuationWithoutProgress
    wakeupCondition := some (.owner (recoveryQuestion stopped) g.scopeRevision (g.version + 1))
    version := g.version + 1
    fenceEpoch := g.fenceEpoch + 1
    leaseOwner := none
    leaseUntil := none }

/-- Write `constraints["continuation"]`. -/
def State.counted (s : State) : State :=
  { s with goal := { s.goal with continuation := some { progress := progress s, count := count s } } }

/-- `continue_if_idle`. `stopped` is the question about the stopped item of a paused package. -/
def continueIfIdle (s : State) (repeatLimit : Nat) (countPending : Bool) (stopped : Option String) : State :=
  if s.goal.lifecycle ≠ .active ∨ s.goal.wakeupCondition ≠ none then s
  else if executing s then s
  else if outstanding s && !countPending then s
  else if s.outbox.any (·.key == continuationKey s) || repeatLimit < count s then
    { s.counted with goal := block s.counted.goal stopped }
  else if outstanding s then s.counted
  else { s.counted with outbox := enqueueGoalWakeup s.outbox (continuation s) }

/-- Other commands, turns and workers write what they like, but none of them writes `constraints["continuation"]`. -/
def State.written (s u : State) : State :=
  { u with goal := { u.goal with id := s.goal.id, continuation := s.goal.continuation } }

end Vuzol.Continuation
