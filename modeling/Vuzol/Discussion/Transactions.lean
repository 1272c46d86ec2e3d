import Vuzol.Discussion.Sequencer

/-! The transactions that reach one work package: the commands of its plan and of its queue, the observation
    of its tasks, the parking of its goal (`leadership/parking.py`), and what the workflow engine and the
    lead write to the rows that these commands read. -/

namespace Vuzol.Discussion

open Vuzol.Lib
open Vuzol.Workflow (TaskStatus)

/-- `LIVE_GOAL_LIFECYCLES`. -/
def Lifecycle.isLive : Lifecycle → Bool
  | .draft | .active | .waiting | .paused => true
  | _ => false

def interrupt (s : State) (c : Cancellation) (now : Nat) : Except Error (State × Option Nat) :=
  match s.currentTask with
  | none => .ok (s, none)
  | some t =>
    if isUserTerminal t.status then .ok (s, none)
    else do
      let s ← cancelTask s t c
      let (s, _) ← observeTerminal s t.id now
      .ok (s, some t.id)

def parkPackage (s : State) (goal : ManagedGoal) (c : Cancellation) (now : Nat) :
    Except Error (State × Option (WorkPackageStatus × Bool) × Option Nat) :=
  if goal.currentPackage && s.package.status.isLive then do
    let (s, interrupted) ← interrupt s c now
    .ok ({ s with
        package := { s.package with status := .stopped, version := s.package.version + 1 }
        activeInTopic := false },
      some (s.package.status, s.activeInTopic), interrupted)
  else .ok (s, none, none)

/-- The goal keeps what it was, to return to it. -/
def ManagedGoal.park (goal : ManagedGoal) (saved : Option (WorkPackageStatus × Bool)) (interrupted : Option Nat) :
    ManagedGoal :=
  { goal with
    parked := some {
      lifecycle := goal.lifecycle
      waitingReason := goal.waitingReason
      package := saved
      interruptedTaskId := interrupted }
    lifecycle := .parked
    waitingReason := none
    version := goal.version + 1
    fenceEpoch := goal.fenceEpoch + 1 }

def ManagedGoal.unpark (goal : ManagedGoal) : ManagedGoal :=
  { goal with
    lifecycle := goal.parked.elim .active (·.lifecycle)
    waitingReason := goal.parked.bind (·.waitingReason)
    parked := none
    version := goal.version + 1
    fenceEpoch := goal.fenceEpoch + 1 }

def parkGoal (s : State) (c : Cancellation) (now : Nat) : Except Error State :=
  match s.goal with
  | none => .error .lookupError
  | some goal =>
    if !goal.lifecycle.isLive then .error (.domain .goalNotParkable)
    else do
      let (s, saved, interrupted) ← parkPackage s goal c now
      .ok { s with goal := some (goal.park saved interrupted) }

def returnPackage (s : State) (goal : ManagedGoal) (otherPackageLive topicFree : Bool) : Except Error State :=
  match goal.parked.bind (·.package) with
  | none => .ok s
  | some (status, active) =>
    if !goal.currentPackage then .ok s
    else if otherPackageLive || s.package.status.isLive then .error (.domain .goalLiveBlocksReturn)
    else .ok { s with
      package := { s.package with status := status, version := s.package.version + 1 }
      activeInTopic := s.activeInTopic || (active && topicFree) }

/-- `unpark_goal`. The flags say what is live beside this goal, another goal of the project or another
    package of the topic, and whether the topic shows no package. -/
def unparkGoal (s : State) (otherGoalLive otherPackageLive topicFree : Bool) : Except Error State :=
  match s.goal with
  | none => .error .lookupError
  | some goal =>
    if goal.lifecycle ≠ .parked then .error (.domain .goalNotParked)
    else if otherGoalLive then .error (.domain .goalLiveBlocksReturn)
    else do
      let s ← returnPackage s goal otherPackageLive topicFree
      .ok { s with goal := some goal.unpark }

/-- The workflow engine moves a task along its transitions; this is also what task-level commands do. No
    transaction takes a completed task back: `ROLLED_BACK` is in the table, and nothing writes it. -/
def taskMoves (s : State) (taskId : Nat) (target : TaskStatus) : Except Error State :=
  match s.task? taskId with
  | none => .error .lookupError
  | some t =>
    if target = .rolledBack then .error (.illegalTransition t.status target) else transitionTask s t target

/-- `record_task_progress`: the version of a task advances, its status stays. -/
def taskProgresses (s : State) (taskId : Nat) : Except Error State :=
  match s.task? taskId with
  | none => .error .lookupError
  | some t => .ok (s.putTask { t with version := t.version + 1 })

def republish (s : State) (taskId : Nat) : Except Error State :=
  match s.task? taskId with
  | none => .error .lookupError
  | some t => .ok (publishTaskEvent s t)

/-- The lead and the owner write the goal. What `park_goal` saved is written by no other command. -/
def leadWrites (s : State) (goal : ManagedGoal) (delegations : List GoalDelegation) : State :=
  { s with
    goal := s.goal.map fun g => { goal with parked := g.parked }
    delegations := delegations }

inductive Op where
  | reviseDraft (r : ReviseRequest)
  | restartPlan (fence : Fence) (now : Nat)
  | approve (r : ApproveRequest)
  | bindDelegatedApproval (r : BindRequest)
  | start (r : StartRequest)
  | discard (fence : Fence)
  | stopPackage (fence : Fence) (c : Cancellation)
  | finishPackage (fence : Fence) (c : Cancellation)
  | observeTerminal (taskId now : Nat)
  | processSequenceItem (taskId version now : Nat)
  | skipCurrent (c : Cancellation) (now : Nat)
  | materializeRunning (now : Nat)
  | retryFailedItem (fence : Fence)
  | retryItem (fence : Fence)
  | skipItem (fence : Fence)
  | pauseForItemOutcome (r : PauseRequest)
  | parkGoal (c : Cancellation) (now : Nat)
  | unparkGoal (otherGoalLive otherPackageLive topicFree : Bool)
  | taskMoves (taskId : Nat) (target : TaskStatus)
  | taskProgresses (taskId : Nat)
  | republish (taskId : Nat)
  | workflowWrites (runs : List Run) (integrationHeadCommit : Option String)
  | leadWrites (goal : ManagedGoal) (delegations : List GoalDelegation)

variable (digest : PlanBody → Digest)

/-- One transaction. Only a restart revises a stopped package. -/
def perform (s : State) : Op → Except Error State
  | .reviseDraft r => reviseDraft digest s { r with allowStopped := false }
  | .restartPlan fence now => restartPlan digest s fence now
  | .approve r => approve digest s r
  | .bindDelegatedApproval r => bindDelegatedApproval digest s r
  | .start r => (start digest s r).map Prod.fst
  | .discard fence => discard s fence
  | .stopPackage fence c => stopPackage s fence c
  | .finishPackage fence c => finishPackage s fence c
  | .observeTerminal taskId now => (observeTerminal s taskId now).map Prod.fst
  | .processSequenceItem taskId version now => processSequenceItem s taskId version now
  | .skipCurrent c now => (skipCurrent s c now).map Prod.fst
  | .materializeRunning now => (materializeRunning s now).map Prod.fst
  | .retryFailedItem fence => (retryFailedItem s fence).map Prod.fst
  | .retryItem fence => retryItem s fence
  | .skipItem fence => skipItem s fence
  | .pauseForItemOutcome r => pauseForItemOutcome s r
  | .parkGoal c now => parkGoal s c now
  | .unparkGoal otherGoalLive otherPackageLive topicFree => unparkGoal s otherGoalLive otherPackageLive topicFree
  | .taskMoves taskId target => taskMoves s taskId target
  | .taskProgresses taskId => taskProgresses s taskId
  | .republish taskId => republish s taskId
  | .workflowWrites runs commit =>
    .ok { s with runs := runs, package := { s.package with integrationHeadCommit := commit } }
  | .leadWrites goal delegations => .ok (leadWrites s goal delegations)

/-- A state in which `create_draft` leaves a new package. -/
def Created (s : State) : Prop :=
  ∃ topic goal delegations plan commit, createDraft digest topic goal delegations plan commit = .ok s

end Vuzol.Discussion
