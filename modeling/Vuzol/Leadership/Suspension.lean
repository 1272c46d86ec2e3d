import Vuzol.Discussion.Packages
import Vuzol.Leadership.Wakeups

/-! The two ways to suspend a goal: a planner that waits for its quota (`leadership/quota_wait.py`), and a goal that is set
    aside for another one (`leadership/parking.py`). -/

namespace Vuzol.Suspension

open Vuzol.Lib
open Vuzol.Discussion (Lifecycle WorkPackageStatus Cancellation isUserTerminal)
open Vuzol.Leadership (GoalWakeup enqueueGoalWakeup)
open Vuzol.Workflow (TaskStatus)

inductive Error where
  | goalParked | goalTerminal | goalNotParkable | goalNotParked | goalLiveBlocksReturn | taskNotTerminal | integrityError
  | valueError (message : String)

/-- A wakeup condition of another kind than `quota`. -/
structure OtherCondition where
  kind : String
  fields : List (String × Json)
  notQuota : kind ≠ "quota"

/-- `resume`: the columns before the planner was parked. -/
structure Resume where
  lifecycle : Lifecycle
  waitingReason : Option String
  wakeupCondition : Option OtherCondition

structure QuotaCondition where
  retryAt : Nat
  profileId : Option String
  fallbackProfileId : Option String
  request : List (String × Json)
  resume : Resume

inductive WakeupCondition where
  | quota (q : QuotaCondition)
  | other (c : OtherCondition)

structure SavedPackage where
  id : Nat
  status : WorkPackageStatus
  activeInTopic : Bool

/-- `constraints["parked"]`. -/
structure Parked where
  lifecycle : Lifecycle
  waitingReason : Option String
  wakeupCondition : Option WakeupCondition
  package : Option SavedPackage
  interruptedTaskId : Option Nat

structure ManagedGoal where
  id : Nat
  currentPackageId : Option Nat := none
  lifecycle : Lifecycle
  waitingReason : Option String := none
  wakeupCondition : Option WakeupCondition := none
  parked : Option Parked := none
  scopeRevision : Nat := 1
  version : Nat := 1
  fenceEpoch : Nat := 0

/-- `LIVE_GOAL_LIFECYCLES`. -/
def live : Lifecycle → Bool
  | .draft | .active | .waiting | .paused => true
  | .parked | .completed | .cancelled => false

structure WorkPackage where
  id : Nat
  status : WorkPackageStatus
  version : Nat := 1
  currentTask : Option (Nat × TaskStatus) := none

structure State where
  goal : ManagedGoal
  /-- `_package`. -/
  package : Option WorkPackage := none
  /-- `active_work_package_id` of the package's discussion session. -/
  topic : Option Nat := none
  /-- The lifecycles of the project's other goals, and the statuses of the session's other packages. -/
  otherGoals : List Lifecycle := []
  otherPackages : List WorkPackageStatus := []
  outbox : List GoalWakeup := []

structure QuotaOutcome where
  retryAt : Option Nat := none
  profileId : Option String := none
  fallbackProfileId : Option String := none
  payload : List (String × Json) := []
  now : Nat

def requestKeys : List String := ["command_name", "request", "owner_corrections"]

def heldRequest (payload : List (String × Json)) : List (String × Json) :=
  requestKeys.filterMap fun key => (payload.lookup key).map (key, ·)

/-- `retry_at`, at least a minute from now; an hour without a reset time. -/
def retryTime (o : QuotaOutcome) : Nat := max (o.retryAt.getD (o.now + 3600)) (o.now + 60)

def resumeOf (g : ManagedGoal) : Resume :=
  match g.wakeupCondition with
  | some (.quota q) => q.resume
  | some (.other c) => { lifecycle := g.lifecycle, waitingReason := g.waitingReason, wakeupCondition := some c }
  | none => { lifecycle := g.lifecycle, waitingReason := g.waitingReason, wakeupCondition := none }

def parkPlannerForQuota (g : ManagedGoal) (o : QuotaOutcome) : ManagedGoal :=
  { g with
    lifecycle := .waiting
    waitingReason := some "planner_quota"
    wakeupCondition := some (.quota {
      retryAt := retryTime o
      profileId := o.profileId
      fallbackProfileId := o.fallbackProfileId
      request := heldRequest o.payload
      resume := resumeOf g }) }

def applyQuotaOutcome (s : State) (o : QuotaOutcome) : Except Error State :=
  if s.goal.lifecycle = .parked then .error .goalParked
  else if live s.goal.lifecycle = false then .error .goalTerminal
  else .ok { s with goal := parkPlannerForQuota s.goal o }

/-- `resume_planning`: whether there was a wait to end. -/
def resumePlanning (s : State) (key : String) (plannerProfileId : Option String) : Except Error (State × Bool) :=
  match s.goal.wakeupCondition with
  | some (.quota q) =>
    if s.goal.lifecycle ≠ .waiting then .ok (s, false)
    else if s.outbox.any (·.key == .given key) then .error .integrityError
    else .ok ({ s with
      goal := { s.goal with
        lifecycle := q.resume.lifecycle
        waitingReason := q.resume.waitingReason
        wakeupCondition := q.resume.wakeupCondition.map .other
        version := s.goal.version + 1
        fenceEpoch := s.goal.fenceEpoch + 1 }
      outbox := s.outbox ++ [{
        linkedEntityId := s.goal.id
        key := .given key
        kind := "plan_requested"
        scopeRevision := some s.goal.scopeRevision
        request := q.request
        plannerProfileId := plannerProfileId }] }, true)
  | _ => .ok (s, false)

/-- `observe_terminal` on the task at the cursor: a running package pauses. -/
def observeInterrupted (p : WorkPackage) : WorkPackage :=
  if p.status = .running then { p with status := .paused, version := p.version + 1 } else p

/-- The task at the cursor stops now; its id, if it was still at work. -/
def interrupt (p : WorkPackage) (c : Cancellation) : Except Error (WorkPackage × Option Nat) :=
  match p.currentTask with
  | none => .ok (p, none)
  | some (id, status) =>
    if isUserTerminal status then .ok (p, none)
    else match c with
      | .settles => .ok (observeInterrupted { p with currentTask := some (id, .cancelled) }, some id)
      | .alreadyCancelled =>
        if status = .quotaExhausted then .ok (observeInterrupted p, some id) else .error .taskNotTerminal
      | .refused => .error (.valueError "terminal run cannot cancel")

/-- A live package stops, and its topic is free; what it was is saved. -/
def parkPackage (s : State) (c : Cancellation) : Except Error (State × Option SavedPackage × Option Nat) :=
  match s.package with
  | none => .ok (s, none, none)
  | some p =>
    if p.status.isLive then do
      let (p, interrupted) ← interrupt p c
      .ok ({ s with
          package := some { p with status := .stopped, version := p.version + 1 }
          topic := if s.topic = some p.id then none else s.topic },
        some { id := p.id, status := p.status, activeInTopic := s.topic = some p.id }, interrupted)
    else .ok (s, none, none)

def parkGoal (s : State) (c : Cancellation) : Except Error State :=
  if live s.goal.lifecycle = false then .error .goalNotParkable
  else do
    let (s, package, interrupted) ← parkPackage s c
    .ok { s with goal := { s.goal with
      parked := some {
        lifecycle := s.goal.lifecycle
        waitingReason := s.goal.waitingReason
        wakeupCondition := s.goal.wakeupCondition
        package := package
        interruptedTaskId := interrupted }
      lifecycle := .parked
      waitingReason := none
      wakeupCondition := none
      version := s.goal.version + 1
      fenceEpoch := s.goal.fenceEpoch + 1 } }

def returnPackage (s : State) : Except Error State :=
  match s.goal.parked.bind (·.package), s.package with
  | some stored, some p =>
    if p.id ≠ stored.id then .ok s
    else if s.otherPackages.any (·.isLive) || p.status.isLive then .error .goalLiveBlocksReturn
    else .ok { s with
      package := some { p with status := stored.status, version := p.version + 1 }
      topic := if stored.activeInTopic ∧ s.topic = none then some p.id else s.topic }
  | _, _ => .ok s

def unparkGoal (s : State) : Except Error State :=
  if s.goal.lifecycle ≠ .parked then .error .goalNotParked
  else if s.otherGoals.any live then .error .goalLiveBlocksReturn
  else do
    let s ← returnPackage s
    let g := { s.goal with
      lifecycle := s.goal.parked.elim .active (·.lifecycle)
      waitingReason := s.goal.parked.bind (·.waitingReason)
      wakeupCondition := s.goal.parked.bind (·.wakeupCondition)
      parked := none
      version := s.goal.version + 1
      fenceEpoch := s.goal.fenceEpoch + 1 }
    .ok { s with
      goal := g
      outbox := enqueueGoalWakeup s.outbox {
        linkedEntityId := g.id
        key := .unparked g.id g.version
        kind := "unparked"
        packageId := g.currentPackageId } }

/-- `PAUSE_GOAL` leaves the wakeup condition. -/
def pauseGoal (g : ManagedGoal) : ManagedGoal :=
  { g with lifecycle := .paused, waitingReason := some "owner_pause", version := g.version + 1, fenceEpoch := g.fenceEpoch + 1 }

inductive Op where
  | quota (o : QuotaOutcome)
  | park (c : Cancellation)
  | unpark
  /-- What becomes of the project's other goals and packages, and of a topic that does not show this package. -/
  | others (goals : List Lifecycle) (packages : List WorkPackageStatus) (topic : Option Nat)

def perform (s : State) : Op → Except Error State
  | .quota o => applyQuotaOutcome s o
  | .park c => parkGoal s c
  | .unpark => unparkGoal s
  | .others goals packages topic => .ok { s with otherGoals := goals, otherPackages := packages, topic := topic }

def lastQuota : List Op → Option QuotaOutcome
  | [] => none
  | .quota o :: ops => some ((lastQuota ops).getD o)
  | _ :: ops => lastQuota ops

end Vuzol.Suspension
