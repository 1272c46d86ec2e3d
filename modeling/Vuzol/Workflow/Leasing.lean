import Vuzol.Workflow.RetryPolicy
import Vuzol.Workflow.Service

/-! Step claims with fencing generations (`storage/leasing.py`) and the recovery of expired leases
    (`workflows/recovery.py`). -/

namespace Vuzol.Workflow

open Vuzol.Lib

/-- A claim attempt. The candidate is the row the queue order and the disk, class and profile limits let
    through; which one that is depends on other runs, so the attempt names it. -/
structure Claim where
  stepId : Nat
  owner : String
  leaseSeconds : Nat
  capabilities : List Capability
  queueClasses : List QueueClass
  now : Nat

def claimable (s : State) (c : Claim) (x : Step) : Bool :=
  x.status = .queued && x.availableAt ≤ c.now && x.attemptCount < x.maxAttempts &&
    c.queueClasses.contains x.queueClass && x.requiredCapabilities.all (c.capabilities.contains ·) &&
    s.run.status = .running

def leaseStep (c : Claim) (x : Step) : Step :=
  { x with
    status := .leased
    leaseOwner := some c.owner
    leaseGeneration := x.leaseGeneration + 1
    leaseExpiresAt := some (c.now + c.leaseSeconds)
    attemptCount := x.attemptCount + 1 }

/-- `claim_step`; `none` when no candidate is leased. -/
def claimStep (s : State) (c : Claim) : Option (State × LeaseToken) :=
  match s.step? c.stepId with
  | none => none
  | some x =>
    if claimable s c x then
      some (s.putStep (leaseStep c x), { stepId := x.id, owner := c.owner, generation := x.leaseGeneration + 1 })
    else none

/-- `UPDATE … WHERE` on the row of a token: no matched row is a lost lease. -/
def updateLeased (s : State) (token : LeaseToken) (matched : Step → Bool) (change : Step → Step) :
    Except Failure State :=
  match s.step? token.stepId with
  | none => .error (.leaseLost token.stepId)
  | some x => if token.holds x && matched x then .ok (s.putStep (change x)) else .error (.leaseLost token.stepId)

/-- `start_step`, and `publish_step_started` in the same transaction. -/
def startStep (s : State) (token : LeaseToken) : Except Failure State := do
  let s ← updateLeased s token (fun x => x.status = .leased && s.run.status = .running)
    fun x => { x with status := .running }
  .ok (recordTaskProgress s)

def heartbeatStep (s : State) (token : LeaseToken) (now leaseSeconds : Nat) : Except Failure State :=
  updateLeased s token (fun x => x.status.isHeld && !s.run.status.isTerminal)
    fun x => { x with leaseExpiresAt := some (now + leaseSeconds) }

def completeStep (s : State) (token : LeaseToken) (result : String) : Except Failure State :=
  updateLeased s token (fun x => x.status.isHeld && !s.run.status.isTerminal)
    fun x => { x with status := .completed, result := some result, leaseOwner := none, leaseExpiresAt := none }

def exhaustedSummary : String :=
  "Исполнитель не завершил этап до истечения lease; безопасные повторы исчерпаны."

def exhaustedPausedSummary : String :=
  "Исполнитель не завершил этап до истечения lease; безопасные повторы исчерпаны. Пауза сохранена: можно продолжить или отменить."

def unknownPausedSummary : String :=
  "Аренда этапа истекла во время паузы, а внешний эффект нельзя безопасно повторить. Сверьте эффект или отмените задачу."

def unknownSummary : String :=
  "Аренда этапа истекла, а внешние эффекты нельзя безопасно определить или повторить."

def safeToRepeat (x : Step) : Bool :=
  x.status = .leased || x.idempotencyClass = .readOnly ||
    (x.idempotencyClass = .idempotent && x.externalIdempotencyKey.isSome)

def requeuesExpired (x : Step) : Bool :=
  x.status = .leased || (safeToRepeat x && x.attemptCount < x.maxAttempts)

def dropLease (x : Step) : Step := { x with leaseOwner := none, leaseExpiresAt := none }

def requeueExpired (x : Step) : Except Failure Step := do
  let y ← transitionStep x .queued
  .ok (if x.status = .leased then { y with attemptCount := y.attemptCount - 1 } else y)

def parkExpired (x : Step) : Except Failure Step :=
  if requeuesExpired x then requeueExpired x
  else if repeatableWithoutNewMutation x then do
    let y ← transitionStep x .blocked
    .ok { y with failureCategory := some leaseExpiredAttemptsExhausted, failureSummary := some exhaustedPausedSummary
                 unknownEffects := false }
  else do
    let y ← transitionStep { x with unknownEffects := true } .blocked
    .ok { y with failureCategory := some leaseExpiredUnknownEffects, failureSummary := some unknownPausedSummary }

def stopRun (s : State) (target : RunStatus) : Except Failure State :=
  if s.run.status = .running then transitionRun s target else .ok s

def stopTask (s : State) (target : TaskStatus) : Except Failure State :=
  if s.task.status = target ∨ s.task.status = .cancelled ∨ s.task.status = .completed then .ok s
  else transitionTask s target

def stopExpired (s : State) (x : Step) (runTarget : RunStatus) (taskTarget : TaskStatus) (category summary : String) :
    Except Failure State := do
  let s ← stopRun s runTarget
  let s ← stopTask s taskTarget
  let s := { s with run := { s.run with failureCategory := some category, failureSummary := some summary } }
  .ok (if x.stepType = .ensureCapabilities then abandonCapabilityInstallation s x.id else s)

def recoverOne (s : State) (x : Step) : Except Failure State :=
  if s.run.status.isTerminal then do
    let y ← transitionStep x .cancelled
    .ok (s.putStep (dropLease y))
  else if s.run.status = .paused then do
    let y ← parkExpired x
    .ok (recordTaskProgress (s.putStep (dropLease y)))
  else if requeuesExpired x then do
    let y ← requeueExpired x
    .ok (s.putStep (dropLease y))
  else if safeToRepeat x then do
    let y ← transitionStep x .failed
    let y := { y with failureCategory := some leaseExpiredAttemptsExhausted, failureSummary := some exhaustedSummary }
    stopExpired (s.putStep (dropLease y)) y .failed .failed leaseExpiredAttemptsExhausted exhaustedSummary
  else do
    let y ← transitionStep { x with unknownEffects := true } .blocked
    let y := { y with failureCategory := some leaseExpiredUnknownEffects, failureSummary := some unknownSummary }
    stopExpired (s.putStep (dropLease y)) y .blocked .blocked leaseExpiredUnknownEffects unknownSummary

def leaseExpired (now : Nat) (x : Step) : Bool := x.status.isHeld && x.leaseExpiresAt.any (· < now)

/-- `_recover_locked`: a step whose lease is not expired any more is left alone. -/
def recoverExpiredStep (s : State) (id now : Nat) : Except Failure State :=
  match s.step? id with
  | none => .ok s
  | some x => if leaseExpired now x then recoverOne s x else .ok s

end Vuzol.Workflow
