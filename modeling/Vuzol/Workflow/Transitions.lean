import Vuzol.Lib.Machine
import Vuzol.Workflow.Model

/-! The legal transitions of tasks, runs and steps (`workflows/transitions.py`). -/

namespace Vuzol.Workflow

def taskTransitions : TaskStatus → List TaskStatus
  | .received => [.interpreted, .awaitingUser, .failed, .cancelled]
  | .interpreted => [.contextPrepared, .planned, .executing, .awaitingUser, .paused, .quotaExhausted, .blocked, .failed,
      .cancelled, .completed]
  | .contextPrepared => [.planned, .waitingApproval, .executing, .awaitingUser, .paused, .blocked, .failed, .cancelled]
  | .planned => [.contextPrepared, .waitingApproval, .executing, .awaitingUser, .paused, .quotaExhausted, .blocked,
      .failed, .cancelled]
  | .waitingApproval => [.executing, .awaitingUser, .paused, .blocked, .failed, .cancelled]
  | .executing => [.contextPrepared, .validating, .reviewing, .waitingApproval, .awaitingUser, .retrying,
      .quotaExhausted, .paused, .blocked, .failed, .cancelled, .completed]
  | .validating => [.reviewing, .executing, .awaitingUser, .retrying, .quotaExhausted, .paused, .blocked, .failed,
      .cancelled, .completed]
  | .reviewing => [.executing, .validating, .retrying, .waitingApproval, .awaitingUser, .quotaExhausted, .paused,
      .blocked, .failed, .cancelled, .completed]
  | .awaitingUser => [.interpreted, .executing, .validating, .reviewing, .paused, .blocked, .failed, .cancelled]
  | .paused => [.interpreted, .contextPrepared, .planned, .waitingApproval, .executing, .validating, .reviewing,
      .blocked, .failed, .cancelled]
  | .retrying => [.contextPrepared, .planned, .waitingApproval, .executing, .validating, .reviewing, .awaitingUser,
      .quotaExhausted, .paused, .blocked, .failed, .cancelled]
  | .quotaExhausted => [.retrying, .awaitingUser, .blocked, .cancelled]
  | .blocked => [.retrying, .awaitingUser, .paused, .failed, .cancelled]
  | .completed => [.rolledBack]
  | .failed | .cancelled | .rolledBack => []

def runTransitions : RunStatus → List RunStatus
  | .created => [.running, .awaitingUser, .paused, .blocked, .failed, .cancelled]
  | .running => [.awaitingUser, .paused, .blocked, .failed, .cancelled, .completed]
  | .awaitingUser => [.running, .paused, .blocked, .failed, .cancelled]
  | .paused => [.running, .blocked, .failed, .cancelled]
  | .blocked => [.running, .awaitingUser, .paused, .failed, .cancelled]
  | .failed | .cancelled | .completed => []

def stepTransitions : StepStatus → List StepStatus
  | .pending => [.queued, .waitingApproval, .awaitingUser, .blocked, .failed, .cancelled]
  | .queued => [.leased, .awaitingUser, .blocked, .failed, .cancelled]
  | .leased => [.running, .queued, .blocked, .failed, .cancelled]
  | .running => [.completed, .queued, .waitingApproval, .awaitingUser, .blocked, .failed, .cancelled]
  | .waitingApproval => [.queued, .blocked, .failed, .cancelled]
  | .awaitingUser => [.queued, .blocked, .failed, .cancelled]
  | .blocked => [.queued, .failed, .cancelled]
  | .failed | .cancelled | .completed => []

def transitionTask (s : State) (target : TaskStatus) : Except Failure State :=
  if target ∈ taskTransitions s.task.status then
    .ok { s with task := { s.task with status := target, version := s.task.version + 1 } }
  else .error (.illegalTask s.task.status target)

def transitionRun (s : State) (target : RunStatus) : Except Failure State :=
  if target ∈ runTransitions s.run.status then .ok { s with run := { s.run with status := target } }
  else .error (.illegalRun s.run.status target)

def transitionStep (x : Step) (target : StepStatus) : Except Failure Step :=
  if target ∈ stepTransitions x.status then .ok { x with status := target }
  else .error (.illegalStep x.status target)

def moveTask (s : State) (target : TaskStatus) : Except Failure State :=
  if s.task.status = target then .ok s else transitionTask s target

theorem transitionTask_eq_ok {s t : State} {target : TaskStatus} :
    transitionTask s target = .ok t ↔ target ∈ taskTransitions s.task.status ∧
      t = { s with task := { s.task with status := target, version := s.task.version + 1 } } := by
  unfold transitionTask
  split <;> simp_all [eq_comm]

theorem transitionRun_eq_ok {s t : State} {target : RunStatus} :
    transitionRun s target = .ok t ↔ target ∈ runTransitions s.run.status ∧
      t = { s with run := { s.run with status := target } } := by
  unfold transitionRun
  split <;> simp_all [eq_comm]

theorem transitionStep_eq_ok {x y : Step} {target : StepStatus} :
    transitionStep x target = .ok y ↔ target ∈ stepTransitions x.status ∧ y = { x with status := target } := by
  unfold transitionStep
  split <;> simp_all [eq_comm]

theorem transitionStep_bind {α : Type} {x : Step} {target : StepStatus} {f : Step → Except Failure α} {a : α} :
    (transitionStep x target >>= f) = .ok a ↔ target ∈ stepTransitions x.status ∧ f { x with status := target } = .ok a := by
  simp only [Lib.bind_eq_ok, transitionStep_eq_ok, and_assoc, exists_and_left, exists_eq_left]

end Vuzol.Workflow
