import Vuzol.Workflow.Compiler
import Vuzol.Workflow.Controls
import Vuzol.Workflow.Leasing

/-! The engine as a machine: every operation that touches the rows of a run is one transaction, and they
    interleave in any order. -/

namespace Vuzol.Workflow

open Vuzol.Lib

/-- One transaction, with everything it is given from outside the rows. -/
inductive Op where
  | startRun (f : Facts)
  | claimStep (c : Claim)
  | startStep (token : LeaseToken)
  | heartbeatStep (token : LeaseToken) (now leaseSeconds : Nat)
  | commitStepOutcome (f : Facts) (token : LeaseToken) (outcome : StepOutcome)
  | recoverExpiredStep (id now : Nat)
  | pauseTask (expectedVersion : Option Nat)
  | resumeTask (f : Facts) (expectedVersion : Option Nat) (undrained : Bool)
  | cancelTask (expectedVersion : Option Nat)
  | retryTask (r : RetryRequest)
  | continueOwnerDecision (action : OwnerAction) (r : RetryRequest) (recorded : Bool)
  | decideResult (approvalId : Nat) (decision : Decision) (userId : Int) (now : Nat)
  | recoverValidationEnvironment (r : OperatorRequest) (retained unused : Bool)
  | recoverUnsentCliReview (r : OperatorRequest) (pinned unsent retained accounted : Bool)
  | continueTask
  | blockRoute (id now : Nat) (category summary : String) (quota : Bool)
  | requestApproval (token : LeaseToken) (body : String) (shared : Option Nat) (expiresAt : Nat)
  | wakeCapabilityWaiter (id approvalId : Nat)
  | recordEffects (effects : List Effect)

def perform (s : State) : Op → Except Failure State
  | .startRun f => startRun f s
  -- A worker that finds no candidate goes back to sleep.
  | .claimStep c => .ok ((claimStep s c).elim s Prod.fst)
  | .startStep token => startStep s token
  | .heartbeatStep token now leaseSeconds => heartbeatStep s token now leaseSeconds
  | .commitStepOutcome f token outcome => commitStepOutcome f s token outcome
  | .recoverExpiredStep id now => recoverExpiredStep s id now
  | .pauseTask expectedVersion => pauseTask s expectedVersion
  | .resumeTask f expectedVersion undrained => resumeTask f s expectedVersion undrained
  | .cancelTask expectedVersion => cancelTask s expectedVersion
  | .retryTask r => retryTask s r
  | .continueOwnerDecision action r recorded => continueOwnerDecision s action r recorded
  | .decideResult approvalId decision userId now => decideResult s approvalId decision userId now
  | .recoverValidationEnvironment r retained unused => recoverValidationEnvironment s r retained unused
  | .recoverUnsentCliReview r pinned unsent retained accounted =>
    recoverUnsentCliReview s r pinned unsent retained accounted
  | .continueTask => continueTask s
  | .blockRoute id now category summary quota => blockRoute s id now category summary quota
  | .requestApproval token body shared expiresAt => requestApproval s token body shared expiresAt
  | .wakeCapabilityWaiter id approvalId => wakeCapabilityWaiter s id approvalId
  | .recordEffects effects => .ok (recordEffects s effects)

inductive TaskCommand where
  | pause (expectedVersion : Option Nat)
  | resume (f : Facts) (expectedVersion : Option Nat) (undrained : Bool)
  | cancel (expectedVersion : Option Nat)
  | retry (r : RetryRequest)

/-- `apply_task_command`. -/
def TaskCommand.op : TaskCommand → Op
  | .pause expectedVersion => .pauseTask expectedVersion
  | .resume f expectedVersion undrained => .resumeTask f expectedVersion undrained
  | .cancel expectedVersion => .cancelTask expectedVersion
  | .retry r => .retryTask r

inductive Receipt where
  | processed
  | rejected (reason : String)
  | leased

/-- `WorkflowControlConsumer.process_one` after its claim. The command runs in a savepoint: a `ValueError`
    rolls it back and is recorded, any other error rolls the whole transaction back. -/
def processOne (s : State) (c : TaskCommand) : State × Receipt :=
  match perform s c.op with
  | .ok t => (t, .processed)
  | .error (.valueError message) => (s, .rejected (String.ofList (message.toList.take 500)))
  | .error _ => (s, .leased)

/-- The states of a run from its materialization on, under operations that `allow` lets through. -/
def Reached (allow : State → Op → Prop) (m : Materialization) (s : State) : Prop :=
  ∃ s₀, materializeRun m = .ok s₀ ∧ Reach perform allow s₀ s

def anyOp (_ : State) (_ : Op) : Prop := True

/-- A state that a script of allowed operations ends in. -/
theorem Reached.of_runOps (allow : State → Op → Prop) (m : Materialization) (ops : List Op) (p : State → Bool)
    (hall : ∀ a ∈ ops, ∀ u, allow u a) (h : ends (fun s => ends p (runOps perform s ops)) (materializeRun m) = true) :
    ∃ s, Reached allow m s ∧ p s = true := by
  obtain ⟨s0, hm, h0⟩ := exists_of_ends h
  obtain ⟨s, hs, hp⟩ := exists_of_ends h0
  exact ⟨s, ⟨s0, hm, reach_of_runOps hall hs⟩, hp⟩

/-- What every materialized run has and every allowed operation keeps holds in every state reached. -/
theorem Reached.invariant {allow : State → Op → Prop} {m : Materialization} {s : State} {P : State → Prop}
    (h : Reached allow m s) (init : ∀ {s₀}, materializeRun m = .ok s₀ → P s₀)
    (keep : ∀ {u v : State} {a : Op}, P u → allow u a → perform u a = .ok v → P v) : P s := by
  obtain ⟨s₀, h0, h⟩ := h
  exact h.invariant (init h0) keep

end Vuzol.Workflow
