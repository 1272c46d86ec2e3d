import Vuzol.Workflow.Engine

/-! The runs of one task. They share the task row and the recovery policy of the first run, and a repair is
    counted over all of them. Each run carries two tallies that no operation reads: the claims of its steps, and
    the attempts that were given back. -/

namespace Vuzol.Workflow

open Vuzol.Lib

def Op.isAutomatic : Op → Bool
  | .startRun _ | .claimStep _ | .startStep _ | .heartbeatStep .. | .commitStepOutcome .. | .recoverExpiredStep .. |
    .blockRoute .. | .requestApproval .. | .wakeCapabilityWaiter .. | .recordEffects _ => true
  | .pauseTask _ | .resumeTask .. | .cancelTask _ | .retryTask _ | .continueOwnerDecision .. | .decideResult .. |
    .recoverValidationEnvironment .. | .recoverUnsentCliReview .. | .continueTask => false

def Op.claims (s : State) : Op → Nat
  | .claimStep c => if (Workflow.claimStep s c).isSome then 1 else 0
  | _ => 0

/-- The attempts that an operation gives back, but for backpressure: a lease that expired before its step was
    started, and a wait for a shared installation that settled. -/
def Op.refunds (s : State) : Op → Nat
  | .recoverExpiredStep id now => if (s.step? id).any fun x => leaseExpired now x && x.status = .leased then 1 else 0
  | .commitStepOutcome f token o =>
    if (s.step? token.stepId).any fun x => o.kind = .needsApproval && sharedApprovalSettled f x then 1 else 0
  | .wakeCapabilityWaiter id approvalId =>
    if (s.step? id).any fun x => x.status = .waitingApproval && x.payload.capabilityWaitApprovalId = some approvalId &&
      s.run.status = .running then 1 else 0
  | _ => 0

structure TaskRun where
  plan : Materialization
  state : State
  claims : Nat := 0
  refunds : Nat := 0

structure TaskRuns where
  task : Task
  runs : List TaskRun := []

/-- The `repair_code` rows of a table. -/
def repairsOf (rows : List Step) : Nat := rows.countP fun x => x.templateKey = .repairCode

def TaskRun.repairs (r : TaskRun) : Nat := repairsOf r.state.steps

/-- The `repair_code` steps of a task, over all its runs. -/
def TaskRuns.repairs (w : TaskRuns) : Nat := (w.runs.map TaskRun.repairs).sum

def TaskRuns.recoveryPolicy (w : TaskRuns) (given : RecoveryPolicy) : RecoveryPolicy :=
  match w.runs with
  | [] => given
  | r :: _ => r.state.run.recoveryPolicy

def Op.counting (otherRepairs : Nat) : Op → Op
  | .commitStepOutcome f token o => .commitStepOutcome { f with otherRepairs := otherRepairs } token o
  | op => op

inductive TaskOp where
  | materialize (m : Materialization)
  | advance (k : Nat) (op : Op)

def TaskOp.isAutomatic : TaskOp → Bool
  | .materialize _ => true
  | .advance _ op => op.isAutomatic

/-- An operation on the `k`-th run sees the task as the other runs left it. -/
def TaskRuns.perform (w : TaskRuns) : TaskOp → Except Failure TaskRuns
  | .materialize m => do
    let m := { m with task := w.task, recoveryPolicy := w.recoveryPolicy m.recoveryPolicy }
    let s ← materializeRun m
    .ok { task := s.task, runs := w.runs ++ [{ plan := m, state := s }] }
  | .advance k op =>
    match w.runs[k]? with
    | none => .error (.valueError "run not found")
    | some r => do
      let s := { r.state with task := w.task }
      let op := op.counting (w.repairs - r.repairs)
      let t ← Workflow.perform s op
      .ok { task := t.task
            runs := w.runs.set k { r with state := t, claims := r.claims + op.claims s
                                          refunds := r.refunds + op.refunds s } }

def Unattended (task : Task) (w : TaskRuns) : Prop :=
  Reach TaskRuns.perform (fun _ a => a.isAutomatic = true) { task := task } w

end Vuzol.Workflow
