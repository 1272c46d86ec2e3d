import Vuzol.Workflow.Engine

/-! The repairs that a run schedules, in their order. The log is kept beside the rows and no operation reads it. -/

namespace Vuzol.Workflow

open Vuzol.Lib

/-- `_schedule_bounded_repair` is called for the outcome, and schedules a repair. -/
def repairScheduled (f : Facts) (s : State) (x : Step) (o : StepOutcome) : Bool :=
  o.kind = .blocked && ends Option.isSome (scheduleBoundedRepair f s x o)

structure Repair where
  stepId : Nat
  fingerprint : String
  deriving DecidableEq

def Op.repair (s : State) : Op → Option Repair
  | .commitStepOutcome f token o =>
    if ends (fun x => repairScheduled f s x o) (leasedRow s token) then
      some { stepId := token.stepId, fingerprint := f.fingerprint }
    else none
  | _ => none

structure RepairRun where
  state : State
  log : List Repair := []

def RepairRun.perform (w : RepairRun) (op : Op) : Except Failure RepairRun := do
  let t ← Workflow.perform w.state op
  .ok { state := t, log := w.log ++ (op.repair w.state).toList }

def RepairRun.of (w : RepairRun) (id : Nat) : List String :=
  (w.log.filter (·.stepId = id)).map (·.fingerprint)

/-- The runs of a materialization, under operations that `allow` lets through. -/
def RepairRun.Reached (allow : RepairRun → Op → Prop) (m : Materialization) (w : RepairRun) : Prop :=
  ∃ s, materializeRun m = .ok s ∧ Reach RepairRun.perform allow { state := s } w

end Vuzol.Workflow
