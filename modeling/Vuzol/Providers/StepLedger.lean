import Vuzol.Providers.Transactions
import Vuzol.Workflow.Engine

/-! One run together with the reservations of its steps: the transactions of the workflow engine with the
    settlements that two of them make (`workflows/recovery.py`, `workflows/controls.py`), the clean-up of a
    cancelled attempt (`workflows/worker.py`), the calls of the handlers and the orphan sweep. -/

namespace Vuzol.Providers

open Vuzol.Lib
open Vuzol.Workflow (StepStatus)

def Settlement.ofCall : Settlement → Bool
  | .closeStepReservations .. | .releaseOrphanReservations .. => false
  | _ => true

/-- No operation reads `begun`: it has the reservations that were open when their step was started. -/
structure StepLedger where
  run : Workflow.State
  ledger : Ledger := {}
  begun : List Nat := []

inductive StepLedgerFailure where
  | engine (e : Workflow.Failure)
  | ledger (e : LedgerError)

inductive StepLedgerOp where
  | engine (op : Workflow.Op)
  /-- `reserve_budget`, for a step of the run or for no step. -/
  | reserve (g : Registry) (q : ReserveRequest)
  | settle (f : Surroundings) (op : { op : Settlement // op.ofCall = true })
  /-- The worker closes what the handler of a cancelled attempt left behind. -/
  | cancelled (f : Surroundings) (stepId : Nat)
  | sweep (f : Surroundings) (olderThanSeconds batchSize : Nat)

namespace StepLedger

def openOf (s : StepLedger) (stepId : Nat) : List ProviderBudgetReservation :=
  s.ledger.reservations.filter fun r => r.stepId == some stepId && r.status = .reserved

def around (s : StepLedger) (f : Surroundings) : Surroundings := { f with step? := s.run.step? }

/-- `recover_unsent_cli_review`: the open reservations of the failed epoch were not sent. -/
def releaseUnsent (s : StepLedger) (stepId : Nat) : Except LedgerError Ledger :=
  ((s.openOf stepId).filter fun r => r.budgetEpoch == s.run.task.budgetEpoch).foldlM
    (fun l r => releaseReservationUnfenced l r.id) s.ledger

/-- The ledger after a transaction of the engine. `_recover_one` releases what a step that was never started
    holds, and charges the rest. -/
def settledBy (s : StepLedger) : Workflow.Op → Except LedgerError Ledger
  | .recoverExpiredStep id now =>
    match (s.run.step? id).filter (Workflow.leaseExpired now) with
    | none => .ok s.ledger
    | some x =>
      if x.status = .leased then closeStepReservations s.ledger now id "lease_expired_before_start" true none
      else closeStepReservations s.ledger now id "lease_expired" false none
  | .recoverUnsentCliReview r .. => s.releaseUnsent r.stepId
  | _ => .ok s.ledger

def startedWith (s : StepLedger) : Workflow.Op → List Nat
  | .startStep token => (s.openOf token.stepId).map (·.id)
  | _ => []

def known (s : StepLedger) (q : ReserveRequest) : Bool := q.stepId.all fun id => (s.run.step? id).isSome

def perform (s : StepLedger) : StepLedgerOp → Except StepLedgerFailure StepLedger
  | .engine op => do
    let run ← (Workflow.perform s.run op).mapError .engine
    let ledger ← (s.settledBy op).mapError .ledger
    .ok { run, ledger, begun := s.begun ++ s.startedWith op }
  | .reserve g q => do
    raiseIf (s.known q = false) (.ledger (.integrityError "provider_budget_reservations.step_id"))
    let ledger ← (Providers.reserve g s.ledger q).mapError .ledger
    .ok { s with ledger }
  | .settle f op => do
    let ledger ← (op.1.perform (s.around f) s.ledger).mapError .ledger
    .ok { s with ledger }
  | .cancelled f stepId => do
    let ledger ← (closeStepReservations s.ledger f.now stepId "cancelled" false none).mapError .ledger
    .ok { s with ledger }
  | .sweep f olderThanSeconds batchSize => do
    let ledger ← (releaseOrphanReservations (s.around f) s.ledger olderThanSeconds batchSize).mapError .ledger
    .ok { s with ledger }

def hanging (s : StepLedger) (r : ProviderBudgetReservation) : Bool := r.status = .reserved && s.begun.contains r.id

def waits (x : Workflow.Step) : Bool := x.status = .pending || x.status = .queued || x.status = .leased

def requeues (s : StepLedger) (op : StepLedgerOp) (r : ProviderBudgetReservation) : Bool :=
  match op, r.stepId with
  | .engine op, some id =>
    !((s.run.step? id).any waits) && ends (fun t => (t.step? id).any waits) (Workflow.perform s.run op)
  | _, _ => false

/-- The operation closes the reservation of the step that it puts back: the recovery of its expired lease, or of
    a review that was not sent in this epoch. -/
def closes (s : StepLedger) (op : StepLedgerOp) (r : ProviderBudgetReservation) : Bool :=
  match op with
  | .engine (.recoverExpiredStep id _) => r.stepId == some id
  | .engine (.recoverUnsentCliReview request ..) =>
    r.stepId == some request.stepId && r.budgetEpoch == s.run.task.budgetEpoch
  | _ => false

def SettledFirst (s : StepLedger) (op : StepLedgerOp) : Prop :=
  ∀ r ∈ s.ledger.reservations, s.hanging r = true → s.requeues op r = true → s.closes op r = true

instance (s : StepLedger) (op : StepLedgerOp) : Decidable (s.SettledFirst op) := by
  unfold SettledFirst
  exact inferInstance

end StepLedger

def StepLedger.Reached (allow : StepLedger → StepLedgerOp → Prop) (m : Workflow.Materialization) (s : StepLedger) : Prop :=
  ∃ s₀, Workflow.materializeRun m = .ok s₀ ∧ Reach StepLedger.perform allow { run := s₀ } s

end Vuzol.Providers
