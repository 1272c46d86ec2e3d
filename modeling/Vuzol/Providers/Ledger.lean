import Mathlib.Data.Rat.Floor
import Vuzol.Lib.Machine
import Vuzol.Workflow.Model

/-! The budget ledger (`providers/budgets.py`): reservations of provider calls and the usage records that
    settle them. Money and quota are stored with six decimals, so they are counted in units of
    `MONEY_QUANTUM`. -/

namespace Vuzol.Providers

open Vuzol.Lib
open Vuzol.Workflow (Step StepStatus LeaseToken)

inductive BudgetReservationStatus where
  | reserved | reconciled | conservative | released
  deriving DecidableEq

structure Amounts where
  inputTokens : Nat := 0
  outputTokens : Nat := 0
  costUnits : Nat := 0
  quotaUnits : Nat := 0
  deriving DecidableEq

structure NormalizedUsage where
  inputTokens : Option Nat := none
  outputTokens : Option Nat := none
  costUnits : Option Nat := none
  quotaUnits : Option Nat := none
  deriving DecidableEq

structure ProviderBudgetReservation where
  id : Nat
  taskId : Option Nat := none
  stepId : Option Nat := none
  invocationId : Option Nat := none
  budgetEpoch : Nat := 0
  providerAttempt : Nat := 1
  reserved : Amounts
  allowance : Amounts := {}
  horizonId : Option Nat := none
  status : BudgetReservationStatus := .reserved
  createdAt : Nat := 0
  deriving DecidableEq

abbrev ProviderBudgetReservation.key (r : ProviderBudgetReservation) : Nat := r.id

/-- Rows without a reservation are the receipts of calls that reserve nothing. -/
structure UsageRecord where
  id : Nat
  reservationId : Option Nat
  taskId : Option Nat := none
  stepId : Option Nat := none
  invocationId : Option Nat := none
  horizonId : Option Nat := none
  amounts : Amounts
  outcome : String
  costKnown : Bool
  lateReceipt : Bool := false
  createdAt : Nat := 0
  deriving DecidableEq

abbrev UsageRecord.key (u : UsageRecord) : Nat := u.id

structure Ledger where
  reservations : List ProviderBudgetReservation := []
  usageRecords : List UsageRecord := []

inductive LedgerError where
  | valueError (message : String)
  | lookupError (message : String)
  | leaseLost (stepId : Nat)
  | budgetExceeded (detail : String)
  | goalBudgetExceeded (detail : String)
  | integrityError (constraint : String)
  deriving DecidableEq

structure LeadTurn where
  goalLeaseEpoch : Nat
  goalLeaseUntil : Option Nat
  leaseEpoch : Nat
  claimed : Bool

/-- What a settlement reads outside the ledger: the clock, the step rows, the turns of leadership
    inferences and the reservations that another transaction has locked. -/
structure Surroundings where
  now : Nat := 0
  step? : Nat → Option Step := fun _ => none
  leadTurn? : Nat → Option LeadTurn := fun _ => none
  locked : List Nat := []

namespace Ledger

def reservation? (l : Ledger) (id : Nat) : Option ProviderBudgetReservation := l.reservations.find? (·.id == id)

def usageOf? (l : Ledger) (reservationId : Nat) : Option UsageRecord :=
  l.usageRecords.find? (·.reservationId == some reservationId)

def putReservation (l : Ledger) (r : ProviderBudgetReservation) : Ledger :=
  { l with reservations := put ProviderBudgetReservation.key r l.reservations }

def putUsage (l : Ledger) (u : UsageRecord) : Ledger :=
  { l with usageRecords := put UsageRecord.key u l.usageRecords }

/-- `uq_budget_step_attempt`; a null step never equals another one. -/
def sameStepAttempt (r x : ProviderBudgetReservation) : Bool :=
  x.stepId.isSome && x.stepId == r.stepId && x.providerAttempt == r.providerAttempt

/-- `uq_budget_invocation`. -/
def sameInvocation (r x : ProviderBudgetReservation) : Bool :=
  x.invocationId.isSome && x.invocationId == r.invocationId

def addReservation (l : Ledger) (r : ProviderBudgetReservation) : Except LedgerError Ledger :=
  if l.reservations.any (sameStepAttempt r) then .error (.integrityError "uq_budget_step_attempt")
  else if l.reservations.any (sameInvocation r) then .error (.integrityError "uq_budget_invocation")
  else .ok { l with reservations := l.reservations ++ [{ r with id := l.reservations.length }] }

/-- Insert a usage record; `reservation_id` is unique. -/
def addUsage (l : Ledger) (u : UsageRecord) : Except LedgerError Ledger :=
  if u.reservationId.isSome && l.usageRecords.any (·.reservationId == u.reservationId) then
    .error (.integrityError "usage_records.reservation_id")
  else .ok { l with usageRecords := l.usageRecords ++ [{ u with id := l.usageRecords.length }] }

end Ledger

structure AccountingContext where
  horizonId : Option Nat := none

def applyAccounting (r : ProviderBudgetReservation) : Option AccountingContext → ProviderBudgetReservation
  | some { horizonId := some h } => { r with horizonId := some h }
  | _ => r

def NormalizedUsage.fillFrom (usage : NormalizedUsage) (reserved : Amounts) : Amounts where
  inputTokens := usage.inputTokens.getD reserved.inputTokens
  outputTokens := usage.outputTokens.getD reserved.outputTokens
  costUnits := usage.costUnits.getD reserved.costUnits
  quotaUnits := usage.quotaUnits.getD reserved.quotaUnits

/-- `_settle_reservation`: the settled row and its usage record. -/
def settleReservation (now : Nat) (r : ProviderBudgetReservation) (usage : Option NormalizedUsage) (outcome : String)
    (conservative lateReceipt : Bool) : ProviderBudgetReservation × UsageRecord :=
  let unknown := (usage.bind (·.costUnits)).isNone
  ({ r with status := if conservative || unknown then .conservative else .reconciled },
    { id := 0
      reservationId := some r.id
      taskId := r.taskId
      stepId := r.stepId
      invocationId := r.invocationId
      horizonId := r.horizonId
      amounts := (usage.getD {}).fillFrom r.reserved
      outcome := outcome
      costKnown := !unknown
      lateReceipt := lateReceipt
      createdAt := now })

def Ledger.settle (l : Ledger) (settled : ProviderBudgetReservation × UsageRecord) : Except LedgerError Ledger := do
  let l ← l.addUsage settled.2
  .ok (l.putReservation settled.1)

structure ProviderProfile where
  inputCostUnitsPerMillion : Option Rat := none
  outputCostUnitsPerMillion : Option Rat := none
  quotaUnitsPerCall : Option Nat := none
  deriving DecidableEq

/-- `account_usage`. A million of quanta is a cost unit, so the price of the tokens in quanta is the sum
    itself, rounded up. -/
def accountUsage (profile : ProviderProfile) (usage : NormalizedUsage) : NormalizedUsage :=
  let priced : Option Nat := do
    let inputRate ← profile.inputCostUnitsPerMillion
    let outputRate ← profile.outputCostUnitsPerMillion
    let input ← usage.inputTokens
    let output ← usage.outputTokens
    some (Rat.ceil (input * inputRate + output * outputRate)).toNat
  { usage with costUnits := usage.costUnits <|> priced, quotaUnits := usage.quotaUnits <|> profile.quotaUnitsPerCall }

structure Receipt where
  usage : Option NormalizedUsage
  outcome : String
  conservative : Bool := false
  accounting : Option AccountingContext := none

/-- `settle_invocation_budget`. The orphan sweep may have won the race with the receipt: its estimate is then
    replaced in place. -/
def settleInvocationBudget (l : Ledger) (now : Nat) (reservationId : Nat) (profile : ProviderProfile)
    (receipt : Receipt) : Except LedgerError Ledger :=
  let accounted := receipt.usage.map (accountUsage profile)
  match l.reservation? reservationId with
  | none => .error (.lookupError "unknown budget reservation")
  | some r =>
    if r.status ≠ .reserved then
      match l.usageOf? reservationId with
      | none => .error (.valueError "invocation reservation is not open")
      | some existing =>
        match accounted with
        | none => .ok l
        | some usage =>
          if existing.costKnown then .ok l
          else
            let known := usage.costUnits.isSome
            .ok ((l.putUsage { existing with
                amounts := usage.fillFrom existing.amounts
                costKnown := known
                outcome := receipt.outcome
                lateReceipt := true
                invocationId := r.invocationId }).putReservation
              (if known then { r with status := .reconciled } else r))
    else
      l.settle (settleReservation now r accounted receipt.outcome (receipt.conservative || accounted.isNone) false)

def releaseUnsentInvocation (l : Ledger) (reservationId : Nat) : Except LedgerError Ledger :=
  match l.reservation? reservationId with
  | none => .error (.lookupError "unknown budget reservation")
  | some r =>
    match l.usageOf? reservationId with
    | none => .ok (l.putReservation { r with status := .released })
    | some existing =>
      if existing.costKnown && existing.outcome != "not_sent" then
        .error (.valueError "no-send receipt conflicts with measured provider usage")
      else
        .ok ((l.putUsage { existing with
            amounts := {}
            costKnown := true
            lateReceipt := true
            outcome := "not_sent"
            invocationId := r.invocationId }).putReservation { r with status := .released })

def leasedStep? (f : Surroundings) (token : LeaseToken) : Option Step :=
  (f.step? token.stepId).filter fun x => token.holds x && x.status.isHeld

def reconcileUsage (f : Surroundings) (l : Ledger) (reservationId : Nat) (token : LeaseToken) (receipt : Receipt) :
    Except LedgerError Ledger :=
  match l.reservation? reservationId with
  | none => .error (.lookupError "unknown budget reservation")
  | some r =>
    if (l.usageOf? reservationId).isSome then .ok l
    else if (leasedStep? f token).isNone || r.stepId != some token.stepId then .error (.leaseLost token.stepId)
    else
      l.settle (settleReservation f.now (applyAccounting r receipt.accounting) receipt.usage receipt.outcome
        receipt.conservative false)

def recordLateReceipt (l : Ledger) (now : Nat) (reservationId : Nat) (receipt : Receipt) : Except LedgerError Ledger :=
  match l.reservation? reservationId with
  | none => .error (.lookupError "unknown budget reservation")
  | some r =>
    if (l.usageOf? reservationId).isSome then .ok l
    else if r.status = .released then .ok l
    else
      l.settle (settleReservation now (applyAccounting r receipt.accounting) receipt.usage receipt.outcome
        receipt.conservative true)

def releaseOpen (l : Ledger) (r : ProviderBudgetReservation) : Ledger :=
  if r.status = .reserved then l.putReservation { r with status := .released } else l

def releaseReservation (f : Surroundings) (l : Ledger) (reservationId : Nat) (token : LeaseToken) :
    Except LedgerError Ledger :=
  match l.reservation? reservationId with
  | none => .error (.lookupError "unknown budget reservation")
  | some r =>
    if (leasedStep? f token).isNone || r.stepId != some token.stepId then .error (.leaseLost token.stepId)
    else .ok (releaseOpen l r)

def releaseReservationUnfenced (l : Ledger) (reservationId : Nat) : Except LedgerError Ledger :=
  match l.reservation? reservationId with
  | none => .error (.lookupError "unknown budget reservation")
  | some r => .ok (releaseOpen l r)

def chargeFloor (now : Nat) (l : Ledger) (r : ProviderBudgetReservation) (outcome : String) : Except LedgerError Ledger :=
  l.settle (settleReservation now r none outcome true true)

def closeOne (now : Nat) (outcome : String) (release : Bool) (accounting : Option AccountingContext) (l : Ledger)
    (r : ProviderBudgetReservation) : Except LedgerError Ledger :=
  if (l.usageOf? r.id).isSome then .ok l
  else if release then .ok (l.putReservation { r with status := .released })
  else chargeFloor now l (applyAccounting r accounting) outcome

def closeStepReservations (l : Ledger) (now stepId : Nat) (outcome : String) (release : Bool)
    (accounting : Option AccountingContext) : Except LedgerError Ledger :=
  (l.reservations.filter fun r => r.stepId == some stepId && r.status = .reserved).foldlM
    (closeOne now outcome release accounting) l

def leadTurnLive (f : Surroundings) (r : ProviderBudgetReservation) : Bool :=
  match r.invocationId.bind f.leadTurn? with
  | none => false
  | some turn => turn.goalLeaseEpoch == turn.leaseEpoch && turn.goalLeaseUntil.any (f.now < ·) && turn.claimed

def stepLive (f : Surroundings) (r : ProviderBudgetReservation) : Bool :=
  match r.stepId.bind f.step? with
  | none => false
  | some x => x.status.isHeld && x.leaseExpiresAt.any (f.now < ·)

def neverStarted (f : Surroundings) (r : ProviderBudgetReservation) : Bool :=
  r.invocationId.isNone &&
    match r.stepId.bind f.step? with
    | none => true
    | some x => x.status = .pending || x.status = .queued || x.status = .leased

def sweepOne (f : Surroundings) (l : Ledger) (r : ProviderBudgetReservation) : Except LedgerError Ledger :=
  if leadTurnLive f r || stepLive f r then .ok l
  else if (l.usageOf? r.id).isSome then .ok l
  else if neverStarted f r then .ok (l.putReservation { r with status := .released })
  else chargeFloor f.now l r "orphan_recovered"

/-- The order of the sweep: `created_at`, then `id`. -/
def olderThan (r x : ProviderBudgetReservation) : Bool :=
  r.createdAt < x.createdAt || (r.createdAt = x.createdAt && r.id ≤ x.id)

/-- The open reservations before the cutoff that nobody has locked, the oldest first, `batchSize` at most. -/
def orphans (f : Surroundings) (l : Ledger) (olderThanSeconds batchSize : Nat) : List ProviderBudgetReservation :=
  ((l.reservations.filter fun r =>
      r.status = .reserved && r.createdAt + olderThanSeconds < f.now && !(f.locked.contains r.id)).mergeSort
    olderThan).take batchSize

def releaseOrphanReservations (f : Surroundings) (l : Ledger) (olderThanSeconds batchSize : Nat) :
    Except LedgerError Ledger :=
  (orphans f l olderThanSeconds batchSize).foldlM (sweepOne f) l

end Vuzol.Providers
