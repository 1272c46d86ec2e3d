import Vuzol.Providers.Admission

/-! The transactions on the budget ledger: one after the other, and with the statements of a reservation
    interleaved with the settlements that commit meanwhile. -/

namespace Vuzol.Providers

open Vuzol.Lib
open Vuzol.Workflow (LeaseToken)

/-- The transactions that reserve nothing. Each locks the reservations it settles before it reads them and
    holds the locks to its commit, so that it is one step. -/
inductive Settlement where
  | settleInvocationBudget (reservationId : Nat) (profile : ProviderProfile) (receipt : Receipt)
  | releaseUnsentInvocation (reservationId : Nat)
  | reconcileUsage (reservationId : Nat) (token : LeaseToken) (receipt : Receipt)
  | recordLateReceipt (reservationId : Nat) (receipt : Receipt)
  | releaseReservation (reservationId : Nat) (token : LeaseToken)
  | releaseReservationUnfenced (reservationId : Nat)
  | closeStepReservations (stepId : Nat) (outcome : String) (release : Bool) (accounting : Option AccountingContext)
  | releaseOrphanReservations (olderThanSeconds batchSize : Nat)

def Settlement.perform (f : Surroundings) (l : Ledger) : Settlement → Except LedgerError Ledger
  | .settleInvocationBudget id profile receipt => Providers.settleInvocationBudget l f.now id profile receipt
  | .releaseUnsentInvocation id => Providers.releaseUnsentInvocation l id
  | .reconcileUsage id token receipt => Providers.reconcileUsage f l id token receipt
  | .recordLateReceipt id receipt => Providers.recordLateReceipt l f.now id receipt
  | .releaseReservation id token => Providers.releaseReservation f l id token
  | .releaseReservationUnfenced id => Providers.releaseReservationUnfenced l id
  | .closeStepReservations stepId outcome release accounting =>
    Providers.closeStepReservations l f.now stepId outcome release accounting
  | .releaseOrphanReservations olderThanSeconds batchSize =>
    Providers.releaseOrphanReservations f l olderThanSeconds batchSize

inductive LedgerOp where
  | reserve (g : Registry) (q : ReserveRequest)
  | settle (f : Surroundings) (op : Settlement)

def LedgerOp.perform (l : Ledger) : LedgerOp → Except LedgerError Ledger
  | .reserve g q => Providers.reserve g l q
  | .settle f op => op.perform f l

def Ledger.after (l : Ledger) (op : LedgerOp) : Ledger :=
  match op.perform l with
  | .ok l' => l'
  | .error _ => l

/-- The reservation that holds `BUDGET_LOCK_KEY`, with the statements it has ahead and the answers it has. -/
structure Reserving where
  request : ReserveRequest
  ahead : List Query
  answers : Answers := {}

/-- The committed ledger and the reservation under way. The lock is held to the end of the transaction, so
    there is never more than one. -/
structure Database where
  ledger : Ledger
  reserving : Option Reserving := none

inductive Statement where
  | lock (q : ReserveRequest)
  /-- The next statement of the reservation reads what is committed by now. -/
  | query
  | commit
  | rollback
  | settle (f : Surroundings) (op : Settlement)

def Database.perform (g : Registry) (db : Database) : Statement → Except LedgerError Database
  | .lock q =>
    match db.reserving with
    | none => .ok { db with reserving := some { request := q, ahead := q.queries g } }
    | some _ => .error (.valueError "the lock is held")
  | .query =>
    match db.reserving with
    | some { request, ahead := x :: ahead, answers } =>
      .ok { db with reserving := some { request, ahead, answers := request.ask g db.ledger answers x } }
    | _ => .error (.valueError "no statement is ahead")
  | .commit =>
    match db.reserving with
    | some { request, ahead := [], answers } => do
      let l ← conclude g db.ledger request answers
      .ok { ledger := l }
    | _ => .error (.valueError "no reservation is complete")
  | .rollback => .ok { db with reserving := none }
  | .settle f op => do
    let l ← op.perform f db.ledger
    .ok { db with ledger := l }

end Vuzol.Providers
