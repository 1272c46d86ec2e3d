import Vuzol.Providers.Transactions

/-! The paid model calls of a lead (`leadership/inference.py`): a call is reserved and noted as being sent in one
    transaction, sent, and settled with its receipt in another one. A worker may crash between any two steps, and
    another one may make the same call again.

    The request is given by its input hash, the profile by its id, its revision and its prices. -/

namespace Vuzol.Leadership

open Vuzol.Providers (Ledger LedgerError LedgerOp NormalizedUsage ProviderBudgetReservation ProviderProfile Registry
  ReserveRequest)

inductive Purpose where
  | projectLead | projectGoalReview | planning | leadResearchJob | leadRetrospective
  deriving DecidableEq

inductive InferencePhase where
  | lead | goalReview | planner
  deriving DecidableEq

def Purpose.phase : Purpose → InferencePhase
  | .projectGoalReview => .goalReview
  | .planning | .leadResearchJob => .planner
  | _ => .lead

/-- `ProviderFailureDetails`, as far as the call reads it. -/
structure FailureDetails where
  category : String
  requestSent : Bool
  executionCompleted : Bool
  deriving DecidableEq

inductive ResultStatus where
  | succeeded | failed
  deriving DecidableEq

def ResultStatus.value : ResultStatus → String
  | .succeeded => "succeeded"
  | .failed => "failed"

structure ProviderResult where
  status : ResultStatus
  usage : NormalizedUsage
  output : String := ""
  failure : Option FailureDetails := none
  deriving DecidableEq

def failureReason (failure : Option FailureDetails) (purpose : Purpose) : String :=
  match purpose with
  | .leadResearchJob => (failure.map (·.category)).getD "unavailable"
  | .planning => "planner_" ++ (failure.map (·.category)).getD "unavailable"
  | .projectGoalReview =>
    if failure.any (·.category = "invalid_structured_output") then "goal_review_invalid" else "goal_review_unavailable"
  | _ =>
    if failure.any (·.category = "invalid_structured_output") then "lead_response_invalid" else "lead_model_unavailable"

inductive InferenceState where
  | sending | received | unknown | notSent
  deriving DecidableEq

structure LeadershipInference where
  id : Nat
  turnId : Nat
  phase : InferencePhase
  round : Nat
  profileId : String
  profileRevision : String
  inputHash : String
  reservationId : Nat
  state : InferenceState := .sending
  result : Option ProviderResult := none

/-- The arguments of `invoke`. `turnId` is the turn of its context, which a call outside a turn does not have. -/
structure InvokeRequest where
  taskId : Nat
  turnId : Option Nat
  purpose : Purpose
  round : Nat := 0
  researchChain : Bool := false
  inputHash : String
  profileId : String
  profileRevision : String
  prices : ProviderProfile
  reservation : ReserveRequest
  deriving DecidableEq

def InvokeRequest.slot (q : InvokeRequest) : Option (Nat × InferencePhase × Nat) :=
  q.turnId.map fun turnId => (turnId, q.purpose.phase, q.round)

def LeadershipInference.slot (x : LeadershipInference) : Nat × InferencePhase × Nat := (x.turnId, x.phase, x.round)

inductive Looked where
  | replay (result : ProviderResult)
  | raise (reason : String)
  | proceed

def prior? (rows : List LeadershipInference) (q : InvokeRequest) : Option LeadershipInference :=
  match q.slot with
  | none => none
  | some slot => if q.researchChain then rows.find? (·.id = q.taskId) else rows.find? (·.slot = slot)

def lookAt (q : InvokeRequest) (prior : LeadershipInference) : Looked :=
  if prior.id ≠ q.taskId ∨ prior.inputHash ≠ q.inputHash ∨ prior.profileId ≠ q.profileId ∨
      prior.profileRevision ≠ q.profileRevision then .raise "lead_inference_reconciliation"
  else
    match prior.state, prior.result with
    | .received, some result | .notSent, some result =>
      if result.status ≠ .succeeded then .raise (failureReason result.failure q.purpose) else .replay result
    | .notSent, none => .raise "lead_model_unavailable"
    | _, _ => .raise "lead_inference_reconciliation"

/-- The first part of `invoke`. `current` is what `invocation_current` answers for the turn. -/
def look (rows : List LeadershipInference) (q : InvokeRequest) (current : Bool) : Looked :=
  if q.turnId.isSome && !current then .raise "lead_model_unavailable"
  else
    match prior? rows q with
    | none => .proceed
    | some prior => lookAt q prior

def addInference (rows : List LeadershipInference) (x : LeadershipInference) : Except String (List LeadershipInference) :=
  if rows.any (·.id = x.id) then .error "leadership_inferences_pkey"
  else if rows.any (·.slot = x.slot) then .error "uq_leadership_inference_phase"
  else .ok (rows ++ [x])

def budgetReason (q : InvokeRequest) : LedgerError → String
  | .goalBudgetExceeded _ => "goal_budget_exhausted"
  | .budgetExceeded _ => if q.purpose.phase = .planner then "planner_budget_exceeded" else "lead_budget_exceeded"
  | _ => "error"

/-- The rest of the first transaction, under `BUDGET_LOCK_KEY`: a durable invocation without a decision is no
    permission to send the same request again. `slotsFree` tells that the profile is below its concurrency limit. -/
def reserveCall (g : Registry) (l : Ledger) (rows : List LeadershipInference) (q : InvokeRequest) (slotsFree : Bool) :
    Except String (Ledger × List LeadershipInference × Nat) :=
  if l.reservations.any (·.invocationId = some q.taskId) then .error "lead_inference_reconciliation"
  else if !slotsFree then .error (budgetReason q (.budgetExceeded "profile concurrency limit exceeded"))
  else
    match Providers.reserve g l { q.reservation with
        entry := .invocation q.taskId (q.purpose ≠ .projectLead && q.purpose ≠ .leadRetrospective) } with
    | .error e => .error (budgetReason q e)
    | .ok l' =>
      let reservationId := l.reservations.length
      match q.turnId with
      | none => .ok (l', rows, reservationId)
      | some turnId => do
        let rows ← addInference rows {
          id := q.taskId
          turnId := turnId
          phase := q.purpose.phase
          round := q.round
          profileId := q.profileId
          profileRevision := q.profileRevision
          inputHash := q.inputHash
          reservationId := reservationId }
        .ok (l', rows, reservationId)

/-- How the adapter ends. `noReceipt` is a timeout, a revoked authority, a cancellation or any other exception. -/
inductive Answer where
  | result (r : ProviderResult)
  | failure (details : FailureDetails) (usage : Option NormalizedUsage)
  | noReceipt
  deriving DecidableEq

/-- What the handlers make of the answer: whether nothing was sent, the receipt that is charged, the receipt that
    is kept, and what is returned or raised. -/
structure Receipted where
  notSent : Bool
  result : Option ProviderResult
  kept : Option ProviderResult
  outcome : Except String ProviderResult

/-- A `ProviderFailure` is charged for the usage it reports; a research chain keeps a definitive one without. -/
def failed (q : InvokeRequest) (details : FailureDetails) (usage : Option NormalizedUsage) : Receipted :=
  let notSent := !details.requestSent
  let result := usage.map fun usage => { status := .failed, usage := usage, failure := some details }
  let evidence : ProviderResult := { status := .failed, usage := {}, failure := some details }
  { notSent := notSent
    result := result
    kept := if q.researchChain && (notSent || details.executionCompleted) then result <|> some evidence else result
    outcome := .error (failureReason (some details) q.purpose) }

def receipted (q : InvokeRequest) : Answer → Receipted
  | .result r =>
    match r.status, r.failure with
    | .failed, some details => failed q details (some r.usage)
    | _, _ => { notSent := false, result := some r, kept := some r, outcome := .ok r }
  | .failure details usage => failed q details usage
  | .noReceipt => { notSent := false, result := none, kept := none, outcome := .error (failureReason none q.purpose) }

/-- The settlement of the reservation in the second transaction. -/
def settleCall (l : Ledger) (now reservationId : Nat) (q : InvokeRequest) (r : Receipted) : Except LedgerError Ledger :=
  match l.reservation? reservationId with
  | none => .error (.lookupError "unknown budget reservation")
  | some stored =>
    if r.notSent then Providers.releaseUnsentInvocation l reservationId
    else if stored.status = .reserved then
      Providers.settleInvocationBudget l now reservationId q.prices {
        usage := r.result.map (·.usage)
        outcome := (r.result.map (·.status.value)).getD "unknown"
        conservative := r.result.isNone }
    else
      match r.result with
      | none => .ok l
      | some result =>
        Providers.settleInvocationBudget l now reservationId q.prices {
          usage := some result.usage, outcome := result.status.value }

def LeadershipInference.receive (x : LeadershipInference) (r : Receipted) : LeadershipInference :=
  { x with
    state := if r.notSent then .notSent else if r.kept.isNone then .unknown else .received
    result := r.kept }

def finishCall (l : Ledger) (rows : List LeadershipInference) (now reservationId : Nat) (q : InvokeRequest) (r : Receipted) :
    Except LedgerError (Ledger × List LeadershipInference) := do
  let l ← settleCall l now reservationId q r
  if q.turnId.isNone then .ok (l, rows)
  else
    match rows.find? (·.id = q.taskId) with
    | none => .error (.lookupError "no leadership inference")
    | some x => .ok (l, Lib.put (·.id) (x.receive r) rows)

inductive Stage where
  | started
  | looked
  | reserved (reservationId : Nat)
  | answered (reservationId : Nat) (answer : Answer)
  deriving DecidableEq

/-- A call of `invoke` that some worker is making. -/
structure Call where
  request : InvokeRequest
  stage : Stage := .started
  deriving DecidableEq

/-- A result that `invoke` returned, and whether it was a replay. -/
structure Returned where
  request : InvokeRequest
  result : ProviderResult
  replayed : Bool

/-- The rows, the calls under way, the requests that were handed to the provider and the results returned. -/
structure Lead where
  ledger : Ledger := {}
  inferences : List LeadershipInference := []
  calls : List Call := []
  sent : List InvokeRequest := []
  returned : List Returned := []

/-- A step of some worker. `crash` ends a call at any point; `ledger` is any other transaction on the budget. -/
inductive LeadOp where
  | start (q : InvokeRequest)
  | look (c : Call) (current : Bool)
  | reserve (c : Call) (g : Registry) (slotsFree : Bool)
  | send (c : Call) (permitted : Bool) (answer : Answer)
  | finish (c : Call) (now : Nat)
  | crash (c : Call)
  | ledger (op : LedgerOp)

def Lead.goOn (s : Lead) (c : Call) (stage : Stage) : Lead :=
  { s with calls := { c with stage := stage } :: s.calls.erase c }

def Lead.leave (s : Lead) (c : Call) : Lead := { s with calls := s.calls.erase c }

def revoked : Answer := .failure ⟨"cancelled", false, false⟩ none

def Lead.perform (s : Lead) : LeadOp → Except String Lead
  | .start q => .ok { s with calls := { request := q } :: s.calls }
  | .look c current =>
    if c ∈ s.calls ∧ c.stage = .started then
      match Leadership.look s.inferences c.request current with
      | .replay result => .ok { s.leave c with returned := s.returned ++ [⟨c.request, result, true⟩] }
      | .raise _ => .ok (s.leave c)
      | .proceed => .ok (s.goOn c .looked)
    else .error "no call"
  | .reserve c g slotsFree =>
    if c ∈ s.calls ∧ c.stage = .looked then
      match reserveCall g s.ledger s.inferences c.request slotsFree with
      | .error _ => .ok (s.leave c)
      | .ok (l, rows, reservationId) =>
        .ok { s.goOn c (.reserved reservationId) with ledger := l, inferences := rows }
    else .error "no call"
  | .send c permitted answer =>
    match c.stage with
    | .reserved reservationId =>
      if c ∈ s.calls then
        -- a call outside a turn needs no permission
        if c.request.turnId.isSome && !permitted then .ok (s.goOn c (.answered reservationId revoked))
        else .ok { s.goOn c (.answered reservationId answer) with sent := s.sent ++ [c.request] }
      else .error "no call"
    | _ => .error "no call"
  | .finish c now =>
    match c.stage with
    | .answered reservationId answer =>
      if c ∈ s.calls then
        let r := receipted c.request answer
        match finishCall s.ledger s.inferences now reservationId c.request r with
        | .error _ => .ok (s.leave c)
        | .ok (l, rows) =>
          match r.outcome with
          | .error _ => .ok { s.leave c with ledger := l, inferences := rows }
          | .ok result =>
            .ok { s.leave c with ledger := l, inferences := rows, returned := s.returned ++ [⟨c.request, result, false⟩] }
      else .error "no call"
    | _ => .error "no call"
  | .crash c => .ok (s.leave c)
  | .ledger op => .ok { s with ledger := s.ledger.after op }

abbrev Lead.Reaches (s t : Lead) : Prop := Lib.Reach Lead.perform (fun _ _ => True) s t

end Vuzol.Leadership
