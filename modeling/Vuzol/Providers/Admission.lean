import Vuzol.Providers.Ledger

/-! Admission of a provider call (`reserve_budget` and `reserve_invocation_budget` of `providers/budgets.py`).
    A reservation asks the ledger one statement at a time, and decides on the answers. -/

namespace Vuzol.Providers

open Vuzol.Lib

inductive Enforcement where
  | soft | hard
  deriving DecidableEq

/-- The part of `HardLimits` that admission reads. A cost limit is a number of quanta: the amounts it is
    compared with are, so that its fraction of a quantum does not count. -/
structure HardLimits where
  taskCostUnits : Nat := 25000000
  taskInputTokens : Nat := 200000
  taskOutputTokens : Nat := 50000
  stepCostUnits : Nat := 10000000
  stepInputTokens : Nat := 100000
  stepOutputTokens : Nat := 25000
  providerCallInputTokens : Nat := 100000
  providerCallOutputTokens : Nat := 25000
  dailyCostUnits : Nat := 100000000
  dailyQuotaUnits : Nat := 100000000
  usageTotalEnforcement : Enforcement := .hard
  estimatedCostEnforcement : Enforcement := .hard
  explicitMoneyCapUnits : Option Nat := none
  maxWorkAttempts : Nat := 50
  maxProviderCalls : Nat := 500
  maxReplans : Nat := 10
  reviewAllowanceInputTokens : Nat := 10000
  reviewAllowanceOutputTokens : Nat := 10000
  reviewAllowanceCostUnits : Nat := 1000000
  deriving DecidableEq

/-- The ceilings of `WorkLimits` that admission enforces. -/
structure WorkLimits where
  maxCost : Option Nat := none
  maxAttempts : Option Nat := none

/-- A task row: its epoch, its parent, and what admission counts over its other tables. -/
structure BudgetTask where
  id : Nat
  budgetEpoch : Nat := 0
  parentTaskId : Option Nat := none
  /-- The `WorkAttempt` rows of the task. -/
  workAttempts : Nat := 0
  stepAttempts : Nat := 0
  /-- The revisions of its package since the owner last approved one; `none` without a package. -/
  replans : Option Nat := none
  /-- `budget.admission_only_consent` stands on the root of its family. -/
  admissionOnlyConsent : Bool := false

structure BudgetPackage where
  id : Nat
  managedGoalId : Option Nat := none

structure BudgetGoal where
  id : Nat
  workLimits : WorkLimits := {}

/-- The rows that admission reads beside the ledger. -/
structure Registry where
  tasks : List BudgetTask := []
  packages : List BudgetPackage := []
  goals : List BudgetGoal := []
  /-- The usage rows that `budget.cost_uncertainty_accepted` names. -/
  acceptedUnknown : List Nat := []

namespace Registry

def task? (g : Registry) (id : Nat) : Option BudgetTask := g.tasks.find? (·.id == id)

def familyRoot (g : Registry) : Nat → List Nat → Nat → Nat
  | 0, _, root => root
  | n + 1, seen, root =>
    match (g.task? root).bind (·.parentTaskId) with
    | none => root
    | some parent => if seen.contains parent then root else g.familyRoot n (parent :: seen) parent

def familyBelow (g : Registry) : Nat → List Nat → List Nat → List Nat
  | 0, family, _ => family
  | n + 1, family, frontier =>
    let children := (g.tasks.filter fun t => t.parentTaskId.any frontier.contains).map (·.id)
    let frontier := children.filter fun c => !(family.contains c)
    g.familyBelow n (family ++ frontier) frontier

def explicitMoneyFamily (g : Registry) (taskId : Nat) : List Nat :=
  let root := g.familyRoot 20 [taskId] taskId
  g.familyBelow 20 [root] [root]

def goalOf? (g : Registry) (horizonId : Nat) : Option BudgetGoal :=
  let goalId := match g.packages.find? (·.id == horizonId) with
    | some package => package.managedGoalId
    | none => some horizonId
  goalId.bind fun id => g.goals.find? (·.id == id)

def scopes (g : Registry) (goalId : Nat) : List Nat :=
  goalId :: (g.packages.filter (·.managedGoalId == some goalId)).map (·.id)

end Registry

instance : Add Amounts where
  add a b :=
    { inputTokens := a.inputTokens + b.inputTokens
      outputTokens := a.outputTokens + b.outputTokens
      costUnits := a.costUnits + b.costUnits
      quotaUnits := a.quotaUnits + b.quotaUnits }

def totalOf (amounts : List Amounts) : Amounts := amounts.foldr (· + ·) {}

/-- `date_trunc('day', now())`. -/
def dayStart (now : Nat) : Nat := now - now % 86400

namespace Ledger

def epochOf? (l : Ledger) (u : UsageRecord) : Option Nat :=
  (u.reservationId.bind l.reservation?).map (·.budgetEpoch)

/-- `_usage_totals`; a null argument does not filter. -/
def usageTotals (l : Ledger) (taskId stepId budgetEpoch : Option Nat) : Amounts :=
  totalOf ((l.usageRecords.filter fun u =>
    (l.epochOf? u).isSome && (taskId.isNone || u.taskId == taskId) && (stepId.isNone || u.stepId == stepId) &&
      (budgetEpoch.isNone || l.epochOf? u == budgetEpoch)).map (·.amounts))

def dailyUsageTotals (l : Ledger) (day : Nat) : Amounts :=
  totalOf ((l.usageRecords.filter fun u => day ≤ u.createdAt).map (·.amounts))

def reservedTotals (l : Ledger) (taskId stepId budgetEpoch : Option Nat) : Amounts :=
  totalOf ((l.reservations.filter fun r =>
    r.status = .reserved && (taskId.isNone || r.taskId == taskId) && (stepId.isNone || r.stepId == stepId) &&
      (budgetEpoch.isNone || some r.budgetEpoch == budgetEpoch)).map (·.reserved))

def taskReviewAllowance (l : Ledger) (taskId : Nat) : Amounts :=
  totalOf ((l.reservations.filter fun r => r.taskId == some taskId).map (·.allowance))

def goalSpent (l : Ledger) (scopes : List Nat) : Nat :=
  (totalOf ((l.usageRecords.filter fun u => u.horizonId.any scopes.contains).map (·.amounts))).costUnits

def goalReserved (l : Ledger) (scopes : List Nat) : Nat :=
  (totalOf ((l.reservations.filter fun r => r.status = .reserved && r.horizonId.any scopes.contains).map
    (·.reserved))).costUnits

def usageTasks (l : Ledger) (scopes : List Nat) : List Nat :=
  (l.usageRecords.filter fun u => u.horizonId.any scopes.contains).filterMap (·.taskId)

def reservedTasks (l : Ledger) (scopes : List Nat) : List Nat :=
  (l.reservations.filter fun r => r.horizonId.any scopes.contains).filterMap (·.taskId)

def usageCalls (l : Ledger) (taskId : Nat) : Nat := l.usageRecords.countP fun u => u.taskId == some taskId

def reservedCalls (l : Ledger) (taskId : Nat) : Nat :=
  l.reservations.countP fun r => r.taskId == some taskId && r.status = .reserved

def familyUsage (l : Ledger) (family : List Nat) (known : Bool) : List UsageRecord :=
  l.usageRecords.filter fun u => u.taskId.any family.contains && u.costKnown == known

def familyReserved (l : Ledger) (family : List Nat) : Nat :=
  (totalOf ((l.reservations.filter fun r => r.taskId.any family.contains && r.status = .reserved).map
    (·.reserved))).costUnits

end Ledger

inductive Entry where
  /-- `reserve_budget` -/
  | workflow (stepId invocationId : Option Nat) (providerAttempt : Nat) (reviewAllowance : Bool)
  /-- `reserve_invocation_budget` -/
  | invocation (invocationId : Nat) (enforceLifetimeBudget : Bool)
  deriving DecidableEq

/-- The arguments of a reservation. -/
structure ReserveRequest where
  entry : Entry
  taskId : Option Nat := none
  estimate : Amounts
  limits : HardLimits
  horizonId : Option Nat := none
  admissionOnly : Bool := false
  now : Nat := 0
  deriving DecidableEq

namespace ReserveRequest

def stepId (q : ReserveRequest) : Option Nat :=
  match q.entry with
  | .workflow stepId .. => stepId
  | .invocation .. => none

def invocationId (q : ReserveRequest) : Option Nat :=
  match q.entry with
  | .workflow _ invocationId .. => invocationId
  | .invocation invocationId _ => some invocationId

def providerAttempt (q : ReserveRequest) : Nat :=
  match q.entry with
  | .workflow _ _ providerAttempt _ => providerAttempt
  | .invocation .. => 1

def reviewAllowance (q : ReserveRequest) : Bool :=
  match q.entry with
  | .workflow _ _ _ reviewAllowance => reviewAllowance
  | .invocation .. => false

def enforceLifetimeBudget (q : ReserveRequest) : Bool :=
  match q.entry with
  | .workflow .. => true
  | .invocation _ enforceLifetimeBudget => enforceLifetimeBudget

end ReserveRequest

inductive Query where
  | existing | taskUsage | stepUsage | dailyUsage | taskReserved | stepReserved | dailyReserved | reviewAllowance
  | goalSpent | goalReserved | usageTasks | reservedTasks | usageCalls | reservedCalls | unknownUsage | knownUsage
  | familyReserved
  deriving DecidableEq

/-- The answers that a reservation has so far. -/
structure Answers where
  existing : Option ProviderBudgetReservation := none
  taskUsage : Amounts := {}
  stepUsage : Amounts := {}
  dailyUsage : Option Amounts := none
  taskReserved : Amounts := {}
  stepReserved : Amounts := {}
  dailyReserved : Option Amounts := none
  reviewAllowance : Amounts := {}
  goalSpent : Option Nat := none
  goalReserved : Option Nat := none
  usageTasks : List Nat := []
  reservedTasks : List Nat := []
  usageCalls : Nat := 0
  reservedCalls : Nat := 0
  unknownUsage : List UsageRecord := []
  knownUsage : Nat := 0
  familyReserved : Nat := 0

namespace ReserveRequest

def existing? (q : ReserveRequest) (l : Ledger) : Option ProviderBudgetReservation :=
  match q.stepId with
  | some stepId => l.reservations.find? fun r => r.stepId == some stepId && r.providerAttempt == q.providerAttempt
  | none => l.reservations.find? fun r => r.invocationId.isSome && r.invocationId == q.invocationId

def epoch (q : ReserveRequest) (g : Registry) : Nat := ((q.taskId.bind g.task?).map (·.budgetEpoch)).getD 0

def goal? (q : ReserveRequest) (g : Registry) : Option BudgetGoal :=
  if q.enforceLifetimeBudget then q.horizonId.bind g.goalOf? else none

def scopes (q : ReserveRequest) (g : Registry) : List Nat := ((q.goal? g).map fun goal => g.scopes goal.id).getD []

def maxCost (q : ReserveRequest) (g : Registry) : Option Nat := (q.goal? g).bind (·.workLimits.maxCost)

def maxAttempts (q : ReserveRequest) (g : Registry) : Option Nat := (q.goal? g).bind (·.workLimits.maxAttempts)

def family (q : ReserveRequest) (g : Registry) : List Nat := (q.taskId.map g.explicitMoneyFamily).getD []

def lifetimeQueries (q : ReserveRequest) (g : Registry) : List Query :=
  (if (q.maxCost g).isSome then [.goalSpent, .goalReserved] else []) ++
    if (q.maxAttempts g).isSome then [.usageTasks, .reservedTasks] else []

def explicitQueries (q : ReserveRequest) : List Query :=
  if q.taskId.isSome && q.limits.explicitMoneyCapUnits.isSome then [.unknownUsage, .knownUsage, .familyReserved] else []

def queries (q : ReserveRequest) (g : Registry) : List Query :=
  match q.entry with
  | .workflow .. =>
    [.existing, .taskUsage, .stepUsage, .dailyUsage, .taskReserved, .stepReserved, .dailyReserved] ++
      (if q.reviewAllowance then [.reviewAllowance] else []) ++ q.lifetimeQueries g ++
      (if 0 < q.limits.maxProviderCalls then [.usageCalls, .reservedCalls] else []) ++ q.explicitQueries
  | .invocation .. =>
    [.existing, .dailyUsage, .dailyReserved] ++
      (if q.taskId.isSome then [.taskUsage, .taskReserved] else []) ++ q.lifetimeQueries g ++ q.explicitQueries

/-- What a statement answers when the ledger holds `l`. -/
def ask (q : ReserveRequest) (g : Registry) (l : Ledger) (a : Answers) : Query → Answers
  | .existing => { a with existing := q.existing? l }
  | .taskUsage => { a with taskUsage := l.usageTotals q.taskId none (some (q.epoch g)) }
  | .stepUsage => { a with stepUsage := l.usageTotals none q.stepId (some (q.epoch g)) }
  | .dailyUsage => { a with dailyUsage := some (l.dailyUsageTotals (dayStart q.now)) }
  | .taskReserved => { a with taskReserved := l.reservedTotals q.taskId none (some (q.epoch g)) }
  | .stepReserved => { a with stepReserved := l.reservedTotals none q.stepId (some (q.epoch g)) }
  | .dailyReserved => { a with dailyReserved := some (l.reservedTotals none none none) }
  | .reviewAllowance => { a with reviewAllowance := l.taskReviewAllowance (q.taskId.getD 0) }
  | .goalSpent => { a with goalSpent := some (l.goalSpent (q.scopes g)) }
  | .goalReserved => { a with goalReserved := some (l.goalReserved (q.scopes g)) }
  | .usageTasks => { a with usageTasks := l.usageTasks (q.scopes g) }
  | .reservedTasks => { a with reservedTasks := l.reservedTasks (q.scopes g) }
  | .usageCalls => { a with usageCalls := l.usageCalls (q.taskId.getD 0) }
  | .reservedCalls => { a with reservedCalls := l.reservedCalls (q.taskId.getD 0) }
  | .unknownUsage => { a with unknownUsage := l.familyUsage (q.family g) false }
  | .knownUsage => { a with knownUsage := (totalOf ((l.familyUsage (q.family g) true).map (·.amounts))).costUnits }
  | .familyReserved => { a with familyReserved := l.familyReserved (q.family g) }

end ReserveRequest

def require (ok : Bool) (e : LedgerError) : Except LedgerError Unit := if ok then .ok () else .error e

/-- `_enforce_or_note`: a soft limit is noted and passed. -/
def enforce (exceeded : Bool) (mode : Enforcement) (detail : String) : Except LedgerError Unit :=
  require (!exceeded || mode = .soft) (.budgetExceeded detail)

/-- The part of an overrun of the task limits that a review call takes from the allowance of the task. -/
def allowed (q : ReserveRequest) (a : Answers) : Amounts :=
  if q.reviewAllowance then
    let excess (used estimate limit : Nat) : Nat := used + estimate - limit
    { inputTokens := min (min q.estimate.inputTokens
          (excess (a.taskUsage + a.taskReserved).inputTokens q.estimate.inputTokens q.limits.taskInputTokens))
        (q.limits.reviewAllowanceInputTokens - a.reviewAllowance.inputTokens)
      outputTokens := min (min q.estimate.outputTokens
          (excess (a.taskUsage + a.taskReserved).outputTokens q.estimate.outputTokens q.limits.taskOutputTokens))
        (q.limits.reviewAllowanceOutputTokens - a.reviewAllowance.outputTokens)
      costUnits := min (min q.estimate.costUnits
          (excess (a.taskUsage + a.taskReserved).costUnits q.estimate.costUnits q.limits.taskCostUnits))
        (q.limits.reviewAllowanceCostUnits - a.reviewAllowance.costUnits) }
  else {}

def enforceCall (q : ReserveRequest) : Except LedgerError Unit := do
  require (q.estimate.inputTokens ≤ q.limits.providerCallInputTokens)
    (.budgetExceeded "provider call input-token limit exceeded")
  require (q.estimate.outputTokens ≤ q.limits.providerCallOutputTokens)
    (.budgetExceeded "provider call output-token limit exceeded")

def enforceStepTokens (q : ReserveRequest) (a : Answers) : Except LedgerError Unit := do
  let held := a.stepUsage + a.stepReserved
  enforce (q.limits.stepInputTokens < held.inputTokens + q.estimate.inputTokens) q.limits.usageTotalEnforcement
    "step input-token limit exceeded"
  enforce (q.limits.stepOutputTokens < held.outputTokens + q.estimate.outputTokens) q.limits.usageTotalEnforcement
    "step output-token limit exceeded"

def enforceTaskTokens (q : ReserveRequest) (a : Answers) : Except LedgerError Unit := do
  let held := a.taskUsage + a.taskReserved
  let free := allowed q a
  enforce (q.limits.taskInputTokens < held.inputTokens + q.estimate.inputTokens - free.inputTokens)
    q.limits.usageTotalEnforcement "task input-token limit exceeded"
  enforce (q.limits.taskOutputTokens < held.outputTokens + q.estimate.outputTokens - free.outputTokens)
    q.limits.usageTotalEnforcement "task output-token limit exceeded"

def enforceStepCost (q : ReserveRequest) (a : Answers) : Except LedgerError Unit :=
  enforce (q.limits.stepCostUnits < (a.stepUsage + a.stepReserved).costUnits + q.estimate.costUnits)
    q.limits.estimatedCostEnforcement "step cost limit exceeded"

def enforceTaskCost (q : ReserveRequest) (a : Answers) : Except LedgerError Unit :=
  enforce (q.limits.taskCostUnits <
      (a.taskUsage + a.taskReserved).costUnits + q.estimate.costUnits - (allowed q a).costUnits)
    q.limits.estimatedCostEnforcement "task cost limit exceeded"

def enforceDaily (q : ReserveRequest) (a : Answers) : Except LedgerError Unit := do
  let held := a.dailyUsage.getD {} + a.dailyReserved.getD {}
  require (held.costUnits + q.estimate.costUnits ≤ q.limits.dailyCostUnits) (.budgetExceeded "daily cost limit exceeded")
  require (held.quotaUnits + q.estimate.quotaUnits ≤ q.limits.dailyQuotaUnits)
    (.budgetExceeded "daily quota limit exceeded")

/-- `_lifetime_task_count`: each task once, and its work attempts. -/
def lifetimeTaskCount (g : Registry) (tasks : List Nat) : Nat :=
  tasks.dedup.length + (tasks.dedup.map fun t => ((g.task? t).map (·.workAttempts)).getD 0).sum

/-- `_enforce_lifetime_budget`. -/
def enforceLifetime (g : Registry) (q : ReserveRequest) (a : Answers) : Except LedgerError Unit := do
  match q.maxCost g with
  | none => .ok ()
  | some cap =>
    require (a.goalSpent.getD 0 + a.goalReserved.getD 0 + q.estimate.costUnits ≤ cap)
      (.goalBudgetExceeded "lifetime owner cost budget exhausted")
  match q.maxAttempts g with
  | none => .ok ()
  | some cap =>
    require (lifetimeTaskCount g (a.usageTasks ++ a.reservedTasks) < cap)
      (.budgetExceeded "lifetime owner attempt budget exhausted")

def enforceCounters (g : Registry) (q : ReserveRequest) (a : Answers) : Except LedgerError Unit := do
  let task := q.taskId.bind g.task?
  require (q.limits.maxProviderCalls = 0 || a.usageCalls + a.reservedCalls < q.limits.maxProviderCalls)
    (.budgetExceeded "task provider-call limit exceeded")
  require (q.limits.maxWorkAttempts = 0 || (task.map fun t => t.workAttempts + t.stepAttempts).getD 0
      < q.limits.maxWorkAttempts)
    (.budgetExceeded "task work-attempt limit exceeded")
  require (q.limits.maxReplans = 0 || (task.bind (·.replans)).all (· < q.limits.maxReplans))
    (.budgetExceeded "package replan limit exceeded")

def requireAdmissionOnlyConsent (g : Registry) (q : ReserveRequest) : Except LedgerError Unit :=
  require (!q.admissionOnly || q.taskId.isNone || q.limits.explicitMoneyCapUnits.isNone ||
      (q.taskId.bind g.task?).any (·.admissionOnlyConsent))
    (.budgetExceeded "explicit money cap cannot cover an admission-only launch without owner consent")

/-- `_enforce_explicit_money_cap`: an unknown cost that the owner accepted counts with its floor. -/
def enforceExplicitMoneyCap (g : Registry) (q : ReserveRequest) (a : Answers) : Except LedgerError Unit :=
  match q.taskId, q.limits.explicitMoneyCapUnits with
  | some _, some cap => do
    require (a.unknownUsage.all fun u => g.acceptedUnknown.contains u.id)
      (.budgetExceeded "explicit money cap cannot be certified while cost is unknown")
    let floor := (totalOf (a.unknownUsage.map (·.amounts))).costUnits
    require (a.knownUsage + a.familyReserved + floor + q.estimate.costUnits ≤ cap)
      (.budgetExceeded "explicit money cap exceeded")
  | _, _ => .ok ()

/-- The row of an admitted call. -/
def ReserveRequest.row (g : Registry) (q : ReserveRequest) (a : Answers) : ProviderBudgetReservation where
  id := 0
  taskId := q.taskId
  stepId := q.stepId
  invocationId := q.invocationId
  budgetEpoch := q.epoch g
  providerAttempt := q.providerAttempt
  reserved := q.estimate
  allowance := allowed q a
  horizonId := q.horizonId
  createdAt := q.now

/-- The gates of `reserve_budget`. -/
def workflowGates (g : Registry) (q : ReserveRequest) (a : Answers) : Except LedgerError Unit := do
  require (q.stepId.isSome || q.invocationId.isSome) (.valueError "step-less reserve requires invocation_id")
  require q.taskId.isSome (.lookupError "workflow budget reserve requires a task")
  require (q.taskId.bind g.task?).isSome (.lookupError "unknown budget task")
  enforceCall q
  enforceStepTokens q a
  enforceTaskTokens q a
  enforceStepCost q a
  enforceTaskCost q a
  enforceDaily q a
  enforceLifetime g q a
  enforceCounters g q a
  requireAdmissionOnlyConsent g q
  enforceExplicitMoneyCap g q a

def enforceBoundTask (g : Registry) (q : ReserveRequest) (a : Answers) : Except LedgerError Unit :=
  match q.taskId with
  | none => .ok ()
  | some taskId => do
    require (g.task? taskId).isSome (.lookupError "unknown budget task")
    enforceTaskTokens q a
    enforceTaskCost q a

/-- The gates of `reserve_invocation_budget`. -/
def invocationGates (g : Registry) (q : ReserveRequest) (a : Answers) : Except LedgerError Unit := do
  enforceCall q
  enforceDaily q a
  enforceBoundTask g q a
  enforceLifetime g q a
  requireAdmissionOnlyConsent g q
  enforceExplicitMoneyCap g q a

def gates (g : Registry) (q : ReserveRequest) (a : Answers) : Except LedgerError Unit :=
  match q.entry with
  | .workflow .. => workflowGates g q a
  | .invocation .. => invocationGates g q a

def conclude (g : Registry) (l : Ledger) (q : ReserveRequest) (a : Answers) : Except LedgerError Ledger :=
  if a.existing.isSome then .ok l
  else do
    gates g q a
    l.addReservation (q.row g a)

def reserve (g : Registry) (l : Ledger) (q : ReserveRequest) : Except LedgerError Ledger :=
  conclude g l q ((q.queries g).foldl (q.ask g l) {})

end Vuzol.Providers
