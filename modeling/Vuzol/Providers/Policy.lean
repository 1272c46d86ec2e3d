import Mathlib
import Vuzol.Providers.Profiles

/-! The choice of a provider profile (providers/policy.py, providers/catalog.py): every profile is evaluated, and the
    eligible ones are offered in one order. -/

namespace Vuzol.Routing
open Workflow (Capability)

/-- The values of `ExclusionReason`, in the order in which `_exclusions` looks for them. -/
inductive ExclusionReason where
  | priorFailure | disabled | role | taskType | capability | projectPolicy | sandbox | launchMode | unhealthy | rateLimited
  | quota | contextLimit | outputLimit | budget | concurrency | notConfiguredFallback | projectPin

inductive QuotaState where
  | available | limited | exhausted | unknown
  deriving DecidableEq

structure EffectiveProfileState where
  healthy : Bool := true
  quotaState : QuotaState := .unknown
  unhealthyUntil : Option Nat := none
  rateLimitUntil : Option Nat := none
  activeLeases : Nat := 0
  queueDepth : Nat := 0

structure RoutingRequest where
  role : ProviderRole
  taskType : String
  requiredCapabilities : Finset Capability
  projectAllowedCapabilities : Option (Finset Capability)
  budgetMode : BudgetMode
  estimatedInputTokens : Nat
  maxOutputTokens : Nat
  remainingCostUnits : WithTop ℚ
  estimatedCostEnforcement : String := "hard"
  trustedProfileId : Option String := none
  failedProfileId : Option String := none
  allowedFallbackIds : List String := []
  restrictToProfileIds : Option (Finset String) := none
  requiresSandbox : Bool := false
  requiredLaunchMode : Option LaunchMode := none

structure ProfileEvaluation where
  profileId : String
  eligible : Bool
  reasons : List ExclusionReason

structure PolicyDecision where
  selectedProfileId : Option String
  alternatives : List String
  evaluations : List ProfileEvaluation

def supportedProfile (p : ProviderProfileConfig) : Bool :=
  p.launchMode = .cli && ["codex", "grok", "kimi", "pi"].contains p.provider ||
    p.launchMode = .api && p.provider = "openai-compatible"

def conversationCompatible (p : ProviderProfileConfig) (role : ProviderRole) : Bool :=
  p.enabled && supportedProfile p && p.launchMode = .cli && p.sandboxRequired && [ProviderRole.executor, .lead].contains role &&
    role ∈ p.roles && .repositoryRead ∈ p.capabilities

variable (request : RoutingRequest)

/-- The task types of a profile, and the internal purpose of a conversation with one exact profile. -/
def RoutingRequest.servedBy (p : ProviderProfileConfig) : Bool :=
  if request.taskType = "discussion_agent_internal" then
    conversationCompatible p request.role && request.requiredCapabilities = {.repositoryRead} && request.requiresSandbox &&
      request.requiredLaunchMode = some .cli && request.trustedProfileId = some p.id &&
      request.restrictToProfileIds = some {p.id}
  else request.taskType ∈ p.supportedTaskTypes

def EffectiveProfileState.unhealthy (state : EffectiveProfileState) (now : Nat) : Bool :=
  !state.healthy && state.unhealthyUntil.all (now < ·)

/-- What excludes a profile whatever its load. -/
def RoutingRequest.barriers (p : ProviderProfileConfig) : List (ExclusionReason × Bool) :=
  [(.disabled, !p.enabled),
    (.role, request.role ∉ p.roles),
    (.taskType, !request.servedBy p),
    (.capability, ¬request.requiredCapabilities ⊆ p.capabilities),
    (.projectPolicy, request.projectAllowedCapabilities.any fun allowed => ¬request.requiredCapabilities ⊆ allowed),
    (.sandbox, request.requiresSandbox && !p.sandboxRequired),
    (.launchMode, request.requiredLaunchMode.any (· ≠ p.launchMode))]

def RoutingRequest.limits (p : ProviderProfileConfig) (state : EffectiveProfileState) (now : Nat) :
    List (ExclusionReason × Bool) :=
  [(.unhealthy, state.unhealthy now),
    (.rateLimited, state.rateLimitUntil.any (now < ·)),
    (.quota, state.quotaState = .exhausted),
    (.contextLimit, p.contextLimit.any (· < request.estimatedInputTokens)),
    (.outputLimit, p.outputLimit.any (· < request.maxOutputTokens)),
    (.budget, request.estimatedCostEnforcement ≠ "soft" && request.remainingCostUnits < p.minimumUnknownUsageCost),
    (.concurrency, p.concurrencyLimit ≤ state.activeLeases),
    (.notConfiguredFallback, request.failedProfileId.isSome && request.trustedProfileId ≠ some p.id &&
      !request.allowedFallbackIds.contains p.id),
    (.projectPin, request.restrictToProfileIds.any (p.id ∉ ·))]

/-- `_exclusions`. -/
def exclusions (p : ProviderProfileConfig) (state : EffectiveProfileState) (now : Nat) : List ExclusionReason :=
  let failed := (ExclusionReason.priorFailure, decide (request.failedProfileId = some p.id))
  ((failed :: request.barriers p ++ request.limits p state now).filter (·.2)).map (·.1)

/-- `_COST_ORDER`. -/
def costOrder : BudgetMode → CostClass → Nat
  | .cheap, .cheap | .balanced, .balanced | .strong, .strong => 0
  | .cheap, .balanced | .balanced, .cheap | .strong, .balanced => 1
  | .cheap, .strong | .balanced, .strong | .strong, .cheap => 2

/-- `ordering`: six numbers, of which the earlier one decides, and then the id. -/
def RoutingRequest.ordering (state : EffectiveProfileState) (p : ProviderProfileConfig) : List Nat ×ₗ String :=
  let explicitRank := if request.trustedProfileId = some p.id then 0 else 1
  let fallbackRank :=
    if request.failedProfileId.isSome && request.allowedFallbackIds.contains p.id then request.allowedFallbackIds.idxOf p.id
    else request.allowedFallbackIds.length
  toLex ([explicitRank, fallbackRank, costOrder request.budgetMode p.costClass, p.routingPriority, state.activeLeases,
    state.queueDepth], p.id)

def sortBy {α κ : Type} [LinearOrder κ] (key : α → κ) (l : List α) : List α := l.insertionSort fun a b => key a ≤ key b

variable (profiles : List ProviderProfileConfig) (states : String → Option EffectiveProfileState) (now : Nat)

def stateOf (p : ProviderProfileConfig) : EffectiveProfileState := (states p.id).getD {}

def evaluate (p : ProviderProfileConfig) : ProfileEvaluation :=
  let reasons := exclusions request p (stateOf states p) now
  { profileId := p.id, eligible := reasons.isEmpty, reasons }

def eligible : List ProviderProfileConfig :=
  (sortBy (·.id) profiles).filter fun p => (evaluate request states now p).eligible

def ordered : List ProviderProfileConfig :=
  sortBy (fun p => request.ordering (stateOf states p) p) (eligible request profiles states now)

def selectProfile : PolicyDecision :=
  let ordered := (ordered request profiles states now).map (·.id)
  { selectedProfileId := ordered.head?
    alternatives := ordered.tail
    evaluations := (sortBy (·.id) profiles).map (evaluate request states now) }

/-- `ordered` in `claim_routed_step`: a budget is reserved for the first of these profiles that has one. -/
def PolicyDecision.offered (d : PolicyDecision) : List String :=
  (d.selectedProfileId.toList ++ d.alternatives).filter fun id => request.restrictToProfileIds.all (id ∈ ·)

/-- What `claim_routed_step` asks for after a call of `failed` failed: a profile without fallbacks is tried again. -/
def RoutingRequest.after (failed : ProviderProfileConfig) : RoutingRequest :=
  if failed.fallbackProfileIds.isEmpty then { request with failedProfileId := none, allowedFallbackIds := [] }
  else { request with failedProfileId := some failed.id, allowedFallbackIds := failed.fallbackProfileIds }

/-- What `configured_executor_preflight` asks for a step: a call that costs nothing. -/
def RoutingRequest.preflight : RoutingRequest :=
  { request with
    budgetMode := .balanced
    estimatedInputTokens := 0
    maxOutputTokens := 0
    remainingCostUnits := ⊤
    estimatedCostEnforcement := "hard"
    failedProfileId := none
    allowedFallbackIds := [] }

end Vuzol.Routing
