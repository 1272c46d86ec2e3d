import Vuzol.Lib.Url
import Vuzol.Workflow.Model

/-! The fail-closed policy for repeated work (`workflows/retry_policy.py`). -/

namespace Vuzol.Workflow

def explicitlyRetryableFailures : List String :=
  ["authentication", "budget_exhausted", "capability_setup_required", "capability_provisioning_failed", "cancelled",
   "dependency_provisioning_failed", "independent_review_required", "admission_only_consent_required",
   "money_cap_reached", "money_cap_uncertified", "quota_exhausted", "rate_limited", "timeout", "provider_unavailable",
   "provider_attempts_exhausted", "reviewer_output_invalid"]

def mutatingCapabilities : List Capability :=
  [.filesystemWrite, .codeEdit, .git, .hostAdmin, .projectShell, .telegramSend, .secrets, .network]

def leaseExpiredAttemptsExhausted : String := "lease_expired_attempts_exhausted"
def leaseExpiredUnknownEffects : String := "lease_expired_unknown_effects"

def repeatableWithoutNewMutation (x : Step) : Bool :=
  if x.idempotencyClass = .readOnly then x.requiredCapabilities.all fun c => !mutatingCapabilities.contains c
  else x.idempotencyClass = .idempotent && x.externalIdempotencyKey.any fun key => key.toList.any fun c => !Lib.isSpace c

/-- `child` is the blocked environment preparation that the validation `parent` waits for. -/
def boundEnvironment (parent child : Step) : Bool :=
  child.stepType = .ensureDependencies && parent.payload.environmentRecoveryStepId = some child.id &&
    child.links.validationEnvironmentForStepId = some parent.id && child.templateKey = .validationEnvironmentRecovery

/-- `child` is the blocked capability preflight that the dependency step `parent` waits for. -/
def boundPreflight (parent child : Step) : Bool :=
  child.stepType = .ensureCapabilities && child.links.capabilityForStepId = some parent.id &&
    parent.payload.capabilityPreflightStepId = some child.id && child.templateKey = .ensureCapabilitiesAfterCode

/-- `child` is the blocked source repair that `parent` waits for. -/
def boundRepair (parent child : Step) : Bool :=
  child.stepType.isWorker && child.links.repairForStepId = some parent.id &&
    parent.payload.repairScheduledStepId = some child.id && child.templateKey = .repairCode &&
    child.repairForOrdinal = some parent.ordinal

/-- A blocked step that `current_retry_target` leaves out because a blocked step is bound to it. -/
def suspendedParent (blocked : List Step) (parent : Step) : Bool :=
  !parent.unknownEffects &&
    ((parent.stepType = .validate && blocked.any (boundEnvironment parent)) ||
     (parent.stepType = .ensureDependencies && parent.failureCategory = some "capability_preflight_required" &&
        blocked.any (boundPreflight parent)) ||
     ((parent.stepType = .validate || parent.stepType = .review) && blocked.any (boundRepair parent)))

def currentRetryTarget (steps : List Step) : Option Step :=
  let blocked := steps.filter fun x => x.status = .blocked
  match blocked.filter fun x => !suspendedParent blocked x with
  | [leaf] => some leaf
  | _ => none

def blockedStepIsRetryable (x : Step) : Bool :=
  if x.unknownEffects then false
  else
    let category := x.failureCategory.getD ""
    x.attemptCount < x.maxAttempts || explicitlyRetryableFailures.contains category || startsWith "validation_" category

end Vuzol.Workflow
