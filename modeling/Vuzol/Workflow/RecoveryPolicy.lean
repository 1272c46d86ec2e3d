import Vuzol.Workflow.Types

/-! The recovery decision table (`workflows/recovery_policy.py`). -/

namespace Vuzol.Workflow

def fingerprintHistoryLimit : Nat := 8

def backpressureCategories : List String :=
  ["disk_pressure", "rate_limited", "quota_exhausted", "provider_unavailable", "shutdown_cancelled"]

def repairableCategoryPrefixes : List String := ["validation_", "review_"]

def repairableStepTypes : List StepType := [.validate, .review]

inductive RecoveryAction where
  | retry | repair | takeover | wait | attention
  deriving DecidableEq

/-- `RecoveryPolicy`; the positivity that `__post_init__` checks is carried by the value. -/
structure RecoveryPolicy where
  stepRepairCap : Nat := 3
  taskRepairCap : Nat := 6
  backpressureWaitCap : Nat := 5
  recoveryDeadlineSeconds : Nat := 3600
  stepRepairCap_pos : 0 < stepRepairCap := by decide
  taskRepairCap_pos : 0 < taskRepairCap := by decide
  backpressureWaitCap_pos : 0 < backpressureWaitCap := by decide
  recoveryDeadlineSeconds_pos : 0 < recoveryDeadlineSeconds := by decide

def defaultRecoveryPolicy : RecoveryPolicy := {}

def isBackpressure (category : Option String) : Bool := category.any fun c => backpressureCategories.contains c

def repairableCategory (category : Option String) : Bool :=
  category.any fun c => repairableCategoryPrefixes.any fun p => startsWith p c

structure RecoveryState where
  outcomeKind : OutcomeKind
  category : Option String
  stepType : StepType
  unknownEffects : Bool
  retryable : Bool
  fingerprint : Option String := none
  seenFingerprints : List String := []
  repairCount : Nat := 0
  taskRepairCount : Nat := 0
  backpressureCount : Nat := 0
  deadlineExceeded : Bool := false

def RecoveryState.repairable (state : RecoveryState) : Bool :=
  -- Missing validation infrastructure is not a source-code defect.
  if state.category = some "validation_environment_missing_tool" then false
  else repairableStepTypes.contains state.stepType && repairableCategory state.category

def decideRecovery (state : RecoveryState) (policy : RecoveryPolicy) : RecoveryAction :=
  if state.unknownEffects then .attention
  else if state.deadlineExceeded then .attention
  else if isBackpressure state.category then
    if policy.backpressureWaitCap ≤ state.backpressureCount then .attention else .wait
  else if state.repairable then
    if state.fingerprint.any fun x => state.seenFingerprints.contains x then .attention
    else if policy.stepRepairCap ≤ state.repairCount then .attention
    else if policy.taskRepairCap ≤ state.taskRepairCount then .attention
    else .repair
  else if state.outcomeKind = .transientFailure && state.retryable then .retry
  else .attention

/-- Append a fingerprint to the bounded history, newest last (`history[-8:]`). -/
def appendFingerprintHistory (history : List String) (fingerprint : String) : List String :=
  let grown := history ++ [fingerprint]
  grown.drop (grown.length - fingerprintHistoryLimit)

variable {state : RecoveryState} {policy : RecoveryPolicy}

theorem decideRecovery_of_unknownEffects
    (h : state.unknownEffects = true) : decideRecovery state policy = .attention := by
  simp [decideRecovery, h]

/-- A wait is decided below the wait cap. -/
theorem decideRecovery_wait
    (h : decideRecovery state policy = .wait) : state.backpressureCount < policy.backpressureWaitCap := by
  unfold decideRecovery at h
  split_ifs at h with _ _ _ hcap
  exact Nat.lt_of_not_le hcap

/-- A repair is decided for a repairable failure of a validation or a review, below both repair caps. -/
theorem decideRecovery_repair (h : decideRecovery state policy = .repair) :
    state.unknownEffects = false ∧ state.repairable = true ∧ state.taskRepairCount < policy.taskRepairCap := by
  unfold decideRecovery at h
  split_ifs at h with hu _ _ _ hr _ _ htask
  exact ⟨by simpa using hu, hr, Nat.lt_of_not_le htask⟩

theorem decideRecovery_retry (h : decideRecovery state policy = .retry) : state.retryable = true := by
  unfold decideRecovery at h
  split_ifs at h with _ _ _ _ _ _ _ _ hr
  simp only [Bool.and_eq_true] at hr
  exact hr.2

theorem RecoveryState.repairable_iff (h : state.repairable = true) :
    (state.stepType = .validate ∨ state.stepType = .review) ∧ repairableCategory state.category = true := by
  unfold RecoveryState.repairable at h
  split_ifs at h
  simpa [repairableStepTypes] using h

end Vuzol.Workflow
