import Vuzol.Theorems.Workflow.Writes

/-! Recovery of expired leases against the policy for repeated work. Recovery asks for the label of a step and for a
    key, the policy for the capabilities of the step and for a key that is not blank: they agree where no repeat is
    due, or where label and key are what they claim to be. -/

namespace Vuzol.Workflow

open Vuzol.Lib

variable {s t : State} {x y : Step}

/-- The label of the step is borne out: read-only work needs no capability to write, and a key is not blank. -/
def labelBorneOut (x : Step) : Bool :=
  match x.idempotencyClass with
  | .readOnly => x.requiredCapabilities.all fun c => !mutatingCapabilities.contains c
  | .idempotent => x.externalIdempotencyKey.all fun key => key.toList.any fun c => !Lib.isSpace c
  | _ => true

def repeatDue (s : State) (x : Step) : Bool := !s.run.status.isTerminal && x.attemptCount < x.maxAttempts

theorem repeatable_of_safe (hrunning : x.status = .running) (hsafe : safeToRepeat x = true) :
    repeatableWithoutNewMutation x = labelBorneOut x := by
  unfold repeatableWithoutNewMutation labelBorneOut
  cases hc : x.idempotencyClass with
  | readOnly => simp
  | idempotent =>
    have hkey : x.externalIdempotencyKey.isSome = true := by
      simpa [safeToRepeat, hrunning, hc] using hsafe
    obtain ⟨key, hk⟩ := Option.isSome_iff_exists.mp hkey
    simp [hk]
  | _ => simp [safeToRepeat, hrunning, hc] at hsafe

theorem labelBorneOut_of_not_safe (hrunning : x.status = .running) (hrisky : safeToRepeat x = false) :
    labelBorneOut x = true := by
  unfold labelBorneOut
  cases hc : x.idempotencyClass with
  | readOnly => simp [safeToRepeat, hc] at hrisky
  | idempotent =>
    have hkey : x.externalIdempotencyKey = none := by
      simpa [safeToRepeat, hrunning, hc] using hrisky
    simp [hkey]
  | _ => rfl

theorem step?_of_put (hx : s.step? x.id = some x) (hy : y.id = x.id) (ht : t.steps = put Step.key y s.steps) :
    t.step? x.id = some y := by
  have hkeep : ((fun z : Step => z.id == x.id) ∘ fun z => if Step.key z = Step.key y then y else z) = fun z => z.id == x.id := by
    funext z
    by_cases hz : Step.key z = Step.key y
    · simp [hz, hy]
    · simp [hz]
  unfold State.step? at hx ⊢
  rw [ht, put, List.find?_map, hkeep, hx]
  simp [Step.key, hy]

theorem recoverOne_requeues (hx : s.step? x.id = some x) (hrunning : x.status = .running) (hdue : repeatDue s x = true)
    (hsafe : safeToRepeat x = true) :
    ∃ t y, recoverOne s x = .ok t ∧ t.step? x.id = some y ∧ y.status = .queued ∧
      repeatableWithoutNewMutation y = repeatableWithoutNewMutation x := by
  unfold repeatDue at hdue
  simp only [Bool.and_eq_true, Bool.not_eq_true', decide_eq_true_eq] at hdue
  have hlegal : StepStatus.queued ∈ stepTransitions x.status := by
    rw [hrunning]
    decide
  have hmove : transitionStep x .queued = .ok { x with status := .queued } := transitionStep_eq_ok.mpr ⟨hlegal, rfl⟩
  have hrequeues : requeuesExpired x = true := by simp [requeuesExpired, hsafe, hdue.2]
  have hnotLeased : x.status ≠ .leased := by
    rw [hrunning]
    decide
  by_cases hpaused : s.run.status = .paused
  · have hone : recoverOne s x = .ok (recordTaskProgress (s.putStep (dropLease { x with status := .queued }))) := by
      simp [recoverOne, hpaused, RunStatus.isTerminal, parkExpired, hrequeues, requeueExpired, hmove, hnotLeased]
    exact ⟨_, dropLease { x with status := .queued }, hone, step?_of_put hx rfl rfl, rfl, rfl⟩
  · have hone : recoverOne s x = .ok (s.putStep (dropLease { x with status := .queued })) := by
      simp [recoverOne, hpaused, hdue.1, hrequeues, requeueExpired, hmove, hnotLeased]
    exact ⟨_, dropLease { x with status := .queued }, hone, step?_of_put hx rfl rfl, rfl, rfl⟩

theorem recoverOne_settles (hx : s.step? x.id = some x) (hrunning : x.status = .running)
    (hnot : (repeatDue s x && safeToRepeat x) = false) (hone : recoverOne s x = .ok t) (hy : t.step? x.id = some y) :
    y.status ≠ .queued := by
  have hput : ∀ z : Step, t.steps = put Step.key z s.steps → z.id = x.id → z.status ≠ .queued → y.status ≠ .queued := by
    intro z ht hz hst
    rw [step?_of_put hx hz ht] at hy
    rw [← Option.some.inj hy]
    exact hst
  have hkept : s.run.status.isTerminal = false → requeuesExpired x = false := by
    intro hlive
    simpa [requeuesExpired, hrunning, repeatDue, hlive, Bool.and_comm] using hnot
  unfold recoverOne at hone
  split_ifs at hone with hterminal hpaused hrequeues hsafe
  · obtain ⟨-, hone⟩ := transitionStep_bind.mp hone
    cases hone
    exact hput _ rfl rfl (by simp [dropLease])
  · obtain ⟨z, hz, hone⟩ := bind_eq_ok.mp hone
    cases hone
    unfold parkExpired at hz
    rw [hkept (by simpa using hterminal)] at hz
    simp only [Bool.false_eq_true, if_false] at hz
    split_ifs at hz
    · obtain ⟨-, hz⟩ := transitionStep_bind.mp hz
      cases hz
      exact hput _ rfl rfl (by simp [dropLease])
    · obtain ⟨-, hz⟩ := transitionStep_bind.mp hz
      cases hz
      exact hput _ rfl rfl (by simp [dropLease])
  · rw [hkept (by simpa using hterminal)] at hrequeues
    cases hrequeues
  · obtain ⟨-, hone⟩ := transitionStep_bind.mp hone
    exact hput _ (stopExpired_steps hone) rfl (by simp [dropLease])
  · obtain ⟨-, hone⟩ := transitionStep_bind.mp hone
    exact hput _ (stopExpired_steps hone) rfl (by simp [dropLease])

/-- A running step with an expired lease that goes back to the queue is repeatable, exactly where no repeat is due or
    its label is borne out. -/
theorem lease_recovery_agrees (s : State) (x : Step) (now : Nat) (hx : s.step? x.id = some x) (hrunning : x.status = .running)
    (hexpired : leaseExpired now x = true) :
    (∀ t y, recoverExpiredStep s x.id now = .ok t → t.step? x.id = some y → y.status = .queued →
      repeatableWithoutNewMutation y = true) ↔ (!repeatDue s x || labelBorneOut x) = true := by
  have hone : recoverExpiredStep s x.id now = recoverOne s x := by simp [recoverExpiredStep, hx, hexpired]
  rw [hone]
  constructor
  · intro hall
    cases hdue : repeatDue s x with
    | false => rfl
    | true =>
      cases hsafe : safeToRepeat x with
      | false => simpa using labelBorneOut_of_not_safe hrunning hsafe
      | true =>
        obtain ⟨t, y, ht, hy, hq, hsame⟩ := recoverOne_requeues hx hrunning hdue hsafe
        have hrepeatable := hall t y ht hy hq
        rw [hsame, repeatable_of_safe hrunning hsafe] at hrepeatable
        simpa using hrepeatable
  · intro hcond t y ht hy hq
    cases hboth : repeatDue s x && safeToRepeat x with
    | false => exact absurd hq (recoverOne_settles hx hrunning hboth ht hy)
    | true =>
      rw [Bool.and_eq_true] at hboth
      obtain ⟨t', y', ht', hy', -, hsame⟩ := recoverOne_requeues hx hrunning hboth.1 hboth.2
      rw [ht] at ht'
      cases ht'
      rw [hy] at hy'
      cases hy'
      rw [hsame, repeatable_of_safe hrunning hboth.2]
      simpa [hboth.1] using hcond

/-- A validation is labelled read-only, runs in the project's shell and has an attempt left. -/
def expiredValidation : Step where
  id := 0
  ordinal := 0
  templateKey := .chain .validate
  predecessorOrdinals := []
  stepType := .validate
  queueClass := .heavy
  requiredCapabilities := [.projectShell]
  retryClass := .never
  idempotencyClass := .readOnly
  status := .running
  attemptCount := 1
  maxAttempts := 2
  leaseOwner := some "w"
  leaseExpiresAt := some 5
  leaseGeneration := 1

def validating (x : Step) : State where
  task := { status := .validating, userId := 1 }
  run := { status := .running, recoveryPolicy := defaultRecoveryPolicy }
  steps := [x]

/-- A review without capabilities is repeated. -/
theorem lease_recovery_agrees_review :
    ∃ t y, recoverExpiredStep (validating { expiredValidation with requiredCapabilities := [] }) 0 9 = .ok t ∧
      t.step? 0 = some y ∧ y.status = .queued ∧ repeatableWithoutNewMutation y = true := by
  have hrun : ends (fun t => (t.step? 0).any (fun y => decide (y.status = .queued)))
      (recoverExpiredStep (validating { expiredValidation with requiredCapabilities := [] }) 0 9) = true := by decide
  obtain ⟨t, ht, hp⟩ := exists_of_ends hrun
  rw [Option.any_eq_true] at hp
  obtain ⟨y, hy, hq⟩ := hp
  have hq := of_decide_eq_true hq
  exact ⟨t, y, ht, hy, hq, (lease_recovery_agrees (validating { expiredValidation with requiredCapabilities := [] })
    { expiredValidation with requiredCapabilities := [] } 9 (by decide) rfl (by decide)).mpr (by decide) t y ht hy hq⟩

/-- The validation is run again although it may write. -/
theorem mutating_step_requeued :
    ∃ t y, recoverExpiredStep (validating expiredValidation) 0 9 = .ok t ∧ t.step? 0 = some y ∧ y.status = .queued ∧
      repeatableWithoutNewMutation y = false := by
  have hrun : ends (fun t => (t.step? 0).any fun y => decide (y.status = .queued) && !repeatableWithoutNewMutation y)
      (recoverExpiredStep (validating expiredValidation) 0 9) = true := by decide
  obtain ⟨t, ht, hp⟩ := exists_of_ends hrun
  rw [Option.any_eq_true] at hp
  obtain ⟨y, hy, hq⟩ := hp
  simp only [Bool.and_eq_true, decide_eq_true_eq, Bool.not_eq_true'] at hq
  exact ⟨t, y, ht, hy, hq.1, hq.2⟩

end Vuzol.Workflow
