import Mathlib
import Vuzol.Theorems.Workflow.Agreement
import Vuzol.Theorems.Workflow.Budget

/-! A task whose runs go on by themselves: attempts stay within their bounds, every queued step can be claimed, the
    repairs of all runs stay below the cap, and every claim that is not given back is paid out of the budget that the
    run was materialized with. -/

namespace Vuzol.Workflow

open Vuzol.Lib

variable {token : LeaseToken} {n : Nat}

/-! ### The policy of a run -/

def HasPolicy (policy : RecoveryPolicy) (s : State) : Prop := s.run.recoveryPolicy = policy

def KeepsPolicy (policy : RecoveryPolicy) (r : Except Failure State) : Prop :=
  Meets (HasPolicy policy) (fun _ => True) r

section Policy
variable {policy : RecoveryPolicy} {s t : State} {x : Step} {f : Facts} {o : StepOutcome}

section
variable (hs : HasPolicy policy s)
include hs

theorem KeepsPolicy.of_run {r : Except Failure State} (h : ∀ t, r = .ok t → t.run = s.run) : KeepsPolicy policy r := by
  cases hr : r with
  | error e => trivial
  | ok t =>
    change t.run.recoveryPolicy = policy
    rw [h t hr]
    exact hs

theorem transitionRun_policy {target : RunStatus} : KeepsPolicy policy (transitionRun s target) := by
  unfold transitionRun
  split_ifs
  · exact hs
  · trivial

theorem activateReadySteps_policy : KeepsPolicy policy (activateReadySteps f s) := by
  unfold activateReadySteps
  split_ifs
  · exact hs
  · refine Meets.foldlM hs fun x _ u hu => KeepsPolicy.of_run hu fun t ht => ?_
    obtain ⟨-, -, -, hr, -⟩ := activateStep_eq_ok ht
    exact hr

theorem resumeAfterValidationEnvironment_policy : KeepsPolicy policy (resumeAfterValidationEnvironment s x) := by
  unfold resumeAfterValidationEnvironment
  repeat' split
  all_goals first | exact hs | trivial | exact Meets.after fun _ => hs

theorem resumeAfterCapabilityPreflight_policy : KeepsPolicy policy (resumeAfterCapabilityPreflight s x) := by
  unfold resumeAfterCapabilityPreflight
  repeat' split
  all_goals first | exact hs | trivial | exact Meets.after fun _ => hs

theorem resumeRepairedStep_policy : KeepsPolicy policy (resumeRepairedStep f s x) := by
  unfold resumeRepairedStep
  repeat' split
  all_goals first | exact hs | trivial | exact Meets.after fun _ => hs

theorem resumeReviewAfterValidation_policy : KeepsPolicy policy (resumeReviewAfterValidation s x) := by
  unfold resumeReviewAfterValidation
  repeat' split
  all_goals first | exact hs | trivial | exact Meets.after fun _ => hs

theorem finalizeIfComplete_policy : KeepsPolicy policy (finalizeIfComplete s) := by
  unfold finalizeIfComplete
  split_ifs
  · exact hs
  · exact hs
  · exact hs
  · exact transitionRun_policy hs

theorem afterCompletion_policy : KeepsPolicy policy (afterCompletion f s x) := by
  unfold afterCompletion
  refine (resumeAfterValidationEnvironment_policy hs).bind fun _ h1 => ?_
  refine (resumeAfterCapabilityPreflight_policy h1).bind fun _ h2 => ?_
  refine (resumeRepairedStep_policy h2).bind fun _ h3 => ?_
  refine (resumeReviewAfterValidation_policy h3).bind fun _ h4 => ?_
  exact (activateReadySteps_policy h4).bind fun _ h5 => finalizeIfComplete_policy h5

end

def HasPolicy₁ (policy : RecoveryPolicy) (r : State × Step) : Prop := HasPolicy policy r.1

section
variable (hs : HasPolicy policy s)
include hs

theorem blockForAttention_policy : Meets (HasPolicy₁ policy) (fun _ => True) (blockForAttention s x) := by
  unfold blockForAttention
  refine Meets.after fun y => ?_
  refine (transitionRun_policy hs).bind fun u hu => ?_
  exact hu

theorem scheduleBoundedRepair_policy :
    Meets (fun r => ∀ q, r = some q → HasPolicy₁ policy q) (fun _ => True) (scheduleBoundedRepair f s x o) := by
  have hnone : ∀ q, (none : Option (State × Step)) = some q → HasPolicy₁ policy q := fun _ h => by cases h
  unfold scheduleBoundedRepair
  simp only
  split
  · exact hnone
  · split
    · exact hnone
    · split
      · exact hnone
      · refine Meets.after fun y => ?_
        rintro q hq
        cases hq
        exact hs

theorem preflightOutcome_policy : Meets (HasPolicy₁ policy) (fun _ => True) (preflightOutcome f s x) := by
  unfold preflightOutcome
  split
  · exact blockForAttention_policy hs
  · rename_i u y hsched
    have hu : HasPolicy policy u := by
      unfold scheduleCapabilityPreflight at hsched
      split at hsched
      · cases hsched
      · cases hsched
        exact hs
    refine Meets.after fun z => ?_
    refine (activateReadySteps_policy (s := u.putStep z) hu).bind fun v hv => ?_
    exact hv

theorem applyOutcome_policy : Meets (HasPolicy₁ policy) (fun _ => True) (applyOutcome f s x o) := by
  have hblock := blockForAttention_policy (x := x) hs
  unfold applyOutcome
  split
  · exact Meets.after fun _ => hs
  · unfold retryOutcome
    simp only
    split
    · exact Meets.after fun _ => hs
    · exact Meets.after fun _ => hs
    · exact hblock
  · exact Meets.after fun _ => (transitionRun_policy hs).bind fun _ hu => hu
  · split_ifs
    · exact Meets.after fun _ => hs
    · exact Meets.after fun _ => hs
  · split_ifs
    · exact preflightOutcome_policy hs
    · unfold blockedOutcome
      refine (scheduleBoundedRepair_policy hs).bind fun r hr => ?_
      split
      · exact hr _ rfl
      · exact hblock.bind fun _ hu => hu
    · exact Meets.after fun _ => hs
    · exact Meets.after fun _ => (transitionRun_policy hs).bind fun _ hu => hu

theorem commitStepOutcome_policy : KeepsPolicy policy (commitStepOutcome f s token o) := by
  unfold commitStepOutcome
  refine Meets.after fun x => ?_
  have hrows : KeepsPolicy policy (commitRows f s x o) := by
    unfold commitRows
    refine (applyOutcome_policy hs).bind fun r hr => ?_
    have hrec : HasPolicy policy (recordRunFailure o r.1 (releaseStep o r.2)) := by
      unfold recordRunFailure
      split_ifs <;> exact hr
    simp only
    split_ifs
    · exact afterCompletion_policy hrec
    · exact hrec
  exact hrows.bind fun u hu => KeepsPolicy.of_run hu fun t ht => (projectTask_status ht).2.1

theorem startRun_policy : KeepsPolicy policy (startRun f s) := by
  unfold startRun
  split_ifs
  · exact hs
  · trivial
  · refine (transitionRun_policy hs).bind fun u hu => ?_
    refine (activateReadySteps_policy (s := { u with run := { u.run with startedAt := some f.now } }) hu).bind
      fun v hv => ?_
    exact KeepsPolicy.of_run hv fun t ht => (moveTask_status ht).2.1

theorem stopExpired_policy {runTarget : RunStatus} {taskTarget : TaskStatus} {category summary : String} :
    KeepsPolicy policy (stopExpired s x runTarget taskTarget category summary) := by
  have hrun : KeepsPolicy policy (stopRun s runTarget) := by
    unfold stopRun
    split_ifs
    · exact transitionRun_policy hs
    · exact hs
  unfold stopExpired
  refine hrun.bind fun u hu => ?_
  have htask : KeepsPolicy policy (stopTask u taskTarget) := .of_run hu fun t ht => stopTask_run ht
  refine htask.bind fun v hv => ?_
  simp only
  split_ifs <;> exact hv

theorem recoverOne_policy : KeepsPolicy policy (recoverOne s x) := by
  unfold recoverOne
  split_ifs
  · exact Meets.after fun _ => hs
  · exact Meets.after fun _ => hs
  · exact Meets.after fun _ => hs
  · exact Meets.after fun y => stopExpired_policy (s := s.putStep _) hs
  · exact Meets.after fun y => stopExpired_policy (s := s.putStep _) hs

theorem blockRoute_policy {id now : Nat} {category summary : String} {quota : Bool} :
    KeepsPolicy policy (blockRoute s id now category summary quota) := by
  unfold blockRoute
  split
  · exact hs
  · split
    · exact hs
    · refine Meets.after fun y => ?_
      refine (transitionRun_policy (s := s.putStep (unroutedStep category summary y)) hs).bind fun u hu => ?_
      exact KeepsPolicy.of_run (s := recordRoute u category summary) hu fun t ht => (moveTask_status ht).2.1

theorem perform_policy {op : Op} (hauto : op.isAutomatic = true) (hop : perform s op = .ok t) : HasPolicy policy t := by
  have hkeep : ∀ {r : Except Failure State}, KeepsPolicy policy r → r = .ok t → HasPolicy policy t :=
    fun hr ht => hr.of_ok ht
  have hsame : t.run = s.run → HasPolicy policy t := fun hr => by rw [HasPolicy, hr]; exact hs
  cases op with
  | startRun f => exact hkeep (startRun_policy hs) hop
  | claimStep c =>
    rcases perform_claim_cases hop with rfl | ⟨x, -, -, rfl⟩
    · exact hs
    · exact hs
  | startStep token =>
    obtain ⟨u, hu, hop1⟩ := bind_eq_ok.mp hop
    obtain ⟨x, -, -, -, rfl⟩ := updateLeased_eq_ok hu
    cases hop1
    exact hs
  | heartbeatStep token now leaseSeconds =>
    obtain ⟨x, -, -, -, rfl⟩ := updateLeased_eq_ok hop
    exact hs
  | commitStepOutcome f token o => exact hkeep (commitStepOutcome_policy hs) hop
  | recoverExpiredStep id now =>
    rcases recoverExpiredStep_cases hop with rfl | ⟨x, -, -, hone⟩
    · exact hs
    · exact hkeep (recoverOne_policy hs) hone
  | blockRoute id now category summary quota => exact hkeep (blockRoute_policy hs) hop
  | requestApproval token body shared expiresAt => exact hsame (requestApproval_cases hop).1
  | wakeCapabilityWaiter id approvalId =>
    rcases wakeCapabilityWaiter_cases hop with rfl | ⟨x, -, -, -, -, hr, -⟩
    · exact hs
    · exact hsame hr
  | recordEffects effects =>
    cases hop
    exact hs
  | pauseTask | resumeTask | cancelTask | retryTask | continueOwnerDecision | decideResult |
    recoverValidationEnvironment | recoverUnsentCliReview | continueTask => cases hauto

end

end Policy

/-! ### One run -/

def State.budget (s : State) : Nat :=
  (s.steps.map (Step.budget s.run.recoveryPolicy.backpressureWaitCap)).sum +
    (s.run.recoveryPolicy.taskRepairCap - repairsOf s.steps) * (2 * s.run.recoveryPolicy.backpressureWaitCap + 3)

/-- The claims that a run is materialized with: the attempts and waits of its steps, a preflight for each dependency
    step, and for each repair the repair, a revalidation and one more attempt. -/
def claimBound (rows : List Step) (policy : RecoveryPolicy) : Nat :=
  (rows.map (·.maxAttempts)).sum + rows.length * policy.backpressureWaitCap +
    rows.countP (fun x => x.stepType = .ensureDependencies) * (policy.backpressureWaitCap + 2) +
    policy.taskRepairCap * (2 * policy.backpressureWaitCap + 3)

structure Within (policy : RecoveryPolicy) (r : TaskRun) : Prop where
  live : Live r.plan.chain r.state
  sound : ∀ x ∈ r.state.steps, x.Sound
  bound : PreflightsBound r.state.steps
  hasPolicy : HasPolicy policy r.state
  paid : r.claims + r.state.budget ≤ claimBound (compileWorkflow r.plan.draft r.plan.now) policy + r.refunds

section Run
variable {policy : RecoveryPolicy} {s t : State} {r : TaskRun} {m : Materialization} {op : Op} {task : Task}

theorem Charged.budget_le {claims added : Nat} (refunds : Nat) (hp : t.run.recoveryPolicy = s.run.recoveryPolicy)
    (h : Charged s.run.recoveryPolicy.backpressureWaitCap s.steps t.steps claims
      (refunds + added * (2 * s.run.recoveryPolicy.backpressureWaitCap + 3)) added)
    (hadded : added = 0 ∨ added = 1 ∧ repairsOf s.steps < s.run.recoveryPolicy.taskRepairCap) :
    t.budget + claims ≤ s.budget + refunds := by
  have htotal := h.total
  unfold Charges at htotal
  unfold State.budget
  rw [hp, h.repairs]
  rcases hadded with rfl | ⟨rfl, hcap⟩
  · simp only [Nat.zero_mul, Nat.add_zero] at htotal ⊢
    omega
  · have hpool : ∀ k, (s.run.recoveryPolicy.taskRepairCap - (repairsOf s.steps + 1)) * k + k =
        (s.run.recoveryPolicy.taskRepairCap - repairsOf s.steps) * k := by
      intro k
      rw [← Nat.succ_mul]
      congr 1
      omega
    have hpool := hpool (2 * s.run.recoveryPolicy.backpressureWaitCap + 3)
    omega

theorem Within.advance (h : Within policy r) (hauto : op.isAutomatic = true)
    (hop : perform { r.state with task := task } op = .ok t) :
    Within policy { r with state := t, claims := r.claims + op.claims { r.state with task := task }
                           refunds := r.refunds + op.refunds { r.state with task := task } } ∧
      (repairsOf t.steps = r.repairs ∨ repairsOf t.steps = r.repairs + 1 ∧
        ∃ f token o, op = .commitStepOutcome f token o ∧ r.repairs + f.otherRepairs < policy.taskRepairCap) := by
  obtain ⟨hlive, hsound, hbound, hpolicy, hpaid⟩ := h
  generalize hs : ({ r.state with task := task } : State) = s at hop ⊢
  have hsteps : s.steps = r.state.steps := by rw [← hs]
  have hrun : s.run = r.state.run := by rw [← hs]
  have hbudget : s.budget = r.state.budget := by simp only [State.budget, hsteps, hrun]
  have hps : HasPolicy policy s := by rw [HasPolicy, hrun]; exact hpolicy
  have hpt := perform_policy hps hauto hop
  rw [← hsteps] at hsound hbound
  obtain ⟨hlive', added, hcharge, hadded⟩ := perform_charged r.plan.compiled (hlive.congr hsteps (by rw [hrun])) hsound
    hbound hauto hop
  have hle := Charged.budget_le (op.refunds s) (hpt.trans hps.symm) hcharge
    (hadded.imp_right fun ⟨ha, f, _, _, _, hcap⟩ => ⟨ha, by omega⟩)
  refine ⟨⟨hlive', hcharge.sound hsound, hcharge.bound hbound, hpt, ?_⟩, ?_⟩
  · rw [hbudget] at hle
    simp only
    omega
  · have hrepairs := hcharge.repairs
    rw [hsteps] at hrepairs hadded
    rcases hadded with rfl | ⟨rfl, f, token, o, hop', hcap⟩
    · exact Or.inl hrepairs
    · refine Or.inr ⟨hrepairs, f, token, o, hop', ?_⟩
      rw [← hps]
      exact hcap

/-! ### The materialized run -/

theorem stepDefinitions_attempts (draft : TaskDraft) : ∀ d ∈ stepDefinitions draft, 1 ≤ d.maxAttempts := by
  have hall : ∀ n ∈ (stepDefinitions draft).map (·.maxAttempts), 1 ≤ n := by
    unfold stepDefinitions
    cases draft.report <;> simp
  exact fun d hd => hall _ (List.mem_map_of_mem hd)

theorem sum_budget_le {rows : List Step} (waits : Nat) (h : ∀ x ∈ rows, x.links = {}) :
    (rows.map (Step.budget waits)).sum ≤ (rows.map (·.maxAttempts)).sum + rows.length * waits +
      rows.countP (fun x => x.stepType = .ensureDependencies) * (waits + 2) := by
  induction rows with
  | nil => simp
  | cons x rows ih =>
    have ih := ih fun y hy => h y (List.mem_cons_of_mem _ hy)
    have hcredit : x.credit waits ≤ (if x.stepType = .ensureDependencies then 1 else 0) * (waits + 2) := by
      unfold Step.credit
      rw [h x List.mem_cons_self]
      by_cases ht : x.stepType = .ensureDependencies <;> simp [ht]
      split_ifs <;> omega
    have hbudget : x.budget waits ≤ x.maxAttempts + waits +
        (if x.stepType = .ensureDependencies then 1 else 0) * (waits + 2) := by
      unfold Step.budget
      omega
    simp only [List.map_cons, List.sum_cons, List.length_cons, List.countP_cons, decide_eq_true_eq, Nat.add_mul,
      Nat.one_mul] at ih hbudget ⊢
    omega

theorem Within.init (hm : materializeRun m = .ok s) :
    Within m.recoveryPolicy { plan := m, state := s } ∧ repairsOf s.steps = 0 := by
  have hrow : ∀ x ∈ s.steps, x.Sound ∧ x.links = {} ∧ x.payload.capabilityPreflightStepId = none ∧
      x.templateKey ≠ .repairCode := by
    rw [(materializeRun_eq_ok hm).2.2]
    intro x hx
    obtain ⟨i, d, hd, rfl⟩ := mem_compileWorkflow hx
    have hpos := stepDefinitions_attempts m.draft d hd
    exact ⟨⟨hpos, Nat.zero_le _, fun _ => hpos, rfl⟩, rfl, rfl, nofun⟩
  have hrepairs : repairsOf s.steps = 0 :=
    List.countP_eq_zero.mpr fun x hx => by simpa using (hrow x hx).2.2.2
  have hpolicy : s.run.recoveryPolicy = m.recoveryPolicy := by
    unfold materializeRun at hm
    split at hm
    · cases hm
      rfl
    · cases hm
  have hlive : Live m.chain s := (Inv.init hm : Inv True m.chain s).live
  refine ⟨⟨hlive, fun x hx => (hrow x hx).1, fun x hx hpre => ?_, hpolicy, ?_⟩, hrepairs⟩
  · exact absurd (hrow x hx).2.2.1 hpre
  · have hsteps := (materializeRun_eq_ok hm).2.2
    have hsum := sum_budget_le m.recoveryPolicy.backpressureWaitCap fun x hx => (hrow x hx).2.1
    simp only [State.budget, claimBound, hpolicy, hrepairs, ← hsteps, Nat.zero_add, Nat.sub_zero, Nat.add_zero]
    omega

end Run

/-! ### All runs of a task -/

section Runs
variable {policy : RecoveryPolicy} {w w' : TaskRuns} {r : TaskRun} {m : Materialization} {op : Op} {task : Task}
  {k : Nat}

theorem TaskRuns.repairs_le (hr : r ∈ w.runs) : r.repairs ≤ w.repairs :=
  List.le_sum_of_mem (List.mem_map_of_mem hr)

theorem TaskRuns.repairs_set_le {r' : TaskRun} (hk : w.runs[k]? = some r) (h : w.repairs + r'.repairs ≤ n + r.repairs) :
    TaskRuns.repairs { task := task, runs := w.runs.set k r' } ≤ n := by
  have hsum : TaskRuns.repairs { task := task, runs := w.runs.set k r' } + r.repairs = w.repairs + r'.repairs :=
    sum_set TaskRun.repairs hk
  omega

theorem Op.isAutomatic_counting : (op.counting n).isAutomatic = op.isAutomatic := by
  cases op <;> rfl

theorem Op.counting_eq_commit {f : Facts} {o : StepOutcome} (h : op.counting n = .commitStepOutcome f token o) :
    f.otherRepairs = n := by
  cases op <;> simp only [Op.counting, reduceCtorEq, Op.commitStepOutcome.injEq] at h
  obtain ⟨rfl, -⟩ := h
  rfl

def WithinAll (policy : RecoveryPolicy) (w : TaskRuns) : Prop :=
  (∀ r ∈ w.runs, Within policy r) ∧ w.repairs ≤ policy.taskRepairCap

theorem WithinAll.recoveryPolicy (h : WithinAll policy w) (given : RecoveryPolicy) :
    w.runs = [] ∨ w.recoveryPolicy given = policy := by
  unfold TaskRuns.recoveryPolicy
  cases hruns : w.runs with
  | nil => exact Or.inl rfl
  | cons r rest => exact Or.inr (h.1 r (by rw [hruns]; exact List.mem_cons_self)).hasPolicy

theorem WithinAll.materialize (h : WithinAll policy w) (hop : w.perform (.materialize m) = .ok w') :
    ∃ policy', WithinAll policy' w' := by
  obtain ⟨s, hs, hop1⟩ := bind_eq_ok.mp hop
  cases hop1
  obtain ⟨hnew, hzero⟩ := Within.init hs
  have hadd : ∀ policy', (∀ r ∈ w.runs, Within policy' r) → w.repairs ≤ policy'.taskRepairCap →
      w.recoveryPolicy m.recoveryPolicy = policy' → ∃ policy', WithinAll policy' { task := s.task, runs := w.runs ++
        [{ plan := { m with task := w.task, recoveryPolicy := w.recoveryPolicy m.recoveryPolicy }, state := s }] } := by
    intro policy' hall hle hpolicy
    refine ⟨policy', fun r hr => ?_, ?_⟩
    · rcases List.mem_append.mp hr with hr | hr
      · exact hall r hr
      · rw [List.mem_singleton.mp hr, ← hpolicy]
        exact hnew
    · simpa [TaskRuns.repairs, TaskRun.repairs, hzero] using hle
  rcases h.recoveryPolicy m.recoveryPolicy with hnil | hpolicy
  · refine hadd _ (fun r hr => ?_) ?_ rfl
    · rw [hnil] at hr
      cases hr
    · simp [TaskRuns.repairs, hnil]
  · exact hadd policy h.1 h.2 hpolicy

theorem WithinAll.advance (h : WithinAll policy w) (hauto : op.isAutomatic = true)
    (hop : w.perform (.advance k op) = .ok w') : WithinAll policy w' := by
  unfold TaskRuns.perform at hop
  simp only at hop
  cases hk : w.runs[k]? with
  | none =>
    rw [hk] at hop
    cases hop
  | some r =>
    rw [hk] at hop
    obtain ⟨t, ht, hop1⟩ := bind_eq_ok.mp hop
    cases hop1
    have hr := List.mem_of_getElem? hk
    have hauto' : (op.counting (w.repairs - r.repairs)).isAutomatic = true := by rw [Op.isAutomatic_counting, hauto]
    obtain ⟨hwithin, hrepairs⟩ := (h.1 r hr).advance hauto' ht
    refine ⟨fun r' hr' => ?_, ?_⟩
    · rcases List.mem_or_eq_of_mem_set hr' with hr' | rfl
      · exact h.1 r' hr'
      · exact hwithin
    · -- A repair is added below the cap, counting those of the other runs.
      have hle := TaskRuns.repairs_le hr
      have hcap := h.2
      refine TaskRuns.repairs_set_le hk ?_
      change w.repairs + repairsOf t.steps ≤ _
      rcases hrepairs with hsame | ⟨hmore, f, token, o, hcommit, hlt⟩
      · omega
      · have hother := Op.counting_eq_commit hcommit
        omega

theorem Unattended.within (h : Unattended task w) : ∃ policy, WithinAll policy w := by
  have hinit : WithinAll defaultRecoveryPolicy { task := task } := ⟨fun _ hr => (List.not_mem_nil hr).elim, Nat.zero_le _⟩
  refine Reach.invariant (P := fun v => ∃ policy, WithinAll policy v) h ⟨_, hinit⟩ ?_
  rintro u v a ⟨policy, hu⟩ hauto hop
  cases a with
  | materialize m => exact hu.materialize hop
  | advance k op => exact ⟨policy, hu.advance hauto hop⟩

/-- Recovery without the owner is bounded: attempts and repairs stay within their bounds, every queued step can be
    claimed, and the claims of a run exceed what it was materialized with only by attempts that were given back. -/
theorem automatic_recovery_bounded (h : Unattended task w) (hr : r ∈ w.runs) :
    (∀ x ∈ r.state.steps, x.attemptCount ≤ x.maxAttempts ∧ (x.status = .queued → x.attemptCount < x.maxAttempts)) ∧
      w.repairs ≤ r.state.run.recoveryPolicy.taskRepairCap ∧
      r.claims ≤ claimBound (compileWorkflow r.plan.draft r.plan.now) r.state.run.recoveryPolicy + r.refunds := by
  obtain ⟨policy, hall, hcap⟩ := h.within
  have hwithin := hall r hr
  rw [hwithin.hasPolicy]
  refine ⟨fun x hx => ?_, hcap, ?_⟩
  · have hx := hwithin.sound x hx
    exact ⟨hx.attempts, fun hq => hx.claimable (Or.inl hq)⟩
  · have hpaid := hwithin.paid
    omega

/-- A run of a coding task whose first step is claimed. -/
theorem automatic_recovery_bounded_claimed : ∃ w : TaskRuns, ∃ r ∈ w.runs, r.claims = 1 ∧
    r.claims ≤ claimBound (compileWorkflow r.plan.draft r.plan.now) r.state.run.recoveryPolicy + r.refunds := by
  obtain ⟨w, hw, hp⟩ := exists_of_ends (r := runOps TaskRuns.perform { task := sampleRun.task }
    [.materialize sampleRun, .advance 0 (.startRun {}), .advance 0 (.claimStep (sampleClaim 1))])
    (p := fun w => w.runs.any fun r => r.claims == 1) (by decide +kernel)
  obtain ⟨r, hr, hclaims⟩ := List.any_eq_true.mp hp
  have hreach : Unattended sampleRun.task w := reach_of_runOps (by intro a ha _; revert a; decide) hw
  exact ⟨w, r, hr, by simpa using hclaims, (automatic_recovery_bounded hreach hr).2.2⟩

end Runs

/-! ### Claims that are lost before they start -/

section Lost
variable {s : State} {x : Step} {c : Claim} {now : Nat}

def lostClaim (x : Step) : Step :=
  { x with leaseOwner := none, leaseGeneration := x.leaseGeneration + 1, leaseExpiresAt := none }

theorem claimStep_of_claimable (hx : s.step? c.stepId = some x) (hc : claimable s c x = true) :
    claimStep s c =
      some (s.putStep (leaseStep c x), { stepId := x.id, owner := c.owner, generation := x.leaseGeneration + 1 }) := by
  simp [claimStep, hx, hc]

theorem leaseExpired_leaseStep (hlate : c.now + c.leaseSeconds < now) : leaseExpired now (leaseStep c x) = true := by
  simp [leaseExpired, leaseStep, StepStatus.isHeld, hlate]

theorem putStep_step? {y : Step} {id : Nat} (hk : Keyed s) (hx : s.step? id = some x) (hy : y.id = x.id) :
    (s.putStep y).step? id = some y := by
  obtain ⟨hmem, hid⟩ := State.mem_of_step? hx
  rw [← hid, ← hy]
  exact find?_put hmem hy.symm hk.nodup

theorem recoverOne_leased (hrun : s.run.status = .running) (hx : x.status = .leased) :
    recoverOne s x = .ok (s.putStep (dropLease { x with status := .queued, attemptCount := x.attemptCount - 1 })) := by
  have hmove : transitionStep x .queued = .ok { x with status := .queued } := by
    rw [transitionStep, hx]
    rfl
  simp [recoverOne, hrun, RunStatus.isTerminal, requeuesExpired, requeueExpired, hx, hmove]

theorem recoverExpiredStep_leased (hk : Keyed s) (hx : s.step? c.stepId = some x) (hc : claimable s c x = true)
    (hlate : c.now + c.leaseSeconds < now) :
    recoverExpiredStep (s.putStep (leaseStep c x)) c.stepId now = .ok (s.putStep (lostClaim x)) := by
  simp only [claimable, Bool.and_eq_true, decide_eq_true_eq] at hc
  obtain ⟨⟨⟨⟨⟨hq, -⟩, -⟩, -⟩, -⟩, hrun⟩ := hc
  have hlost : dropLease { leaseStep c x with status := .queued, attemptCount := x.attemptCount } = lostClaim x := by
    simp [dropLease, leaseStep, lostClaim, hq]
  have hput : (s.putStep (leaseStep c x)).putStep (lostClaim x) = s.putStep (lostClaim x) := by
    have hkey : Step.key (leaseStep c x) = Step.key (lostClaim x) := rfl
    simp only [State.putStep, put_put hkey]
  have hone : recoverOne (s.putStep (leaseStep c x)) (leaseStep c x) =
      .ok ((s.putStep (leaseStep c x)).putStep (lostClaim x)) := by
    have hleased : (leaseStep c x).status = .leased := rfl
    rw [recoverOne_leased (by rw [State.putStep_run, hrun]) hleased, ← hlost]
    rfl
  have hfind : (s.putStep (leaseStep c x)).step? c.stepId = some (leaseStep c x) := putStep_step? hk hx rfl
  simp only [recoverExpiredStep, hfind, leaseExpired_leaseStep hlate, if_true, hone, hput]

/-- A claim of the `n`-th round. -/
def lateClaim (n : Nat) : Claim := { sampleClaim 1 with now := 100 * n }

/-- The first step of the run waits for its `n`-th claim, and nothing of its budget is spent. -/
structure Waiting (n : Nat) (r : TaskRun) : Prop where
  plan : r.plan = sampleRun
  hasPolicy : HasPolicy defaultRecoveryPolicy r.state
  keyed : Keyed r.state
  claims : r.claims = n
  waits : ∃ x, r.state.step? 1 = some x ∧ claimable r.state (sampleClaim 1) x = true

theorem claimable_late (h : claimable s (sampleClaim 1) x = true) : claimable s (lateClaim n) x = true := by
  simp only [claimable, Bool.and_eq_true, decide_eq_true_eq] at h ⊢
  obtain ⟨⟨⟨⟨⟨hq, hnow⟩, ha⟩, hclass⟩, hcaps⟩, hrun⟩ := h
  exact ⟨⟨⟨⟨⟨hq, Nat.le_trans hnow (Nat.zero_le _)⟩, ha⟩, hclass⟩, hcaps⟩, hrun⟩

theorem TaskRuns.perform_only {task : Task} {r : TaskRun} {s t : State} (op : Op)
    (hs : { r.state with task := task } = s) (hop : ∀ k, Workflow.perform s (op.counting k) = .ok t) :
    ∃ r', r'.plan = r.plan ∧ r'.state = t ∧ r'.claims = r.claims + op.claims s ∧
      TaskRuns.perform { task := task, runs := [r] } (.advance 0 op) = .ok { task := t.task, runs := [r'] } := by
  have hclaims : ∀ k, (op.counting k).claims s = op.claims s := by
    intro k
    cases op <;> rfl
  subst hs
  simp only [TaskRuns.perform, List.getElem?_cons_zero, hop, ok_bind, List.set_cons_zero, hclaims]
  refine ⟨{ r with state := t, claims := _, refunds := _ }, rfl, rfl, rfl, rfl⟩

theorem Waiting.round {r : TaskRun} {task : Task} (h : Waiting n r) : ∃ task' r' w₁, Waiting (n + 1) r' ∧
    TaskRuns.perform { task := task, runs := [r] } (.advance 0 (.claimStep (lateClaim n))) = .ok w₁ ∧
    w₁.perform (.advance 0 (.recoverExpiredStep 1 (100 * n + 61))) = .ok { task := task', runs := [r'] } := by
  obtain ⟨x, hx, hc⟩ := h.waits
  obtain ⟨s, hs⟩ : ∃ s, { r.state with task := task } = s := ⟨_, rfl⟩
  have hkeyed : Keyed s := by rw [← hs]; exact h.keyed
  have hpolicy : HasPolicy defaultRecoveryPolicy s := by rw [← hs]; exact h.hasPolicy
  have hfind : s.step? (lateClaim n).stepId = some x := by rw [← hs]; exact hx
  have hclaimable : claimable s (sampleClaim 1) x = true := by rw [← hs]; exact hc
  have hleased := claimStep_of_claimable hfind (claimable_late hclaimable)
  have hclaim : perform s (.claimStep (lateClaim n)) = .ok (s.putStep (leaseStep (lateClaim n) x)) := by
    simp only [perform, hleased, Option.elim_some]
  have hrecover := recoverExpiredStep_leased hkeyed hfind (claimable_late hclaimable) (Nat.lt_succ_self _)
  obtain ⟨r1, hp1, hs1, hc1, h1⟩ := TaskRuns.perform_only (.claimStep (lateClaim n)) hs fun _ => hclaim
  obtain ⟨r2, hp2, hs2, hc2, h2⟩ := TaskRuns.perform_only (.recoverExpiredStep 1 (100 * n + 61)) (r := r1)
    (by rw [hs1]) fun _ => hrecover
  refine ⟨_, r2, _, ⟨by rw [hp2, hp1, h.plan], by rw [hs2]; exact hpolicy, by rw [hs2]; exact hkeyed.put rfl, ?_,
    lostClaim x, by rw [hs2]; exact putStep_step? hkeyed hfind rfl, by rw [hs2]; exact hclaimable⟩, h1, h2⟩
  simp only [hc2, hc1, h.claims, Op.claims, hleased, Option.isSome_some, if_true, Nat.add_zero]

def TaskOp.recovers : TaskOp → Bool
  | .advance _ (.recoverExpiredStep ..) => true
  | _ => false

def TaskOp.joins : TaskOp → Bool
  | .advance _ (.requestApproval ..) => true
  | _ => false

/-- The states of a task without its owner, and without the operations of `excluded`. -/
def UnattendedBut (excluded : TaskOp → Bool) (task : Task) (w : TaskRuns) : Prop :=
  Reach TaskRuns.perform (fun _ a => a.isAutomatic = true ∧ excluded a = false) { task := task } w

def ClaimsBounded (excluded : TaskOp → Bool) : Prop :=
  ∃ bound : List Nat → RecoveryPolicy → Nat, ∀ task w, UnattendedBut excluded task w → ∀ r ∈ w.runs,
    r.claims ≤ bound ((compileWorkflow r.plan.draft r.plan.now).map (·.maxAttempts)) r.state.run.recoveryPolicy

theorem not_claimsBounded {excluded : TaskOp → Bool}
    (h : ∀ n, ∃ w r, UnattendedBut excluded sampleRun.task w ∧ r ∈ w.runs ∧ Waiting n r) : ¬ClaimsBounded excluded := by
  rintro ⟨bound, hbound⟩
  obtain ⟨w, r, hreach, hr, hwait⟩ :=
    h (bound ((compileWorkflow sampleRun.draft sampleRun.now).map (·.maxAttempts)) defaultRecoveryPolicy + 1)
  have hle := hbound _ _ hreach r hr
  rw [hwait.plan, hwait.hasPolicy, hwait.claims] at hle
  omega

theorem exists_lost_claims (n : Nat) :
    ∃ task r, UnattendedBut TaskOp.joins sampleRun.task { task := task, runs := [r] } ∧ Waiting n r := by
  induction n with
  | zero =>
    have hstart : ∃ task r, runOps TaskRuns.perform { task := sampleRun.task }
        [.materialize sampleRun, .advance 0 (.startRun {})] = .ok { task := task, runs := [r] } ∧ Waiting 0 r :=
      ⟨_, _, rfl, rfl, rfl, rfl, rfl, _, rfl, rfl⟩
    obtain ⟨task, r, hops, hwait⟩ := hstart
    exact ⟨task, r, reach_of_runOps (by intro a ha _; revert a; decide) hops, hwait⟩
  | succ n ih =>
    obtain ⟨task, r, hreach, hwait⟩ := ih
    obtain ⟨task', r', w1, hwait', hclaim, hrecover⟩ := hwait.round
    exact ⟨task', r', .step (.step hreach ⟨rfl, rfl⟩ hclaim) ⟨rfl, rfl⟩ hrecover, hwait'⟩

/-! ### Waits that are settled before they are committed -/

theorem requestApproval_shared {body : String} {id expiresAt : Nat} (hx : s.step? token.stepId = some x)
    (hheld : token.holds x = true ∧ x.status.isHeld = true) (htype : x.stepType = .ensureCapabilities)
    (hnone : s.approvals = []) :
    requestApproval s token body (some id) expiresAt =
      .ok (s.putStep { x with payload := { x.payload with capabilityWaitApprovalId := some id } }) := by
  simp [requestApproval, hx, hheld, htype, handlerAction, hnone, joinApproval]

theorem startStep_leased (hx : s.step? token.stepId = some x) (hheld : token.holds x = true) (hstatus : x.status = .leased)
    (hrun : s.run.status = .running) :
    startStep s token = .ok (recordTaskProgress (s.putStep { x with status := .running })) := by
  simp [startStep, updateLeased, hx, hheld, hstatus, hrun]

def settledWait (o : StepOutcome) (x : Step) : Step :=
  releaseStep o { x with status := .queued, attemptCount := x.attemptCount - 1 }

theorem commitStepOutcome_settled {f : Facts} {o : StepOutcome} (hkind : o.kind = .needsApproval)
    (hx : s.step? token.stepId = some x) (hheld : token.holds x = true) (hstatus : x.status = .running)
    (hrun : s.run.status = .running) (hsettled : sharedApprovalSettled f x = true)
    (htask : deriveTaskStatus (put Step.key (settledWait o x) s.steps) .running = s.task.status) :
    commitStepOutcome f s token o = .ok (s.putStep (settledWait o x)) := by
  have hrow : leasedRow s token = .ok x := by
    simp [leasedRow, hx, hheld, hstatus, hrun, StepStatus.isHeld, RunStatus.isTerminal]
  have hmove : transitionStep x .queued = .ok { x with status := .queued } := by
    rw [transitionStep, hstatus]
    rfl
  have hput : ∀ y, Step.key y = Step.key (settledWait o x) →
      (s.putStep y).putStep (settledWait o x) = s.putStep (settledWait o x) := by
    intro y hy
    simp only [State.putStep, put_put hy]
  have hqueued : (settledWait o x).status ≠ .completed := by simp [settledWait, releaseStep, hkind]
  have hrows : commitRows f s x o = .ok (s.putStep (settledWait o x)) := by
    have happly : applyOutcome f s x o = .ok (s.putStep { x with status := .queued, attemptCount := x.attemptCount - 1 },
        { x with status := .queued, attemptCount := x.attemptCount - 1 }) := by
      simp [applyOutcome, hkind, hsettled, hmove]
    simp only [commitRows, happly, ok_bind]
    rw [show releaseStep o { x with status := .queued, attemptCount := x.attemptCount - 1 } = settledWait o x from rfl,
      if_neg hqueued]
    simp only [recordRunFailure, State.putStep_run, hrun, reduceCtorEq, or_self, and_false, if_false]
    rw [hput _ (by simp [settledWait, releaseStep, hkind, Step.key])]
  have hproject : projectTask o (s.putStep (settledWait o x)) = .ok (s.putStep (settledWait o x)) := by
    simp only [projectTask, State.putStep_run, State.putStep_steps, State.putStep_task, hrun, htask, hkind]
    simp
  simp only [commitStepOutcome, hrow, hrows, hproject, ok_bind]

/-- The row of a claim that asked for the installation `id` of another run, and found it settled. -/
def settledClaim (id : Nat) (x : Step) : Step :=
  { x with
    leaseOwner := none
    leaseGeneration := x.leaseGeneration + 1
    leaseExpiresAt := none
    payload := { x.payload with capabilityWaitApprovalId := some id }
    failureCategory := none
    failureSummary := none }

def Follows (s : State) (x : Step) : Prop := ∀ y : Step, y.toStepSpec = x.toStepSpec → y.status = .queued →
  deriveTaskStatus (put Step.key y s.steps) .running = s.task.status

/-- A claim that is started, asks for a shared installation and finds it settled leaves the row with its attempts. -/
theorem settled_claim (id : Nat) (hk : Keyed s) (hx : s.step? c.stepId = some x) (hc : claimable s c x = true)
    (htype : x.stepType = .ensureCapabilities) (hnone : s.approvals = []) (hfollows : Follows s x) :
    ∃ s₁ s₂ s₃ t, perform s (.claimStep c) = .ok s₁ ∧
      perform s₁ (.startStep ⟨c.stepId, c.owner, x.leaseGeneration + 1⟩) = .ok s₂ ∧
      perform s₂ (.requestApproval ⟨c.stepId, c.owner, x.leaseGeneration + 1⟩ "" (some id) 0) = .ok s₃ ∧
      (∀ k, perform s₃ (.commitStepOutcome { sharedApproval := some .expired, otherRepairs := k }
        ⟨c.stepId, c.owner, x.leaseGeneration + 1⟩ { kind := .needsApproval }) = .ok t) ∧
      t.steps = put Step.key (settledClaim id x) s.steps ∧ t.run = s.run ∧ t.approvals = [] ∧
      t.task.status = s.task.status := by
  have hleased := claimStep_of_claimable hx hc
  simp only [claimable, Bool.and_eq_true, decide_eq_true_eq] at hc
  obtain ⟨⟨⟨⟨⟨hq, -⟩, -⟩, -⟩, -⟩, hrun⟩ := hc
  -- The rows of the step under its lease.
  obtain ⟨x1, hx1⟩ : ∃ x1, x1 = leaseStep c x := ⟨_, rfl⟩
  obtain ⟨x2, hx2⟩ : ∃ x2 : Step, x2 = { x1 with status := .running } := ⟨_, rfl⟩
  obtain ⟨x3, hx3⟩ : ∃ x3 : Step, x3 = { x2 with payload := { x2.payload with capabilityWaitApprovalId := some id } } :=
    ⟨_, rfl⟩
  have hk1 : Keyed (s.putStep x1) := hk.put rfl
  have hk2 : Keyed (recordTaskProgress ((s.putStep x1).putStep x2)) := hk1.put rfl
  have hf1 : (s.putStep x1).step? c.stepId = some x1 := putStep_step? hk hx (by rw [hx1]; rfl)
  have hf2 : (recordTaskProgress ((s.putStep x1).putStep x2)).step? c.stepId = some x2 :=
    putStep_step? (s := s.putStep x1) hk1 hf1 (by rw [hx2])
  have hf3 : ((recordTaskProgress ((s.putStep x1).putStep x2)).putStep x3).step? c.stepId = some x3 :=
    putStep_step? hk2 hf2 (by rw [hx3])
  have hy : settledWait { kind := .needsApproval } x3 = settledClaim id x := by
    simp [settledWait, releaseStep, settledClaim, hx3, hx2, hx1, leaseStep, hq]
  have hputs : put Step.key (settledClaim id x) (put Step.key x3 (put Step.key x2 (put Step.key x1 s.steps))) =
      put Step.key (settledClaim id x) s.steps := by
    have hkey1 : Step.key x1 = Step.key (settledClaim id x) := by rw [hx1]; rfl
    have hkey2 : Step.key x2 = Step.key (settledClaim id x) := by rw [hx2, hx1]; rfl
    have hkey3 : Step.key x3 = Step.key (settledClaim id x) := by rw [hx3, hx2, hx1]; rfl
    rw [put_put hkey3, put_put hkey2, put_put hkey1]
  have hclaim : perform s (.claimStep c) = .ok (s.putStep x1) := by
    simp only [perform, hleased, Option.elim_some, hx1]
  have hstart : startStep (s.putStep x1) ⟨c.stepId, c.owner, x.leaseGeneration + 1⟩ =
      .ok (recordTaskProgress ((s.putStep x1).putStep x2)) := by
    rw [hx2]
    exact startStep_leased hf1 (by simp [LeaseToken.holds, hx1, leaseStep]) (by rw [hx1]; rfl) hrun
  have hrequest : requestApproval (recordTaskProgress ((s.putStep x1).putStep x2))
      ⟨c.stepId, c.owner, x.leaseGeneration + 1⟩ "" (some id) 0 =
      .ok ((recordTaskProgress ((s.putStep x1).putStep x2)).putStep x3) := by
    rw [hx3]
    exact requestApproval_shared hf2 (by simp [LeaseToken.holds, hx2, hx1, leaseStep, StepStatus.isHeld])
      (by rw [hx2, hx1]; exact htype) hnone
  have hcommit : ∀ k, commitStepOutcome { sharedApproval := some .expired, otherRepairs := k }
      ((recordTaskProgress ((s.putStep x1).putStep x2)).putStep x3) ⟨c.stepId, c.owner, x.leaseGeneration + 1⟩
      { kind := .needsApproval } =
      .ok (((recordTaskProgress ((s.putStep x1).putStep x2)).putStep x3).putStep (settledClaim id x)) := by
    intro k
    rw [← hy]
    refine commitStepOutcome_settled rfl hf3 (by simp [LeaseToken.holds, hx3, hx2, hx1, leaseStep])
      (by rw [hx3, hx2]) hrun (by simp [sharedApprovalSettled, hx3]) ?_
    rw [hy]
    exact (congrArg (deriveTaskStatus · .running) hputs).trans (hfollows _ rfl hq)
  exact ⟨_, _, _, _, hclaim, hstart, hrequest, hcommit, hputs, rfl, hnone, rfl⟩

structure SharedWaiting (n : Nat) (task : Task) (r : TaskRun) : Prop where
  waiting : Waiting n r
  approvals : r.state.approvals = []
  follows : ∃ x, r.state.step? 1 = some x ∧ x.stepType = .ensureCapabilities ∧ Follows { r.state with task := task } x

/-- One round: the step is claimed and started, asks for an installation of another run, and finds it settled. -/
theorem SharedWaiting.round {task : Task} {r : TaskRun} (h : SharedWaiting n task r) :
    ∃ task' r' g, SharedWaiting (n + 1) task' r' ∧ runOps TaskRuns.perform { task := task, runs := [r] }
      [.advance 0 (.claimStep (lateClaim n)), .advance 0 (.startStep ⟨1, "worker", g⟩),
        .advance 0 (.requestApproval ⟨1, "worker", g⟩ "" (some 9) 0),
        .advance 0 (.commitStepOutcome { sharedApproval := some .expired } ⟨1, "worker", g⟩ { kind := .needsApproval })] =
      .ok { task := task', runs := [r'] } := by
  obtain ⟨x, hx, hc⟩ := h.waiting.waits
  obtain ⟨x', hx', htype, hfollows⟩ := h.follows
  obtain rfl : x = x' := Option.some.inj (hx.symm.trans hx')
  obtain ⟨s, hs⟩ : ∃ s, { r.state with task := task } = s := ⟨_, rfl⟩
  have hkeyed : Keyed s := by rw [← hs]; exact h.waiting.keyed
  have hpolicy : HasPolicy defaultRecoveryPolicy s := by rw [← hs]; exact h.waiting.hasPolicy
  have hfind : s.step? (lateClaim n).stepId = some x := by rw [← hs]; exact hx
  have hclaimable : claimable s (sampleClaim 1) x = true := by rw [← hs]; exact hc
  have hleased := claimStep_of_claimable hfind (claimable_late hclaimable)
  rw [hs] at hfollows
  obtain ⟨s1, s2, s3, t, hop1, hop2, hop3, hop4, hsteps, hrun, hnone, hstatus⟩ :=
    settled_claim 9 hkeyed hfind (claimable_late hclaimable) htype (by rw [← hs]; exact h.approvals) hfollows
  obtain ⟨r1, hp1, hs1, hc1, h1⟩ := TaskRuns.perform_only (.claimStep (lateClaim n)) hs fun _ => hop1
  obtain ⟨r2, hp2, hs2, hc2, h2⟩ := TaskRuns.perform_only (.startStep _) (r := r1) (by rw [hs1]) fun _ => hop2
  obtain ⟨r3, hp3, hs3, hc3, h3⟩ := TaskRuns.perform_only (.requestApproval _ _ _ _) (r := r2) (by rw [hs2]) fun _ => hop3
  obtain ⟨r4, hp4, hs4, hc4, h4⟩ := TaskRuns.perform_only (.commitStepOutcome { sharedApproval := some .expired } _ _)
    (r := r3) (by rw [hs3]) hop4
  have hfind' : t.step? 1 = some (settledClaim 9 x) := by
    have hrow : (s.putStep (settledClaim 9 x)).step? 1 = some (settledClaim 9 x) := putStep_step? hkeyed hfind rfl
    rw [State.step?, hsteps]
    exact hrow
  refine ⟨t.task, r4, x.leaseGeneration + 1, ⟨⟨?_, ?_, ?_, ?_, settledClaim 9 x, ?_, ?_⟩, ?_, settledClaim 9 x, ?_, htype, ?_⟩,
    ?_⟩
  · rw [hp4, hp3, hp2, hp1, h.waiting.plan]
  · rw [hs4, HasPolicy, hrun]
    exact hpolicy
  · rw [hs4]
    exact hkeyed.put hsteps
  · simp only [hc4, hc3, hc2, hc1, h.waiting.claims, Op.claims, hleased, Option.isSome_some, if_true, Nat.add_zero]
  · rw [hs4]
    exact hfind'
  · rw [hs4, claimable, hrun]
    exact hclaimable
  · rw [hs4]
    exact hnone
  · rw [hs4]
    exact hfind'
  · rw [hs4]
    intro y hy hq
    change deriveTaskStatus (put Step.key y t.steps) .running = t.task.status
    have hkey : Step.key (settledClaim 9 x) = Step.key y := (congrArg StepSpec.id hy).symm
    rw [hsteps, put_put hkey, hstatus]
    exact hfollows y hy hq
  · exact runOps_cons_ok h1 (runOps_cons_ok h2 (runOps_cons_ok h3 (runOps_cons_ok h4 rfl)))

theorem exists_settled_claims (n : Nat) :
    ∃ task r, UnattendedBut TaskOp.recovers sampleRun.task { task := task, runs := [r] } ∧ SharedWaiting n task r := by
  induction n with
  | zero =>
    have hstart : ∃ task r, runOps TaskRuns.perform { task := sampleRun.task }
        [.materialize sampleRun, .advance 0 (.startRun {})] = .ok { task := task, runs := [r] } ∧ SharedWaiting 0 task r := by
      refine ⟨_, _, rfl, ⟨rfl, rfl, rfl, rfl, _, rfl, rfl⟩, rfl, _, rfl, rfl, ?_⟩
      rintro ⟨spec, status⟩ hspec hstatus
      cases hspec
      cases hstatus
      rfl
    obtain ⟨task, r, hops, hwait⟩ := hstart
    exact ⟨task, r, reach_of_runOps (by intro a ha _; revert a; decide) hops, hwait⟩
  | succ n ih =>
    obtain ⟨task, r, hreach, hwait⟩ := ih
    obtain ⟨task', r', g, hwait', hops⟩ := hwait.round
    refine ⟨task', r', Reach.trans hreach (reach_of_runOps ?_ hops), hwait'⟩
    simp [TaskOp.isAutomatic, TaskOp.recovers, Op.isAutomatic]

/-- No function of the chain and of the policy bounds the claims of a run: an attempt is given back to a worker that
    dies before it starts, and to a step that finds the installation of another run settled. Either is enough. -/
theorem lost_claims_unbounded : ¬ClaimsBounded TaskOp.joins ∧ ¬ClaimsBounded TaskOp.recovers := by
  refine ⟨not_claimsBounded fun n => ?_, not_claimsBounded fun n => ?_⟩
  · obtain ⟨task, r, hreach, hwait⟩ := exists_lost_claims n
    exact ⟨_, r, hreach, List.mem_cons_self, hwait⟩
  · obtain ⟨task, r, hreach, hwait⟩ := exists_settled_claims n
    exact ⟨_, r, hreach, List.mem_cons_self, hwait.waiting⟩

end Lost

end Vuzol.Workflow
