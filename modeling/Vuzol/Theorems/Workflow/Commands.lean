import Vuzol.Theorems.Workflow.Committable

/-! Which commands of the owner are answered. The consumer records a `ValueError` as a rejection; a transition
    that a table refuses is none, so that its outbox item stays leased and is claimed again for ever. -/

namespace Vuzol.Workflow

open Vuzol.Lib

def Answers (r : Except Failure State) : Prop := Meets (fun _ => True) Failure.Rejection r

section Answers
variable {chain : List StepSpec} {s : State} {c : TaskCommand}

theorem processOne_leased_iff : (processOne s c).2 ≠ .leased ↔ Answers (perform s c.op) := by
  unfold processOne
  cases hr : perform s c.op with
  | ok t => exact ⟨fun _ => trivial, fun _ => nofun⟩
  | error e =>
    cases e with
    | valueError message => exact ⟨fun _ => rfl, fun _ => nofun⟩
    | illegalTask | illegalRun | illegalStep | leaseLost => exact ⟨fun h => absurd rfl h, nofun⟩

theorem processOne_rows (h : (processOne s c).2 ≠ .processed) : (processOne s c).1 = s := by
  unfold processOne at h ⊢
  cases hr : perform s c.op with
  | ok t => simp [hr] at h
  | error e => cases e <;> rfl

theorem Live.derive_ne_failed (hc : Chain chain) (h : Live chain s) (hrun : s.run.status = .running) :
    deriveTaskStatus s.steps .running ≠ .failed := by
  rcases h.rows.waiting with hnil | ⟨ps, x, htip⟩
  · rw [deriveTaskStatus_closed (h.noFailed (by rw [hrun]; decide)) hnil]
    decide
  · rw [h.derive hc hrun htip]
    rcases StepStatus.isLive_or_blocked htip.isOpen with hl | hb
    · have hwork := x.toStepSpec.workStatus_mem
      rcases Step.taskStatus_live hl with ⟨-, ht⟩ | ⟨-, ht⟩ | ⟨-, ht⟩ <;> rw [ht]
      · split <;> decide
      · split <;> decide
      · split
        · decide
        · rintro hf
          rw [hf] at hwork
          simp at hwork
    · rw [taskStatus_blocked hb, ite_self]
      decide

def openTaskStatuses : List TaskStatus :=
  [.interpreted, .executing, .retrying, .contextPrepared, .validating, .reviewing, .waitingApproval, .awaitingUser,
    .blocked, .quotaExhausted]

theorem TaskFits.open_run {loose : Prop} (hc : Chain chain) (h : Live chain s) (hfit : TaskFits loose s)
    (hterm : s.run.status.isTerminal = false) (hp : s.run.status ≠ .paused) : s.task.status ∈ openTaskStatuses := by
  cases hrun : s.run.status with
  | created =>
    simp only [TaskFits, hrun] at hfit
    rw [hfit]
    decide
  | running =>
    have hne := h.derive_ne_failed hc hrun
    have hmem := deriveTaskStatus_running_mem s.steps
    rcases (TaskFits.running hrun).mp hfit with ht | ht | ht <;> rw [ht]
    · simp only [openTaskStatuses, List.mem_cons, List.not_mem_nil, or_false] at hmem ⊢
      tauto
    · decide
    · decide
  | awaitingUser =>
    simp only [TaskFits, hrun] at hfit
    rw [hfit]
    decide
  | blocked =>
    simp only [TaskFits, hrun] at hfit
    rcases hfit with ht | ht <;> rw [ht] <;> decide
  | paused => exact absurd hrun hp
  | failed | cancelled | completed =>
    rw [hrun] at hterm
    cases hterm

end Answers

section Commands
variable {loose : Prop} {chain : List StepSpec} {ps : List Step} {x y : Step} {s t : State} {f : Facts}
  {expected : Option Nat} {undrained : Bool}

theorem answers_transitionTask_iff {target : TaskStatus} :
    Answers (transitionTask s target) ↔ target ∈ taskTransitions s.task.status := by
  unfold transitionTask
  split_ifs with hmem
  · exact ⟨fun _ => hmem, fun _ => trivial⟩
  · exact ⟨nofun, fun h => absurd h hmem⟩

theorem runTransitions_open {a : RunStatus} (h : a.isTerminal = false) :
    .cancelled ∈ runTransitions a ∧ (a ≠ .paused → .paused ∈ runTransitions a) := by
  cases a <;> first | decide | cases h

theorem exists_parkStep (x : Step) : ∃ y, parkStep x = .ok y := by
  unfold parkStep
  split_ifs with hheld
  · have hmem : .blocked ∈ stepTransitions x.status := by
      cases hx : x.status <;> rw [hx] at hheld <;> first | decide | cases hheld
    simp only [transitionStep, if_pos hmem, ok_bind]
    exact ⟨_, rfl⟩
  · exact ⟨x, rfl⟩

theorem pauseTask_answers_iff (hc : Chain chain) (h : Inv loose chain s) :
    Answers (pauseTask s expected) ↔ ¬(checkTaskVersion s expected = .ok () ∧ s.task.status = .quotaExhausted) := by
  unfold pauseTask
  rcases checkTaskVersion_cases s expected with hv | ⟨m, hv⟩
  · simp only [hv, ok_bind, true_and]
    split_ifs with hp hterm
    · refine ⟨fun _ hq => ?_, fun _ => trivial⟩
      have hfit := h.task
      simp only [TaskFits, hp, hq, reduceCtorEq, false_and, and_false, or_self] at hfit
    · refine ⟨fun _ hq => ?_, fun _ => rfl⟩
      have hfit := h.task
      cases hrun : s.run.status <;> simp only [TaskFits, hrun, hq, reduceCtorEq] at hfit <;> rw [hrun] at hterm <;>
        cases hterm
    · have hopen := h.task.open_run hc h.live (by simpa using hterm) hp
      have hrun := (runTransitions_open (by simpa using hterm)).2 hp
      rw [transitionRun, if_pos hrun, ok_bind]
      obtain ⟨rows, hrows⟩ := exists_mapM fun x (_ : x ∈ s.steps) => exists_parkStep x
      have htask : .paused ∈ taskTransitions s.task.status ↔ ¬s.task.status = .quotaExhausted := by
        generalize s.task.status = a at hopen ⊢
        revert a
        decide
      rw [← htask, transitionTask]
      split_ifs with hmem
      · rw [ok_bind, hrows]
        exact ⟨fun _ => hmem, fun _ => trivial⟩
      · refine ⟨fun hanswers => ?_, fun hin => absurd hin hmem⟩
        cases hanswers
  · rw [hv]
    refine ⟨fun _ hq => ?_, fun _ => rfl⟩
    cases hq.1

/-- The rows that a resume projects as a status that the task cannot take: a step that waits for the owner, a
    repair or a revalidation that goes on, and the step of a result that was approved during the pause. -/
def resumesIllegally (task : TaskStatus) (x : Step) : Prop :=
  x.status = .awaitingUser ∨
    (task = .paused ∧ (x.status = .queued ∨ continuable x = true) ∧
      (x.links.repairForStepId.isSome = true ∨ x.links.resumeAfterValidationStepId.isSome = true)) ∨
    (task = .executing ∧ x.status = .queued ∧
      (x.stepType ≠ .ensureCapabilities ∨ x.links.capabilityForStepId.isSome = true))

theorem resumesIllegally.isOpen {task : TaskStatus} (h : resumesIllegally task x) :
    x.status.isLive = true ∨ continuable x = true := by
  rcases h with h | ⟨-, h | h, -⟩ | ⟨-, h, -⟩
  · exact Or.inl (by rw [h]; rfl)
  · exact Or.inl (by rw [h]; rfl)
  · exact Or.inr h
  · exact Or.inl (by rw [h]; rfl)

theorem Tip.eq_of_resumesIllegally {task : TaskStatus} (htip : Tip s.steps ps x) (hy : y ∈ s.steps)
    (h : resumesIllegally task y) : y = x := by
  rcases h.isOpen with hl | hcont
  · exact htip.eq_of_isLive hy hl
  · have hmem : y ∈ s.steps.filter continuable := List.mem_filter.mpr ⟨hy, hcont⟩
    rw [htip.filter_continuable] at hmem
    split at hmem
    · exact List.mem_singleton.mp hmem
    · cases hmem

theorem Stack.links_eq_or_waits {c : StepSpec} (h : Stack ps c) : c.links = {} ∨ ∃ p, Waits p c := by
  cases h with
  | root hl => exact Or.inl hl
  | one _ _ hw => exact Or.inr ⟨_, hw⟩
  | repairAgain _ _ _ _ hr => exact Or.inr ⟨_, .repair hr⟩
  | preflightAgain _ _ _ _ hr => exact Or.inr ⟨_, .preflight hr⟩

theorem Stack.workStatus_retrying_iff {c : StepSpec} (h : Stack ps c) : c.workStatus = .retrying ↔
    c.links.repairForStepId.isSome = true ∨ c.links.resumeAfterValidationStepId.isSome = true := by
  have hroot : c.links = {} → c.workStatus ≠ .retrying := by
    intro hl
    rw [StepSpec.workStatus_root hl]
    cases c.stepType <;> decide
  rcases h.links_eq_or_waits with hl | ⟨p, hw | hw | hw | hw⟩
  · simp [hl, hroot hl]
  · simp [StepSpec.workStatus, hw.links]
  · simp [StepSpec.workStatus, hw.links]
  · simp [StepSpec.workStatus, hw.links]
  · simp [StepSpec.workStatus, hw.links, hw.stepType]

theorem Stack.workStatus_executing_iff {c : StepSpec} (h : Stack ps c) (hask : asksConsent c.stepType = true) :
    c.workStatus = .executing ↔ c.stepType ≠ .ensureCapabilities ∨ c.links.capabilityForStepId.isSome = true := by
  rcases h.links_eq_or_waits with hl | ⟨p, hw | hw | hw | hw⟩
  · rw [StepSpec.workStatus_root hl, hl]
    cases ht : c.stepType <;> rw [ht] at hask <;> first | decide | cases hask
  · have hworker := hw.stepType
    cases ht : c.stepType <;> simp_all [StepType.isWorker, asksConsent]
  · rw [hw.stepType] at hask
    cases hask
  · simp [StepSpec.workStatus, hw.links]
  · rw [hw.stepType] at hask
    cases hask

theorem mem_taskTransitions_work {a : TaskStatus}
    (h : a ∈ [TaskStatus.executing, .retrying, .contextPrepared, .validating, .reviewing]) :
    (a ∈ taskTransitions .paused ↔ a ≠ .retrying) ∧ (a ∈ taskTransitions .executing ↔ a ≠ .executing) := by
  revert a
  decide

theorem Inv.resumed_mem_iff (h : Inv loose chain s) (hrun : s.run.status = .paused) (htip : Tip s.steps ps x)
    (hy : Resumed x y) :
    (if revalidates ps then TaskStatus.blocked else y.taskStatus) ∈ taskTransitions s.task.status ↔
      ¬(revalidates ps = false ∧ resumesIllegally s.task.status x) := by
  have hfit := h.task
  simp only [TaskFits, hrun] at hfit
  cases hn : revalidates ps with
  | true =>
    rcases hfit with ht | ⟨-, ht, -⟩ <;> rw [ht] <;> simp [taskTransitions]
  | false =>
    have hwork := mem_taskTransitions_work x.toStepSpec.workStatus_mem
    have hcont : continuable x = true → x.status = .blocked := fun hc => (continuable_blocked hc).1
    have hyx : y.toStepSpec = x.toStepSpec := hy.toStepSpec
    have hst := hy.status
    simp only [Bool.false_eq_true, if_false, true_and]
    rcases hfit with ht | ⟨-, ht, w, hw, hq, hask⟩
    · rw [ht]
      have hqueued : y.status = .queued → (x.status = .queued ∨ continuable x = true) → x.status ≠ .awaitingUser →
          (y.taskStatus ∈ taskTransitions .paused ↔ ¬resumesIllegally .paused x) := by
        intro hyq hxq hne
        rw [Step.taskStatus_queued hyq, hyx, hwork.1, ne_eq, htip.stack.workStatus_retrying_iff]
        simp [resumesIllegally, hxq, hne]
      rcases StepStatus.isLive_or_blocked htip.isOpen with hl | hb
      · have hnot : continuable x = false := by
          rw [← Bool.not_eq_true]
          intro hc
          rw [hcont hc] at hl
          cases hl
        rw [hnot, if_neg (by decide)] at hst
        have hheld := h.live.tip htip hl
        rw [hrun] at hheld
        change x.status.isHeld = false at hheld
        cases hx : x.status <;> rw [hx] at hl hheld hst <;> try cases hl
        · exact hqueued hst (Or.inl hx) (by rw [hx]; decide)
        · cases hheld
        · cases hheld
        · simp [Step.taskStatus, hst, resumesIllegally, hx, hnot, taskTransitions]
        · simp [Step.taskStatus, hst, resumesIllegally, hx, taskTransitions]
      · cases hx : continuable x with
        | true =>
          rw [hx, if_pos rfl] at hst
          exact hqueued hst (Or.inr hx) (by rw [hb]; decide)
        | false =>
          rw [hx, if_neg (by decide), hb] at hst
          simp [Step.taskStatus, hst, resumesIllegally, hx, hb, taskTransitions]
    · obtain rfl := htip.eq_of_isLive hw (by rw [hq]; rfl)
      have hnot : continuable w ≠ true := by
        intro hc
        rw [hcont hc] at hq
        cases hq
      rw [if_neg hnot, hq] at hst
      rw [ht, Step.taskStatus_queued hst, hyx, hwork.2, ne_eq, htip.stack.workStatus_executing_iff hask]
      simp [resumesIllegally, hq]

theorem answers_restoreRun_iff {target : TaskStatus} (hrun : s.run.status = .running) :
    Answers (restoreRun s target >>= fun u => transitionTask u target) ↔ target ∈ taskTransitions s.task.status := by
  unfold restoreRun
  split_ifs with hb
  · rw [transitionRun, if_pos (by rw [hrun]; decide), ok_bind, answers_transitionTask_iff]
  · rw [ok_bind, answers_transitionTask_iff]

theorem Inv.resume_closed (hc : Chain chain) (h : Inv loose chain s) (hrun : s.run.status = .paused)
    (hnil : openRows s.steps = []) : Answers (resumeRows f s >>= fun u =>
      restoreRun u (deriveTaskStatus u.steps u.run.status) >>= fun v =>
        transitionTask v (deriveTaskStatus u.steps u.run.status)) := by
  have hpaused : s.task.status = .paused := by
    have hfit := h.task
    simp only [TaskFits, hrun] at hfit
    rcases hfit with ht | ⟨-, -, w, hw, hq, -⟩
    · exact ht
    · have hmem : w ∈ openRows s.steps := mem_openRows.mpr ⟨hw, by rw [hq]; rfl⟩
      rw [hnil] at hmem
      cases hmem
  rw [resumeRows_closed hrun hnil]
  cases hact : activateReadySteps f { s with run := { s.run with status := .running } } with
  | error e => exact (activateReadySteps_meets (.refl _)).of_error hact
  | ok u =>
    have hf := h.live.noFailed (by rw [hrun]; decide)
    obtain ⟨hlive, hr, ht, hrows⟩ := activateReadySteps_live hc hact h.live.rows hf rfl
    have hru : u.run.status = .running := by rw [hr]
    rw [ok_bind, answers_restoreRun_iff hru, ht, hru, hpaused]
    rcases hrows with ⟨hopen, -⟩ | ⟨-, rfl | ⟨w, hw, hready, y, hy, hsteps⟩⟩
    · exact absurd hnil hopen
    · rw [deriveTaskStatus_closed hf hnil]
      decide
    · have htip := (Live.open_ready hc h.live.rows hf hnil hw hready hy hsteps hru).2
      have hroot : y.links = {} := by
        cases htip.stack with
        | root hl => exact hl
      rw [hlive.derive hc hru htip, show revalidates [] = false from rfl, if_neg (by decide)]
      have hst := hy.status
      split at hst
      · simp [Step.taskStatus, hst, taskTransitions]
      · rw [Step.taskStatus_queued hst, StepSpec.workStatus_root hroot]
        cases y.stepType <;> decide

/-- A resume is answered unless the row that it continues projects a status that the task cannot take. -/
theorem resumeTask_answers_iff (hc : Chain chain) (h : Inv loose chain s) :
    Answers (resumeTask f s expected undrained) ↔ ¬(Resumable s expected undrained ∧
      ∃ x ∈ s.steps, repairsRevalidation s.steps x = false ∧ resumesIllegally s.task.status x) := by
  by_cases hg : Resumable s expected undrained
  · rw [resumeTask_eq h.live.rows hg (h.task.paused hg.run)]
    simp only [hg, true_and]
    rcases h.live.rows.waiting with hnil | ⟨ps, x, htip⟩
    · refine ⟨fun _ => ?_, fun _ => h.resume_closed hc hg.run hnil⟩
      rintro ⟨z, hz, -, hill⟩
      have hmem : z ∈ openRows s.steps := by
        refine mem_openRows.mpr ⟨hz, ?_⟩
        rcases hill.isOpen with hl | hcont
        · exact StepStatus.isOpen_of_isLive hl
        · rw [(continuable_blocked hcont).1]
          rfl
      rw [hnil] at hmem
      cases hmem
    · obtain ⟨t, y, ht, hr, hf, htip', hres, hrt, htask⟩ := resumeRows_tip (f := f) hc h.live hg.run htip
      rw [ht, ok_bind, answers_restoreRun_iff hrt, hrt, deriveTaskStatus_tip hc hr hf htip', htask,
        h.resumed_mem_iff hg.run htip hres, revalidates_eq h.live.rows htip]
      refine not_congr ⟨fun hx => ⟨x, htip.mem, hx⟩, ?_⟩
      rintro ⟨z, hz, hn, hill⟩
      obtain rfl := htip.eq_of_resumesIllegally hz hill
      exact ⟨hn, hill⟩
  · refine ⟨fun _ hx => hg hx.1, fun _ => ?_⟩
    rcases resumeTask_refused (f := f) hg with hsame | ⟨m, hm⟩
    · rw [hsame]
      trivial
    · rw [hm]
      exact rfl

theorem exists_cancelStep (x : Step) : ∃ y, cancelStep x = .ok y := by
  unfold cancelStep
  split_ifs with hterm
  · exact ⟨x, rfl⟩
  · have hmem : .cancelled ∈ stepTransitions x.status := by
      cases hx : x.status <;> rw [hx] at hterm <;> first | decide | exact absurd rfl hterm
    simp only [transitionStep, if_pos hmem, ok_bind]
    exact ⟨_, rfl⟩

theorem TaskFits.cancellable (hc : Chain chain) (h : Live chain s) (hfit : TaskFits loose s)
    (hterm : s.run.status.isTerminal = false) : .cancelled ∈ taskTransitions s.task.status := by
  by_cases hp : s.run.status = .paused
  · simp only [TaskFits, hp] at hfit
    rcases hfit with ht | ⟨-, ht, -⟩ <;> rw [ht] <;> decide
  · have hopen := hfit.open_run hc h hterm hp
    generalize s.task.status = a at hopen ⊢
    revert a
    decide

theorem cancelTask_answers (hc : Chain chain) (h : Inv loose chain s) : Answers (cancelTask s expected) := by
  unfold cancelTask
  rcases checkTaskVersion_cases s expected with hv | ⟨m, hv⟩
  · rw [hv, ok_bind]
    split_ifs with hcan hcomp hdone
    · trivial
    · exact rfl
    · exact rfl
    · have hterm : s.run.status.isTerminal = false := by
        rw [not_or] at hdone
        cases hrun : s.run.status <;> simp_all [RunStatus.isTerminal]
      have hretain : (decide (s.task.status = .failed) && decide (s.run.status = .paused)) = false := by
        rw [Bool.and_eq_false_iff, or_iff_not_imp_right]
        intro hp
        simp only [Bool.not_eq_false, decide_eq_true_eq] at hp
        exact decide_eq_false (h.task.paused hp).1
      obtain ⟨rows, hrows⟩ := exists_mapM fun x (_ : x ∈ s.steps) => exists_cancelStep x
      have hrun := (runTransitions_open hterm).1
      have htask := h.task.cancellable hc h.live hterm
      simp only [hrows, ok_bind, transitionRun, if_pos hrun, hretain, settleTask, transitionTask, if_pos htask,
        Bool.false_eq_true, if_false]
      trivial
  · rw [hv]
    exact rfl

theorem retryTarget_meets {r : RetryRequest} {command : String} :
    Meets (fun x => s.run.status = .blocked ∧ currentRetryTarget s.steps = some x) Failure.Rejection
      (retryTarget s r command) := by
  cases hr : retryTarget s r command with
  | ok x => exact retryTarget_eq_ok hr
  | error e =>
    unfold retryTarget at hr
    split_ifs at hr
    · cases hr; exact rfl
    · cases hr; exact rfl
    · cases hr; exact rfl
    · split at hr
      · cases hr; exact rfl
      · split_ifs at hr
        cases hr; exact rfl

theorem retryBlockedStep_answers {id now : Nat} (hrun : s.run.status = .blocked) :
    Answers (retryBlockedStep s id now) := by
  unfold retryBlockedStep
  split
  · exact rfl
  · rename_i x hfind
    split_ifs with hb hretry
    · exact rfl
    · exact rfl
    · have hgrant : .queued ∈ stepTransitions (grantAttempt x).status := by
        rw [grantAttempt_status, not_not.mp hb]
        decide
      have hreopen : (startBudgetEpoch s now).run.status = .blocked := hrun
      simp only [transitionStep, if_pos hgrant, ok_bind, reopenRun, State.putStep, hreopen, if_true, transitionRun]
      simp only [show RunStatus.running ∈ runTransitions .blocked from by decide, if_true, ok_bind]
      split_ifs with htask
      · refine answers_transitionTask_iff.mpr ?_
        rcases htask with ht | ht
        · rw [ht]; decide
        · rw [ht]; decide
      · trivial

theorem retryTask_answers {r : RetryRequest} : Answers (retryTask s r) := by
  unfold retryTask
  exact retryTarget_meets.bind fun x hx => retryBlockedStep_answers hx.1

theorem Dead.answers {c : TaskCommand} (h : Dead s) : Answers (Workflow.perform s c.op) := by
  cases c with
  | pause expected =>
    rcases checkTaskVersion_cases s expected with hv | ⟨m, hv⟩
    · simp [TaskCommand.op, Workflow.perform, pauseTask, hv, h.run, RunStatus.isTerminal, Answers, Meets, Failure.Rejection,
        Failure.isValueError]
    · simp [TaskCommand.op, Workflow.perform, pauseTask, hv, Answers, Meets, Failure.Rejection, Failure.isValueError]
  | resume f expected undrained =>
    have hg : ¬Resumable s expected undrained := by
      rintro hg
      have hrun := hg.run
      rw [h.run] at hrun
      cases hrun
    rcases resumeTask_refused (f := f) hg with hsame | ⟨m, hm⟩
    · simp only [TaskCommand.op, Workflow.perform, hsame]
      trivial
    · simp only [TaskCommand.op, Workflow.perform, hm]
      exact rfl
  | cancel expected =>
    rcases checkTaskVersion_cases s expected with hv | ⟨m, hv⟩
    · simp [TaskCommand.op, Workflow.perform, cancelTask, hv, h.run, Answers, Meets]
    · simp [TaskCommand.op, Workflow.perform, cancelTask, hv, Answers, Meets, Failure.Rejection, Failure.isValueError]
  | retry r => exact retryTask_answers

/-- The commands that a transition table refuses. -/
def TaskCommand.misses (s : State) : TaskCommand → Prop
  | .pause expected => checkTaskVersion s expected = .ok () ∧ s.task.status = .quotaExhausted
  | .resume _ expected undrained => Resumable s expected undrained ∧
      ∃ x ∈ s.steps, repairsRevalidation s.steps x = false ∧ resumesIllegally s.task.status x
  | .cancel _ | .retry _ => False

theorem Inv.answers_iff {c : TaskCommand} (hc : Chain chain) (h : Inv loose chain s) :
    Answers (Workflow.perform s c.op) ↔ ¬c.misses s := by
  cases c with
  | pause expected => exact pauseTask_answers_iff hc h
  | resume f expected undrained => exact resumeTask_answers_iff hc h
  | cancel expected => exact ⟨fun _ => not_false, fun _ => cancelTask_answers hc h⟩
  | retry r => exact ⟨fun _ => not_false, fun _ => retryTask_answers⟩

theorem Dead.not_misses {c : TaskCommand} (h : Dead s) : ¬c.misses s := by
  cases c with
  | pause expected =>
    rintro ⟨-, hq⟩
    rw [h.task] at hq
    cases hq
  | resume f expected undrained =>
    rintro ⟨hg, -⟩
    have hrun := hg.run
    rw [h.run] at hrun
    cases hrun
  | cancel expected => exact not_false
  | retry r => exact not_false

theorem answers_iff {r : Except Failure State} :
    Answers r ↔ (∃ t, r = .ok t) ∨ ∃ message, r = .error (.valueError message) := by
  cases r with
  | ok t => exact ⟨fun _ => Or.inl ⟨t, rfl⟩, fun _ => trivial⟩
  | error e =>
    cases e with
    | valueError message => exact ⟨fun _ => Or.inr ⟨message, rfl⟩, fun _ => rfl⟩
    | illegalTask | illegalRun | illegalStep | leaseLost => exact ⟨nofun, fun h => by simp at h⟩

/-- Every command succeeds or is rejected, but for the pauses and resumes that a table refuses. What does not
    succeed leaves the rows as they are. -/
theorem owner_command_answered {m : Materialization} (h : Reached anyOp m s) (c : TaskCommand) :
    (((∃ t, perform s c.op = .ok t) ∨ ∃ message, perform s c.op = .error (.valueError message)) ↔ ¬c.misses s) ∧
      ((processOne s c).2 ≠ .leased ↔ ¬c.misses s) ∧
      ((processOne s c).2 ≠ .processed → (processOne s c).1 = s) := by
  have hiff : Answers (perform s c.op) ↔ ¬c.misses s := by
    rcases h.inv True (fun _ _ _ _ => trivial) with hinv | hdead
    · exact hinv.answers_iff m.compiled
    · exact ⟨fun _ => hdead.not_misses, fun _ => hdead.answers⟩
  exact ⟨answers_iff.symm.trans hiff, processOne_leased_iff.trans hiff, processOne_rows⟩

theorem owner_command_answered_pause : ∃ s, Reached anyOp sampleRun s ∧ s.run.status = .running ∧
    (processOne s (.pause none)).2 ≠ .leased := by
  obtain ⟨s, hs, hp⟩ := Reached.of_runOps anyOp sampleRun [.startRun {}]
    (fun s => s.run.status == .running && s.task.status == .contextPrepared) (fun _ _ _ => trivial) (by decide +kernel)
  simp only [Bool.and_eq_true, beq_iff_eq] at hp
  refine ⟨s, hs, hp.1, (owner_command_answered hs (.pause none)).2.1.mpr ?_⟩
  rintro ⟨-, hq⟩
  rw [hp.2] at hq
  cases hq

def pausedRepair : List Op :=
  [.startRun {}] ++ finishSteps [1, 2, 3, 4, 5] ++
    workStep 6 1 { kind := .blocked, category := some "validation_gate_failed" } ++ [.pauseTask none]

theorem resume_of_repair_unanswered : ∃ s, Reached anyOp sampleRun s ∧
    perform s (TaskCommand.resume {} none false).op = .error (.illegalTask .paused .retrying) ∧
    (processOne s (.resume {} none false)).2 = .leased := by
  obtain ⟨s, hs, hp⟩ := Reached.of_runOps anyOp sampleRun pausedRepair
    (fun s => raises (.illegalTask .paused .retrying) (perform s (TaskCommand.resume {} none false).op))
    (fun _ _ _ => trivial) (by decide +kernel)
  have hop := eq_error_of_raises hp
  refine ⟨s, hs, hop, ?_⟩
  unfold processOne
  rw [hop]

end Commands

end Vuzol.Workflow
