import Vuzol.Theorems.Workflow.Agreement

/-! Which outcomes a run can commit. No table refuses what a commit does to the rows of a started step; what is
    left is the task, which must go from the status it has to the one that the new rows project. -/

namespace Vuzol.Workflow

open Vuzol.Lib

/-- A `ValueError`, which no transition table raises. -/
def Failure.Rejection (e : Failure) : Prop := e.isValueError = true

theorem Failure.Rejection.legal {e : Failure} (h : e.Rejection) : e.isIllegalTransition = false := by
  cases e with
  | valueError message => rfl
  | illegalTask | illegalRun | illegalStep | leaseLost => cases h

section Rows
variable {x y : Step} {s u : State} {f : Facts} {o : StepOutcome}
variable {E : Failure → Prop}

/-! ### The rows of a commit -/

theorem meets_transitionStep {P : Step → Prop} {target : StepStatus} (h : target ∈ stepTransitions x.status)
    (hP : P { x with status := target }) : Meets P E (transitionStep x target) := by
  rw [transitionStep, if_pos h]
  exact hP

def SameTask (s u : State) : Prop := u.task = s.task

theorem SameTask.refl (s : State) : SameTask s s := rfl

theorem meets_transitionRun {target : RunStatus} (hu : SameTask s u) (h : target ∈ runTransitions u.run.status) :
    Meets (SameTask s) E (transitionRun u target) := by
  rw [transitionRun, if_pos h]
  exact hu

theorem ensureResultApproval_meets (hu : SameTask s u) :
    Meets (SameTask s) Failure.Rejection (ensureResultApproval f u x) := by
  unfold ensureResultApproval
  split
  · exact hu
  · split
    · exact hu
    · split
      · exact rfl
      · exact hu

theorem activateStep_meets (hu : SameTask s u) (hx : x.status = .pending) :
    Meets (SameTask s) Failure.Rejection (activateStep f u x) := by
  have hmem : (if x.stepType = .approval then StepStatus.waitingApproval else .queued) ∈ stepTransitions x.status := by
    rw [hx]
    split <;> decide
  unfold activateStep
  simp only
  refine (meets_transitionStep (P := fun _ => True) hmem trivial).bind fun y _ => ?_
  by_cases ht : x.stepType = .approval
  · simp only [ht, if_true]
    exact ensureResultApproval_meets hu
  · simp only [ht, if_false, reduceCtorEq]
    exact hu

theorem activateReadySteps_meets (hu : SameTask s u) : Meets (SameTask s) Failure.Rejection (activateReadySteps f u) := by
  unfold activateReadySteps
  split_ifs
  · exact hu
  · refine Meets.foldlM hu fun x hx v hv => activateStep_meets hv ?_
    exact (Step.ready_eq_true.mp (List.mem_filter.mp hx).2).1

theorem meets_requeue {P : State → Prop} {g : Step → State} (hx : x.status = .blocked) (hP : ∀ y, P (g y)) :
    Meets P E (transitionStep x .queued >>= fun y => .ok (g y)) :=
  (meets_transitionStep (P := fun _ => True) (by rw [hx]; decide) trivial).bind fun y _ => hP y

section
variable (hu : SameTask s u)
include hu

theorem resumeAfterValidationEnvironment_meets :
    Meets (SameTask s) Failure.Rejection (resumeAfterValidationEnvironment u x) := by
  unfold resumeAfterValidationEnvironment
  split_ifs
  · exact hu
  · split
    · exact hu
    · split
      · exact rfl
      · rename_i target hfind
        have hb := List.find?_some hfind
        simp only [Bool.and_eq_true, decide_eq_true_eq] at hb
        split_ifs
        · exact rfl
        · exact meets_requeue hb.2 fun _ => hu

theorem resumeAfterCapabilityPreflight_meets :
    Meets (SameTask s) Failure.Rejection (resumeAfterCapabilityPreflight u x) := by
  unfold resumeAfterCapabilityPreflight
  split_ifs
  · exact hu
  · split
    · exact hu
    · split
      · exact rfl
      · rename_i target hfind
        have hb := List.find?_some hfind
        simp only [Bool.and_eq_true, decide_eq_true_eq] at hb
        split_ifs
        · exact rfl
        · exact meets_requeue hb.2 fun _ => hu

theorem resumeRepairedStep_meets : Meets (SameTask s) Failure.Rejection (resumeRepairedStep f u x) := by
  unfold resumeRepairedStep
  split
  · exact hu
  · split
    · exact hu
    · split_ifs with hb
      · exact hu
      · split
        · exact hu
        · exact hu
      · exact meets_requeue (not_not.mp hb) fun _ => hu

theorem resumeReviewAfterValidation_meets : Meets (SameTask s) Failure.Rejection (resumeReviewAfterValidation u x) := by
  unfold resumeReviewAfterValidation
  split
  · exact hu
  · split
    · exact hu
    · split_ifs with hb
      · exact hu
      · simp only [Bool.or_eq_true, decide_eq_true_eq, not_or, not_not, ne_eq] at hb
        exact meets_requeue hb.2 fun _ => hu

theorem finalizeIfComplete_meets : Meets (SameTask s) E (finalizeIfComplete u) := by
  unfold finalizeIfComplete
  split_ifs with h1 h2
  · exact hu
  · exact hu
  · exact hu
  · exact meets_transitionRun hu (by rw [not_not.mp h2]; decide)

theorem afterCompletion_meets : Meets (SameTask s) Failure.Rejection (afterCompletion f u x) := by
  unfold afterCompletion
  refine (resumeAfterValidationEnvironment_meets hu).bind fun v hv => ?_
  refine (resumeAfterCapabilityPreflight_meets hv).bind fun w hw => ?_
  refine (resumeRepairedStep_meets hw).bind fun a ha => ?_
  refine (resumeReviewAfterValidation_meets ha).bind fun b hb => ?_
  exact (activateReadySteps_meets hb).bind fun c hc => finalizeIfComplete_meets hc

end

def SameTask₁ (s : State) (r : State × Step) : Prop := SameTask s r.1

theorem blockForAttention_meets (hx : .blocked ∈ stepTransitions x.status) (hrun : s.run.status = .running) :
    Meets (SameTask₁ s) Failure.Rejection (blockForAttention s x) := by
  unfold blockForAttention
  refine (meets_transitionStep (P := fun _ => True) hx trivial).bind fun y _ => ?_
  refine (meets_transitionRun (.refl s) (by rw [hrun]; decide)).bind fun u hu => ?_
  exact hu

theorem scheduleBoundedRepair_meets (hx : .blocked ∈ stepTransitions x.status) :
    Meets (fun r => ∀ scheduled, r = some scheduled → SameTask₁ s scheduled) Failure.Rejection
      (scheduleBoundedRepair f s x o) := by
  have hnone : ∀ scheduled, (none : Option (State × Step)) = some scheduled → SameTask₁ s scheduled :=
    fun _ h => by cases h
  unfold scheduleBoundedRepair
  simp only
  split
  · exact hnone
  · split
    · exact hnone
    · split
      · exact hnone
      · refine (meets_transitionStep (P := fun _ => True) hx trivial).bind fun y _ => ?_
        rintro scheduled ⟨⟩
        exact rfl

theorem applyOutcome_meets (hx : x.status = .running) (hrun : s.run.status = .running) :
    Meets (SameTask₁ s) Failure.Rejection (applyOutcome f s x o) := by
  -- A started step may go to every status that an outcome asks for.
  have hone : ∀ {target : StepStatus} {g : Step → State × Step}, target ∈ stepTransitions .running →
      (∀ y, SameTask₁ s (g y)) → Meets (SameTask₁ s) Failure.Rejection (transitionStep x target >>= fun y => .ok (g y)) :=
    fun ht hg => (meets_transitionStep (P := fun _ => True) (by rw [hx]; exact ht) trivial).bind fun y _ => hg y
  have htwo : ∀ {target : StepStatus} {runTarget : RunStatus}, target ∈ stepTransitions .running →
      runTarget ∈ runTransitions .running → Meets (SameTask₁ s) Failure.Rejection (do
        let y ← transitionStep x target
        let u ← transitionRun s runTarget
        .ok (u.putStep y, y)) := by
    intro target runTarget ht hr
    refine (meets_transitionStep (P := fun _ => True) (by rw [hx]; exact ht) trivial).bind fun y _ => ?_
    refine (meets_transitionRun (.refl s) (by rw [hrun]; exact hr)).bind fun u hu => ?_
    exact hu
  have hblock : Meets (SameTask₁ s) Failure.Rejection (blockForAttention s x) :=
    blockForAttention_meets (by rw [hx]; decide) hrun
  unfold applyOutcome
  split
  · exact hone (by decide) fun _ => rfl
  · unfold retryOutcome
    simp only
    split
    · exact hone (by decide) fun _ => rfl
    · exact hone (by decide) fun _ => rfl
    · exact hblock
  · exact htwo (by decide) (by decide)
  · split_ifs
    · exact hone (by decide) fun _ => rfl
    · exact hone (by decide) fun _ => rfl
  · split_ifs
    · unfold preflightOutcome
      split
      · exact hblock
      · rename_i u y hsched
        obtain ⟨rfl, rfl, -⟩ := scheduleCapabilityPreflight_eq_some hsched
        have hb : .blocked ∈ stepTransitions (bindPreflight x (preflightStep f s x).id).status := by
          rw [show (bindPreflight x (preflightStep f s x).id).status = x.status from rfl, hx]
          decide
        refine (meets_transitionStep (P := fun _ => True) hb trivial).bind fun z _ => ?_
        have hz : SameTask s ((s.appendStep (preflightStep f s x)).putStep z) := rfl
        refine (activateReadySteps_meets hz).bind fun v hv => ?_
        exact hv
    · unfold blockedOutcome
      refine (scheduleBoundedRepair_meets (s := s) (by rw [hx]; decide)).bind fun r hr => ?_
      split
      · exact hr _ rfl
      · refine hblock.bind fun r hr => ?_
        exact hr
    · exact hone (by decide) fun _ => rfl
    · exact htwo (by decide) (by decide)

theorem commitRows_meets (hx : x.status = .running) (hrun : s.run.status = .running) :
    Meets (SameTask s) Failure.Rejection (commitRows f s x o) := by
  unfold commitRows
  refine (applyOutcome_meets hx hrun).bind fun r hr => ?_
  have hrec : SameTask s ((recordRunFailure o r.1 (releaseStep o r.2)).putStep (releaseStep o r.2)) :=
    recordRunFailure_task.trans hr
  simp only
  split_ifs
  · exact afterCompletion_meets hrec
  · exact hrec

end Rows

section Task
variable {loose : Prop} {chain : List StepSpec} {ps qs : List Step} {x y z p : Step} {c : StepSpec} {s t u : State}
  {f : Facts} {o : StepOutcome}

/-! ### The task of a commit -/

/-- A task that has the status `a` may be given the status `b`. -/
def mayTake (a b : TaskStatus) : Bool := b = a || (taskTransitions a).contains b

theorem TaskFits.working (hc : Chain chain) (h : Live chain s) (hfit : TaskFits loose s) (hrun : s.run.status = .running)
    (htip : Tip s.steps ps x) (hx : x.status.isWorking = true) :
    s.task.status = .executing ∨ s.task.status = .retrying ∨
      s.task.status = if revalidates ps then .blocked else x.toStepSpec.workStatus := by
  rw [TaskFits.running hrun, deriveTaskStatus_tip hc h.rows (h.noFailed (by rw [hrun]; decide)) htip,
    Step.taskStatus_working hx] at hfit
  tauto

theorem Waits.workStatus (h : Waits p c) : c.workStatus = .executing ∨ c.workStatus = .retrying := by
  rcases h with h | h | h | h
  · exact Or.inr (by simp [StepSpec.workStatus, h.links])
  · exact Or.inr (by simp [StepSpec.workStatus, h.links])
  · exact Or.inl (by simp [StepSpec.workStatus, h.links])
  · exact Or.inl (by simp [StepSpec.workStatus, h.links, h.stepType])

/-- What the rows project after an outcome while the run goes on. -/
inductive Projected (f : Facts) (ps : List Step) (x : Step) (o : StepOutcome) : TaskStatus → Prop
  | same : Projected f ps x o (if revalidates ps then .blocked else x.toStepSpec.workStatus)
  | asked (ho : o.kind = .needsApproval) (hsettled : sharedApprovalSettled f x = false) :
      Projected f ps x o (if revalidates ps then .blocked else .waitingApproval)
  | stopped : Projected f ps x o .blocked
  | closed (hps : ps = []) : Projected f ps x o .executing
  | repaired (hn : revalidates ps = false) (ht : x.stepType = .validate ∨ x.stepType = .review) :
      Projected f ps x o .retrying
  | preflighted (hn : revalidates ps = false) (ht : x.stepType = .ensureDependencies) : Projected f ps x o .executing
  | opened {c : StepSpec} (hps : ps = []) (hl : c.links = {}) (hf : follows x.stepType c.stepType = true) :
      Projected f ps x o (if c.stepType = .approval then .waitingApproval else c.workStatus)
  | woke {qs : List Step} {p : Step} (hps : ps = qs ++ [p]) : Projected f ps x o p.toStepSpec.workStatus
  | revalidated (hps : ps ≠ []) (hn : revalidates ps = false) : Projected f ps x o .retrying

theorem Stack.not_revalidates (h : Stack (qs ++ [p]) c) : revalidates qs = false := by
  have hpop := h.pop
  generalize p.toStepSpec = d at hpop
  cases hpop with
  | root => rfl
  | one _ hl _ => simp [revalidates, hl]
  | repairAgain =>
    generalize hqs : [_, _] ++ [p] = rs at h
    cases h <;> simp at hqs
  | preflightAgain =>
    generalize hqs : [_, _] ++ [p] = rs at h
    cases h <;> simp at hqs

theorem Live.derive (hc : Chain chain) (h : Live chain s) (hrun : s.run.status = .running) (htip : Tip s.steps ps x) :
    deriveTaskStatus s.steps .running = if revalidates ps then .blocked else x.taskStatus :=
  deriveTaskStatus_tip hc h.rows (h.noFailed (by rw [hrun]; decide)) htip

theorem Step.taskStatus_queued (h : x.status = .queued) : x.taskStatus = x.toStepSpec.workStatus :=
  Step.taskStatus_working (by rw [h]; rfl)

theorem Rows.opened_follows (hc : Chain chain) (h : Rows chain s.steps) (htip : Tip s.steps [] x)
    (hy : y.toStepSpec = x.toStepSpec) (hcomp : y.status = .completed) {w : Step} (hw : w ∈ put Step.key y s.steps)
    (hready : Step.ready (put Step.key y s.steps) w = true) : w.links = {} ∧ follows x.stepType w.stepType = true := by
  have hroot : x.links = {} := by
    cases htip.stack with
    | root hl => exact hl
  have hlt := (h.laid.links_iff hc htip.mem).mp hroot
  obtain ⟨k, hk⟩ := h.front
  have hxk := (hk.row x htip.mem).id_eq htip.isOpen hlt
  have hid : y.id = x.id := by rw [hy]
  obtain ⟨hr', -, -⟩ := h.close htip hy (by rw [hcomp]; rfl) (by rw [hcomp]; decide)
  obtain ⟨-, hwk, hwlt⟩ := hr'.ready_front hc (hk.advance htip.mem htip.isOpen hlt hid hcomp) hw hready
  have hxc := h.laid.compiled_row htip.mem hlt
  have hwc := hr'.laid.compiled_row hw hwlt
  rw [hwk, ← hxk] at hwc
  exact ⟨(hr'.laid.links_iff hc hw).mpr hwlt, hc.follows hxc hwc⟩

theorem Completed.projected (hc : Chain chain) (h : Live chain s) (htip : Tip s.steps ps x)
    (hrun : s.run.status = .running) (hy : y.toStepSpec = x.toStepSpec) (hcomp : y.status = .completed)
    (hru : u.run.status = .running) (hcom : Completed s ps x y .running u.steps) :
    Projected f ps x o (deriveTaskStatus u.steps .running) := by
  have hs : s.run.status ≠ .failed := by rw [hrun]; decide
  generalize ht : u.steps = rows at hcom
  cases hcom with
  | ended hps =>
    subst hps
    obtain ⟨-, hf, hnil⟩ := h.settled htip hs hy hcomp
    rw [deriveTaskStatus_closed hf hnil]
    exact .closed rfl
  | @opened w z hps hw hready hz =>
    subst hps
    obtain ⟨hr', hf', hnil⟩ := h.settled htip hs hy hcomp
    obtain ⟨hl, hfollows⟩ := h.rows.opened_follows hc htip hy hcomp hw hready
    obtain ⟨hlive, htip'⟩ := Live.open_ready hc hr' hf' hnil hw hready hz ht hru
    rw [← ht, hlive.derive hc hru htip']
    have hstatus : z.taskStatus =
        if w.stepType = .approval then .waitingApproval else w.toStepSpec.workStatus := by
      unfold Step.taskStatus
      rw [hz.status, hz.toStepSpec]
      split_ifs <;> rfl
    simp only [revalidates, List.any_nil, Bool.false_eq_true, if_false, hstatus]
    exact .opened rfl hl hfollows
  | @woke qs p p' hps hwoken =>
    subst hps
    obtain ⟨hlive, htip'⟩ := h.wake htip hs ht hy hcomp hwoken hru
    rw [← ht, hlive.derive hc hru htip', htip.stack.not_revalidates, Step.taskStatus_queued hwoken.queued,
      hwoken.toStepSpec]
    exact .woke rfl
  | @refunded qs p p' hps hwoken =>
    subst hps
    obtain ⟨hlive, htip'⟩ := h.wake htip hs ht hy hcomp hwoken hru
    rw [← ht, hlive.derive hc hru htip', htip.stack.not_revalidates, Step.taskStatus_queued hwoken.queued,
      hwoken.toStepSpec]
    exact .woke rfl
  | @revalidated qs p c hps hadd hrev =>
    subst hps
    obtain ⟨hlive, htip'⟩ := h.revalidate htip hs ht hy hcomp hadd hrev hru
    have hwork : c.toStepSpec.workStatus = .retrying := by simp [StepSpec.workStatus, hrev.links]
    rw [← ht, hlive.derive hc hru htip', Step.taskStatus_queued hadd.queued, hwork]
    split
    · exact .stopped
    · rename_i hn
      exact .revalidated (by simp) (by simpa using hn)
  | @stranded qs p hps =>
    subst hps
    obtain ⟨hr', -, hpop⟩ := h.rows.close htip hy (by rw [hcomp]; rfl) (by rw [hcomp]; decide)
    have hf' := (h.noFailed hs).put_row (y := y) (by rw [hcomp]; decide)
    have hb := (htip.stack.parked (p := p) (by simp)).blocked
    rw [deriveTaskStatus_blocked hc hr' hf' (hpop qs p rfl) hb]
    exact .stopped

theorem Committed.projected (hc : Chain chain) (h : Live chain s) (htip : Tip s.steps ps x)
    (hx : x.status.isHeld = true) (hrun : s.run.status = .running) (hru : u.run.status = .running)
    (hcom : Committed f s ps x o .running u.steps) : Projected f ps x o (deriveTaskStatus u.steps .running) := by
  have hs : s.run.status ≠ .failed := by rw [hrun]; decide
  have hclean := h.rows.clean_of_isLive htip.mem (StepStatus.isLive_of_isHeld hx)
  -- The tip goes on and shows a status of its own.
  have hretip : ∀ {y : Step}, u.steps = put Step.key y s.steps → y.toStepSpec = x.toStepSpec → y.status.isLive = true →
      y.unknownEffects = x.unknownEffects →
      deriveTaskStatus u.steps .running = if revalidates ps then .blocked else y.taskStatus := by
    intro y ht hy hl hu
    obtain ⟨hlive, htip'⟩ := h.retip htip hs ht hy (StepStatus.isOpen_of_isLive hl) (fun _ => hu.trans hclean)
      fun _ => by rw [hru]; trivial
    exact hlive.derive hc hru htip'
  have hqueued : ∀ {y : Step}, u.steps = put Step.key y s.steps → y.toStepSpec = x.toStepSpec → y.status = .queued →
      y.unknownEffects = x.unknownEffects → Projected f ps x o (deriveTaskStatus u.steps .running) := by
    intro y ht hy hq hu
    rw [hretip ht hy (by rw [hq]; rfl) hu, Step.taskStatus_queued hq, hy]
    exact .same
  generalize ht : u.steps = rows at hcom
  cases hcom with
  | waited _ hy hq hu => exact ht ▸ hqueued ht hy hq hu
  | retried _ hy hq hu => exact ht ▸ hqueued ht hy.toStepSpec hq hu
  | released _ _ hy hq hu => exact ht ▸ hqueued ht hy hq hu
  | @asked y ho hsettled hy hq hu =>
    rw [← ht, hretip ht hy.toStepSpec (by rw [hq]; rfl) hu]
    have hstatus : y.taskStatus = .waitingApproval := by simp [Step.taskStatus, hq]
    rw [hstatus]
    exact .asked ho hsettled
  | @cancelled y ho hu hy hq =>
    obtain ⟨hr', hnil, hpop⟩ := h.rows.close htip hy.toStepSpec (by rw [hq]; rfl) (by rw [hq]; decide)
    have hf' := (h.noFailed hs).put_row (y := y) (by rw [hq]; decide)
    rcases List.eq_nil_or_concat ps with hps | ⟨qs, q, hps⟩
    · rw [deriveTaskStatus_closed hf' (hnil.trans hps)]
      exact .closed hps
    · rw [List.concat_eq_append] at hps
      have hb := (htip.stack.parked (p := q) (by rw [hps]; simp)).blocked
      rw [deriveTaskStatus_blocked hc hr' hf' (hpop qs q hps) hb]
      exact .stopped
  | @repaired y c ho hu hy hp hadd hrep =>
    obtain ⟨hlive, htip'⟩ := h.park htip hs ht hy.toStepSpec hp.blocked
      (htip.stack.push_repair hy.toStepSpec hp hrep) hadd hru
    have hwork : c.toStepSpec.workStatus = .retrying := by simp [StepSpec.workStatus, hrep.links]
    have htype := hrep.parent
    rw [show y.stepType = x.stepType from by rw [hy.toStepSpec]] at htype
    rw [← ht, hlive.derive hc hru htip', Step.taskStatus_queued hadd.queued, hwork]
    split
    · exact .stopped
    · rename_i hn
      simp only [revalidates, List.any_append, Bool.or_eq_true, not_or, Bool.not_eq_true] at hn
      exact .repaired hn.1 htype
  | @preflighted y c ho hu hy _ _ _ hp hadd hpre =>
    obtain ⟨hlive, htip'⟩ := h.park htip hs ht hy hp.blocked (htip.stack.push_preflight hy hp hpre) hadd hru
    have hwork : c.toStepSpec.workStatus = .executing := by simp [StepSpec.workStatus, hpre.links]
    have htype := hpre.parent
    rw [show y.stepType = x.stepType from by rw [hy]] at htype
    rw [← ht, hlive.derive hc hru htip', Step.taskStatus_queued hadd.queued, hwork]
    split
    · exact .stopped
    · rename_i hn
      simp only [revalidates, List.any_append, Bool.or_eq_true, not_or, Bool.not_eq_true] at hn
      exact .preflighted hn.1 htype
  | completed _ hy hq hcomp =>
    subst ht
    exact hcomp.projected hc h htip hrun hy.toStepSpec hq hru

theorem mayTake_commanded : ∀ a ∈ [TaskStatus.executing, .retrying],
    ∀ b ∈ [TaskStatus.waitingApproval, .awaitingUser, .blocked, .failed, .executing, .retrying, .contextPrepared,
      .validating, .reviewing], mayTake a b = true := by
  decide

theorem mayTake_stop : ∀ a ∈ [TaskStatus.executing, .retrying, .contextPrepared, .validating, .reviewing, .blocked],
    ∀ b ∈ [TaskStatus.awaitingUser, .blocked, .failed], mayTake a b = true := by
  decide

theorem mayTake_executing : ∀ a ∈ [TaskStatus.executing, .retrying, .contextPrepared, .validating, .reviewing],
    mayTake a .executing = true := by
  decide

theorem mayTake_waitingApproval : ∀ a ∈ [TaskStatus.executing, .retrying, .contextPrepared, .validating, .reviewing],
    a ≠ .validating → mayTake a .waitingApproval = true := by
  decide

theorem mayTake_retrying (h : c.stepType = .validate ∨ c.stepType = .review) : mayTake c.workStatus .retrying = true := by
  unfold StepSpec.workStatus
  split
  · decide
  · split
    · decide
    · rcases h with h | h <;> rw [h] <;> decide

def StepType.workStatus : StepType → TaskStatus
  | .ensureCapabilities | .prepareContext => .contextPrepared
  | .validate => .validating
  | .review => .reviewing
  | _ => .executing

theorem StepSpec.workStatus_root (hl : c.links = {}) : c.workStatus = c.stepType.workStatus := by
  unfold StepSpec.workStatus
  rw [hl]
  cases c.stepType <;> rfl

theorem mayTake_follows {a b : StepType} (h : follows a b = true) :
    mayTake a.workStatus (if b = .approval then .waitingApproval else b.workStatus) = true := by
  cases a <;> cases b <;> first | rfl | cases h

theorem Stack.workStatus_revalidation (h : Stack (qs ++ [p]) c) (hn : revalidates (qs ++ [p]) = true) :
    p.toStepSpec.workStatus = .retrying := by
  have hpop := h.pop
  have hqs := h.not_revalidates
  simp only [revalidates, List.any_append, List.any_cons, List.any_nil, Bool.or_false, Bool.or_eq_true] at hn hqs
  rw [hqs] at hn
  have hl := hn.resolve_left (by decide)
  generalize hd : p.toStepSpec = d at hpop
  rw [show p.links = d.links from by rw [hd]] at hl
  cases hpop with
  | root hroot => simp [hroot] at hl
  | one _ _ hw =>
    rcases hw with hw | hw | hw | hw
    · simp [hw.links] at hl
    · simp [StepSpec.workStatus, hw.links]
    · simp [hw.links] at hl
    · simp [hw.links] at hl
  | repairAgain _ _ _ _ hw => simp [hw.links] at hl
  | preflightAgain _ _ _ _ hw => simp [hw.links] at hl

theorem Stack.workStatus (h : Stack ps c) (hps : ps ≠ []) : c.workStatus = .executing ∨ c.workStatus = .retrying := by
  rcases List.eq_nil_or_concat ps with hnil | ⟨qs, q, hqs⟩
  · exact absurd hnil hps
  · rw [List.concat_eq_append] at hqs
    rw [hqs] at h
    exact h.waits.workStatus

theorem Projected.mayTake {a b : TaskStatus} (hstack : Stack ps x.toStepSpec) (h : Projected f ps x o b)
    (ha : a = .executing ∨ a = .retrying ∨ a = if revalidates ps then .blocked else x.toStepSpec.workStatus)
    (hb : b ∈ [TaskStatus.waitingApproval, .awaitingUser, .blocked, .failed, .executing, .retrying, .contextPrepared,
      .validating, .reviewing]) :
    mayTake a b = true ∨ (a = .validating ∧ o.kind = .needsApproval ∧ sharedApprovalSettled f x = false) := by
  have hwork := x.toStepSpec.workStatus_mem
  have hcommanded : a = .executing ∨ a = .retrying → Workflow.mayTake a b = true := by
    intro ha
    exact mayTake_commanded a (by simpa using ha) b hb
  rcases ha with ha | ha | ha
  · exact Or.inl (hcommanded (Or.inl ha))
  · exact Or.inl (hcommanded (Or.inr ha))
  · cases hn : revalidates ps with
    | true =>
      -- The review below the parked revalidation shows the task as blocked.
      rw [hn] at ha
      simp only [if_true] at ha
      subst ha
      left
      have hne : ps ≠ [] := by rintro rfl; cases hn
      cases h with
      | same => rw [hn]; rfl
      | asked => rw [hn]; rfl
      | stopped => rfl
      | closed hps => exact absurd hps hne
      | repaired hn' => rw [hn] at hn'; cases hn'
      | preflighted hn' => rw [hn] at hn'; cases hn'
      | opened hps => exact absurd hps hne
      | woke hps =>
        subst hps
        rw [hstack.workStatus_revalidation hn]
        rfl
      | revalidated _ hn' => rw [hn] at hn'; cases hn'
    | false =>
      rw [hn] at ha
      simp only [Bool.false_eq_true, if_false] at ha
      by_cases hps : ps = []
      · subst hps
        have hroot : x.links = {} := by
          cases hstack with
          | root hl => exact hl
        rw [← ha] at hwork
        cases h with
        | same => rw [hn, ← ha]; exact Or.inl (by simp [Workflow.mayTake])
        | asked ho hsettled =>
          by_cases hv : a = .validating
          · exact Or.inr ⟨hv, ho, hsettled⟩
          · exact Or.inl (mayTake_waitingApproval a hwork hv)
        | stopped => exact Or.inl (mayTake_stop a (by simp at hwork ⊢; tauto) _ (by simp))
        | closed => exact Or.inl (mayTake_executing a hwork)
        | repaired _ ht => rw [ha]; exact Or.inl (mayTake_retrying ht)
        | preflighted => exact Or.inl (mayTake_executing a hwork)
        | @opened d _ hl hf =>
          rw [ha, StepSpec.workStatus_root hroot, StepSpec.workStatus_root hl]
          exact Or.inl (mayTake_follows hf)
        | woke hps => simp at hps
        | revalidated hps => exact absurd rfl hps
      · exact Or.inl (hcommanded (ha ▸ hstack.workStatus hps))

/-! ### What cannot be committed -/

/-- The two commits that the table of the task refuses: an approval asked for by a validation, and the end of a
    task that its owner retried. -/
def commitMisses (f : Facts) (s : State) (x : Step) (o : StepOutcome) : Prop :=
  (s.task.status = .validating ∧ o.kind = .needsApproval ∧ sharedApprovalSettled f x = false) ∨
    (s.task.status = .retrying ∧ o.kind = .succeeded ∧ s.unsettled = false ∧
      ∀ z ∈ s.steps, z.id ≠ x.id → z.status = .completed)

theorem Rows.last_of_completed (hc : Chain chain) (h : Rows chain s.steps) (htip : Tip s.steps ps x)
    (hall : ∀ z ∈ s.steps, z.id ≠ x.id → z.status = .completed) : ps = [] ∧ x.links = {} ∧ x.stepType = .finalize := by
  have hps : ps = [] := by
    rcases List.eq_nil_or_concat ps with hps | ⟨qs, q, hps⟩
    · exact hps
    · rw [List.concat_eq_append] at hps
      have hq : q ∈ ps := by rw [hps]; simp
      have hcomp := hall q (htip.mem_parent hq) (htip.parent_ne h.laid.nodup hq)
      rw [(htip.stack.parked hq).blocked] at hcomp
      cases hcomp
  subst hps
  have hroot : x.links = {} := by
    cases htip.stack with
    | root hl => exact hl
  have hlt := (h.laid.links_iff hc htip.mem).mp hroot
  obtain ⟨k, hk⟩ := h.front
  have hxk := (hk.row x htip.mem).id_eq htip.isOpen hlt
  refine ⟨rfl, hroot, hc.last (h.laid.compiled_row htip.mem hlt) ?_⟩
  by_contra hne
  obtain ⟨z, hz, hid⟩ := h.laid.exists_id (show x.id + 1 < s.steps.length from by have := h.laid.size; omega)
  have hpend := (hk.row z hz).after (by omega) (by omega)
  rw [hall z hz (by omega)] at hpend
  cases hpend

theorem Completed.ended_of_completed (hid : y.id = x.id) (hcomp : y.status = .completed)
    {run : RunStatus} {rows : List Step} (h : Completed s [] x y run rows) (hunsettled : s.unsettled = false)
    (hall : ∀ z ∈ s.steps, z.id ≠ x.id → z.status = .completed) : run = .completed := by
  have hrows : ∀ z ∈ put Step.key y s.steps, z.status = .completed := by
    intro z hz
    rcases mem_put.mp hz with ⟨rfl, -⟩ | ⟨hz, hne⟩
    · exact hcomp
    · exact hall z hz fun hzx => hne (Eq.trans hzx hid.symm)
  cases h with
  | ended _ _ hdone => exact hdone.mpr ⟨hrows, hunsettled⟩
  | opened _ hw hready =>
    have hp := (Step.ready_eq_true.mp hready).1
    rw [hrows _ hw] at hp
    cases hp
  | woke hps => simp at hps
  | refunded hps => simp at hps
  | revalidated hps => simp at hps
  | stranded hps => simp at hps

theorem Committed.awaitingUser_or (hcom : Committed f s ps x o u.run.status u.steps) :
    u.run.status = .running ∨ u.run.status = .awaitingUser ∨ u.run.status = .blocked ∨ u.run.status = .failed ∨
      u.run.status = .completed := by
  generalize u.run.status = run at hcom
  generalize u.steps = rows at hcom
  cases hcom with
  | completed _ _ _ hcomp =>
    cases hcomp with
    | ended _ hrun => rcases hrun with rfl | rfl <;> simp
    | opened | woke | refunded | revalidated | stranded => simp
  | waited | retried | released | asked | questioned | stopped | failed | cancelled | repaired | preflighted => simp

theorem Committed.last (hcom : Committed f s ps x o .completed u.steps) :
    o.kind = .succeeded ∧ s.unsettled = false ∧ ∀ z ∈ s.steps, z.id ≠ x.id → z.status = .completed := by
  generalize u.steps = rows at hcom
  cases hcom with
  | @completed y _ _ ho hy hq hcomp =>
    cases hcomp with
    | ended _ _ hdone =>
      obtain ⟨hrows, hunsettled⟩ := hdone.mp rfl
      refine ⟨ho, hunsettled, fun z hz hne => hrows z (mem_put_of_ne hz fun hk => hne ?_)⟩
      rw [show z.id = y.id from hk, hy.toStepSpec]

section
variable (hc : Chain chain) (h : Live chain s) (hfit : TaskFits loose s) (htip : Tip s.steps ps x)
    (hx : x.status.isHeld = true) (hrun : s.run.status = .running) (hcom : Committed f s ps x o u.run.status u.steps)
include hc h hfit htip hx hrun hcom

theorem Committed.legal (hmiss : ¬commitMisses f s x o) :
    mayTake s.task.status (deriveTaskStatus u.steps u.run.status) = true := by
  have hwork := hfit.working hc h hrun htip (StepStatus.isWorking_of_isHeld hx)
  have hstop : ∀ b ∈ [TaskStatus.awaitingUser, .blocked, .failed], mayTake s.task.status b = true := by
    refine mayTake_stop _ ?_
    have hmem := x.toStepSpec.workStatus_mem
    rcases hwork with ha | ha | ha <;> rw [ha]
    · simp
    · simp
    · split
      · simp
      · simp only [List.mem_cons, List.not_mem_nil, or_false] at hmem ⊢
        tauto
  rcases hcom.awaitingUser_or with hru | hru | hru | hru | hru <;> rw [hru] at hcom ⊢
  · have hproj := hcom.projected hc h htip hx hrun hru
    exact (hproj.mayTake htip.stack hwork (deriveTaskStatus_running_mem u.steps)).resolve_right
      fun hm => hmiss (Or.inl hm)
  · exact hstop _ (by simp [deriveTaskStatus])
  · exact hstop _ (by simp [deriveTaskStatus])
  · exact hstop _ (by simp [deriveTaskStatus])
  · obtain ⟨ho, hunsettled, hall⟩ := hcom.last
    obtain ⟨rfl, hroot, hlast⟩ := h.rows.last_of_completed hc htip hall
    have hexec : x.toStepSpec.workStatus = .executing := by
      rw [StepSpec.workStatus_root hroot, hlast]
      rfl
    rcases hwork with ha | ha | ha
    · rw [ha]
      rfl
    · exact absurd (Or.inr ⟨ha, ho, hunsettled, hall⟩) hmiss
    · rw [ha, hexec]
      rfl

theorem Committed.illegal (hmiss : commitMisses f s x o) :
    mayTake s.task.status (deriveTaskStatus u.steps u.run.status) = false := by
  have hs : s.run.status ≠ .failed := by rw [hrun]; decide
  have hclean := h.rows.clean_of_isLive htip.mem (StepStatus.isLive_of_isHeld hx)
  rcases hmiss with ⟨ha, ho, hsettled⟩ | ⟨ha, ho, hunsettled, hall⟩
  · have hn : revalidates ps = false := by
      have hwork := hfit.working hc h hrun htip (StepStatus.isWorking_of_isHeld hx)
      rw [ha] at hwork
      by_contra hn
      rw [Bool.not_eq_false] at hn
      simp [hn] at hwork
    generalize hru : u.run.status = run at hcom
    generalize ht : u.steps = rows at hcom
    cases hcom with
    | @asked y _ _ hy hq hu =>
      obtain ⟨hlive, htip'⟩ := h.retip htip hs ht hy.toStepSpec (by rw [hq]; rfl) (fun _ => hu.trans hclean)
        fun _ => by rw [hru]; trivial
      rw [← ht, hlive.derive hc hru htip', hn, ha]
      simp only [Bool.false_eq_true, if_false, Step.taskStatus, hq]
      decide
    | released _ hsettled' => rw [hsettled] at hsettled'; cases hsettled'
    | stopped _ _ ho' => simp [ho] at ho'
    | completed ho' => rw [ho] at ho'; cases ho'
    | waited ho' | retried ho' | questioned ho' | failed ho' | cancelled ho' | repaired ho' | preflighted ho' =>
      rw [ho] at ho'
      cases ho'
  · obtain ⟨rfl, -, -⟩ := h.rows.last_of_completed hc htip hall
    generalize hru : u.run.status = run at hcom
    generalize ht : u.steps = rows at hcom
    cases hcom with
    | completed _ hy hq hcomp =>
      rw [hcomp.ended_of_completed (by rw [hy.toStepSpec]) hq hunsettled hall, ha]
      rfl
    | stopped _ _ ho' => simp [ho] at ho'
    | waited ho' | retried ho' | questioned ho' | failed ho' | cancelled ho' | repaired ho' | preflighted ho'
    | released ho' | asked ho' =>
      rw [ho] at ho'
      cases ho'

end

theorem commitRows_asked (hx : x.status = .running) (ho : o.kind = .needsApproval)
    (hsettled : sharedApprovalSettled f x = false) : ∃ u, commitRows f s x o = .ok u := by
  have happly : applyOutcome f s x o =
      .ok (s.putStep { x with status := .waitingApproval }, { x with status := .waitingApproval }) := by
    have ht : transitionStep x .waitingApproval = .ok { x with status := .waitingApproval } :=
      transitionStep_eq_ok.mpr ⟨by rw [hx]; decide, rfl⟩
    unfold applyOutcome
    rw [ho]
    simp only [hsettled, Bool.false_eq_true, if_false, ht, ok_bind]
  unfold commitRows
  rw [happly, ok_bind]
  simp only [releaseStep_status, reduceCtorEq, if_false]
  exact ⟨_, rfl⟩

theorem commitRows_last (hx : x.status = .running) (ho : o.kind = .succeeded) (hroot : x.links = {})
    (hall : ∀ z ∈ s.steps, z.id ≠ x.id → z.status = .completed) : ∃ u, commitRows f s x o = .ok u := by
  have ht : transitionStep x .completed = .ok { x with status := .completed } :=
    transitionStep_eq_ok.mpr ⟨by rw [hx]; decide, rfl⟩
  generalize hy : ({ x with status := .completed, result := some o.result } : Step) = y
  have happly : applyOutcome f s x o = .ok (s.putStep y, y) := by
    unfold applyOutcome
    rw [ho, ← hy]
    simp only [ht, ok_bind]
  have hcomp : y.status = .completed := by rw [← hy]
  have hid : y.id = x.id := by rw [← hy]
  have hl : (releaseStep o y).links = {} := by
    rw [releaseStep_kept.toStepSpec, ← hy]
    exact hroot
  unfold commitRows
  rw [happly, ok_bind]
  simp only [releaseStep_status, hcomp, if_true]
  generalize hv : (recordRunFailure o (s.putStep y) (releaseStep o y)).putStep (releaseStep o y) = v
  have hnone : v.steps.filter (Step.ready v.steps) = [] := by
    rw [List.filter_eq_nil_iff]
    intro z hz hready
    have hp := (Step.ready_eq_true.mp hready).1
    rw [← hv, State.putStep_steps, recordRunFailure_steps, State.putStep_steps] at hz
    rcases mem_put.mp hz with ⟨rfl, -⟩ | ⟨hz, hne⟩
    · rw [releaseStep_status, hcomp] at hp
      cases hp
    · rcases mem_put.mp hz with ⟨rfl, -⟩ | ⟨hz, hne'⟩
      · rw [hcomp] at hp
        cases hp
      · rw [hall z hz fun hzx => hne' (Eq.trans hzx hid.symm)] at hp
        cases hp
  have hact : activateReadySteps f v = .ok v := by
    unfold activateReadySteps
    rw [hnone]
    split <;> rfl
  unfold afterCompletion
  rw [resumeAfterValidationEnvironment_of_none (by rw [hl]), ok_bind,
    resumeAfterCapabilityPreflight_of_none (by rw [hl]), ok_bind, resumeRepairedStep_of_none (by rw [hl]), ok_bind,
    resumeReviewAfterValidation_of_none (by rw [hl]), ok_bind, hact, ok_bind]
  obtain ⟨u, hu, -⟩ := (finalizeIfComplete_meets (SameTask.refl v)).exists_ok
  exact ⟨u, hu⟩

theorem projectTask_of_mayTake (h : mayTake u.task.status (deriveTaskStatus u.steps u.run.status) = true) :
    ∃ t, projectTask o u = .ok t := by
  simp only [mayTake, Bool.or_eq_true, decide_eq_true_eq, List.contains_iff_mem] at h
  unfold projectTask
  simp only
  split_ifs with h1 h2
  · rw [transitionTask, if_pos (h.resolve_left h1)]
    exact ⟨_, rfl⟩
  · exact ⟨_, rfl⟩
  · exact ⟨_, rfl⟩

theorem projectTask_of_not_mayTake (h : mayTake u.task.status (deriveTaskStatus u.steps u.run.status) = false) :
    projectTask o u = .error (.illegalTask u.task.status (deriveTaskStatus u.steps u.run.status)) := by
  simp only [mayTake, Bool.or_eq_false_iff, decide_eq_false_iff_not, List.contains_eq_mem] at h
  unfold projectTask
  simp only
  rw [if_pos h.1, transitionTask, if_neg h.2]

theorem Inv.commit_legal_iff {token : LeaseToken} (hc : Chain chain) (h : Inv loose chain s)
    (hlease : leasedRow s token = .ok x) (hx : x.status = .running) :
    (∀ e, commitStepOutcome f s token o = .error e → e.isIllegalTransition = false) ↔ ¬commitMisses f s x o := by
  obtain ⟨hfind, -, hheld, -, -⟩ := leasedRow_eq_ok hlease
  obtain ⟨hrun, ps, htip⟩ := h.live.held (State.mem_of_step? hfind).1 hheld
  have hmeets : Meets (SameTask s) Failure.Rejection (commitRows f s x o) := commitRows_meets hx hrun
  have hcommit : commitStepOutcome f s token o = (commitRows f s x o >>= projectTask o) := by
    unfold commitStepOutcome
    rw [hlease, ok_bind]
  rw [hcommit]
  constructor
  · intro hlegal hmiss
    obtain ⟨u, hu⟩ : ∃ u, commitRows f s x o = .ok u := by
      rcases hmiss with ⟨-, ho, hsettled⟩ | ⟨-, ho, -, hall⟩
      · exact commitRows_asked hx ho hsettled
      · obtain ⟨-, hroot, -⟩ := h.live.rows.last_of_completed hc htip hall
        exact commitRows_last hx ho hroot hall
    have htask : u.task = s.task := hmeets.of_ok hu
    have hnot := (commitRows_cases hc h.live.rows htip hheld hrun hu).illegal hc h.live h.task htip hheld hrun hmiss
    rw [← htask] at hnot
    rw [hu, ok_bind] at hlegal
    exact absurd (hlegal _ (projectTask_of_not_mayTake hnot)) (by simp [Failure.isIllegalTransition])
  · intro hmiss e he
    rcases bind_eq_error.mp he with he | ⟨u, hu, he⟩
    · exact (hmeets.of_error he).legal
    · have htask : u.task = s.task := hmeets.of_ok hu
      have hmay := (commitRows_cases hc h.live.rows htip hheld hrun hu).legal hc h.live h.task htip hheld hrun hmiss
      rw [← htask] at hmay
      obtain ⟨t, ht⟩ := projectTask_of_mayTake (o := o) hmay
      rw [ht] at he
      cases he

end Task

end Vuzol.Workflow
