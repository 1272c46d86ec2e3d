import Vuzol.Theorems.Workflow.Writes

/-! What the commit of an outcome does to the rows of a run. The step that commits is the top of the waiting
    stack; every branch of the dispatch is one move on this stack. -/

namespace Vuzol.Workflow

open Vuzol.Lib

/-! ### Rows a commit writes -/

structure Kept (x y : Step) : Prop where
  toStepSpec : y.toStepSpec = x.toStepSpec
  attemptCount : y.attemptCount = x.attemptCount
  maxAttempts : y.maxAttempts = x.maxAttempts
  backpressureCount : y.payload.backpressureCount = x.payload.backpressureCount
  preflight : y.payload.capabilityPreflightStepId = x.payload.capabilityPreflightStepId

/-- A new row behind `rows`, which nobody claimed yet. -/
structure Added (rows : List Step) (c : Step) : Prop where
  id : c.id = rows.length
  ordinal : c.ordinal = rows.length
  predecessors : c.predecessorOrdinals = []
  queued : c.status = .queued
  clean : c.unknownEffects = false
  attemptCount : c.attemptCount = 0
  maxAttempts : c.maxAttempts = 1
  backpressureCount : c.payload.backpressureCount = 0
  preflight : c.payload.capabilityPreflightStepId = none

structure Woken (p p' : Step) : Prop where
  toStepSpec : p'.toStepSpec = p.toStepSpec
  queued : p'.status = .queued
  clean : p'.unknownEffects = false
  backpressureCount : p'.payload.backpressureCount = p.payload.backpressureCount
  preflight : p'.payload.capabilityPreflightStepId = p.payload.capabilityPreflightStepId

def Granted (p p' : Step) : Prop :=
  p'.attemptCount = p.attemptCount ∧
    p'.maxAttempts = if p.maxAttempts ≤ p.attemptCount then p.maxAttempts + 1 else p.maxAttempts

def Refunded (p p' : Step) : Prop := p'.attemptCount = p.attemptCount - 1 ∧ p'.maxAttempts = p.maxAttempts

/-- What follows when `y`, the completed row of the tip `x` above `ps`, is stored: the run and its rows. -/
inductive Completed (s : State) (ps : List Step) (x y : Step) : RunStatus → List Step → Prop
  | ended {run : RunStatus} (hps : ps = []) (hrun : run = .running ∨ run = .completed)
      (hdone : run = .completed ↔ (∀ z ∈ put Step.key y s.steps, z.status = .completed) ∧ s.unsettled = false)
      (hnone : (put Step.key y s.steps).filter (Step.ready (put Step.key y s.steps)) = []) :
      Completed s ps x y run (put Step.key y s.steps)
  | opened {w z : Step} (hps : ps = []) (hw : w ∈ put Step.key y s.steps)
      (hready : Step.ready (put Step.key y s.steps) w = true) (hz : Opened w z) :
      Completed s ps x y .running (put Step.key z (put Step.key y s.steps))
  | woke {qs : List Step} {p p' : Step} (hps : ps = qs ++ [p]) (hp : Woken p p') (hg : Granted p p')
      (hx : x.links.repairForStepId.isSome = true ∧ p.stepType ≠ .review ∨
        x.links.resumeAfterValidationStepId.isSome = true ∨ x.links.validationEnvironmentForStepId.isSome = true) :
      Completed s ps x y .running (put Step.key p' (put Step.key y s.steps))
  | refunded {qs : List Step} {p p' : Step} (hps : ps = qs ++ [p]) (hp : Woken p p') (hr : Refunded p p')
      (hx : x.links.capabilityForStepId.isSome = true) :
      Completed s ps x y .running (put Step.key p' (put Step.key y s.steps))
  | revalidated {qs : List Step} {p c : Step} (hps : ps = qs ++ [p]) (hc : Added s.steps c)
      (hr : Revalidates p c.toStepSpec) (hk : c.templateKey = .repairValidate)
      (hx : x.links.repairForStepId.isSome = true) :
      Completed s ps x y .running (put Step.key y s.steps ++ [c])
  | stranded {qs : List Step} {p : Step} (hps : ps = qs ++ [p]) (hp : p.stepType = .review)
      (hx : x.links.repairForStepId.isSome = true) :
      Completed s ps x y .running (put Step.key y s.steps)

/-- The run and its rows after an outcome is committed for `x`, the tip above `ps`. -/
inductive Committed (f : Facts) (s : State) (ps : List Step) (x : Step) (o : StepOutcome) : RunStatus → List Step → Prop
  | waited {y : Step} (ho : o.kind = .transientFailure) (hs : y.toStepSpec = x.toStepSpec) (hq : y.status = .queued)
      (hu : y.unknownEffects = x.unknownEffects) (hr : Refunded x y)
      (hb : y.payload.backpressureCount = x.payload.backpressureCount + 1)
      (hcap : x.payload.backpressureCount < s.run.recoveryPolicy.backpressureWaitCap)
      (hpf : y.payload.capabilityPreflightStepId = x.payload.capabilityPreflightStepId) :
      Committed f s ps x o .running (put Step.key y s.steps)
  | retried {y : Step} (ho : o.kind = .transientFailure) (hy : Kept x y) (hq : y.status = .queued)
      (hu : y.unknownEffects = x.unknownEffects) (hmore : x.attemptCount < x.maxAttempts) :
      Committed f s ps x o .running (put Step.key y s.steps)
  | released {y : Step} (ho : o.kind = .needsApproval) (hsettled : sharedApprovalSettled f x = true)
      (hs : y.toStepSpec = x.toStepSpec) (hq : y.status = .queued) (hu : y.unknownEffects = x.unknownEffects)
      (hr : Refunded x y) (hb : y.payload.backpressureCount = x.payload.backpressureCount)
      (hpf : y.payload.capabilityPreflightStepId = x.payload.capabilityPreflightStepId) :
      Committed f s ps x o .running (put Step.key y s.steps)
  | asked {y : Step} (ho : o.kind = .needsApproval) (hsettled : sharedApprovalSettled f x = false) (hy : Kept x y)
      (hq : y.status = .waitingApproval) (hu : y.unknownEffects = x.unknownEffects) :
      Committed f s ps x o .running (put Step.key y s.steps)
  | questioned {y : Step} (ho : o.kind = .needsUserInput) (hy : Kept x y) (hq : y.status = .awaitingUser)
      (hu : y.unknownEffects = x.unknownEffects) :
      Committed f s ps x o .awaitingUser (put Step.key y s.steps)
  | stopped {y : Step} (hy : Kept x y) (hq : y.status = .blocked)
      (ho : o.kind = .transientFailure ∨ o.kind = .permanentFailure ∨ o.kind = .blocked ∨ o.kind = .cancelled)
      (hu : y.unknownEffects = if o.kind = .transientFailure then x.unknownEffects else o.unknownEffects) :
      Committed f s ps x o .blocked (put Step.key y s.steps)
  | failed {y : Step} (ho : o.kind = .permanentFailure) (hu : o.unknownEffects = false) (hy : Kept x y)
      (hq : y.status = .failed) :
      Committed f s ps x o .failed (put Step.key y s.steps)
  | cancelled {y : Step} (ho : o.kind = .cancelled) (hu : o.unknownEffects = false) (hy : Kept x y)
      (hq : y.status = .cancelled) :
      Committed f s ps x o .running (put Step.key y s.steps)
  | repaired {y c : Step} (ho : o.kind = .blocked) (hu : o.unknownEffects = false) (hy : Kept x y) (hp : Parked y)
      (hc : Added s.steps c) (hr : Repairs y c.toStepSpec)
      (hcap : s.steps.countP (fun z => z.templateKey = .repairCode) + f.otherRepairs < s.run.recoveryPolicy.taskRepairCap) :
      Committed f s ps x o .running (put Step.key y s.steps ++ [c])
  | preflighted {y c : Step} (ho : o.kind = .blocked) (hu : o.unknownEffects = false)
      (hs : y.toStepSpec = x.toStepSpec) (ha : y.attemptCount = x.attemptCount) (hm : y.maxAttempts = x.maxAttempts)
      (hb : y.payload.backpressureCount = x.payload.backpressureCount) (hp : Parked y)
      (hc : Added s.steps c) (hr : Preflights y c.toStepSpec)
      (hnew : ∀ z ∈ s.steps, z.stepType = .ensureCapabilities → z.links.capabilityForStepId ≠ some x.id) :
      Committed f s ps x o .running (put Step.key y s.steps ++ [c])
  | completed {y : Step} {run : RunStatus} {rows : List Step} (ho : o.kind = .succeeded) (hy : Kept x y)
      (hq : y.status = .completed) (hc : Completed s ps x y run rows) : Committed f s ps x o run rows

section Completion
variable {chain : List StepSpec} {ps qs : List Step} {x y z p : Step} {s t u : State} {f : Facts}

/-! ### What a completed step sets in motion -/

theorem resumeAfterValidationEnvironment_of_none (h : y.links.validationEnvironmentForStepId = none) :
    resumeAfterValidationEnvironment u y = .ok u := by
  simp [resumeAfterValidationEnvironment, h]

theorem resumeAfterCapabilityPreflight_of_none (h : y.links.capabilityForStepId = none) :
    resumeAfterCapabilityPreflight u y = .ok u := by
  simp [resumeAfterCapabilityPreflight, h]

theorem resumeRepairedStep_of_none (h : y.links.repairForStepId = none) : resumeRepairedStep f u y = .ok u := by
  simp [resumeRepairedStep, h]

theorem resumeReviewAfterValidation_of_none (h : y.links.resumeAfterValidationStepId = none) :
    resumeReviewAfterValidation u y = .ok u := by
  simp [resumeReviewAfterValidation, h]

theorem finish_open (hc : Chain chain) (hr : Rows chain u.steps) (htip : Tip u.steps qs z) :
    (activateReadySteps f u >>= finalizeIfComplete) = .ok u := by
  rw [activateReadySteps_open hc hr htip, ok_bind, finalizeIfComplete]
  have hany : u.steps.any (fun x => decide (x.status ≠ .completed)) = true := by
    rw [List.any_eq_true]
    refine ⟨z, htip.mem, decide_eq_true ?_⟩
    rintro hcomp
    have hopen := htip.isOpen
    rw [hcomp] at hopen
    cases hopen
  rw [hany, Bool.or_true]
  rfl

theorem unsettled_eq (hs : u.steps = put Step.key y s.steps) (he : u.effects = s.effects) :
    u.unsettled = s.unsettled := by
  have hany : ∀ i : Nat, (put Step.key y s.steps).any (fun x => decide (x.id = i)) =
      s.steps.any (fun x => decide (x.id = i)) := by
    intro i
    have hmap : (put Step.key y s.steps).map Step.key = s.steps.map Step.key := map_put fun z _ hk => hk
    have hcol : ∀ rows : List Step, rows.any (fun x => decide (x.id = i)) = (rows.map Step.key).any (· == i) := by
      intro rows
      rw [List.any_map]
      congr 1
    rw [hcol, hcol, hmap]
  simp only [State.unsettled, hs, he, hany]

theorem finalizeIfComplete_cases (h : finalizeIfComplete u = .ok t) (hrun : u.run.status = .running)
    (hne : u.steps ≠ []) :
    t.steps = u.steps ∧ (t.run.status = .running ∨ t.run.status = .completed) ∧
      (t.run.status = .completed ↔ (∀ z ∈ u.steps, z.status = .completed) ∧ u.unsettled = false) := by
  unfold finalizeIfComplete at h
  split_ifs at h with h1 h2 h3
  · cases h
    refine ⟨rfl, Or.inl hrun, ?_⟩
    simp only [hrun, reduceCtorEq, false_iff, not_and]
    intro hall
    simp only [Bool.or_eq_true, List.isEmpty_iff, List.any_eq_true, decide_eq_true_eq] at h1
    rcases h1 with hnil | ⟨z, hz, hzs⟩
    · exact absurd hnil hne
    · exact absurd (hall z hz) hzs
  · exact absurd hrun h2
  · cases h
    refine ⟨rfl, Or.inl hrun, ?_⟩
    simp [hrun, h3]
  · obtain ⟨-, rfl⟩ := transitionRun_eq_ok.mp h
    refine ⟨rfl, Or.inr rfl, ?_⟩
    simp only [Bool.or_eq_true, List.isEmpty_iff, List.any_eq_true, decide_eq_true_eq, not_or, not_exists, not_and,
      not_not] at h1
    simp only [true_iff]
    exact ⟨h1.2, by simpa using h3⟩

/-- The completed tip leaves `p` on top. -/
structure Popped (u : State) (y p : Step) : Prop where
  mem : p ∈ u.steps
  find : u.step? p.id = some p
  nodup : (u.steps.map Step.key).Nodup
  parked : Parked p
  waits : Waits p y.toStepSpec

theorem Tip.popped (hr : Rows chain s.steps) (htip : Tip s.steps (qs ++ [p]) x) (hy : y.toStepSpec = x.toStepSpec)
    (hu : u.steps = put Step.key y s.steps) : Popped u y p := by
  have hn := hr.laid.nodup
  have hp : p ∈ qs ++ [p] := by simp
  have hne : p.id ≠ y.id := by
    rw [hy]
    exact htip.parent_ne hn hp
  have hmem : p ∈ u.steps := by
    rw [hu]
    exact mem_put_of_ne (htip.mem_parent hp) hne
  have hn' : (u.steps.map Step.key).Nodup := by
    rw [hu, map_put fun z _ hk => hk]
    exact hn
  refine ⟨hmem, State.step?_of_mem hn' hmem, hn', htip.stack.parked hp, ?_⟩
  rw [hy]
  exact htip.stack.waits

theorem Popped.find_parked {k : StepType} (h : Popped u y p) (hk : p.stepType = k) :
    u.steps.find? (fun z => z.id = p.id && z.stepType = k && z.status = .blocked) = some p := by
  apply find?_unique h.nodup h.mem
  · simp [hk, h.parked.blocked]
  · intro z _ hz
    simp only [Bool.and_eq_true, decide_eq_true_eq] at hz
    exact hz.1.1

section
variable (hc : Chain chain) (hr : Rows chain s.steps)
include hc hr

theorem afterCompletion_root (htip : Tip s.steps [] x)
    (hy : y.toStepSpec = x.toStepSpec) (hcomp : y.status = .completed) (hu : u.steps = put Step.key y s.steps)
    (he : u.effects = s.effects) (hrun : u.run.status = .running) (h : afterCompletion f u y = .ok t) :
    Completed s [] x y t.run.status t.steps := by
  have hl : y.links = {} := by
    rw [hy]
    cases htip.stack with
    | root hl => exact hl
  unfold afterCompletion at h
  rw [resumeAfterValidationEnvironment_of_none (by rw [hl]), ok_bind,
    resumeAfterCapabilityPreflight_of_none (by rw [hl]), ok_bind, resumeRepairedStep_of_none (by rw [hl]), ok_bind,
    resumeReviewAfterValidation_of_none (by rw [hl]), ok_bind] at h
  obtain ⟨hr1, hnil, -⟩ := hr.close htip hy (by rw [hcomp]; rfl) (by rw [hcomp]; decide)
  rw [← hu] at hr1 hnil
  obtain ⟨u', hact, hfin⟩ := bind_eq_ok.mp h
  rcases activateReadySteps_cases hc hr1 hact with rfl | ⟨w, hw, hready, hw'⟩
  · have hne : u'.steps ≠ [] := by
      rw [hu]
      intro hnil'
      have hmem : y ∈ put Step.key y s.steps := mem_put_self htip.mem (congrArg StepSpec.id hy).symm
      rw [hnil'] at hmem
      cases hmem
    obtain ⟨hsteps, hruns, hdone⟩ := finalizeIfComplete_cases hfin hrun hne
    have hnone := activateReadySteps_settled hc hr1 hrun hact
    rw [unsettled_eq hu he] at hdone
    rw [hsteps, hu] at *
    exact .ended rfl hruns hdone hnone
  · obtain ⟨z, hz, hzs, hzr, -⟩ := activateStep_eq_ok hw'
    obtain ⟨hr2, htip2⟩ := hr1.enter_ready hc hnil hw hready hz
    rw [← hzs] at hr2 htip2
    have hfin' := finish_open (f := f) hc hr2 htip2
    rw [activateReadySteps_open hc hr2 htip2, ok_bind] at hfin'
    rw [hfin'] at hfin
    cases hfin
    rw [hzr, hrun, hzs, hu]
    rw [hu] at hw hready
    exact .opened rfl hw hready hz

section
variable (htip : Tip s.steps (qs ++ [p]) x) (hy : y.toStepSpec = x.toStepSpec) (hcomp : y.status = .completed)
    (hu : u.steps = put Step.key y s.steps) (hrun : u.run.status = .running)
include htip hy hcomp hu hrun

/-- The parent below the completed row is woken by the write `g`. -/
theorem finish_woken {v : State} {g : Step → Step} (hp : Woken p (g { p with status := .queued }))
    (hwake : (transitionStep p .queued >>= fun q => Except.ok (u.putStep (g q))) = .ok v)
    (h : (activateReadySteps f v >>= finalizeIfComplete) = .ok t) :
    t.run.status = .running ∧ t.steps = put Step.key (g { p with status := .queued }) (put Step.key y s.steps) := by
  obtain ⟨-, hwake⟩ := transitionStep_bind.mp hwake
  cases hwake
  obtain ⟨hr2, htip2⟩ := hr.wake htip hy (by rw [hcomp]; rfl) (by rw [hcomp]; decide) hp.toStepSpec
    (by rw [hp.queued]; rfl) (fun _ => hp.clean)
  rw [← hu] at hr2 htip2
  rw [finish_open hc hr2 htip2] at h
  cases h
  exact ⟨hrun, by rw [State.putStep_steps, hu]⟩

theorem afterCompletion_repair (hrep : Repairs p y.toStepSpec) (h : afterCompletion f u y = .ok t) :
    Completed s (qs ++ [p]) x y t.run.status t.steps := by
  have hpop := htip.popped hr hy hu
  have hxl : x.links.repairForStepId.isSome = true := by rw [← hy, hrep.links]; rfl
  obtain ⟨hr1, hopens, hpopped⟩ := hr.close htip hy (by rw [hcomp]; rfl) (by rw [hcomp]; decide)
  have hl := hrep.links
  unfold afterCompletion at h
  rw [resumeAfterValidationEnvironment_of_none (by rw [hl]), ok_bind,
    resumeAfterCapabilityPreflight_of_none (by rw [hl]), ok_bind] at h
  obtain ⟨u1, h1, h⟩ := bind_eq_ok.mp h
  rw [resumeReviewAfterValidation_of_none (by rw [hl]), ok_bind] at h
  unfold resumeRepairedStep at h1
  simp only [hl, hpop.find, hpop.parked.blocked, ne_eq, not_true_eq_false, if_false] at h1
  split_ifs at h1 with hreview
  · split at h1
    · -- No validation is completed: the review waits on.
      cases h1
      rw [← hu] at hr1
      have htip1 := hpopped qs p rfl
      rw [← hu] at htip1
      rw [finish_open hc hr1 htip1] at h
      cases h
      rw [hrun, hu]
      exact .stranded rfl hreview hxl
    · rename_i v hv
      cases h1
      have hlen : u.steps.length = s.steps.length := by rw [hu, length_put]
      have hlaid : Laid chain (specsOf u.steps) := by
        rw [hu]
        exact hr1.laid
      have hadded : Added s.steps (revalidationStep f u p v) :=
        ⟨hlen, (hlaid.nextOrdinal hc).trans hlen, rfl, rfl, rfl, rfl, rfl, rfl, rfl⟩
      have hrev : Revalidates p (revalidationStep f u p v).toStepSpec := ⟨hreview, rfl, rfl⟩
      have hstack := htip.stack.push_revalidate hrev
      rw [← hu] at hr1 hopens
      obtain ⟨hr2, htip2⟩ := hr1.push hopens (by simp) hstack rfl (hlaid.nextOrdinal hc) rfl rfl rfl
      rw [finish_open hc hr2 htip2] at h
      cases h
      rw [State.appendStep_run, hrun, State.appendStep_steps, hu]
      exact .revalidated rfl hadded hrev rfl hxl
  · obtain ⟨hstat, hsteps⟩ := finish_woken hc hr htip hy hcomp hu hrun ⟨rfl, rfl, rfl, rfl, rfl⟩ h1 h
    rw [hstat, hsteps]
    exact .woke rfl ⟨rfl, rfl, rfl, rfl, rfl⟩ ⟨rfl, rfl⟩ (Or.inl ⟨hxl, hreview⟩)

theorem afterCompletion_revalidate (hrev : Revalidates p y.toStepSpec) (h : afterCompletion f u y = .ok t) :
    Completed s (qs ++ [p]) x y t.run.status t.steps := by
  have hpop := htip.popped hr hy hu
  have hl := hrev.links
  unfold afterCompletion at h
  rw [resumeAfterValidationEnvironment_of_none (by rw [hl]), ok_bind,
    resumeAfterCapabilityPreflight_of_none (by rw [hl]), ok_bind, resumeRepairedStep_of_none (by rw [hl]), ok_bind] at h
  obtain ⟨u1, h1, h⟩ := bind_eq_ok.mp h
  unfold resumeReviewAfterValidation at h1
  simp only [hl, hpop.find, hpop.parked.blocked, hrev.parent, ne_eq, not_true_eq_false, decide_false, Bool.or_false,
    Bool.false_eq_true, if_false] at h1
  obtain ⟨hstat, hsteps⟩ := finish_woken hc hr htip hy hcomp hu hrun ⟨rfl, rfl, hpop.parked.clean, rfl, rfl⟩ h1 h
  rw [hstat, hsteps]
  refine .woke rfl ⟨rfl, rfl, hpop.parked.clean, rfl, rfl⟩ ⟨rfl, rfl⟩ (Or.inr (Or.inl ?_))
  rw [← hy, hl]
  rfl

theorem afterCompletion_preflight (hpf : Preflights p y.toStepSpec) (h : afterCompletion f u y = .ok t) :
    Completed s (qs ++ [p]) x y t.run.status t.steps := by
  have hpop := htip.popped hr hy hu
  have hl := hpf.links
  unfold afterCompletion at h
  rw [resumeAfterValidationEnvironment_of_none (by rw [hl]), ok_bind] at h
  obtain ⟨u1, h1, h⟩ := bind_eq_ok.mp h
  rw [resumeRepairedStep_of_none (by rw [hl]), ok_bind, resumeReviewAfterValidation_of_none (by rw [hl]), ok_bind] at h
  unfold resumeAfterCapabilityPreflight at h1
  simp only [hl, hpf.stepType, hpop.find_parked hpf.parent, hpf.category, hpf.bound, ne_eq, not_true_eq_false, decide_false, Bool.or_false,
    Bool.false_eq_true, if_false] at h1
  obtain ⟨hstat, hsteps⟩ := finish_woken hc hr htip hy hcomp hu hrun ⟨rfl, rfl, hpop.parked.clean, rfl, rfl⟩ h1 h
  rw [hstat, hsteps]
  refine .refunded rfl ⟨rfl, rfl, hpop.parked.clean, rfl, rfl⟩ ⟨rfl, rfl⟩ ?_
  rw [← hy, hl]
  rfl

theorem afterCompletion_prepare (hprep : Prepares p y.toStepSpec) (h : afterCompletion f u y = .ok t) :
    Completed s (qs ++ [p]) x y t.run.status t.steps := by
  have hpop := htip.popped hr hy hu
  have hl := hprep.links
  unfold afterCompletion at h
  obtain ⟨u1, h1, h⟩ := bind_eq_ok.mp h
  rw [resumeAfterCapabilityPreflight_of_none (by rw [hl]), ok_bind, resumeRepairedStep_of_none (by rw [hl]), ok_bind,
    resumeReviewAfterValidation_of_none (by rw [hl]), ok_bind] at h
  unfold resumeAfterValidationEnvironment at h1
  simp only [hl, hprep.stepType, hpop.find_parked hprep.parent, hprep.bound, ne_eq, not_true_eq_false, if_false] at h1
  obtain ⟨hstat, hsteps⟩ := finish_woken hc hr htip hy hcomp hu hrun ⟨rfl, rfl, hpop.parked.clean, rfl, rfl⟩ h1 h
  rw [hstat, hsteps]
  refine .woke rfl ⟨rfl, rfl, hpop.parked.clean, rfl, rfl⟩ ⟨rfl, rfl⟩ (Or.inr (Or.inr ?_))
  rw [← hy, hl]
  rfl

end

theorem afterCompletion_cases (htip : Tip s.steps ps x)
    (hy : y.toStepSpec = x.toStepSpec) (hcomp : y.status = .completed) (hu : u.steps = put Step.key y s.steps)
    (he : u.effects = s.effects) (hrun : u.run.status = .running) (h : afterCompletion f u y = .ok t) :
    Completed s ps x y t.run.status t.steps := by
  rcases List.eq_nil_or_concat ps with rfl | ⟨qs, p, hps⟩
  · exact afterCompletion_root hc hr htip hy hcomp hu he hrun h
  · rw [List.concat_eq_append] at hps
    subst hps
    have hw := htip.stack.waits
    rw [← hy] at hw
    rcases hw with hw | hw | hw | hw
    · exact afterCompletion_repair hc hr htip hy hcomp hu hrun hw h
    · exact afterCompletion_revalidate hc hr htip hy hcomp hu hrun hw h
    · exact afterCompletion_preflight hc hr htip hy hcomp hu hrun hw h
    · exact afterCompletion_prepare hc hr htip hy hcomp hu hrun hw h

end

end Completion

section Dispatch
variable {chain : List StepSpec} {ps : List Step} {x y c : Step} {s t u : State} {f : Facts} {o : StepOutcome}

/-! ### The dispatch -/

theorem releaseStep_status : (releaseStep o x).status = x.status := by
  unfold releaseStep
  split <;> rfl

theorem releaseStep_kept : Kept x (releaseStep o x) := by
  unfold releaseStep
  split <;> exact ⟨rfl, rfl, rfl, rfl, rfl⟩

theorem releaseStep_unknownEffects : (releaseStep o x).unknownEffects = x.unknownEffects := by
  unfold releaseStep
  split <;> rfl

theorem recordRunFailure_status : (recordRunFailure o s x).run.status = s.run.status := by
  unfold recordRunFailure
  split_ifs <;> rfl

theorem recordRunFailure_task : (recordRunFailure o s x).task = s.task := by
  unfold recordRunFailure
  split_ifs <;> rfl

theorem Kept.trans {x y z : Step} (h1 : Kept x y) (h2 : Kept y z) : Kept x z :=
  ⟨h2.toStepSpec.trans h1.toStepSpec, h2.attemptCount.trans h1.attemptCount, h2.maxAttempts.trans h1.maxAttempts,
    h2.backpressureCount.trans h1.backpressureCount, h2.preflight.trans h1.preflight⟩

section
variable (h1 : applyOutcome f s x o = .ok (u, y)) (hy : y.status ≠ .completed)
include h1 hy

theorem commitRows_released (h : commitRows f s x o = .ok t) :
    t.steps = put Step.key (releaseStep o y) u.steps ∧ t.run.status = u.run.status := by
  unfold commitRows at h
  rw [h1, ok_bind] at h
  simp only [releaseStep_status, hy, if_false, Except.ok.injEq] at h
  rw [← h]
  exact ⟨by rw [State.putStep_steps, recordRunFailure_steps], by rw [State.putStep_run, recordRunFailure_status]⟩

theorem commitRows_stored (hu : u.steps = put Step.key y s.steps) (h : commitRows f s x o = .ok t) :
    t.steps = put Step.key (releaseStep o y) s.steps ∧ t.run.status = u.run.status := by
  obtain ⟨hs, hr⟩ := commitRows_released h1 hy h
  refine ⟨?_, hr⟩
  rw [hs, hu, put_put]
  exact (congrArg StepSpec.id (releaseStep_kept (o := o) (x := y)).toStepSpec).symm

theorem commitRows_added (hid : y.id < s.steps.length) (hcid : c.id = s.steps.length) (hu : u.steps = put Step.key y s.steps ++ [c])
    (h : commitRows f s x o = .ok t) :
    t.steps = put Step.key (releaseStep o y) s.steps ++ [c] ∧ t.run.status = u.run.status := by
  obtain ⟨hs, hr⟩ := commitRows_released h1 hy h
  refine ⟨?_, hr⟩
  have hkey : Step.key (releaseStep o y) = Step.key y :=
    congrArg StepSpec.id (releaseStep_kept (o := o) (x := y)).toStepSpec
  have hne : Step.key c ≠ Step.key (releaseStep o y) := by
    rw [hkey]
    change c.id ≠ y.id
    omega
  rw [hs, hu, put_append, put_put hkey.symm, put_cons, put_nil, if_neg hne]

end

theorem commitRows_completed (h1 : applyOutcome f s x o = .ok (u, y)) (ho : o.kind = .succeeded)
    (hy : y.status = .completed) (h : commitRows f s x o = .ok t) :
    afterCompletion f (u.putStep (releaseStep o y)) (releaseStep o y) = .ok t := by
  unfold commitRows at h
  rw [h1, ok_bind] at h
  simp only [releaseStep_status, hy, if_true] at h
  have hrec : recordRunFailure o u (releaseStep o y) = u := by simp [recordRunFailure, ho]
  rwa [hrec] at h

theorem retryOutcome_cases (h : retryOutcome f s x o = .ok (u, y)) :
    (y.toStepSpec = x.toStepSpec ∧ y.status = .queued ∧ y.unknownEffects = x.unknownEffects ∧ Refunded x y ∧
      y.payload.backpressureCount = x.payload.backpressureCount + 1 ∧
      x.payload.backpressureCount < s.run.recoveryPolicy.backpressureWaitCap ∧
      y.payload.capabilityPreflightStepId = x.payload.capabilityPreflightStepId ∧ u = s.putStep y) ∨
    (Kept x y ∧ y.status = .queued ∧ y.unknownEffects = x.unknownEffects ∧ x.attemptCount < x.maxAttempts ∧
      u = s.putStep y) ∨
    blockForAttention s x = .ok (u, y) := by
  unfold retryOutcome at h
  simp only at h
  split at h
  · rename_i hdecide
    obtain ⟨-, h⟩ := transitionStep_bind.mp h
    cases h
    exact Or.inl ⟨rfl, rfl, rfl, ⟨rfl, rfl⟩, rfl, decideRecovery_wait hdecide, rfl, rfl⟩
  · rename_i hdecide
    obtain ⟨-, h⟩ := transitionStep_bind.mp h
    cases h
    have hretry : canRetry x = true := decideRecovery_retry hdecide
    simp only [canRetry, Bool.and_eq_true, decide_eq_true_eq] at hretry
    exact Or.inr (Or.inl ⟨⟨rfl, rfl, rfl, rfl, rfl⟩, rfl, rfl, hretry.1.2, rfl⟩)
  · exact Or.inr (Or.inr h)

theorem lastCompleted_eq_some {p : StepType → Bool} (h : lastCompleted p s = some x) :
    x ∈ s.steps ∧ p x.stepType = true ∧ x.status = .completed := by
  have hmem := List.mem_filter.mp (List.mem_of_getLast? h)
  simp only [Bool.and_eq_true, decide_eq_true_eq] at hmem
  exact ⟨hmem.1, hmem.2.1, hmem.2.2⟩

theorem scheduleBoundedRepair_cases (hc : Chain chain) (hl : Laid chain (specsOf s.steps)) (hx : x ∈ s.steps)
    (h : scheduleBoundedRepair f s x o = .ok (some (u, y))) :
    o.unknownEffects = false ∧ repairableCategory o.category = true ∧ Kept x y ∧ y.status = .blocked ∧
      y.unknownEffects = false ∧ ∃ c, Added s.steps c ∧ u.steps = put Step.key y s.steps ++ [c] ∧ u.run = s.run ∧
      Repairs y c.toStepSpec ∧
      s.steps.countP (fun z => z.templateKey = .repairCode) + f.otherRepairs < s.run.recoveryPolicy.taskRepairCap := by
  unfold scheduleBoundedRepair at h
  simp only at h
  split_ifs at h with hreview hdecide
  · cases h
  · cases h
  · split at h
    · cases h
    · rename_i worker hworker
      obtain ⟨-, h⟩ := transitionStep_bind.mp h
      cases h
      obtain ⟨hclean, hrep, hcap⟩ := decideRecovery_repair (not_not.mp hdecide)
      obtain ⟨htype, hcat⟩ := RecoveryState.repairable_iff hrep
      refine ⟨hclean, hcat, ⟨rfl, rfl, rfl, rfl, rfl⟩, rfl, rfl, repairStep f s x worker, ?_, ?_, rfl, ?_, hcap⟩
      · exact ⟨rfl, hl.nextOrdinal hc, rfl, rfl, rfl, rfl, rfl, rfl, rfl⟩
      · have hne : Step.key (repairStep f s x worker) ≠ x.id := by
          have hlt := hl.id_lt hx
          change s.steps.length ≠ x.id
          omega
        rw [State.putStep_steps, State.appendStep_steps, put_append, put_cons, put_nil, if_neg hne]
      · exact ⟨htype, (lastCompleted_eq_some hworker).2.1, rfl, rfl, rfl, rfl⟩

theorem activate_added (hc : Chain chain) (hr : Rows chain s.steps) (htip : Tip s.steps ps y)
    (hrun : s.run.status = .running) (hcid : c.id = s.steps.length) (hcp : c.predecessorOrdinals = [])
    (hcs : c.status = .pending) (hct : c.stepType ≠ .approval) (h : activateReadySteps f (s.appendStep c) = .ok u) :
    u = s.appendStep { c with status := .queued } := by
  have hsame : Step.ready (s.steps ++ [c]) = Step.ready s.steps := by
    funext z
    simp [Step.ready, hcs]
  have hready : (s.steps ++ [c]).filter (Step.ready (s.steps ++ [c])) = [c] := by
    rw [hsame, List.filter_append, hr.ready_nil hc htip]
    simp [Step.ready, hcs, hcp]
  unfold activateReadySteps at h
  rw [if_neg (by simp [hrun]), State.appendStep_steps, hready, List.foldlM_cons] at h
  obtain ⟨v, hv, h⟩ := bind_eq_ok.mp h
  cases h
  unfold activateStep at hv
  simp only [hct, if_false] at hv
  obtain ⟨-, hv⟩ := transitionStep_bind.mp hv
  simp only [reduceCtorEq, if_false, Except.ok.injEq] at hv
  rw [← hv]
  have hput : put Step.key { c with status := StepStatus.queued } (s.steps ++ [c]) =
      s.steps ++ [{ c with status := StepStatus.queued }] := by
    rw [put_append, put_of_not_mem, put_cons, put_nil, if_pos (by rfl)]
    intro w hw hk
    have hlt := hr.laid.id_lt hw
    change w.id = c.id at hk
    omega
  simp only [State.putStep, State.appendStep, hput]

theorem scheduleCapabilityPreflight_eq_some (h : scheduleCapabilityPreflight f s x = some (u, y)) :
    u = s.appendStep (preflightStep f s x) ∧
      y = bindPreflight x (preflightStep f s x).id ∧
      ∀ z ∈ s.steps, z.stepType = .ensureCapabilities → z.links.capabilityForStepId ≠ some x.id := by
  unfold scheduleCapabilityPreflight at h
  split_ifs at h with hg
  cases h
  simp only [Bool.or_eq_true, List.any_eq_true, Bool.and_eq_true, decide_eq_true_eq, not_or, not_exists,
    not_and] at hg
  exact ⟨rfl, rfl, hg.2⟩

theorem preflightOutcome_cases (hc : Chain chain) (hr : Rows chain s.steps) (htip : Tip s.steps ps x)
    (hlive : x.status.isLive = true) (hrun : s.run.status = .running) (h : preflightOutcome f s x = .ok (u, y)) :
    blockForAttention s x = .ok (u, y) ∨
    (y.toStepSpec = x.toStepSpec ∧ y.attemptCount = x.attemptCount ∧ y.maxAttempts = x.maxAttempts ∧
      y.payload.backpressureCount = x.payload.backpressureCount ∧ y.status = .blocked ∧ y.unknownEffects = false ∧
      ∃ c, Added s.steps c ∧ u.steps = put Step.key y s.steps ++ [c] ∧ u.run = s.run ∧
        c.stepType = .ensureCapabilities ∧ c.templateKey = .ensureCapabilitiesAfterCode ∧
        c.links = { capabilityForStepId := some x.id } ∧ y.payload.capabilityPreflightStepId = some c.id ∧
        ∀ z ∈ s.steps, z.stepType = .ensureCapabilities → z.links.capabilityForStepId ≠ some x.id) := by
  unfold preflightOutcome at h
  cases hsched : scheduleCapabilityPreflight f s x with
  | none =>
    simp only [hsched] at h
    exact Or.inl h
  | some scheduled =>
    obtain ⟨s1, x1⟩ := scheduled
    obtain ⟨rfl, rfl, hnew⟩ := scheduleCapabilityPreflight_eq_some hsched
    simp only [hsched] at h
    obtain ⟨-, h⟩ := transitionStep_bind.mp h
    obtain ⟨v, hv, h⟩ := bind_eq_ok.mp h
    cases h
    have hclean := hr.clean_of_isLive htip.mem hlive
    -- The row is stored before the preflight is opened behind it.
    have hstored : (s.appendStep (preflightStep f s x)).putStep
          { bindPreflight x (preflightStep f s x).id with status := .blocked } =
        (s.putStep { bindPreflight x (preflightStep f s x).id with status := .blocked }).appendStep
          (preflightStep f s x) := by
      have hne : Step.key (preflightStep f s x) ≠
          Step.key { bindPreflight x (preflightStep f s x).id with status := .blocked } := by
        have hlt := hr.laid.id_lt htip.mem
        change s.steps.length ≠ x.id
        omega
      simp only [State.putStep, State.appendStep, put_append, put_cons, put_nil, if_neg hne]
    obtain ⟨hr1, htip1⟩ := hr.retip htip
      (y := { bindPreflight x (preflightStep f s x).id with status := .blocked }) rfl rfl (fun hl => by cases hl)
    rw [hstored] at hv
    have hv' := activate_added (s := s.putStep { bindPreflight x (preflightStep f s x).id with status := .blocked })
      hc hr1 htip1 hrun (by rw [State.putStep_steps, length_put]; rfl) rfl rfl (by simp [preflightStep]) hv
    refine Or.inr ⟨rfl, rfl, rfl, rfl, rfl, hclean, { preflightStep f s x with status := .queued }, ?_, ?_, ?_, rfl, rfl,
      rfl, rfl, hnew⟩
    · exact ⟨rfl, hr.laid.nextOrdinal hc, rfl, rfl, rfl, rfl, rfl, rfl, rfl⟩
    · rw [hv']
      rfl
    · rw [hv']
      rfl

theorem Kept.released (h : Kept x y) : Kept x (releaseStep o y) := h.trans releaseStep_kept

theorem commitRows_blocked (h1 : applyOutcome f s x o = .ok (u, y)) (hblock : blockForAttention s x = .ok (u, y))
    (ho : o.kind = .transientFailure ∨ o.kind = .permanentFailure ∨ o.kind = .blocked ∨ o.kind = .cancelled)
    (hu : x.unknownEffects = if o.kind = .transientFailure then x.unknownEffects else o.unknownEffects)
    (h : commitRows f s x o = .ok t) : Committed f s ps x o t.run.status t.steps := by
  obtain ⟨rfl, -, -, rfl⟩ := blockForAttention_eq_ok hblock
  obtain ⟨hs, hrun⟩ := commitRows_stored h1 (by simp) rfl h
  rw [hs, hrun]
  refine .stopped (Kept.released ⟨rfl, rfl, rfl, rfl, rfl⟩) releaseStep_status ho ?_
  rw [releaseStep_unknownEffects]
  exact hu

theorem commitRows_blockedOutcome (hc : Chain chain) (hr : Rows chain s.steps) (htip : Tip s.steps ps x)
    (hrun : s.run.status = .running) (ho : o.kind = .permanentFailure ∨ o.kind = .blocked ∨ o.kind = .cancelled)
    (hbranch : o.kind = .blocked ∨ o.unknownEffects = true) (h1 : applyOutcome f s x o = .ok (u, y))
    (hout : blockedOutcome f s x o = .ok (u, y)) (h : commitRows f s x o = .ok t) :
    Committed f s ps x o t.run.status t.steps := by
  unfold blockedOutcome at hout
  obtain ⟨scheduled, hsched, hout⟩ := bind_eq_ok.mp hout
  have hne : o.kind ≠ .succeeded := by rcases ho with ho | ho | ho <;> rw [ho] <;> decide
  cases scheduled with
  | some scheduled =>
    cases hout
    obtain ⟨hu, hcat, hk, hb, hcl, c, hadd, hus, hur, hrep, hcap⟩ :=
      scheduleBoundedRepair_cases hc hr.laid htip.mem hsched
    have hlt := hr.laid.id_lt htip.mem
    have hyid : y.id = x.id := congrArg StepSpec.id hk.toStepSpec
    obtain ⟨hs, hst⟩ := commitRows_added h1 (by rw [hb]; decide) (by omega) hadd.id hus h
    rw [hs, hst, hur, hrun]
    have hkind : o.kind = .blocked := hbranch.resolve_right (by simp [hu])
    have hrel : releaseStep o y = { y with
        failureCategory := o.category, failureSummary := o.summary, leaseOwner := none, leaseExpiresAt := none } := by
      unfold releaseStep
      rw [if_neg hne]
    have hparked : Parked (releaseStep o y) := by
      rw [hrel]
      exact ⟨hb, hcl, Or.inl hcat⟩
    have hrepairs : Repairs (releaseStep o y) c.toStepSpec := by
      rw [hrel]
      exact ⟨hrep.parent, hrep.stepType, hrep.key, hrep.ordinal, hrep.links, hrep.bound⟩
    exact .repaired hkind hu hk.released hparked hadd hrepairs hcap
  | none =>
    obtain ⟨⟨v, z⟩, hblock, hout⟩ := bind_eq_ok.mp hout
    obtain ⟨rfl, -, -, rfl⟩ := blockForAttention_eq_ok hblock
    cases hout
    obtain ⟨hs, hst⟩ := commitRows_stored h1 (by simp) (put_put (by rfl)) h
    rw [hs, hst]
    refine .stopped (Kept.released ⟨rfl, rfl, rfl, rfl, rfl⟩) releaseStep_status (Or.inr ho) ?_
    rw [releaseStep_unknownEffects, if_neg (by rcases ho with ho | ho | ho <;> rw [ho] <;> decide)]

theorem commitRows_cases (hc : Chain chain) (hr : Rows chain s.steps) (htip : Tip s.steps ps x)
    (hheld : x.status.isHeld = true) (hrun : s.run.status = .running) (h : commitRows f s x o = .ok t) :
    Committed f s ps x o t.run.status t.steps := by
  have hlive := StepStatus.isLive_of_isHeld hheld
  have hclean := hr.clean_of_isLive htip.mem hlive
  obtain ⟨⟨u, y⟩, h1, -⟩ := bind_eq_ok.mp (show (applyOutcome f s x o >>= _) = .ok t from h)
  have happ := h1
  unfold applyOutcome at happ
  cases hk : o.kind with
  | succeeded =>
    simp only [hk] at happ
    obtain ⟨-, happ⟩ := transitionStep_bind.mp happ
    cases happ
    have hafter := commitRows_completed h1 hk rfl h
    have hkept : Kept x (releaseStep o { x with status := .completed, result := some o.result }) :=
      Kept.released ⟨rfl, rfl, rfl, rfl, rfl⟩
    have hdone : (releaseStep o { x with status := .completed, result := some o.result }).status = .completed :=
      releaseStep_status
    refine .completed hk hkept hdone (afterCompletion_cases hc hr htip hkept.toStepSpec hdone ?_ ?_ ?_ hafter)
    · exact put_put (congrArg StepSpec.id hkept.toStepSpec).symm
    · rfl
    · exact hrun
  | transientFailure =>
    simp only [hk] at happ
    rcases retryOutcome_cases happ with ⟨hs, hq, hu, href, hb, hcap, hpf, rfl⟩ | ⟨hkept, hq, hu, hmore, rfl⟩ | hblock
    · obtain ⟨hsteps, hst⟩ := commitRows_stored h1 (by rw [hq]; decide) rfl h
      rw [hsteps, hst, State.putStep_run, hrun]
      have hrel := releaseStep_kept (o := o) (x := y)
      refine .waited hk (hrel.toStepSpec.trans hs) (releaseStep_status.trans hq) (releaseStep_unknownEffects.trans hu)
        ⟨hrel.attemptCount.trans href.1, hrel.maxAttempts.trans href.2⟩ (hrel.backpressureCount.trans hb) hcap
        (hrel.preflight.trans hpf)
    · obtain ⟨hsteps, hst⟩ := commitRows_stored h1 (by rw [hq]; decide) rfl h
      rw [hsteps, hst, State.putStep_run, hrun]
      exact .retried hk hkept.released (releaseStep_status.trans hq) (releaseStep_unknownEffects.trans hu) hmore
    · exact commitRows_blocked h1 hblock (Or.inl hk) (by simp [hk]) h
  | needsUserInput =>
    simp only [hk] at happ
    obtain ⟨-, happ⟩ := transitionStep_bind.mp happ
    obtain ⟨v, hv, happ⟩ := bind_eq_ok.mp happ
    obtain ⟨-, rfl⟩ := transitionRun_eq_ok.mp hv
    cases happ
    obtain ⟨hsteps, hst⟩ := commitRows_stored h1 (by simp) rfl h
    rw [hsteps, hst]
    exact .questioned hk (Kept.released ⟨rfl, rfl, rfl, rfl, rfl⟩) releaseStep_status releaseStep_unknownEffects
  | needsApproval =>
    simp only [hk] at happ
    split_ifs at happ with hsettled
    · obtain ⟨-, happ⟩ := transitionStep_bind.mp happ
      cases happ
      obtain ⟨hsteps, hst⟩ := commitRows_stored h1 (by simp) rfl h
      rw [hsteps, hst, State.putStep_run, hrun]
      have hrel := releaseStep_kept (o := o)
        (x := { x with status := .queued, attemptCount := x.attemptCount - 1 })
      exact .released hk hsettled hrel.toStepSpec releaseStep_status releaseStep_unknownEffects
        ⟨hrel.attemptCount, hrel.maxAttempts⟩ hrel.backpressureCount hrel.preflight
    · obtain ⟨-, happ⟩ := transitionStep_bind.mp happ
      cases happ
      obtain ⟨hsteps, hst⟩ := commitRows_stored h1 (by simp) rfl h
      rw [hsteps, hst, State.putStep_run, hrun]
      exact .asked hk (by simpa using hsettled) (Kept.released ⟨rfl, rfl, rfl, rfl, rfl⟩) releaseStep_status
        releaseStep_unknownEffects
  | blocked =>
    simp only [hk, decide_true, Bool.true_and, Bool.true_or, if_true] at happ
    split at happ
    · rename_i hpre
      simp only [Bool.and_eq_true, decide_eq_true_eq, Bool.not_eq_true'] at hpre
      obtain ⟨⟨hcat, htype⟩, hu⟩ := hpre
      rcases preflightOutcome_cases hc hr htip hlive hrun happ with hblock | ⟨hs, ha, hm, hb, hq, hcl, c, hadd, hus, hur,
        hct, hck, hcl', hbound, hnew⟩
      · exact commitRows_blocked h1 hblock (Or.inr (Or.inr (Or.inl hk))) (by simp [hk, hclean, hu]) h
      · have hlt := hr.laid.id_lt htip.mem
        have hyid : y.id = x.id := congrArg StepSpec.id hs
        obtain ⟨hsteps, hst⟩ := commitRows_added h1 (by rw [hq]; decide) (by omega) hadd.id hus h
        rw [hsteps, hst, hur, hrun]
        have hrel : releaseStep o y = { y with
            failureCategory := o.category, failureSummary := o.summary, leaseOwner := none
            leaseExpiresAt := none } := by
          unfold releaseStep
          rw [if_neg (by rw [hk]; decide)]
        have hparked : Parked (releaseStep o y) := by
          rw [hrel]
          exact ⟨hq, hcl, Or.inr hcat⟩
        have hpref : Preflights (releaseStep o y) c.toStepSpec := by
          rw [hrel]
          refine ⟨?_, hct, hck, ?_, hbound, hcat⟩
          · change y.stepType = _
            rw [hs]
            exact htype
          · change c.links = { capabilityForStepId := some y.id }
            rw [hcl', hyid]
        have hkeep := releaseStep_kept (o := o) (x := y)
        exact .preflighted hk hu (hkeep.toStepSpec.trans hs) (hkeep.attemptCount.trans ha) (hkeep.maxAttempts.trans hm)
          (hkeep.backpressureCount.trans hb) hparked hadd hpref hnew
    · exact commitRows_blockedOutcome hc hr htip hrun (Or.inr (Or.inl hk)) (Or.inl hk) h1 happ h
  | permanentFailure =>
    simp only [hk, reduceCtorEq, decide_false, Bool.false_and, Bool.false_or, Bool.false_eq_true, if_false] at happ
    split_ifs at happ with hunk
    · exact commitRows_blockedOutcome hc hr htip hrun (Or.inl hk) (Or.inr hunk) h1 happ h
    · obtain ⟨-, happ⟩ := transitionStep_bind.mp happ
      obtain ⟨v, hv, happ⟩ := bind_eq_ok.mp happ
      obtain ⟨-, rfl⟩ := transitionRun_eq_ok.mp hv
      cases happ
      obtain ⟨hsteps, hst⟩ := commitRows_stored h1 (by simp) rfl h
      rw [hsteps, hst]
      exact .failed hk (by simpa using hunk) (Kept.released ⟨rfl, rfl, rfl, rfl, rfl⟩) releaseStep_status
  | cancelled =>
    simp only [hk, reduceCtorEq, decide_false, Bool.false_and, Bool.false_or, Bool.false_eq_true, if_false,
      if_true] at happ
    split_ifs at happ with hunk
    · exact commitRows_blockedOutcome hc hr htip hrun (Or.inr (Or.inr hk)) (Or.inr hunk) h1 happ h
    · obtain ⟨-, happ⟩ := transitionStep_bind.mp happ
      cases happ
      obtain ⟨hsteps, hst⟩ := commitRows_stored h1 (by simp) rfl h
      rw [hsteps, hst, State.putStep_run, hrun]
      exact .cancelled hk (by simpa using hunk) (Kept.released ⟨rfl, rfl, rfl, rfl, rfl⟩) releaseStep_status

end Dispatch

end Vuzol.Workflow
