import Vuzol.Theorems.Workflow.Agreement

/-! What the owner sees of a run that needs him: the task status of a run with live work, and the step that a
    blocked run offers for a retry. A repair of a revalidation parks two steps, and neither of the two
    queries follows both links. -/

namespace Vuzol.Workflow

open Vuzol.Lib

section OwnerView
variable {chain : List StepSpec} {ps : List Step} {x y : Step} {s t : State} {m : Materialization} {op : Op} {i : Nat}

def ProjectsLive (rows : List Step) : Prop :=
  deriveTaskStatus rows .running ≠ .blocked ∧ ∀ p ∈ rows, p.status = .blocked → p.id ∈ activeRepairTargets rows

theorem Inv.projectsLive_iff {loose : Prop} (hc : Chain chain) (h : Inv loose chain s) (hrun : s.run.status = .running)
    (hx : x ∈ s.steps) (hlive : x.status.isLive = true) :
    ProjectsLive s.steps ↔ repairsRevalidation s.steps x = false := by
  have hr := h.live.rows
  have hf := h.live.noFailed (by rw [hrun]; decide)
  obtain ⟨ps, htip⟩ := hr.tip_of_isLive hx hlive
  rw [← revalidates_eq hr htip]
  constructor
  · rintro ⟨hderive, -⟩
    by_contra hn
    rw [deriveTaskStatus_nested hc hr hf htip hlive (by simpa using hn)] at hderive
    exact hderive rfl
  · intro hn
    refine ⟨?_, fun p hp hb => ?_⟩
    · rw [deriveTaskStatus_live hf htip hlive hn]
      exact Step.taskStatus_ne_blocked hlive
    · obtain ⟨qs, z, htip', hin⟩ := hr.tip_of_isOpen hp (by rw [hb]; rfl)
      obtain ⟨rfl, rfl⟩ := htip.unique htip'
      rcases hin with rfl | hin
      · rw [hb] at hlive
        cases hlive
      · exact htip.mem_targets hlive hn hin

/-- A run that works on a step is projected as blocked exactly when this step repairs a revalidation. -/
theorem live_repair_projection (h : Reached anyOp m s) (hrun : s.run.status = .running) (hx : x ∈ s.steps)
    (hwork : x.status.isWorking = true) : ProjectsLive s.steps ↔ repairsRevalidation s.steps x = false := by
  rcases h.inv True (fun _ _ _ _ => trivial) with hinv | hdead
  · exact hinv.projectsLive_iff m.compiled hrun hx (StepStatus.isLive_of_isWorking hwork)
  · rw [hdead.run] at hrun
    cases hrun

/-- A run whose first step is queued. -/
theorem live_repair_projection_started : ∃ s, Reached anyOp sampleRun s ∧ s.run.status = .running ∧ ProjectsLive s.steps := by
  obtain ⟨s, hs, hp⟩ := Reached.of_runOps anyOp sampleRun [.startRun {}] (fun s => s.run.status == .running &&
    s.steps.any fun x => x.status.isWorking && !repairsRevalidation s.steps x) (fun _ _ _ => trivial) (by decide +kernel)
  simp only [Bool.and_eq_true, beq_iff_eq, List.any_eq_true, Bool.not_eq_true'] at hp
  obtain ⟨hrun, x, hx, hwork, hn⟩ := hp
  exact ⟨s, hs, hrun, (live_repair_projection hs hrun hx hwork).mpr hn⟩

def reviewRepairedTwice : List Op :=
  [.startRun {}] ++ finishSteps [1, 2, 3, 4, 5, 6] ++ workStep 7 1 { kind := .blocked, category := some "review_findings" } ++
    finishSteps [13] ++ workStep 14 1 { kind := .blocked, category := some "validation_gate_failed" }

theorem live_repair_projected_blocked : ∃ s, Reached anyOp sampleRun s ∧ s.run.status = .running ∧
    (∃ x ∈ s.steps, x.status = .queued) ∧ deriveTaskStatus s.steps .running = .blocked := by
  obtain ⟨s, hs, hp⟩ := Reached.of_runOps anyOp sampleRun reviewRepairedTwice
    (fun s => s.run.status == .running && s.steps.any (fun x => x.status == .queued) &&
      deriveTaskStatus s.steps .running == .blocked) (fun _ _ _ => trivial) (by decide +kernel)
  simp only [Bool.and_eq_true, beq_iff_eq, List.any_eq_true] at hp
  exact ⟨s, hs, hp.1.1, hp.1.2, hp.2⟩

def Op.failingStep : Op → Option Nat
  | .commitStepOutcome _ token _ => some token.stepId
  | .recoverExpiredStep id _ => some id
  | _ => none

theorem Live.blocks (hc : Chain chain) (h : Live chain s) (hfit : TaskFits True s) (hop : perform s op = .ok t)
    (hid : op.failingStep = some i) (hnew : s.run.status ≠ .blocked) (hb : t.run.status = .blocked) :
    ∃ ps x y, s.step? i = some x ∧ Tip s.steps ps x ∧ y.toStepSpec = x.toStepSpec ∧ y.status = .blocked ∧
      t.steps = put Step.key y s.steps := by
  cases op with
  | commitStepOutcome f token o =>
    obtain rfl : token.stepId = i := by simpa [Op.failingStep] using hid
    obtain ⟨x, hx, hop1⟩ := bind_eq_ok.mp hop
    obtain ⟨u, hu, hop2⟩ := bind_eq_ok.mp hop1
    obtain ⟨hfind, -, hheld, -, -⟩ := leasedRow_eq_ok hx
    obtain ⟨hrun, ps, htip⟩ := h.held (State.mem_of_step? hfind).1 hheld
    have hcom := commitRows_cases hc h.rows htip hheld hrun hu
    obtain ⟨-, hru, hsu⟩ := projectTask_status hop2
    rw [hru] at hb
    generalize hr : u.run.status = run at hcom
    generalize ht : u.steps = rows at hcom
    rw [hr] at hb
    subst hb
    cases hcom with
    | @stopped y hy hq => exact ⟨ps, x, y, hfind, htip, hy.toStepSpec, hq, by rw [hsu, ht]⟩
    | completed _ _ _ hcomp =>
      cases hcomp with
      | ended _ hrun' => rcases hrun' with hrun' | hrun' <;> cases hrun'
  | recoverExpiredStep id now =>
    obtain rfl : id = i := by simpa [Op.failingStep] using hid
    rcases recoverExpiredStep_cases hop with rfl | ⟨x, hfind, hexp, hone⟩
    · exact absurd hb hnew
    · have hheld := leaseExpired_isHeld hexp
      obtain ⟨hrun, ps, htip⟩ := h.held (State.mem_of_step? hfind).1 hheld
      obtain ⟨hrec, -⟩ := recoverOne_cases hrun hone
      generalize hr : t.run.status = run at hrec
      generalize ht : t.steps = rows at hrec
      rw [hr] at hb
      subst hb
      cases hrec with
      | @blocked y hy hq => exact ⟨ps, x, y, hfind, htip, hy.toStepSpec, hq, rfl⟩
  | _ => cases hid

/-- A run that the engine blocks offers the failed step for a retry, unless this step is a revalidation or
    repairs one. -/
theorem owner_retry_target (h : Reached anyOp m s) (hop : perform s op = .ok t) (hid : op.failingStep = some i)
    (hnew : s.run.status ≠ .blocked) (hb : t.run.status = .blocked) :
    ∃ x y, s.step? i = some x ∧ t.step? i = some y ∧ y.status = .blocked ∧
      (currentRetryTarget t.steps = some y ↔
        x.links.resumeAfterValidationStepId = none ∧ repairsRevalidation s.steps x = false) := by
  rcases h.inv True (fun _ _ _ _ => trivial) with hinv | hdead
  · obtain ⟨ps, x, y, hfind, htip, hy, hq, hsteps⟩ := hinv.live.blocks m.compiled hinv.task hop hid hnew hb
    obtain ⟨hrows, htip'⟩ := hinv.live.rows.retip htip hy (by rw [hq]; rfl) fun hl => by rw [hq] at hl; cases hl
    rw [← hsteps] at hrows htip'
    have hyi : y.id = i := by rw [hy]; exact (State.mem_of_step? hfind).2
    have hlinks : y.links = x.links := by rw [hy]
    refine ⟨x, y, hfind, hyi ▸ State.step?_of_mem hrows.laid.nodup htip'.mem, hq, ?_⟩
    have hrev : revalidates (ps ++ [y]) = (repairsRevalidation s.steps x || x.links.resumeAfterValidationStepId.isSome) := by
      rw [← revalidates_eq hinv.live.rows htip, revalidates, List.any_append, ← hlinks]
      simp [revalidates]
    rw [currentRetryTarget_blocked hrows htip' hq, hrev]
    cases repairsRevalidation s.steps x <;> cases x.links.resumeAfterValidationStepId <;> simp
  · exfalso
    have hdead' := hdead.perform hop
    rw [hdead'.run] at hb
    cases hb

theorem owner_retry_target_of_failed_validation : ∃ s t x, perform s (.commitStepOutcome {} ⟨6, "worker", 1⟩
    { kind := .blocked, category := some "validation_environment_missing_tool" }) = .ok t ∧
    t.step? 6 = some x ∧ currentRetryTarget t.steps = some x := by
  obtain ⟨s, hs, hp⟩ := Reached.of_runOps anyOp sampleRun ([.startRun {}] ++ finishSteps [1, 2, 3, 4, 5] ++
      [.claimStep (sampleClaim 6), .startStep ⟨6, "worker", 1⟩])
    (fun s => s.run.status == .running && (s.step? 6).any (fun x => x.links == {}) &&
      ends (fun t => t.run.status == .blocked) (perform s (.commitStepOutcome {} ⟨6, "worker", 1⟩
        { kind := .blocked, category := some "validation_environment_missing_tool" })))
    (fun _ _ _ => trivial) (by decide +kernel)
  simp only [Bool.and_eq_true, beq_iff_eq, Option.any_eq_true] at hp
  obtain ⟨⟨hrun, x0, hx0, hl⟩, hend⟩ := hp
  obtain ⟨t, hop, ht⟩ := exists_of_ends hend
  obtain ⟨x, y, hx, hy, -, htarget⟩ := owner_retry_target hs hop rfl (by rw [hrun]; decide) (by simpa using ht)
  obtain rfl : x = x0 := Option.some.inj (hx.symm.trans hx0)
  refine ⟨s, t, y, hop, hy, htarget.mpr ?_⟩
  simp [repairsRevalidation, hl]

/-- The revalidation of a repaired review is blocked for attention. -/
theorem owner_retry_refused_for_revalidation : ∃ s t, Reached anyOp sampleRun s ∧ s.run.status = .running ∧
    perform s (.commitStepOutcome {} ⟨14, "worker", 1⟩
      { kind := .blocked, category := some "validation_environment_missing_tool" }) = .ok t ∧
    t.run.status = .blocked ∧ currentRetryTarget t.steps = none := by
  obtain ⟨s, hs, hp⟩ := Reached.of_runOps anyOp sampleRun ([.startRun {}] ++ finishSteps [1, 2, 3, 4, 5, 6] ++
      workStep 7 1 { kind := .blocked, category := some "review_findings" } ++ finishSteps [13] ++
      [.claimStep (sampleClaim 14), .startStep ⟨14, "worker", 1⟩])
    (fun s => s.run.status == .running && ends (fun t => t.run.status == .blocked && currentRetryTarget t.steps == none)
      (perform s (.commitStepOutcome {} ⟨14, "worker", 1⟩
        { kind := .blocked, category := some "validation_environment_missing_tool" })))
    (fun _ _ _ => trivial) (by decide +kernel)
  simp only [Bool.and_eq_true, beq_iff_eq] at hp
  obtain ⟨hrun, hend⟩ := hp
  obtain ⟨t, hop, ht⟩ := exists_of_ends hend
  simp only [Bool.and_eq_true, beq_iff_eq] at ht
  exact ⟨s, t, hs, hrun, hop, ht.1, ht.2⟩

end OwnerView

end Vuzol.Workflow
