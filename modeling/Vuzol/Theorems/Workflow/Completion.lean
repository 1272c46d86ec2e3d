import Vuzol.Theorems.Workflow.Committable

/-! The end of a step and the end of a run: which outcomes of a held step can be committed, and when the commit of
    the last step completes the run and its task. -/

namespace Vuzol.Workflow

open Vuzol.Lib

section Commits
variable {loose : Prop} {chain : List StepSpec} {ps : List Step} {x : Step} {s : State} {m : Materialization} {f : Facts}
  {token : LeaseToken} {o : StepOutcome}

theorem Dead.not_leased (h : Dead s) (hlease : leasedRow s token = .ok x) : False := by
  obtain ⟨hfind, -, hheld, -, -⟩ := leasedRow_eq_ok hlease
  exact h.not_held hfind hheld

/-- The commit of a started step under its current lease raises no `IllegalTransition`, unless a validation asks for
    an approval or the last step ends a task that its owner retried. -/
theorem held_outcome_committable (h : Reached anyOp m s) (hlease : leasedRow s token = .ok x)
    (hx : x.status = .running) :
    (∀ e, commitStepOutcome f s token o = .error e → e.isIllegalTransition = false) ↔ ¬commitMisses f s x o := by
  rcases h.inv True (fun _ _ _ _ => trivial) with hinv | hdead
  · exact hinv.commit_legal_iff m.compiled hlease hx
  · exact (hdead.not_leased hlease).elim

def upToFinalize : List Op :=
  [.startRun {}] ++ finishSteps [1, 2, 3, 4, 5, 6, 7, 8, 9] ++ [.decideResult 0 .approve 7 1] ++ finishSteps [10, 11]

def startedStep (id generation : Nat) : List Op :=
  [.claimStep (sampleClaim id), .startStep ⟨id, "worker", generation⟩]

def heldBy (s : State) (token : LeaseToken) : Bool := ends (fun x => x.status == .running) (leasedRow s token)

theorem exists_of_heldBy (h : heldBy s token = true) : ∃ x, leasedRow s token = .ok x ∧ x.status = .running := by
  obtain ⟨x, hx, hs⟩ := exists_of_ends h
  exact ⟨x, hx, by simpa using hs⟩

theorem held_outcome_committable_blocked : ∃ s x, leasedRow s ⟨1, "worker", 1⟩ = .ok x ∧
    ∀ e, commitStepOutcome {} s ⟨1, "worker", 1⟩ { kind := .blocked } = .error e → e.isIllegalTransition = false := by
  obtain ⟨s, hs, hp⟩ := Reached.of_runOps anyOp sampleRun ([.startRun {}] ++ startedStep 1 1)
    (heldBy · ⟨1, "worker", 1⟩) (fun _ _ _ => trivial) (by decide +kernel)
  obtain ⟨x, hlease, hx⟩ := exists_of_heldBy hp
  exact ⟨s, x, hlease, (held_outcome_committable hs hlease hx).mpr (by simp [commitMisses])⟩

/-- A validation asks for an approval; the owner retries the last step and it succeeds. -/
theorem held_outcome_not_committable :
    (∃ s x, Reached anyOp sampleRun s ∧ leasedRow s ⟨6, "worker", 1⟩ = .ok x ∧ x.status = .running ∧
      commitStepOutcome {} s ⟨6, "worker", 1⟩ { kind := .needsApproval } =
        .error (.illegalTask .validating .waitingApproval)) ∧
    ∃ s x, Reached anyOp sampleRun s ∧ leasedRow s ⟨12, "worker", 2⟩ = .ok x ∧ x.status = .running ∧
      commitStepOutcome {} s ⟨12, "worker", 2⟩ { kind := .succeeded } =
        .error (.illegalTask .retrying .completed) := by
  constructor
  · obtain ⟨s, hs, hp⟩ := Reached.of_runOps anyOp sampleRun
      ([.startRun {}] ++ finishSteps [1, 2, 3, 4, 5] ++ startedStep 6 1)
      (fun s => heldBy s ⟨6, "worker", 1⟩ && raises (.illegalTask .validating .waitingApproval)
        (commitStepOutcome {} s ⟨6, "worker", 1⟩ { kind := .needsApproval }))
      (fun _ _ _ => trivial) (by decide +kernel)
    rw [Bool.and_eq_true] at hp
    obtain ⟨x, hlease, hx⟩ := exists_of_heldBy hp.1
    exact ⟨s, x, hs, hlease, hx, eq_error_of_raises hp.2⟩
  · obtain ⟨s, hs, hp⟩ := Reached.of_runOps anyOp sampleRun
      (upToFinalize ++ workStep 12 1 { kind := .blocked, category := some "timeout" } ++
        [.retryTask { userId := 7, expectedVersion := some 28, now := 2 }] ++ startedStep 12 2)
      (fun s => heldBy s ⟨12, "worker", 2⟩ && raises (.illegalTask .retrying .completed)
        (commitStepOutcome {} s ⟨12, "worker", 2⟩ { kind := .succeeded }))
      (fun _ _ _ => trivial) (by decide +kernel)
    rw [Bool.and_eq_true] at hp
    obtain ⟨x, hlease, hx⟩ := exists_of_heldBy hp.1
    exact ⟨s, x, hs, hlease, hx, eq_error_of_raises hp.2⟩

theorem Rows.completed_of_finalize (hc : Chain chain) (h : Rows chain s.steps) (hf : NoFailed s.steps)
    (htip : Tip s.steps ps x) (hfin : x.stepType = .finalize) (hcancel : ∀ z ∈ s.steps, z.status ≠ .cancelled) :
    ∀ z ∈ s.steps, z.id ≠ x.id → z.status = .completed := by
  have hlt : x.id < chain.length := by
    by_contra hlt
    have hadded := (h.laid.added_row htip.mem (Nat.le_of_not_lt hlt)).2.2
    rw [hfin] at hadded
    simp [addedStepTypes] at hadded
  have hlast := hc.finalize (h.laid.compiled_row htip.mem hlt) hfin
  obtain rfl := htip.stack.eq_nil ((h.laid.links_iff hc htip.mem).mpr hlt)
  obtain ⟨k, hk⟩ := h.front
  have hxk := (hk.row x htip.mem).id_eq htip.isOpen hlt
  intro z hz hne
  by_cases hzx : z.id < x.id
  · exact (hk.row z hz).before (by omega)
  · have hp := (hk.row z hz).added (by omega)
    have hclosed : z.status.isOpen = false := by
      by_contra hopen
      have hmem : z ∈ openRows s.steps := mem_openRows.mpr ⟨hz, by simpa using hopen⟩
      rw [htip.opens, List.nil_append, List.mem_singleton] at hmem
      exact hne (by rw [hmem])
    have hfailed := hf z hz
    have hcancelled := hcancel z hz
    cases hs : z.status <;> simp_all [StepStatus.isOpen]

theorem commitRows_not_started (hx : x.status = .leased) (ho : o.kind = .succeeded) :
    commitRows f s x o = .error (.illegalStep .leased .completed) := by
  have ht : transitionStep x .completed = .error (.illegalStep .leased .completed) := by
    rw [transitionStep, hx]
    rfl
  unfold commitRows applyOutcome
  rw [ho]
  simp only [ht, error_bind]

theorem Inv.finalize_completes_iff (hc : Chain chain) (h : Inv loose chain s) (hlease : leasedRow s token = .ok x)
    (hfin : x.stepType = .finalize) (ho : o.kind = .succeeded) (heffects : s.unsettled = false) :
    (∃ t, commitStepOutcome f s token o = .ok t ∧ t.run.status = .completed ∧ t.task.status = .completed) ↔
      x.status = .running ∧ s.task.status ≠ .retrying ∧ ∀ z ∈ s.steps, z.status ≠ .cancelled := by
  obtain ⟨hfind, -, hheld, -, -⟩ := leasedRow_eq_ok hlease
  have hmem := (State.mem_of_step? hfind).1
  obtain ⟨hrun, ps, htip⟩ := h.live.held hmem hheld
  have hf := h.live.noFailed (by rw [hrun]; decide)
  have hcommit : commitStepOutcome f s token o = (commitRows f s x o >>= projectTask o) := by
    unfold commitStepOutcome
    rw [hlease, ok_bind]
  rw [hcommit]
  constructor
  · rintro ⟨t, ht, hrt, -⟩
    obtain ⟨u, hu, hproj⟩ := bind_eq_ok.mp ht
    have hx : x.status = .running := by
      by_contra hx
      have hs : x.status = .leased := by
        cases hs : x.status <;> simp_all [StepStatus.isHeld]
      rw [commitRows_not_started hs ho] at hu
      cases hu
    obtain ⟨-, hru, -⟩ := projectTask_status hproj
    have hcom := commitRows_cases hc h.live.rows htip hheld hrun hu
    have hru : u.run.status = .completed := by rw [← hru, hrt]
    have hcom' := hcom
    rw [hru] at hcom'
    obtain ⟨-, -, hall⟩ := hcom'.last
    refine ⟨hx, fun hretry => ?_, fun z hz hcancelled => ?_⟩
    · have hnot := hcom.illegal hc h.live h.task htip hheld hrun (Or.inr ⟨hretry, ho, heffects, hall⟩)
      rw [← (commitRows_meets hx hrun).of_ok hu] at hnot
      rw [projectTask_of_not_mayTake hnot] at hproj
      cases hproj
    · by_cases hzx : z.id = x.id
      · rw [h.live.rows.laid.eq_of_id hz hmem hzx, hx] at hcancelled
        cases hcancelled
      · rw [hall z hz hzx] at hcancelled
        cases hcancelled
  · rintro ⟨hx, htask, hcancel⟩
    have hall := h.live.rows.completed_of_finalize hc hf htip hfin hcancel
    obtain ⟨rfl, hroot, -⟩ := h.live.rows.last_of_completed hc htip hall
    obtain ⟨u, hu⟩ := commitRows_last (f := f) (s := s) hx ho hroot hall
    have hcom := commitRows_cases hc h.live.rows htip hheld hrun hu
    have hmay := hcom.legal hc h.live h.task htip hheld hrun (by
      rintro (⟨-, ho', -⟩ | ⟨hretry, -⟩)
      · rw [ho] at ho'
        cases ho'
      · exact htask hretry)
    rw [← (commitRows_meets hx hrun).of_ok hu] at hmay
    obtain ⟨t, ht⟩ := projectTask_of_mayTake (o := o) hmay
    obtain ⟨htt, hrt, -⟩ := projectTask_status ht
    have hru : u.run.status = .completed := by
      generalize u.run.status = run at hcom
      generalize u.steps = rows at hcom
      cases hcom with
      | completed _ hy hq hcomp => exact hcomp.ended_of_completed (by rw [hy.toStepSpec]) hq heffects hall
      | stopped _ _ ho' => simp [ho] at ho'
      | waited ho' | retried ho' | questioned ho' | failed ho' | cancelled ho' | repaired ho' | preflighted ho'
      | released ho' | asked ho' =>
        rw [ho] at ho'
        cases ho'
    refine ⟨t, by rw [hu, ok_bind, ht], by rw [hrt, hru], ?_⟩
    rw [htt, hrt, hru]
    rfl

/-- The success of the last step completes the run and its task, unless the step was not started, the task shows
    the owner's retry, or a row of the run was cancelled. -/
theorem finalize_completes (h : Reached anyOp m s) (hlease : leasedRow s token = .ok x)
    (hfin : x.stepType = .finalize) (ho : o.kind = .succeeded) (heffects : s.unsettled = false) :
    (∃ t, commitStepOutcome f s token o = .ok t ∧ t.run.status = .completed ∧ t.task.status = .completed) ↔
      x.status = .running ∧ s.task.status ≠ .retrying ∧ ∀ z ∈ s.steps, z.status ≠ .cancelled := by
  rcases h.inv True (fun _ _ _ _ => trivial) with hinv | hdead
  · exact hinv.finalize_completes_iff m.compiled hlease hfin ho heffects
  · exact (hdead.not_leased hlease).elim

theorem finalize_completes_sample : ∃ s t, commitStepOutcome {} s ⟨12, "worker", 1⟩ { kind := .succeeded } = .ok t ∧
    t.run.status = .completed ∧ t.task.status = .completed := by
  obtain ⟨s, hs, hp⟩ := Reached.of_runOps anyOp sampleRun (upToFinalize ++ startedStep 12 1)
    (fun s => ends (fun x => x.status == .running && x.stepType == .finalize) (leasedRow s ⟨12, "worker", 1⟩) &&
      !s.unsettled && s.task.status != .retrying && s.steps.all (fun z => z.status != .cancelled))
    (fun _ _ _ => trivial) (by decide +kernel)
  simp only [Bool.and_eq_true, Bool.not_eq_true', bne_iff_ne, List.all_eq_true] at hp
  obtain ⟨⟨⟨hlease, heffects⟩, htask⟩, hcancel⟩ := hp
  obtain ⟨x, hlease, hx⟩ := exists_of_ends hlease
  simp only [Bool.and_eq_true, beq_iff_eq] at hx
  exact ⟨s, (finalize_completes hs hlease hx.2 rfl heffects).mpr ⟨hx.1, htask, hcancel⟩⟩

/-- A source repair that no worker could serve is retired in favour of a new environment; the validation passes, the
    chain finishes, and the run goes on for ever. -/
theorem finalize_does_not_complete : ∃ s t x, Reached anyOp sampleRun s ∧ leasedRow s ⟨12, "worker", 1⟩ = .ok x ∧
    x.status = .running ∧ x.stepType = .finalize ∧ s.unsettled = false ∧
    commitStepOutcome {} s ⟨12, "worker", 1⟩ { kind := .succeeded } = .ok t ∧
    t.run.status = .running ∧ t.task.status = .executing := by
  obtain ⟨s, hs, hp⟩ := Reached.of_runOps anyOp sampleRun
    ([.startRun {}] ++ finishSteps [1, 2, 3, 4, 5] ++
      workStep 6 1 { kind := .blocked, category := some "validation_gate_failed" } ++
      [.blockRoute 13 0 "quota_exhausted" "no profile serves the step" false,
       .recoverValidationEnvironment { userId := 7, expectedVersion := some 16, stepId := 6, now := 0 } true true] ++
      finishSteps [14] ++ workStep 6 2 { kind := .succeeded } ++ finishSteps [7, 8, 9] ++
      [.decideResult 0 .approve 7 1] ++ finishSteps [10, 11] ++ startedStep 12 1)
    (fun s => ends (fun x => x.status == .running && x.stepType == .finalize) (leasedRow s ⟨12, "worker", 1⟩) &&
      !s.unsettled && ends (fun t => t.run.status == .running && t.task.status == .executing)
        (commitStepOutcome {} s ⟨12, "worker", 1⟩ { kind := .succeeded }))
    (fun _ _ _ => trivial) (by decide +kernel)
  simp only [Bool.and_eq_true, Bool.not_eq_true'] at hp
  obtain ⟨⟨hlease, heffects⟩, hend⟩ := hp
  obtain ⟨x, hlease, hx⟩ := exists_of_ends hlease
  obtain ⟨t, hop, ht⟩ := exists_of_ends hend
  simp only [Bool.and_eq_true, beq_iff_eq] at hx ht
  exact ⟨s, t, x, hs, hlease, hx.1, hx.2, heffects, hop, ht.1, ht.2⟩

end Commits

end Vuzol.Workflow
