import Vuzol.Theorems.Workflow.Committable

/-! Work whose external effects are unknown. A step that stops with the flag set stays where it is: no recovery,
    no resume and no retry of the owner puts it back to the queue. -/

namespace Vuzol.Workflow

open Vuzol.Lib

structure Stuck (chain : List StepSpec) (s : State) : Prop where
  inv : Inv True chain s
  run : s.run.status = .blocked ∨ s.run.status = .paused
  tip : ∃ ps x, Tip s.steps ps x ∧ x.status = .blocked ∧ x.unknownEffects = true

section Stuck
variable {chain : List StepSpec} {ps : List Step} {x z : Step} {s t : State} {op : Op}

section
variable (h : Stuck chain s)
include h

theorem Stuck.idle : ∀ x ∈ s.steps, x.status.isLive = false := by
  obtain ⟨ps, x, htip, hb, -⟩ := h.tip
  intro z hz
  rw [← Bool.not_eq_true]
  intro hl
  rw [htip.eq_of_isLive hz hl, hb] at hl
  cases hl

theorem Stuck.not_tip (htip : Tip s.steps ps z) (hclean : z.unknownEffects = false) : False := by
  obtain ⟨qs, x, htip', -, hu⟩ := h.tip
  obtain ⟨-, rfl⟩ := htip.unique htip'
  rw [hclean] at hu
  cases hu

theorem Stuck.of_same (hinv : Inv True chain t) (hs : t.steps = s.steps)
    (hr : t.run.status = .blocked ∨ t.run.status = .paused) : Stuck chain t where
  inv := hinv
  run := hr
  tip := by rw [hs]; exact h.tip

theorem Stuck.not_retried {now : Nat} (hrun : s.run.status = .blocked)
    (htarget : currentRetryTarget s.steps = some z) (hop : retryBlockedStep s z.id now = .ok t) : False := by
  obtain ⟨ps, htip, -⟩ := h.inv.live.retryTarget hrun htarget
  obtain ⟨w, hfind, -, hclean, -⟩ := retryBlockedStep_eq_ok hop hrun
  have hw := State.mem_of_step? hfind
  obtain rfl : w = z := h.inv.live.rows.laid.eq_of_id hw.1 htip.mem hw.2
  exact h.not_tip htip hclean

theorem Stuck.not_recovered {r : OperatorRequest} {retained unused : Bool}
    (hop : recoverValidationEnvironment s r retained unused = .ok t) : False := by
  obtain ⟨z, hz, hop1⟩ := bind_eq_ok.mp hop
  obtain ⟨u, hu, -⟩ := bind_eq_ok.mp hop1
  obtain ⟨hfind, hrun, -, hb, hclean, -⟩ := environmentRecoveryTarget_eq_ok hz
  obtain ⟨-, -, htip, -, -, rfl | ⟨w, htip', -, hclean', -⟩⟩ :=
    retireRepair_cases h.inv.live hrun (State.mem_of_step? hfind).1 hb hu
  · exact h.not_tip htip hclean
  · exact h.not_tip htip' hclean'

theorem Stuck.paused {expected : Option Nat} (hinv : Inv True chain t)
    (hop : pauseTask s expected = .ok t) : Stuck chain t := by
  rcases pauseTask_eq_ok hop with rfl | ⟨-, hr, -, hm⟩
  · exact h
  · rcases mapM_parkStep_cases h.inv.live.rows hm with ⟨-, hs⟩ | ⟨ps, x, y, htip, hheld, -⟩
    · exact h.of_same hinv hs (Or.inr hr)
    · have hl := h.idle x htip.mem
      rw [StepStatus.isLive_of_isHeld hheld] at hl
      cases hl

end

theorem Stuck.perform (hc : Chain chain) (h : Stuck chain s) (hop : perform s op = .ok t) : Stuck chain t ∨ Dead t := by
  have hstopped : s.run.status.isStopped = true := by rcases h.run with hr | hr <;> rw [hr] <;> rfl
  rcases h.inv.perform hc (fun _ => trivial) hop with hinv | ⟨-, hdead⟩
  · rcases perform_idle h.idle hstopped hop with ⟨hr, -, hs⟩ | hcontrol
    · exact Or.inl (h.of_same hinv hs (by rw [hr]; exact h.run))
    · cases op with
      | pauseTask expected => exact Or.inl (h.paused hinv hop)
      | resumeTask f expected undrained =>
        have hg : ¬Resumable s expected undrained := by
          intro hg
          obtain ⟨ps, x, htip, hb, -⟩ := h.tip
          exact h.not_tip htip (hg.known x htip.mem hb)
        rcases resumeTask_refused (f := f) hg with hsame | ⟨m, hm⟩
        · rw [Workflow.perform, hsame] at hop
          cases hop
          exact Or.inl h
        · rw [Workflow.perform, hm] at hop
          cases hop
      | cancelTask expected =>
        rcases cancelTask_cases h.inv.task hop with rfl | hdead
        · exact Or.inl h
        · exact Or.inr hdead
      | retryTask r =>
        obtain ⟨z, hz, hop1⟩ := bind_eq_ok.mp hop
        obtain ⟨hrun, htarget⟩ := retryTarget_eq_ok hz
        exact (h.not_retried hrun htarget hop1).elim
      | continueOwnerDecision action r recorded =>
        obtain ⟨z, hz, hop1⟩ := bind_eq_ok.mp hop
        obtain ⟨hrun, htarget⟩ := retryTarget_eq_ok hz
        split_ifs at hop1
        exact (h.not_retried hrun htarget hop1).elim
      | recoverValidationEnvironment r retained unused => exact (h.not_recovered hop).elim
      | _ => cases hcontrol
  · exact Or.inr hdead

theorem Stuck.never_queued {allow : State → Op → Prop} {u : State} (hc : Chain chain) (h : Stuck chain t)
    (hreach : Reach Workflow.perform allow t u) (hz : z ∈ u.steps) : z.status ≠ .queued := by
  have hinv : Stuck chain u ∨ Dead u := by
    refine hreach.invariant (P := fun v => Stuck chain v ∨ Dead v) (Or.inl h) ?_
    rintro v w a (hv | hv) - hop
    · exact hv.perform hc hop
    · exact Or.inr (hv.perform hop)
  rcases hinv with hu | hu
  · intro hq
    have hl := hu.idle z hz
    rw [hq] at hl
    cases hl
  · intro hq
    have hterm := hu.rows z hz
    rw [hq] at hterm
    cases hterm

end Stuck

section Commit
variable {chain : List StepSpec} {ps : List Step} {x y : Step} {s t u : State} {f : Facts} {o : StepOutcome}
  {token : LeaseToken} {m : Materialization}

def OutcomeKind.isFailure : OutcomeKind → Bool
  | .transientFailure | .permanentFailure | .blocked | .cancelled => true
  | .succeeded | .needsUserInput | .needsApproval => false

theorem scheduleBoundedRepair_unknown (hu : o.unknownEffects = true) : scheduleBoundedRepair f s x o = .ok none := by
  have hdec : decideRecovery (buildRecoveryState f s x o) s.run.recoveryPolicy = .attention :=
    decideRecovery_of_unknownEffects hu
  unfold scheduleBoundedRepair
  split
  · rfl
  · simp [hdec]

theorem applyOutcome_unknown (hheld : x.status.isHeld = true) (hrun : s.run.status = .running)
    (hu : o.unknownEffects = true) (hk : o.kind.isFailure = true) :
    ∃ u y, applyOutcome f s x o = .ok (u, y) ∧ y.status = .blocked ∧ u.run.status = .blocked ∧ u.task = s.task := by
  have hmem : .blocked ∈ stepTransitions x.status := by
    cases hx : x.status <;> rw [hx] at hheld <;> first | decide | cases hheld
  have hblock : blockForAttention s x = .ok (({ s with run := { s.run with status := .blocked } } : State).putStep
      { x with status := .blocked }, { x with status := .blocked }) := by
    simp [blockForAttention, transitionStep, hmem, transitionRun, hrun, runTransitions]
  have hdec : decideRecovery (buildRecoveryState f s x o) s.run.recoveryPolicy = .attention :=
    decideRecovery_of_unknownEffects hu
  have hblocked : blockedOutcome f s x o = .ok (({ s with run := { s.run with status := .blocked } } : State).putStep
      { x with status := .blocked } |>.putStep { x with status := .blocked, unknownEffects := true },
      { x with status := .blocked, unknownEffects := true }) := by
    simp [blockedOutcome, scheduleBoundedRepair_unknown hu, hblock, hu]
  unfold applyOutcome
  cases ho : o.kind with
  | transientFailure =>
    simp only [retryOutcome, hdec, hblock]
    exact ⟨_, _, rfl, rfl, rfl, rfl⟩
  | permanentFailure | blocked | cancelled =>
    simp only [hu, hblocked, Bool.not_true, Bool.and_false, Bool.or_true, Bool.false_eq_true, if_false, if_true]
    exact ⟨_, _, rfl, rfl, rfl, rfl⟩
  | succeeded | needsUserInput | needsApproval =>
    rw [ho] at hk
    cases hk

theorem Inv.commit_unknown (hc : Chain chain) (h : Inv True chain s) (hlease : leasedRow s token = .ok x)
    (hu : o.unknownEffects = true) (hk : o.kind.isFailure = true) :
    ∃ t ps y, commitStepOutcome f s token o = .ok t ∧ t.run.status = .blocked ∧ Tip t.steps ps y ∧
      y.toStepSpec = x.toStepSpec ∧ y.status = .blocked ∧ y.unknownEffects = decide (o.kind ≠ .transientFailure) := by
  obtain ⟨hfind, -, hheld, -, -⟩ := leasedRow_eq_ok hlease
  obtain ⟨hrun, ps, htip⟩ := h.live.held (State.mem_of_step? hfind).1 hheld
  obtain ⟨v, z, hv, hz, hrv, htv⟩ := applyOutcome_unknown (f := f) hheld hrun hu hk
  obtain ⟨u, hrows, hru, htu⟩ : ∃ u, commitRows f s x o = .ok u ∧ u.run.status = .blocked ∧ u.task = s.task := by
    have hst : (releaseStep o z).status ≠ .completed := by rw [releaseStep_status, hz]; decide
    refine ⟨_, by simp only [commitRows, hv, ok_bind, if_neg hst]; rfl, ?_, ?_⟩
    · exact recordRunFailure_status.trans hrv
    · exact recordRunFailure_task.trans htv
  have hcom := commitRows_cases hc h.live.rows htip hheld hrun hrows
  have hmiss : ¬commitMisses f s x o := by
    rintro (⟨-, ho, -⟩ | ⟨-, ho, -⟩) <;> rw [ho] at hk <;> cases hk
  have hmay := hcom.legal hc h.live h.task htip hheld hrun hmiss
  rw [← htu] at hmay
  obtain ⟨t, ht⟩ := projectTask_of_mayTake (o := o) hmay
  obtain ⟨-, hrt, hst⟩ := projectTask_status ht
  rw [hru] at hcom
  generalize hsu : u.steps = rows at hcom
  cases hcom with
  | @stopped y hy hq _ huy =>
    have hclean := h.live.rows.clean_of_isLive htip.mem (StepStatus.isLive_of_isHeld hheld)
    obtain ⟨-, htip'⟩ := h.live.rows.retip htip hy.toStepSpec (by rw [hq]; rfl) fun hl => by rw [hq] at hl; cases hl
    rw [← hsu, ← hst] at htip'
    refine ⟨t, ps, y, ?_, by rw [hrt, hru], htip', hy.toStepSpec, hq, ?_⟩
    · rw [commitStepOutcome, hlease, ok_bind, hrows, ok_bind, ht]
    · rw [huy, hclean, hu]
      by_cases ho : o.kind = .transientFailure <;> simp [ho]
  | completed ho =>
    rw [ho] at hk
    cases hk

/-- A failure with unknown effects stops its step for good, unless it is reported as transient: then the step
    is blocked without the flag. -/
theorem unknown_effects_final (h : Reached anyOp m s) (hlease : leasedRow s token = .ok x)
    (hu : o.unknownEffects = true) (hk : o.kind.isFailure = true) :
    ∃ t, commitStepOutcome f s token o = .ok t ∧
      (((∃ y ∈ t.steps, y.id = token.stepId ∧ y.status = .blocked ∧ y.unknownEffects = true) ∧
        ∀ u, Reach perform anyOp t u → ∀ z ∈ u.steps, z.id = token.stepId → z.status ≠ .queued) ↔
          o.kind ≠ .transientFailure) := by
  obtain ⟨hfind, -, hheld, -⟩ := leasedRow_eq_ok hlease
  have hx := State.mem_of_step? hfind
  rcases h.inv True (fun _ _ _ _ => trivial) with hinv | hdead
  · obtain ⟨t, ps, y, ht, hrt, htip, hy, hb, huy⟩ := hinv.commit_unknown (f := f) m.compiled hlease hu hk
    have hid : y.id = token.stepId := by rw [hy]; exact hx.2
    have hinv' : Inv True m.chain t := by
      have hop : perform s (.commitStepOutcome f token o) = .ok t := ht
      rcases hinv.perform m.compiled (fun _ => trivial) hop with hi | ⟨⟨expected, he⟩, -⟩
      · exact hi
      · cases he
    refine ⟨t, ht, ?_, fun hkind => ⟨⟨y, htip.mem, hid, hb, by rw [huy]; simpa using hkind⟩, ?_⟩⟩
    · rintro ⟨⟨z, hz, hzi, -, hzu⟩, -⟩ hkind
      obtain rfl := hinv'.live.rows.laid.eq_of_id htip.mem hz (hid.trans hzi.symm)
      rw [huy, hkind] at hzu
      cases hzu
    · intro u hreach z hz _
      have hstuck : Stuck m.chain t := ⟨hinv', Or.inl hrt, ps, y, htip, hb, by rw [huy]; simpa using hkind⟩
      exact hstuck.never_queued m.compiled hreach hz
  · exact (hdead.not_held hfind hheld).elim

def sourceStarted : List Op :=
  [.startRun {}] ++ finishSteps [1, 2, 3] ++ [.claimStep (sampleClaim 4), .startStep ⟨4, "worker", 1⟩]

theorem unknown_effects_final_cancelled : ∃ s t, Reached anyOp sampleRun s ∧
    commitStepOutcome {} s ⟨4, "worker", 1⟩ { kind := .cancelled, unknownEffects := true } = .ok t ∧
    ∀ u, Reach perform anyOp t u → ∀ z ∈ u.steps, z.id = 4 → z.status ≠ .queued := by
  obtain ⟨s, hs, hp⟩ := Reached.of_runOps anyOp sampleRun sourceStarted
    (fun s => ends (fun _ => true) (leasedRow s ⟨4, "worker", 1⟩)) (fun _ _ _ => trivial) (by decide +kernel)
  obtain ⟨x, hx, -⟩ := exists_of_ends hp
  obtain ⟨t, ht, hfinal⟩ := unknown_effects_final (f := {}) (o := { kind := .cancelled, unknownEffects := true }) hs hx
    rfl rfl
  exact ⟨s, t, hs, ht, (hfinal.mpr (by decide)).2⟩

/-- The same step times out: it is blocked without the flag, and the owner's retry queues it. -/
theorem unknown_effects_retried : ∃ s t u r, Reached anyOp sampleRun s ∧
    commitStepOutcome {} s ⟨4, "worker", 1⟩
      { kind := .transientFailure, category := some "timeout", unknownEffects := true } = .ok t ∧
    (∃ y ∈ t.steps, y.id = 4 ∧ y.status = .blocked ∧ y.unknownEffects = false) ∧
    perform t (.retryTask r) = .ok u ∧ ∃ z ∈ u.steps, z.id = 4 ∧ z.status = .queued := by
  obtain ⟨s, hs, hp⟩ := Reached.of_runOps anyOp sampleRun sourceStarted
    (fun s => ends (fun t => (t.step? 4).any (fun y => y.status == .blocked && !y.unknownEffects) &&
        ends (fun u => (u.step? 4).any fun z => z.status == .queued)
          (perform t (.retryTask { userId := 7, expectedVersion := some t.task.version, now := 0 })))
      (commitStepOutcome {} s ⟨4, "worker", 1⟩
        { kind := .transientFailure, category := some "timeout", unknownEffects := true }))
    (fun _ _ _ => trivial) (by decide +kernel)
  obtain ⟨t, ht, hp⟩ := exists_of_ends hp
  rw [Bool.and_eq_true, Option.any_eq_true] at hp
  obtain ⟨⟨y, hy, hblocked⟩, hp⟩ := hp
  obtain ⟨u, hu, hp⟩ := exists_of_ends hp
  obtain ⟨z, hz, hq⟩ := (Option.any_eq_true _ _).mp hp
  simp only [Bool.and_eq_true, beq_iff_eq, Bool.not_eq_true'] at hblocked
  have hmy := State.mem_of_step? hy
  have hmz := State.mem_of_step? hz
  exact ⟨s, t, u, _, hs, ht, ⟨y, hmy.1, hmy.2, hblocked⟩, hu, z, hmz.1, hmz.2, by simpa using hq⟩

end Commit

end Vuzol.Workflow
