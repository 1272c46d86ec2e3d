import Vuzol.Theorems.Workflow.Commands
import Vuzol.Theorems.Workflow.UnknownEffects

/-! A pause that is followed by a resume. The pause keeps no record of what it replaced: the run and its task are
    projected again from the rows, which the two commands leave as they are. -/

namespace Vuzol.Workflow

open Vuzol.Lib

/-- What the run status says about the rows: a run that was not started has none open, a running one has nothing left
    to activate, and a blocked one waits for a step. -/
structure Engaged (s : State) : Prop where
  created : s.run.status = .created → openRows s.steps = []
  activated : s.run.status = .running → s.steps.filter (Step.ready s.steps) = []
  blocked : s.run.status = .blocked → openRows s.steps ≠ []

section Engaged
variable {loose : Prop} {chain : List StepSpec} {ps rows : List Step} {x y : Step} {s t : State} {op : Op}
  {m : Materialization}

theorem Engaged.congr (h : Engaged s) (hsteps : t.steps = s.steps) (hrun : t.run.status = s.run.status) : Engaged t := by
  obtain ⟨hc, ha, hb⟩ := h
  rw [← hsteps, ← hrun] at hc ha hb
  exact ⟨hc, ha, hb⟩

theorem Engaged.of_open (hc : Chain chain) (h : Live chain t) (hrun : t.run.status ≠ .created) (hx : x ∈ t.steps)
    (hopen : x.status.isOpen = true) : Engaged t where
  created h := absurd h hrun
  activated _ := by
    obtain ⟨ps, z, htip, -⟩ := h.rows.tip_of_isOpen hx hopen
    exact h.rows.ready_nil hc htip
  blocked _ hnil := by
    have hmem : x ∈ openRows t.steps := mem_openRows.mpr ⟨hx, hopen⟩
    rw [hnil] at hmem
    cases hmem

theorem Engaged.of_put (hc : Chain chain) (h : Live chain t) (hrun : t.run.status ≠ .created)
    (ht : t.steps = put Step.key y s.steps) (hx : x ∈ s.steps) (hs : y.toStepSpec = x.toStepSpec)
    (hopen : y.status.isOpen = true) : Engaged t := by
  refine .of_open hc h hrun (x := y) ?_ hopen
  rw [ht]
  exact mem_put_self hx (congrArg StepSpec.id hs).symm

theorem Engaged.of_ended (hrun : t.run.status ∉ [RunStatus.created, .running, .blocked]) : Engaged t where
  created h := absurd (by rw [h]; decide) hrun
  activated h := absurd (by rw [h]; decide) hrun
  blocked h := absurd (by rw [h]; decide) hrun

theorem Rows.ready_nil_of_ended (hc : Chain chain) (h : Rows chain rows) (hy : y ∈ rows) (hlt : y.id < chain.length)
    (hnc : y.status ≠ .completed) (hp : y.status ≠ .pending) : rows.filter (Step.ready rows) = [] := by
  rw [List.filter_eq_nil_iff]
  intro w hw hready
  obtain ⟨k, hk⟩ := h.front
  obtain ⟨hpend, hwk, -⟩ := h.ready_front hc hk hw hready
  have hyk : y.id = k := by
    rcases Nat.lt_trichotomy y.id k with hyk | hyk | hyk
    · exact absurd ((hk.row y hy).before hyk) hnc
    · exact hyk
    · exact absurd ((hk.row y hy).after hyk hlt) hp
  rw [h.laid.eq_of_id hw hy (hwk.trans hyk.symm)] at hpend
  exact hp hpend

/-! ### The operations -/

theorem Committed.engaged {f : Facts} {o : StepOutcome} (hc : Chain chain) (h : Live chain s) (ht : Live chain t)
    (htip : Tip s.steps ps x) (hcom : Committed f s ps x o t.run.status t.steps) : Engaged t := by
  have hx := htip.mem
  generalize hr : t.run.status = run at hcom
  generalize hts : t.steps = rows at hcom
  -- The parked step below a row that settles stays open.
  have hbelow : ∀ {qs : List Step} {p y : Step}, ps = qs ++ [p] → y.toStepSpec = x.toStepSpec →
      t.run.status = .running → t.steps = put Step.key y s.steps → Engaged t := by
    rintro qs p y rfl hy hrun hst
    refine .of_open hc ht (by rw [hrun]; decide) (x := p) ?_ ?_
    · rw [hst]
      exact htip.mem_parked h.rows.laid.nodup hy
    · rw [(htip.stack.parked (p := p) (by simp)).blocked]
      rfl
  cases hcom with
  | waited _ hy hq => exact .of_put hc ht (by rw [hr]; decide) hts hx hy (by rw [hq]; rfl)
  | retried _ hy hq => exact .of_put hc ht (by rw [hr]; decide) hts hx hy.toStepSpec (by rw [hq]; rfl)
  | released _ _ hy hq => exact .of_put hc ht (by rw [hr]; decide) hts hx hy (by rw [hq]; rfl)
  | asked _ _ hy hq => exact .of_put hc ht (by rw [hr]; decide) hts hx hy.toStepSpec (by rw [hq]; rfl)
  | questioned _ hy hq => exact .of_ended (by rw [hr]; decide)
  | stopped hy hq => exact .of_put hc ht (by rw [hr]; decide) hts hx hy.toStepSpec (by rw [hq]; rfl)
  | failed => exact .of_ended (by rw [hr]; decide)
  | @cancelled y _ _ hy hq =>
    rcases List.eq_nil_or_concat ps with rfl | ⟨qs, p, hps⟩
    · refine ⟨fun hn => ?_, fun _ => ?_, fun hn => ?_⟩
      · rw [hr] at hn; cases hn
      · have hroot : y.links = {} := by
          rw [hy.toStepSpec]
          cases htip.stack with
          | root hl => exact hl
        have hmem : y ∈ t.steps := by
          rw [hts]
          exact mem_put_self hx (congrArg StepSpec.id hy.toStepSpec).symm
        exact ht.rows.ready_nil_of_ended hc hmem ((ht.rows.laid.links_iff hc hmem).mp hroot) (by rw [hq]; decide)
          (by rw [hq]; decide)
      · rw [hr] at hn; cases hn
    · exact hbelow (by rw [hps, List.concat_eq_append]) hy.toStepSpec hr hts
  | @repaired y c _ _ hy hp =>
    refine .of_open hc ht (by rw [hr]; decide) (x := y) ?_ (by rw [hp.blocked]; rfl)
    rw [hts]
    exact List.mem_append_left _ (mem_put_self hx (congrArg StepSpec.id hy.toStepSpec).symm)
  | @preflighted y c _ _ hy _ _ _ hp =>
    refine .of_open hc ht (by rw [hr]; decide) (x := y) ?_ (by rw [hp.blocked]; rfl)
    rw [hts]
    exact List.mem_append_left _ (mem_put_self hx (congrArg StepSpec.id hy).symm)
  | @completed y run rows _ hy hq hcomp =>
    cases hcomp with
    | ended hps hrun _ hnone =>
      refine ⟨fun hn => ?_, fun _ => by rw [hts]; exact hnone, fun hn => ?_⟩
      · rw [hr] at hn
        rcases hrun with hrun | hrun <;> rw [hrun] at hn <;> cases hn
      · rw [hr] at hn
        rcases hrun with hrun | hrun <;> rw [hrun] at hn <;> cases hn
    | opened hps hw hready hz =>
      refine .of_open hc ht (by rw [hr]; decide) ?_ (StepStatus.isOpen_of_isLive hz.isLive)
      rw [hts]
      exact mem_put_self hw (congrArg StepSpec.id hz.toStepSpec).symm
    | @woke qs p p' hps hwoken =>
      refine .of_open hc ht (by rw [hr]; decide) (x := p') ?_ (by rw [hwoken.queued]; rfl)
      rw [hts]
      subst hps
      exact mem_put_self (htip.mem_parked h.rows.laid.nodup hy.toStepSpec) (congrArg StepSpec.id hwoken.toStepSpec).symm
    | @refunded qs p p' hps hwoken =>
      refine .of_open hc ht (by rw [hr]; decide) (x := p') ?_ (by rw [hwoken.queued]; rfl)
      rw [hts]
      subst hps
      exact mem_put_self (htip.mem_parked h.rows.laid.nodup hy.toStepSpec) (congrArg StepSpec.id hwoken.toStepSpec).symm
    | @revalidated qs p c hps hadd =>
      refine .of_open hc ht (by rw [hr]; decide) (x := c) ?_ (by rw [hadd.queued]; rfl)
      rw [hts]
      exact List.mem_append_right _ (List.mem_singleton_self _)
    | stranded hps => exact hbelow hps hy.toStepSpec hr hts

theorem Live.started (h : Live chain s) (hx : x ∈ s.steps) (hl : x.status.isLive = true) : s.run.status ≠ .created := by
  intro hrun
  obtain ⟨ps, htip⟩ := h.rows.tip_of_isLive hx hl
  have hfit := h.tip htip hl
  rw [hrun] at hfit
  exact hfit

theorem resumeTask_engaged {f : Facts} {expected : Option Nat} {undrained : Bool} (hc : Chain chain) (h : Live chain s)
    (hfit : TaskFits loose s) (he : Engaged s) (hop : resumeTask f s expected undrained = .ok t) : Engaged t := by
  by_cases hg : Resumable s expected undrained
  · have ht := (resumeTask_live hc h hfit hop).1
    rw [resumeTask_eq h.rows hg (hfit.paused hg.run)] at hop
    obtain ⟨u, hu, hop1⟩ := bind_eq_ok.mp hop
    obtain ⟨v, hv, hop2⟩ := bind_eq_ok.mp hop1
    obtain ⟨hlive, hru, -⟩ := resumeRows_live hc h hg.run hu
    obtain ⟨hsv, -, hrv⟩ := restoreRun_cases hv
    obtain ⟨-, hrt, hst⟩ := transitionTask_status hop2
    have hf := hlive.noFailed (by rw [hru]; decide)
    rw [hru] at hrv
    rcases hrv with ⟨hb, hrb⟩ | ⟨-, hrr⟩
    · refine ⟨fun hn => ?_, fun hn => ?_, fun _ hnil => ?_⟩
      · rw [hrt, hrb] at hn; cases hn
      · rw [hrt, hrb] at hn; cases hn
      · rw [hst, hsv] at hnil
        rw [deriveTaskStatus_closed hf hnil] at hb
        cases hb
    · have hsettled : u.steps.filter (Step.ready u.steps) = [] := by
        rcases h.rows.waiting with hnil | ⟨ps, x, htip⟩
        · rw [resumeRows_closed hg.run hnil] at hu
          exact activateReadySteps_settled (s := { s with run := { s.run with status := .running } }) hc h.rows rfl hu
        · obtain ⟨u', y, hu', hr, -, htip', -⟩ := resumeRows_tip (f := f) hc h hg.run htip
          obtain rfl : u' = u := Except.ok.inj (hu'.symm.trans hu)
          exact hr.ready_nil hc htip'
      refine ⟨fun hn => ?_, fun _ => by rw [hst, hsv]; exact hsettled, fun hn => ?_⟩
      · rw [hrt, hrr] at hn; cases hn
      · rw [hrt, hrr] at hn; cases hn
  · rcases resumeTask_refused (f := f) hg with hsame | ⟨m, hm⟩
    · rw [hsame] at hop
      cases hop
      exact he
    · rw [hm] at hop
      cases hop

theorem Inv.perform_engaged (hc : Chain chain) (h : Inv loose chain s) (he : Engaged s) (hloose : approvesPaused s op → loose)
    (hop : Workflow.perform s op = .ok t) : Engaged t := by
  obtain ⟨hlive, hfit, hcons⟩ := h
  rcases perform_live hc ⟨hlive, hfit, hcons⟩ hloose hop with ⟨ht, -⟩ | ⟨-, hdead⟩
  swap
  · exact .of_ended (by rw [hdead.run]; decide)
  -- A row that is stored open, in a run that has a live row.
  have hput : ∀ {x y : Step}, x ∈ s.steps → x.status.isLive = true → t.run.status = s.run.status →
      t.steps = put Step.key y s.steps → y.toStepSpec = x.toStepSpec → y.status.isOpen = true → Engaged t := by
    intro x y hx hl hr hs hy hopen
    exact .of_put hc ht (by rw [hr]; exact hlive.started hx hl) hs hx hy hopen
  cases op with
  | startRun f =>
    rcases startRun_cases hc hlive hop with rfl | ⟨-, hrt, -, hsettled, -⟩
    · exact he
    · refine ⟨fun hn => ?_, fun _ => hsettled, fun hn => ?_⟩
      · rw [hrt] at hn; cases hn
      · rw [hrt] at hn; cases hn
  | claimStep c =>
    rcases perform_claim_cases hop with rfl | ⟨x, hfind, hclaim, rfl⟩
    · exact he
    · obtain ⟨hq, -, -⟩ := claimable_eq_true hclaim
      exact hput (State.mem_of_step? hfind).1 (by rw [hq]; rfl) rfl rfl rfl rfl
  | startStep token =>
    obtain ⟨s1, h1, hop1⟩ := bind_eq_ok.mp hop
    obtain ⟨x, hfind, -, hm, rfl⟩ := updateLeased_eq_ok h1
    cases hop1
    simp only [Bool.and_eq_true, decide_eq_true_eq] at hm
    exact hput (State.mem_of_step? hfind).1 (by rw [hm.1]; rfl) rfl rfl rfl rfl
  | heartbeatStep token now leaseSeconds =>
    obtain ⟨x, hfind, -, hm, rfl⟩ := updateLeased_eq_ok hop
    rw [Bool.and_eq_true] at hm
    have hl := StepStatus.isLive_of_isHeld hm.1
    exact hput (State.mem_of_step? hfind).1 hl rfl rfl rfl (StepStatus.isOpen_of_isLive hl)
  | commitStepOutcome f token o =>
    obtain ⟨x, hx, hop1⟩ := bind_eq_ok.mp hop
    obtain ⟨u, hu, hop2⟩ := bind_eq_ok.mp hop1
    obtain ⟨hfind, -, hheld, -, -⟩ := leasedRow_eq_ok hx
    obtain ⟨hrun, ps, htip⟩ := hlive.held (State.mem_of_step? hfind).1 hheld
    obtain ⟨-, hr, hs⟩ := projectTask_status hop2
    have hcom := commitRows_cases hc hlive.rows htip hheld hrun hu
    rw [← hr, ← hs] at hcom
    exact hcom.engaged hc hlive ht htip
  | recoverExpiredStep id now =>
    rcases recoverExpiredStep_cases hop with rfl | ⟨x, hfind, hexp, hone⟩
    · exact he
    · have hheld := leaseExpired_isHeld hexp
      have hx := (State.mem_of_step? hfind).1
      obtain ⟨hrun, -⟩ := hlive.held hx hheld
      obtain ⟨hrec, -⟩ := recoverOne_cases hrun hone
      generalize hr : t.run.status = run at hrec
      generalize hs : t.steps = rows at hrec
      cases hrec with
      | requeued hy hq => exact .of_put hc ht (by rw [hr]; decide) hs hx hy (by rw [hq]; rfl)
      | failed => exact .of_ended (by rw [hr]; decide)
      | blocked hy hq => exact .of_put hc ht (by rw [hr]; decide) hs hx hy.toStepSpec (by rw [hq]; rfl)
  | pauseTask expected =>
    rcases pauseTask_eq_ok hop with rfl | ⟨-, hr, -⟩
    · exact he
    · exact .of_ended (by rw [hr]; decide)
  | resumeTask f expected undrained => exact resumeTask_engaged hc hlive hfit he hop
  | cancelTask expected =>
    rcases cancelTask_cases hfit hop with rfl | hdead
    · exact he
    · exact .of_ended (by rw [hdead.run]; decide)
  | retryTask r =>
    obtain ⟨z, hz, hop1⟩ := bind_eq_ok.mp hop
    obtain ⟨hrun, -⟩ := retryTarget_eq_ok hz
    obtain ⟨x, hfind, -, -, hs, hr, -⟩ := retryBlockedStep_eq_ok hop1 hrun
    exact .of_put hc ht (by rw [hr]; decide) hs (State.mem_of_step? hfind).1 rfl rfl
  | continueOwnerDecision action r recorded =>
    obtain ⟨z, hz, hop1⟩ := bind_eq_ok.mp hop
    obtain ⟨hrun, -⟩ := retryTarget_eq_ok hz
    split_ifs at hop1
    obtain ⟨x, hfind, -, -, hs, hr, -⟩ := retryBlockedStep_eq_ok hop1 hrun
    exact .of_put hc ht (by rw [hr]; decide) hs (State.mem_of_step? hfind).1 rfl rfl
  | decideResult approvalId decision userId now =>
    obtain ⟨x, hx, hw, -, y, hy, hs, ⟨-, hq, -, hr, -⟩ | ⟨-, -, hr, -⟩⟩ := decideResult_cases hop
    · exact hput hx (by rw [hw]; rfl) (by rw [hr]) hs hy (by rw [hq]; rfl)
    · exact .of_ended (by rw [hr]; decide)
  | recoverValidationEnvironment r retained unused =>
    obtain ⟨hrt, -, -, -, ps, y, htip, hq⟩ := recoverValidationEnvironment_cases hc hlive hop
    exact .of_open hc ht (by rw [hrt]; decide) htip.mem (by rw [hq]; rfl)
  | recoverUnsentCliReview r pinned unsent retained accounted =>
    obtain ⟨x, hx, hop1⟩ := bind_eq_ok.mp hop
    cases hop1
    obtain ⟨hfind, -⟩ := reviewRecoveryTarget_eq_ok hx
    exact .of_put hc ht (by simp) rfl (State.mem_of_step? hfind).1 rfl rfl
  | continueTask =>
    obtain ⟨-, x, hx, -, hs, hr, -⟩ := continueTask_cases hop
    exact .of_put hc ht (by rw [hr]; decide) hs hx rfl rfl
  | blockRoute id now category summary quota =>
    rcases blockRoute_cases hop with rfl | ⟨x, hx, -, -, hs, hr, -⟩
    · exact he
    · exact .of_put hc ht (by rw [hr]; decide) hs hx rfl rfl
  | requestApproval token body shared expiresAt =>
    obtain ⟨hr, -, hsame | ⟨x, hx, hheld, y, hs, hy, hst, -⟩⟩ := requestApproval_cases hop
    · exact he.congr hsame (by rw [hr])
    · have hl := StepStatus.isLive_of_isHeld hheld
      exact hput hx hl (by rw [hr]) hs hy.toStepSpec (by rw [hst]; exact StepStatus.isOpen_of_isLive hl)
  | wakeCapabilityWaiter id approvalId =>
    rcases wakeCapabilityWaiter_cases hop with rfl | ⟨x, hfind, hw, -, -, hr, hs, -⟩
    · exact he
    · exact hput (State.mem_of_step? hfind).1 (by rw [hw]; rfl) (by rw [hr]) hs rfl rfl
  | recordEffects effects =>
    cases hop
    exact he.congr rfl rfl

theorem Inv.init_engaged (hm : materializeRun m = .ok s) : Engaged s := by
  obtain ⟨-, hrun, hsteps⟩ := materializeRun_eq_ok hm
  refine ⟨fun _ => ?_, fun hn => ?_, fun hn => ?_⟩
  · rw [hsteps, openRows, List.filter_eq_nil_iff]
    intro x hx
    obtain ⟨i, d, -, rfl⟩ := mem_compileWorkflow hx
    rw [materializedStep_status]
    split <;> decide
  · rw [hrun] at hn; cases hn
  · rw [hrun] at hn; cases hn

theorem Reached.engaged (h : Reached anyOp m s) : (Inv True m.chain s ∧ Engaged s) ∨ Dead s := by
  refine h.invariant (P := fun v => (Inv True m.chain v ∧ Engaged v) ∨ Dead v)
    (fun hm => Or.inl ⟨Inv.init hm, Inv.init_engaged hm⟩) ?_
  rintro u v a (⟨hu, he⟩ | hu) - hop
  · have hv := hu.perform_engaged m.compiled he (fun _ => trivial) hop
    exact (hu.perform m.compiled (fun _ => trivial) hop).imp (fun hinv => ⟨hinv, hv⟩) And.right
  · exact Or.inr (hu.perform hop)

end Engaged

section PauseResume
variable {loose : Prop} {chain : List StepSpec} {ps : List Step} {x : Step} {s u t : State} {f : Facts}
  {expected : Option Nat} {m : Materialization}

/-! ### The pause -/

theorem pauseTask_idle (hc : Chain chain) (h : Inv loose chain s) (hv : checkTaskVersion s expected = .ok ())
    (hterm : s.run.status.isTerminal = false) (hquota : s.task.status ≠ .quotaExhausted)
    (hidle : ∀ x ∈ s.steps, x.status.isHeld = false) :
    ∃ u, pauseTask s expected = .ok u ∧ Inv loose chain u ∧ u.run.status = .paused ∧ u.steps = s.steps ∧
      (s.run.status ≠ .paused → u.task.status = .paused) := by
  have hans : Answers (pauseTask s expected) := (pauseTask_answers_iff hc h).mpr fun hq => hquota hq.2
  rcases answers_iff.mp hans with ⟨u, hu⟩ | ⟨message, he⟩
  · obtain ⟨hlive, hfit⟩ := pauseTask_live h.live h.task hu
    have hop : perform s (.pauseTask expected) = .ok u := hu
    have hinv : Inv loose chain u := ⟨hlive, hfit, perform_consented h.live.rows.laid.keys h.consented hop⟩
    refine ⟨u, hu, hinv, ?_⟩
    unfold pauseTask at hu
    rw [hv, ok_bind] at hu
    split_ifs at hu with hp hterm'
    · cases hu
      exact ⟨hp, rfl, fun hne => absurd hp hne⟩
    · obtain ⟨s1, h1, hu1⟩ := bind_eq_ok.mp hu
      obtain ⟨s2, h2, hu2⟩ := bind_eq_ok.mp hu1
      obtain ⟨rows, hrows, hu3⟩ := bind_eq_ok.mp hu2
      obtain ⟨hr1, -, hs1⟩ := transitionRun_status h1
      obtain ⟨ht2, hr2, hs2⟩ := transitionTask_status h2
      rw [hs2, hs1] at hrows
      cases hu3
      refine ⟨by rw [hr2, hr1], ?_, fun _ => ht2⟩
      rcases mapM_parkStep_cases h.live.rows hrows with ⟨-, hsame⟩ | ⟨ps, x, y, htip, hheld, -⟩
      · exact hsame
      · rw [hidle x htip.mem] at hheld
        cases hheld
  · unfold pauseTask at he
    rw [hv, ok_bind] at he
    split_ifs at he with hp hterm'
    · rw [hterm] at hterm'
      cases hterm'
    · rw [transitionRun, if_pos ((runTransitions_open hterm).2 hp), ok_bind, transitionTask] at he
      obtain ⟨rows, hrows⟩ := exists_mapM fun x (_ : x ∈ s.steps) => exists_parkStep x
      split_ifs at he
      · rw [ok_bind, hrows] at he
        cases he
      · cases he

/-! ### The resume -/

theorem resumeRows_idle (hrun : s.run.status = .paused) (hnone : s.steps.filter continuable = [])
    (hsettled : s.steps.filter (Step.ready s.steps) = []) :
    resumeRows f s = .ok { s with run := { s.run with status := .running } } := by
  have htrans : transitionRun s .running = .ok { s with run := { s.run with status := .running } } :=
    transitionRun_eq_ok.mpr ⟨by rw [hrun]; decide, rfl⟩
  unfold resumeRows
  rw [htrans, ok_bind, hnone]
  change activateReadySteps f { s with run := { s.run with status := .running } } = _
  unfold activateReadySteps
  rw [if_neg (not_not.mpr rfl)]
  change List.foldlM _ _ (s.steps.filter (Step.ready s.steps)) = _
  rw [hsettled]
  rfl

theorem Rows.tip_of_continuable (h : Rows chain s.steps) (hx : x ∈ s.steps) (hcont : continuable x = true) :
    ∃ ps, Tip s.steps ps x := by
  have hopen : x.status.isOpen = true := by
    rw [(continuable_blocked hcont).1]
    rfl
  obtain ⟨ps, z, htip, rfl | hmem⟩ := h.tip_of_isOpen hx hopen
  · exact ⟨ps, htip⟩
  · rw [(htip.stack.parked hmem).not_continuable] at hcont
    cases hcont

theorem resumeRows_continued (hc : Chain chain) (h : Rows chain s.steps) (hrun : s.run.status = .paused)
    (htip : Tip s.steps ps x) (hcont : continuable x = true) (hop : resumeRows f s = .ok t) :
    t.steps = put Step.key (continuedStep x) s.steps := by
  have htrans : transitionRun s .running = .ok { s with run := { s.run with status := .running } } :=
    transitionRun_eq_ok.mpr ⟨by rw [hrun]; decide, rfl⟩
  unfold resumeRows at hop
  rw [htrans, ok_bind, htip.filter_continuable, if_pos hcont] at hop
  obtain ⟨u, hu, hop1⟩ := bind_eq_ok.mp hop
  obtain ⟨hb, hclean⟩ := continuable_blocked hcont
  change continuePausedStep _ x f.now = .ok u at hu
  rw [continuePausedStep_eq hb] at hu
  cases hu
  obtain ⟨hr', htip'⟩ := h.retip htip (y := continuedStep x) rfl rfl fun _ => hclean
  rw [activateReadySteps_open hc hr' htip'] at hop1
  cases hop1
  rfl

/-- What a resume makes of the rows `rows` of a run that had the status `run` when it was paused. -/
structure Resumes (f : Facts) (run : RunStatus) (rows : List Step) (result : Except Failure State) : Prop where
  refused : (∃ x ∈ rows, x.status = .blocked ∧ x.unknownEffects = true) → ∃ message, result = .error (.valueError message)
  continued : ∀ t, result = .ok t → ∀ x ∈ rows, continuable x = true → t.steps = put Step.key (continuedStep x) rows
  restored : (∀ x ∈ rows, x.status = .blocked → x.unknownEffects = false) → (∀ x ∈ rows, continuable x = false) →
    run = .blocked ∨ (run = .running ∧
      deriveTaskStatus rows .running ∉ [TaskStatus.retrying, .awaitingUser, .blocked]) →
    ∃ t, result = .ok t ∧ t.run.status = run ∧ t.task.status = deriveTaskStatus rows run ∧ t.steps = rows
  started : run = .created → ∀ t, result = .ok t → t.run.status = .running ∧
    t.task.status = deriveTaskStatus t.steps .running ∧
      (t.steps = rows ∨ ∃ x ∈ rows, Step.ready rows x = true ∧ ∃ y, Opened x y ∧ t.steps = put Step.key y rows)

theorem Live.derive_blocked (hc : Chain chain) (h : Live chain s) (he : Engaged s) (hrun : s.run.status = .blocked) :
    deriveTaskStatus s.steps .running = .blocked := by
  have hf := h.noFailed (by rw [hrun]; decide)
  rcases h.rows.waiting with hnil | ⟨ps, x, htip⟩
  · exact absurd hnil (he.blocked hrun)
  · rw [deriveTaskStatus_tip hc h.rows hf htip]
    rcases StepStatus.isLive_or_blocked htip.isOpen with hl | hb
    · have hfit := h.tip htip hl
      rw [hrun] at hfit
      rw [if_pos hfit.2]
    · rw [taskStatus_blocked hb, ite_self]

section
variable (hc : Chain chain) (h : Inv loose chain u)
include hc h

theorem Inv.resumes_continued (hg : Resumable u expected false)
    (hx : x ∈ u.steps) (hcont : continuable x = true) (hop : resumeTask f u expected false = .ok t) :
    t.steps = put Step.key (continuedStep x) u.steps := by
  rw [resumeTask_eq h.live.rows hg (h.task.paused hg.run)] at hop
  obtain ⟨v, hv, hop1⟩ := bind_eq_ok.mp hop
  obtain ⟨w, hw, hop2⟩ := bind_eq_ok.mp hop1
  obtain ⟨ps, htip⟩ := h.live.rows.tip_of_continuable hx hcont
  rw [(transitionTask_status hop2).2.2, (restoreRun_cases hw).1,
    resumeRows_continued hc h.live.rows hg.run htip hcont hv]

theorem Inv.resumes_restored {run : RunStatus} (hp : u.run.status = .paused)
    (htask : u.task.status = .paused) (hv : checkTaskVersion u expected = .ok ())
    (hknown : ∀ x ∈ u.steps, x.status = .blocked → x.unknownEffects = false)
    (hnone : ∀ x ∈ u.steps, continuable x = false) (hsettled : u.steps.filter (Step.ready u.steps) = [])
    (hrun : (run = .blocked ∧ deriveTaskStatus u.steps .running = .blocked) ∨ (run = .running ∧
      deriveTaskStatus u.steps .running ∉ [TaskStatus.retrying, .awaitingUser, .blocked])) :
    ∃ t, resumeTask f u expected false = .ok t ∧ t.run.status = run ∧
      t.task.status = deriveTaskStatus u.steps run ∧ t.steps = u.steps := by
  have hfilter : u.steps.filter continuable = [] := by
    rw [List.filter_eq_nil_iff]
    intro x hx
    rw [hnone x hx]
    decide
  rw [resumeTask_eq h.live.rows ⟨hv, hp, rfl, hknown⟩ (h.task.paused hp), resumeRows_idle hp hfilter hsettled, ok_bind]
  change ∃ t, (restoreRun _ (deriveTaskStatus u.steps .running) >>= fun v =>
    transitionTask v (deriveTaskStatus u.steps .running)) = .ok t ∧ _
  rcases hrun with ⟨rfl, hb⟩ | ⟨rfl, hd⟩
  · have hrestore : restoreRun { u with run := { u.run with status := .running } } .blocked =
        .ok { u with run := { u.run with status := .blocked } } := by
      rw [restoreRun, if_pos rfl, transitionRun, if_pos (show RunStatus.blocked ∈ runTransitions .running by decide)]
    rw [hb, hrestore, ok_bind, transitionTask, if_pos (by rw [htask]; decide)]
    exact ⟨_, rfl, rfl, rfl, rfl⟩
  · have hmem : deriveTaskStatus u.steps .running ∈ taskTransitions .paused := by
      have hlive := (resumeRows_live (f := f) hc h.live hp (resumeRows_idle hp hfilter hsettled)).1
      have hne : deriveTaskStatus u.steps .running ≠ .failed :=
        Live.derive_ne_failed (s := { u with run := { u.run with status := .running } }) hc hlive rfl
      have htable : ∀ a ∈ [TaskStatus.waitingApproval, .awaitingUser, .blocked, .failed, .executing, .retrying,
          .contextPrepared, .validating, .reviewing], a ∉ [TaskStatus.retrying, .awaitingUser, .blocked] →
            a ≠ .failed → a ∈ taskTransitions .paused := by
        decide
      exact htable _ (deriveTaskStatus_running_mem u.steps) hd hne
    have hnb : deriveTaskStatus u.steps .running ≠ .blocked := fun hb => hd (by rw [hb]; decide)
    rw [restoreRun, if_neg hnb, ok_bind, transitionTask, if_pos (by rw [htask]; exact hmem)]
    exact ⟨_, rfl, rfl, rfl, rfl⟩

theorem Inv.resumes_started (hg : Resumable u expected false)
    (hnil : openRows u.steps = []) (hop : resumeTask f u expected false = .ok t) :
    t.run.status = .running ∧ t.task.status = deriveTaskStatus t.steps .running ∧ (t.steps = u.steps ∨
      ∃ x ∈ u.steps, Step.ready u.steps x = true ∧ ∃ y, Opened x y ∧ t.steps = put Step.key y u.steps) := by
  have hf := h.live.noFailed (by rw [hg.run]; decide)
  rw [resumeTask_eq h.live.rows hg (h.task.paused hg.run), resumeRows_closed hg.run hnil] at hop
  obtain ⟨v, hv, hop1⟩ := bind_eq_ok.mp hop
  obtain ⟨w, hw, hop2⟩ := bind_eq_ok.mp hop1
  obtain ⟨hlive, hrv, -, hrows⟩ := activateReadySteps_live hc hv h.live.rows hf rfl
  obtain ⟨hsw, -, hrw⟩ := restoreRun_cases hw
  obtain ⟨htt, hrt, hst⟩ := transitionTask_status hop2
  have hrun : v.run.status = .running := by rw [hrv]
  rw [hrun] at htt hrw
  have hsteps : t.steps = v.steps := hst.trans hsw
  have hstarted : deriveTaskStatus v.steps .running ≠ .blocked ∧ (v.steps = u.steps ∨
      ∃ x ∈ u.steps, Step.ready u.steps x = true ∧ ∃ y, Opened x y ∧ v.steps = put Step.key y u.steps) := by
    rcases hrows with ⟨hopen, -⟩ | ⟨-, rfl | ⟨x, hx, hready, y, hy, hvs⟩⟩
    · exact absurd hnil hopen
    · refine ⟨?_, Or.inl rfl⟩
      rw [deriveTaskStatus_closed hf hnil]
      decide
    · refine ⟨?_, Or.inr ⟨x, hx, hready, y, hy, hvs⟩⟩
      have htip := (Live.open_ready hc h.live.rows hf hnil hx hready hy hvs hrun).2
      rw [hlive.derive hc hrun htip, show revalidates [] = false from rfl, if_neg (by decide)]
      exact Step.taskStatus_ne_blocked hy.isLive
  rw [hsteps]
  rcases hrw with ⟨hb, -⟩ | ⟨-, hrw⟩
  · exact absurd hb hstarted.1
  · exact ⟨by rw [hrt, hrw], htt, hstarted.2⟩

end

theorem Resumable.of_resumed (hv : checkTaskVersion u expected = .ok ()) (hp : u.run.status = .paused)
    (hop : resumeTask f u expected false = .ok t) : Resumable u expected false := by
  refine ⟨hv, hp, rfl, fun x hx hb => ?_⟩
  by_contra hu
  have hany : (u.steps.any fun x => x.status = .blocked && x.unknownEffects) = true :=
    List.any_eq_true.mpr ⟨x, hx, by simpa [hb] using hu⟩
  unfold resumeTask at hop
  rw [hv, ok_bind] at hop
  split_ifs at hop with h1
  rw [hp] at h1
  cases h1

/-- A pause of a run in which nothing is leased succeeds, while its task is not out of quota, and leaves the rows as
    they are. The resume after it restores the run, its task as the rows project it, and every row, unless it refuses a
    step with unknown effects, continues a step that it may continue, or starts a run that was not started. -/
theorem pause_then_resume (h : Reached anyOp m s) (hterm : s.run.status.isTerminal = false)
    (hquota : s.task.status ≠ .quotaExhausted) (hidle : ∀ x ∈ s.steps, x.status.isHeld = false)
    (hv : checkTaskVersion s expected = .ok ()) :
    ∃ u, pauseTask s expected = .ok u ∧ u.run.status = .paused ∧ u.steps = s.steps ∧
      ∀ f expected', checkTaskVersion u expected' = .ok () →
        Resumes f s.run.status s.steps (resumeTask f u expected' false) := by
  rcases h.engaged with ⟨hinv, he⟩ | hdead
  swap
  · rw [hdead.run] at hterm
    cases hterm
  obtain ⟨u, hu, hinv', hp, hs, htask⟩ := pauseTask_idle m.compiled hinv hv hterm hquota hidle
  refine ⟨u, hu, hp, hs, fun f expected' hv' => ?_⟩
  have hpaused : s.run.status = .running ∨ s.run.status = .blocked → u.task.status = .paused := by
    rintro (hrun | hrun) <;> exact htask (by rw [hrun]; decide)
  rw [← hs]
  constructor
  · rintro ⟨x, hx, hb, hux⟩
    have hg : ¬Resumable u expected' false := fun hg => by
      rw [hg.known x hx hb] at hux
      cases hux
    rcases resumeTask_refused (f := f) hg with hsame | herror
    · exact absurd (.of_resumed hv' hp hsame) hg
    · exact herror
  · intro t ht x hx hcont
    exact hinv'.resumes_continued m.compiled (.of_resumed hv' hp ht) hx hcont ht
  · intro hknown hnone hrun
    refine hinv'.resumes_restored m.compiled hp ?_ hv' hknown hnone ?_ ?_
    · exact hpaused (hrun.symm.imp_left And.left)
    · rw [hs]
      rcases hrun with hb | ⟨hr, -⟩
      · rcases hinv.live.rows.waiting with hnil | ⟨ps, y, htip⟩
        · exact absurd hnil (he.blocked hb)
        · exact hinv.live.rows.ready_nil m.compiled htip
      · exact he.activated hr
    · refine hrun.imp_left fun hb => ⟨hb, ?_⟩
      rw [hs]
      exact hinv.live.derive_blocked m.compiled he hb
  · intro hrun t ht
    exact hinv'.resumes_started m.compiled (.of_resumed hv' hp ht) (by rw [hs]; exact he.created hrun) ht

theorem pause_then_resume_started : ∃ s u t, Reached anyOp sampleRun s ∧ s.run.status = .running ∧
    pauseTask s none = .ok u ∧ resumeTask {} u none false = .ok t ∧ t.run.status = .running ∧ t.steps = s.steps := by
  obtain ⟨s, hs, hp⟩ := Reached.of_runOps anyOp sampleRun [.startRun {}]
    (fun s => s.run.status == .running && s.task.status == .contextPrepared &&
      deriveTaskStatus s.steps .running == .contextPrepared &&
      s.steps.all fun x => !x.status.isHeld && !continuable x && !x.unknownEffects)
    (fun _ _ _ => trivial) (by decide +kernel)
  simp only [Bool.and_eq_true, beq_iff_eq, List.all_eq_true, Bool.not_eq_true'] at hp
  obtain ⟨⟨⟨hrun, htask⟩, hderive⟩, hrows⟩ := hp
  obtain ⟨u, hu, -, -, hres⟩ := pause_then_resume hs (by rw [hrun]; rfl) (by rw [htask]; decide)
    (fun x hx => (hrows x hx).1.1) (rfl : checkTaskVersion s none = .ok ())
  have hresumes := hres {} none rfl
  obtain ⟨t, ht, hr, -, hst⟩ := hresumes.restored (fun x hx _ => (hrows x hx).2) (fun x hx => (hrows x hx).1.2)
    (Or.inr ⟨hrun, by rw [hderive]; decide⟩)
  exact ⟨s, u, t, hs, hrun, hu, ht, by rw [hr, hrun], hst⟩

/-- The lease of a source step expires while it runs: the run is blocked and a resume refuses it. A run that is paused
    before its start is running after the resume. -/
theorem resume_changes_progress :
    (∃ s u message, Reached anyOp sampleRun s ∧ s.run.status = .blocked ∧
      (∀ x ∈ s.steps, x.status.isHeld = false) ∧ pauseTask s none = .ok u ∧
      resumeTask {} u none false = .error (.valueError message)) ∧
    ∃ s u t, Reached anyOp sampleRun s ∧ s.run.status = .created ∧ (∀ x ∈ s.steps, x.status.isHeld = false) ∧
      pauseTask s none = .ok u ∧ resumeTask {} u none false = .ok t ∧ t.run.status = .running := by
  constructor
  · obtain ⟨s, hs, hp⟩ := Reached.of_runOps anyOp sampleRun (sourceStarted ++ [.recoverExpiredStep 4 100])
      (fun s => s.run.status == .blocked && (s.steps.all fun x => !x.status.isHeld) &&
        ends (fun u => !ends (fun _ => true) (resumeTask {} u none false) &&
          (u.run.status == .paused && u.steps.any fun x => x.status == .blocked && x.unknownEffects)) (pauseTask s none))
      (fun _ _ _ => trivial) (by decide +kernel)
    simp only [Bool.and_eq_true, beq_iff_eq, List.all_eq_true, Bool.not_eq_true'] at hp
    obtain ⟨⟨hrun, hidle⟩, hp⟩ := hp
    obtain ⟨u, hu, hp⟩ := exists_of_ends hp
    simp only [Bool.and_eq_true, beq_iff_eq, Bool.not_eq_true'] at hp
    obtain ⟨hnot, -, hany⟩ := hp
    obtain ⟨x, hx, hb⟩ := List.any_eq_true.mp hany
    simp only [Bool.and_eq_true, beq_iff_eq] at hb
    have hg : ¬Resumable u none false := fun hg => by
      have hknown := hg.known x hx hb.1
      rw [hb.2] at hknown
      cases hknown
    rcases resumeTask_refused (f := {}) hg with hsame | ⟨message, hm⟩
    · rw [hsame] at hnot
      cases hnot
    · exact ⟨s, u, message, hs, hrun, hidle, hu, hm⟩
  · obtain ⟨s, hs, hp⟩ := Reached.of_runOps anyOp sampleRun []
      (fun s => s.run.status == .created && (s.steps.all fun x => !x.status.isHeld) &&
        ends (fun u => ends (fun t => t.run.status == .running) (resumeTask {} u none false)) (pauseTask s none))
      (fun _ _ _ => trivial) (by decide +kernel)
    simp only [Bool.and_eq_true, beq_iff_eq, List.all_eq_true, Bool.not_eq_true'] at hp
    obtain ⟨⟨hrun, hidle⟩, hp⟩ := hp
    obtain ⟨u, hu, hp⟩ := exists_of_ends hp
    obtain ⟨t, ht, hr⟩ := exists_of_ends hp
    rw [beq_iff_eq] at hr
    exact ⟨s, u, t, hs, hrun, hidle, hu, ht, hr⟩

end PauseResume

end Vuzol.Workflow
