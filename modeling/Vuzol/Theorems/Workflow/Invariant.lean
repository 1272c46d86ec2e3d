import Vuzol.Theorems.Workflow.LiveControls

/-! Operator recovery, and the invariant of the engine over whole runs: whatever is done in whatever order, a
    run keeps its waiting stack and its task, until a cancel settles every row. -/

namespace Vuzol.Workflow

open Vuzol.Lib

section Environment
variable {loose : Prop} {chain : List StepSpec} {ps : List Step} {x y z p : Step} {s t u : State}

theorem Waits.parent_stepType {c : StepSpec} (h : Waits p c) :
    p.stepType = .validate ∨ p.stepType = .review ∨ p.stepType = .ensureDependencies := by
  rcases h with h | h | h | h
  · exact h.parent.imp_right Or.inl
  · exact Or.inr (Or.inl h.parent)
  · exact Or.inr (Or.inr h.parent)
  · exact Or.inl h.parent

theorem Stack.parent_stepType {c : StepSpec} (h : Stack ps c) (hp : p ∈ ps) :
    p.stepType = .validate ∨ p.stepType = .review ∨ p.stepType = .ensureDependencies := by
  cases h with
  | root => cases hp
  | one _ _ hw => rw [List.mem_singleton.mp hp]; exact hw.parent_stepType
  | repairAgain _ _ h1 _ h2 =>
    rcases List.mem_pair.mp hp with rfl | rfl
    · exact (Waits.revalidate h1).parent_stepType
    · exact (Waits.repair h2).parent_stepType
  | preflightAgain _ _ h1 _ h2 =>
    rcases List.mem_pair.mp hp with rfl | rfl
    · exact (Waits.prepare h1).parent_stepType
    · exact (Waits.preflight h2).parent_stepType

theorem Tip.eq_nil_or_singleton {rows : List Step} (hn : (rows.map Step.key).Nodup) (h : Tip rows ps z)
    (hall : ∀ p ∈ ps, p = x) : ps = [] ∨ ps = [x] := by
  have hnd := h.nodup hn
  rcases ps with _ | ⟨p, _ | ⟨q, qs⟩⟩
  · exact Or.inl rfl
  · rw [hall p (by simp)]
    exact Or.inr rfl
  · rw [hall p (by simp), hall q (by simp)] at hnd
    simp at hnd

theorem retireRepair_cases {unused : Bool} (h : Live chain s) (hrun : s.run.status = .blocked) (hx : x ∈ s.steps)
    (hb : x.status = .blocked) (hop : retireRepair s x unused = .ok u) :
    Rows chain u.steps ∧ NoFailed u.steps ∧ Tip u.steps [] x ∧ u.run = s.run ∧ u.task = s.task ∧
      (u = s ∨ ∃ r, Tip s.steps [x] r ∧ r.status = .blocked ∧ r.unknownEffects = false ∧
        u.steps = put Step.key { r with status := .cancelled } s.steps) := by
  have hn := h.rows.laid.nodup
  have hf := h.noFailed (by rw [hrun]; decide)
  obtain ⟨ps, z, htip, hxz⟩ := h.rows.tip_of_isOpen hx (by rw [hb]; rfl)
  have hparked : ∀ p ∈ ps, p ∈ s.steps ∧ p.status = .blocked :=
    fun p hp => ⟨htip.mem_parent hp, (htip.stack.parked hp).blocked⟩
  have hother : ∀ {p}, p ∈ s.steps → p.status = .blocked → p ≠ x →
      p ∈ s.steps.filter fun y => y.status = .blocked && y.id ≠ x.id := by
    intro p hp hpb hne
    refine List.mem_filter.mpr ⟨hp, ?_⟩
    simp only [hpb, decide_true, Bool.true_and, ne_eq, decide_not, Bool.not_eq_true', decide_eq_false_iff_not]
    exact fun hid => hne (h.rows.laid.eq_of_id hp hx hid)
  unfold retireRepair at hop
  split at hop
  · -- No other row is blocked: the validation is a step of the chain, and the tip.
    rename_i hnil
    cases hop
    have hall : ∀ p ∈ ps, p = x := by
      intro p hp
      by_contra hne
      have hmem := hother (hparked p hp).1 (hparked p hp).2 hne
      rw [hnil] at hmem
      cases hmem
    have hps : ps = [] := by
      rcases htip.eq_nil_or_singleton hn hall with hps | hps
      · exact hps
      · exfalso
        rcases StepStatus.isLive_or_blocked htip.isOpen with hl | hzb
        · have hfit := h.tip htip hl
          rw [hrun] at hfit
          have hrev := hfit.2
          have hpop := htip.stack
          rw [hps] at hrev hpop
          cases hpop with
          | one _ hl _ => simp [revalidates, hl] at hrev
        · have hzx : z ≠ x := fun hzx => htip.parent_ne hn (p := x) (by rw [hps]; simp) (by rw [hzx])
          have hmem := hother htip.mem hzb hzx
          rw [hnil] at hmem
          cases hmem
    subst hps
    rcases hxz with rfl | hmem
    · exact ⟨h.rows, hf, htip, rfl, rfl, Or.inl rfl⟩
    · cases hmem
  · -- The other blocked row is a repair, so that it is the tip above the validation.
    rename_i repair hone
    split_ifs at hop with hg
    obtain ⟨-, hop1⟩ := transitionStep_bind.mp hop
    cases hop1
    simp only [Bool.or_eq_true, decide_eq_true_eq, not_or, not_not, ne_eq] at hg
    have hrep := List.mem_filter.mp (show repair ∈ s.steps.filter _ by rw [hone]; simp)
    simp only [Bool.and_eq_true, decide_eq_true_eq] at hrep
    have honly : ∀ {p}, p ∈ s.steps → p.status = .blocked → p ≠ x → p = repair := by
      intro p hp hpb hne
      have hmem := hother hp hpb hne
      rw [hone] at hmem
      exact List.mem_singleton.mp hmem
    have hrepz : repair = z := by
      obtain ⟨ps', z', htip', hin⟩ := h.rows.tip_of_isOpen hrep.1 (by rw [hrep.2.1]; rfl)
      obtain ⟨rfl, rfl⟩ := htip.unique htip'
      rcases hin with hin | hin
      · exact hin
      · have htype := htip.stack.parent_stepType hin
        rw [hg.1.1.1.1.1.1] at htype
        simp at htype
    subst hrepz
    have hall : ∀ p ∈ ps, p = x := by
      intro p hp
      by_contra hne
      have hpr := honly (hparked p hp).1 (hparked p hp).2 hne
      exact htip.parent_ne hn hp (by rw [hpr])
    have hmem : x ∈ ps := by
      rcases hxz with rfl | hmem
      · exact absurd rfl hrep.2.2
      · exact hmem
    have hps : ps = [] ++ [x] := by
      rcases htip.eq_nil_or_singleton hn hall with hps | hps
      · rw [hps] at hmem
        cases hmem
      · exact hps
    obtain ⟨hr', -, hpop⟩ := h.rows.close htip (y := { repair with status := .cancelled }) rfl rfl (by simp)
    refine ⟨hr', hf.put_row (y := { repair with status := .cancelled }) (by simp), hpop [] x hps, rfl, rfl, Or.inr ?_⟩
    exact ⟨repair, by rw [hps] at htip; exact htip, hrep.2.1, by simpa using hg.1.1.1.1.2, rfl⟩
  · cases hop

def preparedTarget (s : State) (x : Step) (now : Nat) : Step :=
  { x with payload := { x.payload with environmentRecoveryStepId := some (preparationStep s x now).id } }

theorem bindPreparation_tip (now : Nat) (hc : Chain chain) (hr : Rows chain s.steps) (hf : NoFailed s.steps)
    (htip : Tip s.steps [] x) (hb : x.status = .blocked) (hclean : x.unknownEffects = false)
    (htype : x.stepType = .validate) (hcat : repairableCategory x.failureCategory = true) :
    (bindPreparation s x now).steps = put Step.key (preparedTarget s x now) s.steps ++ [preparationStep s x now] ∧
      Rows chain (bindPreparation s x now).steps ∧ NoFailed (bindPreparation s x now).steps ∧
      Tip (bindPreparation s x now).steps [preparedTarget s x now] (preparationStep s x now) := by
  have hne : (preparationStep s x now).id ≠ x.id := Nat.ne_of_gt (hr.laid.id_lt htip.mem)
  have hsteps : (bindPreparation s x now).steps =
      put Step.key (preparedTarget s x now) s.steps ++ [preparationStep s x now] := by
    change put Step.key (preparedTarget s x now) (s.steps ++ [preparationStep s x now]) = _
    rw [put_append]
    simp [preparedTarget, hne]
  have hroot : x.links = {} := by
    cases htip.stack with
    | root hl => exact hl
  have hprep : Prepares (preparedTarget s x now) (preparationStep s x now).toStepSpec := ⟨htype, rfl, rfl, rfl, rfl⟩
  have hparked : Parked (preparedTarget s x now) := ⟨hb, hclean, Or.inl hcat⟩
  obtain ⟨hr', htip'⟩ := hr.park htip (y := preparedTarget s x now) rfl hb (.one hparked hroot (.prepare hprep)) rfl
    (hr.laid.nextOrdinal hc) rfl rfl rfl
  have hf' := (hf.put_row (y := preparedTarget s x now) (by rw [hparked.blocked]; decide)).append_row
    (c := preparationStep s x now) (by simp [preparationStep])
  rw [← hsteps] at hr' htip' hf'
  exact ⟨hsteps, hr', hf', htip'⟩

theorem recoverValidationEnvironment_cases {r : OperatorRequest} {retained unused : Bool} (hc : Chain chain)
    (h : Live chain s) (hop : recoverValidationEnvironment s r retained unused = .ok t) :
    t.run.status = .running ∧ t.task.status = .retrying ∧ Rows chain t.steps ∧ NoFailed t.steps ∧
      ∃ ps y, Tip t.steps ps y ∧ y.status = .queued := by
  unfold recoverValidationEnvironment at hop
  obtain ⟨x, hx, hop1⟩ := bind_eq_ok.mp hop
  obtain ⟨u, hu, hop2⟩ := bind_eq_ok.mp hop1
  obtain ⟨v, hv, hop3⟩ := bind_eq_ok.mp hop2
  obtain ⟨hfind, hrun, htype, hb, hclean, hcat, -⟩ := environmentRecoveryTarget_eq_ok hx
  obtain ⟨hr, hf, htip, -, -, -⟩ := retireRepair_cases h hrun (State.mem_of_step? hfind).1 hb hu
  obtain ⟨-, hr', hf', htip'⟩ := bindPreparation_tip r.now hc hr hf htip hb hclean htype hcat
  obtain ⟨hrv, -, hsv⟩ := transitionRun_status hv
  obtain ⟨htt, hrt, hst⟩ := transitionTask_status hop3
  rw [← hsv, ← hst] at hr' hf' htip'
  exact ⟨by rw [hrt, hrv], htt, hr', hf', _, _, htip', rfl⟩

theorem recoverValidationEnvironment_live {r : OperatorRequest} {retained unused : Bool} (hc : Chain chain)
    (h : Live chain s) (hop : recoverValidationEnvironment s r retained unused = .ok t) :
    Live chain t ∧ TaskFits loose t := by
  obtain ⟨hrt, htt, hr, hf, ps, y, htip, -⟩ := recoverValidationEnvironment_cases hc h hop
  refine ⟨.of_tip hr (fun _ => hf) htip fun _ => by rw [hrt]; trivial, ?_⟩
  rw [TaskFits.running hrt]
  exact Or.inr (Or.inr htt)

end Environment

section Review
variable {loose : Prop} {chain : List StepSpec} {x : Step} {s t : State}

theorem Rows.front_of_review {rows : List Step} (h : Rows chain rows) (hx : x ∈ rows)
    (htype : x.stepType = .review) (hfailed : x.status = .failed) :
    x.id < chain.length ∧ Front chain.length x.id rows := by
  have hlt : x.id < chain.length := by
    by_contra hlt
    have hadded := (h.laid.added_row hx (Nat.le_of_not_lt hlt)).2.2
    rw [htype] at hadded
    simp [addedStepTypes] at hadded
  obtain ⟨k, hk⟩ := h.front
  refine ⟨hlt, ?_⟩
  rcases Nat.lt_trichotomy x.id k with hxk | rfl | hxk
  · rw [(hk.row x hx).before hxk] at hfailed
    cases hfailed
  · exact hk
  · rw [(hk.row x hx).after hxk hlt] at hfailed
    cases hfailed

theorem recoverUnsentCliReview_live {r : OperatorRequest} {pinned unsent retained accounted : Bool} (hc : Chain chain)
    (h : Live chain s) (hop : recoverUnsentCliReview s r pinned unsent retained accounted = .ok t) :
    Live chain t ∧ TaskFits loose t := by
  unfold recoverUnsentCliReview at hop
  obtain ⟨x, hx, hop1⟩ := bind_eq_ok.mp hop
  cases hop1
  obtain ⟨hfind, -, hrun, htype, hfailed, hclean, hother⟩ := reviewRecoveryTarget_eq_ok hx
  have hmem := (State.mem_of_step? hfind).1
  -- A failed run has no live row, and no row but the review is blocked.
  have hnil : openRows s.steps = [] := by
    rcases h.rows.waiting with hnil | ⟨ps, z, htip⟩
    · exact hnil
    · exfalso
      rcases StepStatus.isLive_or_blocked htip.isOpen with hl | hb
      · have hfit := h.tip htip hl
        rw [hrun] at hfit
        exact hfit
      · have hzx : z.id ≠ x.id := by
          intro hid
          rw [h.rows.laid.eq_of_id htip.mem hmem hid, hfailed] at hb
          cases hb
        exact ((hother z htip.mem).2 hzx).2 hb
  obtain ⟨hlt, hfront⟩ := h.rows.front_of_review hmem htype hfailed
  obtain ⟨hr, htip⟩ := h.rows.enter hc hnil hmem hlt hfront (y := reopenedReview x) rfl rfl hclean
  have hf : NoFailed (put Step.key (reopenedReview x) s.steps) := by
    intro z hz
    rcases mem_put.mp hz with ⟨rfl, -⟩ | ⟨hz, hne⟩
    · exact nofun
    · exact ((hother z hz).2 hne).1
  refine ⟨Live.of_tip hr (fun _ => hf) htip fun _ => trivial, ?_⟩
  exact Or.inr (Or.inr rfl)

end Review

section Idle
variable {s t : State} {op : Op}

def Op.isControl : Op → Bool
  | .pauseTask _ | .resumeTask .. | .cancelTask _ | .retryTask _ | .continueOwnerDecision .. |
    .recoverValidationEnvironment .. => true
  | _ => false

def RunStatus.isStopped : RunStatus → Bool
  | .paused | .blocked | .cancelled => true
  | _ => false

theorem perform_idle (hidle : ∀ x ∈ s.steps, x.status.isLive = false) (hrun : s.run.status.isStopped = true)
    (hop : perform s op = .ok t) : (t.run = s.run ∧ t.task = s.task ∧ t.steps = s.steps) ∨ op.isControl = true := by
  have hlive : ∀ {x}, x ∈ s.steps → x.status.isLive = true → False := by
    intro x hx hl
    rw [hidle x hx] at hl
    cases hl
  have hheld : ∀ {i x}, s.step? i = some x → x.status.isHeld = true → False :=
    fun hfind hheld => hlive (State.mem_of_step? hfind).1 (StepStatus.isLive_of_isHeld hheld)
  have hnot : ∀ {a : RunStatus}, s.run.status = a → a.isStopped = false → False := by
    rintro _ rfl hs
    rw [hrun] at hs
    cases hs
  cases op with
  | startRun f =>
    exfalso
    rw [perform, startRun] at hop
    split_ifs at hop with h1 h2
    · exact hnot h1 rfl
    · exact hnot (not_not.mp h2) rfl
  | claimStep c =>
    rcases perform_claim_cases hop with rfl | ⟨x, -, hx, -⟩
    · exact Or.inl ⟨rfl, rfl, rfl⟩
    · exact (hnot (claimable_eq_true hx).2.2 rfl).elim
  | startStep token =>
    obtain ⟨s1, h1, -⟩ := bind_eq_ok.mp hop
    obtain ⟨x, hfind, -, hm, -⟩ := updateLeased_eq_ok h1
    simp only [Bool.and_eq_true, decide_eq_true_eq] at hm
    exact (hnot hm.2 rfl).elim
  | heartbeatStep token now leaseSeconds =>
    obtain ⟨x, hfind, -, hm, -⟩ := updateLeased_eq_ok hop
    rw [Bool.and_eq_true] at hm
    exact (hheld hfind hm.1).elim
  | commitStepOutcome f token o =>
    obtain ⟨x, hx, -⟩ := bind_eq_ok.mp hop
    obtain ⟨hfind, -, hh, -⟩ := leasedRow_eq_ok hx
    exact (hheld hfind hh).elim
  | recoverExpiredStep id now =>
    rcases recoverExpiredStep_cases hop with rfl | ⟨x, hfind, hexp, -⟩
    · exact Or.inl ⟨rfl, rfl, rfl⟩
    · exact (hheld hfind (leaseExpired_isHeld hexp)).elim
  | decideResult approvalId decision userId now =>
    obtain ⟨x, hx, hw, -⟩ := decideResult_cases hop
    exact (hlive hx (by rw [hw]; rfl)).elim
  | recoverUnsentCliReview r pinned unsent retained accounted =>
    obtain ⟨x, hx, -⟩ := bind_eq_ok.mp hop
    exact (hnot (reviewRecoveryTarget_eq_ok hx).2.2.1 rfl).elim
  | continueTask => exact (hnot (continueTask_cases hop).1 rfl).elim
  | blockRoute id now category summary quota =>
    rcases blockRoute_cases hop with rfl | ⟨x, -, -, hr, -⟩
    · exact Or.inl ⟨rfl, rfl, rfl⟩
    · exact (hnot hr rfl).elim
  | requestApproval token body shared expiresAt =>
    obtain ⟨hr, ht, hs | ⟨x, hx, hh, -⟩⟩ := requestApproval_cases hop
    · exact Or.inl ⟨hr, ht, hs⟩
    · exact (hlive hx (StepStatus.isLive_of_isHeld hh)).elim
  | wakeCapabilityWaiter id approvalId =>
    rcases wakeCapabilityWaiter_cases hop with rfl | ⟨x, -, -, -, hr, -⟩
    · exact Or.inl ⟨rfl, rfl, rfl⟩
    · exact (hnot hr rfl).elim
  | recordEffects effects =>
    cases hop
    exact Or.inl ⟨rfl, rfl, rfl⟩
  | pauseTask | resumeTask | cancelTask | retryTask | continueOwnerDecision | recoverValidationEnvironment =>
    exact Or.inr rfl

end Idle

section Dead
variable {s t : State} {x : Step}

theorem Dead.not_live (h : Dead s) (hx : x ∈ s.steps) (hl : x.status.isLive = true) : False := by
  have hterm := h.rows x hx
  cases hs : x.status <;> simp_all [StepStatus.isLive, StepStatus.isTerminal]

theorem Dead.not_held (h : Dead s) {id : Nat} (hfind : s.step? id = some x) (hheld : x.status.isHeld = true) : False :=
  h.not_live (State.mem_of_step? hfind).1 (StepStatus.isLive_of_isHeld hheld)

theorem Dead.of_same (h : Dead s) (hr : t.run = s.run) (ht : t.task = s.task) (hs : t.steps = s.steps) : Dead t where
  run := by rw [hr]; exact h.run
  task := by rw [ht]; exact h.task
  rows := by rw [hs]; exact h.rows

theorem Dead.perform {op : Op} (h : Dead s) (hop : perform s op = .ok t) : Dead t := by
  have hrun := h.run
  have hnot : ∀ {a : RunStatus}, s.run.status = a → a ≠ .cancelled → False := fun ha hne => hne (ha.symm.trans hrun)
  have hidle : ∀ x ∈ s.steps, x.status.isLive = false := by
    intro x hx
    rw [← Bool.not_eq_true]
    exact fun hl => h.not_live hx hl
  rcases perform_idle hidle (by rw [hrun]; rfl) hop with ⟨hr, ht, hs⟩ | hcontrol
  · exact h.of_same hr ht hs
  · cases op with
    | pauseTask expected =>
      rcases pauseTask_eq_ok hop with rfl | ⟨hterm, -⟩
      · exact h
      · rw [hrun] at hterm
        cases hterm
    | resumeTask f expected undrained =>
      rcases resumeTask_refused (f := f) (fun hg : Resumable s expected undrained => hnot hg.run (by decide)) with
        hs | ⟨m, hm⟩
      · rw [Workflow.perform, hs] at hop
        cases hop
        exact h
      · rw [Workflow.perform, hm] at hop
        cases hop
    | cancelTask expected =>
      have hfit : TaskFits True s := by simp only [TaskFits, hrun, h.task]
      rcases cancelTask_cases hfit hop with rfl | hdead
      · exact h
      · exact hdead
    | retryTask r =>
      obtain ⟨x, hx, -⟩ := bind_eq_ok.mp hop
      exact (hnot (retryTarget_eq_ok hx).1 (by decide)).elim
    | continueOwnerDecision action r recorded =>
      obtain ⟨x, hx, -⟩ := bind_eq_ok.mp hop
      exact (hnot (retryTarget_eq_ok hx).1 (by decide)).elim
    | recoverValidationEnvironment r retained unused =>
      obtain ⟨x, hx, -⟩ := bind_eq_ok.mp hop
      exact (hnot (environmentRecoveryTarget_eq_ok hx).2.1 (by decide)).elim
    | _ => cases hcontrol

end Dead

section Runs
variable {loose : Prop} {chain : List StepSpec} {s t : State} {m : Materialization} {op : Op}

def approvesPaused (s : State) (op : Op) : Prop :=
  s.run.status = .paused ∧ ∃ approvalId userId now, op = .decideResult approvalId .approve userId now

theorem perform_live (hc : Chain chain) (h : Inv loose chain s) (hloose : approvesPaused s op → loose)
    (hop : perform s op = .ok t) :
    (Live chain t ∧ TaskFits loose t) ∨ ((∃ expected, op = .cancelTask expected) ∧ Dead t) := by
  obtain ⟨hlive, hfit, hcons⟩ := h
  cases op with
  | startRun f => exact Or.inl ((startRun_live hc hlive hop).imp_right fun hk => hk loose hfit)
  | claimStep c => exact Or.inl ((claimStep_live hc hlive hop).imp_right fun hk => hk loose hfit)
  | startStep token => exact Or.inl ((startStep_live hc hlive hop).imp_right fun hk => hk loose hfit)
  | heartbeatStep token now leaseSeconds => exact Or.inl ((heartbeatStep_live hc hlive hop).imp_right fun hk => hk loose hfit)
  | commitStepOutcome f token o => exact Or.inl ((commitStepOutcome_live hc hlive hop).imp_right fun hk => hk loose hfit)
  | recoverExpiredStep id now => exact Or.inl ((recoverExpiredStep_live hc hlive hop).imp_right fun hk => hk loose hfit)
  | pauseTask expected => exact Or.inl (pauseTask_live hlive hfit hop)
  | resumeTask f expected undrained => exact Or.inl (resumeTask_live hc hlive hfit hop)
  | cancelTask expected =>
    rcases cancelTask_cases hfit hop with rfl | hdead
    · exact Or.inl ⟨hlive, hfit⟩
    · exact Or.inr ⟨⟨expected, rfl⟩, hdead⟩
  | retryTask r => exact Or.inl (retryTask_live hlive hfit hop)
  | continueOwnerDecision action r recorded => exact Or.inl (continueOwnerDecision_live hlive hfit hop)
  | decideResult approvalId decision userId now =>
    refine Or.inl (decideResult_live hlive hcons (fun happ hrun => hloose ⟨hrun, approvalId, userId, now, ?_⟩) hop)
    rw [happ]
  | recoverValidationEnvironment r retained unused => exact Or.inl (recoverValidationEnvironment_live hc hlive hop)
  | recoverUnsentCliReview r pinned unsent retained accounted =>
    exact Or.inl (recoverUnsentCliReview_live hc hlive hop)
  | continueTask => exact Or.inl (continueTask_live hlive hop)
  | blockRoute id now category summary quota => exact Or.inl ((blockRoute_live hlive hop).imp_right fun hk => hk loose hfit)
  | requestApproval token body shared expiresAt => exact Or.inl ((requestApproval_live hc hlive hop).imp_right fun hk => hk loose hfit)
  | wakeCapabilityWaiter id approvalId => exact Or.inl ((wakeCapabilityWaiter_live hc hlive hop).imp_right fun hk => hk loose hfit)
  | recordEffects effects =>
    cases hop
    exact Or.inl ⟨hlive.congr rfl rfl, hfit⟩

theorem perform_consented (hk : Keyed s) (h : ∀ x ∈ s.steps, x.Consented) (hop : perform s op = .ok t) :
    ∀ y ∈ t.steps, y.Consented := by
  intro y hy
  by_cases hclaim : ∃ c, op = .claimStep c
  · obtain ⟨c, rfl⟩ := hclaim
    rcases perform_claim_cases hop with rfl | ⟨x, hfind, -, rfl⟩
    · exact h y hy
    · rcases mem_or_of_mem_put hy with rfl | hy
      · exact h x (State.mem_of_step? hfind).1
      · exact h y hy
  · rcases (perform_writes hk (fun c hc => hclaim ⟨c, hc⟩) hop).rows.source y hy with ⟨x, hx, hxy⟩ | hy
    · exact hxy.consent (h x hx)
    · exact hy.consented

theorem Inv.perform (hc : Chain chain) (h : Inv loose chain s) (hloose : approvesPaused s op → loose)
    (hop : perform s op = .ok t) : Inv loose chain t ∨ ((∃ expected, op = .cancelTask expected) ∧ Dead t) := by
  have hk : Keyed s := h.live.rows.laid.keys
  rcases perform_live hc h hloose hop with ⟨hlive, hfit⟩ | hdead
  · exact Or.inl ⟨hlive, hfit, perform_consented hk h.consented hop⟩
  · exact Or.inr hdead

theorem mem_compileWorkflow {draft : TaskDraft} {now : Nat} {x : Step} (hx : x ∈ compileWorkflow draft now) :
    ∃ i, ∃ d ∈ stepDefinitions draft, x = materializedStep draft.report now i d := by
  obtain ⟨i, hi, rfl⟩ := List.getElem_of_mem hx
  simp only [compileWorkflow, List.getElem_mapIdx]
  exact ⟨i, _, List.getElem_mem _, rfl⟩

theorem materializedStep_status {report : Bool} {now i : Nat} {d : StepDefinition} :
    (materializedStep report now i d).status = if i = 0 then .completed else .pending := rfl

theorem Materialization.rows (m : Materialization) : Rows m.chain (compileWorkflow m.draft m.now) where
  laid := m.laid
  front := by
    refine ⟨1, m.compiled.pos, fun x hx => ?_⟩
    have hlt : x.id < m.chain.length := by
      have hlt := m.laid.id_lt hx
      rwa [← List.length_map (f := Step.toStepSpec)] at hlt
    obtain ⟨i, d, -, rfl⟩ := mem_compileWorkflow hx
    have hid : (materializedStep m.draft.report m.now i d).id = i := rfl
    refine ⟨fun h => ?_, fun h _ => ?_, fun h _ => ?_, fun h => ?_⟩ <;> rw [materializedStep_status]
    · rw [if_pos (by omega)]
    · rw [if_neg (by omega)]
      decide
    · rw [if_neg (by omega)]
    · exact absurd hlt (Nat.not_lt_of_le h)
  waiting := by
    refine Or.inl (List.filter_eq_nil_iff.mpr fun x hx => ?_)
    obtain ⟨i, d, -, rfl⟩ := mem_compileWorkflow hx
    rw [materializedStep_status]
    split <;> decide
  clean x hx _ := by
    obtain ⟨i, d, -, rfl⟩ := mem_compileWorkflow hx
    rfl

theorem Inv.init (hm : materializeRun m = .ok s) : Inv loose m.chain s := by
  obtain ⟨htask, hrun, hsteps⟩ := materializeRun_eq_ok hm
  have hr := m.rows
  have hrow : ∀ x ∈ s.steps, x.status ≠ .failed ∧ x.status.isOpen = false ∧ x.payload.actionEnvelope = none := by
    rw [hsteps]
    intro x hx
    obtain ⟨i, d, -, rfl⟩ := mem_compileWorkflow hx
    rw [materializedStep_status]
    split <;> exact ⟨by decide, rfl, rfl⟩
  have hnil : openRows s.steps = [] :=
    List.filter_eq_nil_iff.mpr fun x hx => by rw [(hrow x hx).2.1]; decide
  rw [← hsteps] at hr
  refine ⟨.of_closed hr (fun _ x hx => (hrow x hx).1) hnil, ?_, fun x hx henv => ?_⟩
  · simp only [TaskFits, hrun, htask]
  · rw [(hrow x hx).2.2] at henv
    cases henv

theorem Reached.inv (loose : Prop) {allow : State → Op → Prop} (h : Reached allow m s)
    (hloose : ∀ u a, allow u a → approvesPaused u a → loose) : Inv loose m.chain s ∨ Dead s := by
  refine h.invariant (fun hm => Or.inl (Inv.init hm)) ?_
  rintro u v a (hu | hu) ha hop
  · exact (hu.perform m.compiled (hloose u a ha) hop).imp_right And.right
  · exact Or.inr (hu.perform hop)

theorem Reached.inv_of_not_cancel {allow : State → Op → Prop} (h : Reached allow m s)
    (hcancel : ∀ u expected, ¬allow u (.cancelTask expected)) : Inv True m.chain s := by
  refine h.invariant Inv.init fun {u v a} hu ha hop => ?_
  rcases hu.perform m.compiled (fun _ => trivial) hop with hv | ⟨⟨expected, rfl⟩, -⟩
  · exact hv
  · exact absurd ha (hcancel u expected)

end Runs

end Vuzol.Workflow
