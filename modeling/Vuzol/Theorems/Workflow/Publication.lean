import Vuzol.Workflow.Publication
import Vuzol.Theorems.Workflow.Commands

/-! What the publisher's check sees: a publication that runs is the step at the front of the chain, so that its task is
    executing, or still has the status that an owner's retry gave it. -/

namespace Vuzol.Workflow

open Vuzol.Lib

def Publishes (s : State) : Prop :=
  ∀ x ∈ s.steps, x.stepType = .publishStatic → x.status = .running → s.task.status ≠ .retrying

def Op.startedRow (s : State) : Op → Option Step
  | .startStep token => s.step? token.stepId
  | _ => none

/-- A publication starts while its task is not `RETRYING`. -/
def StartsAfresh (s : State) (op : Op) : Prop :=
  ∀ x ∈ op.startedRow s, x.stepType = .publishStatic → s.task.status ≠ .retrying

instance (s : State) (op : Op) : Decidable (StartsAfresh s op) :=
  inferInstanceAs (Decidable (∀ x ∈ op.startedRow s, x.stepType = .publishStatic → s.task.status ≠ .retrying))

section Publishes
variable {loose : Prop} {chain : List StepSpec} {ps rows : List Step} {x y : Step} {s t : State} {op : Op}
  {m : Materialization}

theorem Publishes.of_task (ht : t.task.status ≠ .retrying) : Publishes t := fun _ _ _ _ => ht

theorem Publishes.of_not_running (h : Live chain t) (hrun : t.run.status ≠ .running) : Publishes t :=
  fun _ hx _ hr => absurd (h.held hx (by rw [hr]; rfl)).1 hrun

theorem Publishes.of_live (h : Live chain t) (hy : y ∈ t.steps) (hl : y.status.isLive = true)
    (hq : y.status = .running → y.stepType ≠ .publishStatic) : Publishes t := by
  intro x hx htype hrun
  have hxl : x.status.isLive = true := by rw [hrun]; rfl
  obtain rfl := h.rows.live_unique hx hy hxl hl
  exact absurd htype (hq hrun)

theorem Publishes.of_put (h : Live chain t) (ht : t.steps = put Step.key y s.steps) (hx : x ∈ s.steps)
    (hid : y.id = x.id) (hl : y.status.isLive = true) (hq : y.status ≠ .running) : Publishes t := by
  refine .of_live h (y := y) ?_ hl fun hrun => absurd hrun hq
  rw [ht]
  exact mem_put_self hx hid.symm

theorem Publishes.keep (h : Publishes s) (htask : t.task.status = s.task.status)
    (hrows : ∀ y ∈ t.steps, y.status = .running → ∃ x ∈ s.steps, x.stepType = y.stepType ∧ x.status = .running) :
    Publishes t := by
  intro y hy htype hrun
  obtain ⟨x, hx, hxt, hxr⟩ := hrows y hy hrun
  rw [htask]
  exact h x hx (hxt.trans htype) hxr

theorem Publishes.keep_put (h : Publishes s) (htask : t.task.status = s.task.status)
    (ht : t.steps = put Step.key y s.steps) (hx : x ∈ s.steps) (htype : y.stepType = x.stepType)
    (hst : y.status = x.status) : Publishes t := by
  refine h.keep htask fun z hz hrun => ?_
  rw [ht] at hz
  rcases mem_or_of_mem_put hz with rfl | hz
  · exact ⟨x, hx, htype.symm, by rw [← hst, hrun]⟩
  · exact ⟨z, hz, rfl, hrun⟩

theorem Live.derive_publication (hc : Chain chain) (h : Live chain s) (hx : x ∈ s.steps)
    (htype : x.stepType = .publishStatic) (hrun : x.status = .running) :
    s.run.status = .running ∧ deriveTaskStatus s.steps .running = .executing := by
  have hheld : x.status.isHeld = true := by rw [hrun]; rfl
  obtain ⟨hr, ps, htip⟩ := h.held hx hheld
  refine ⟨hr, ?_⟩
  have hlt : x.id < chain.length := by
    by_contra hlt
    have hadded := (h.rows.laid.added_row hx (Nat.le_of_not_lt hlt)).2.2
    rw [htype] at hadded
    simp [addedStepTypes] at hadded
  have hroot : x.links = {} := (h.rows.laid.links_iff hc hx).mpr hlt
  have hps : ps = [] := htip.stack.eq_nil hroot
  rw [h.derive hc hr htip, hps, show revalidates [] = false from rfl, if_neg (by decide)]
  simp [Step.taskStatus, hrun, StepSpec.workStatus, hroot, htype]

theorem Publishes.of_derived (hc : Chain chain) (h : Live chain t)
    (ht : t.task.status = deriveTaskStatus t.steps t.run.status) : Publishes t := by
  intro x hx htype hrun
  obtain ⟨hr, hd⟩ := h.derive_publication hc hx htype hrun
  rw [ht, hr, hd]
  decide

theorem Publishes.perform (hc : Chain chain) (h : Inv loose chain s) (hp : Publishes s) (hop : Workflow.perform s op = .ok t)
    (hloose : approvesPaused s op → loose) (hfresh : StartsAfresh s op) : Publishes t := by
  obtain ⟨hlive, hfit, hcons⟩ := h
  rcases perform_live hc ⟨hlive, hfit, hcons⟩ hloose hop with ⟨ht, -⟩ | ⟨-, hdead⟩
  swap
  · exact .of_task (by rw [hdead.task]; decide)
  cases op with
  | startRun f =>
    rcases startRun_cases hc hlive hop with rfl | ⟨-, -, htask, -⟩
    · exact hp
    · exact .of_derived hc ht htask
  | claimStep c =>
    rcases perform_claim_cases hop with rfl | ⟨x, hfind, -, rfl⟩
    · exact hp
    · exact .of_put ht (y := leaseStep c x) rfl (State.mem_of_step? hfind).1 rfl rfl (by rintro ⟨⟩)
  | startStep token =>
    obtain ⟨s1, h1, hop1⟩ := bind_eq_ok.mp hop
    obtain ⟨x, hfind, -, -, rfl⟩ := updateLeased_eq_ok h1
    cases hop1
    by_cases htype : x.stepType = .publishStatic
    · exact .of_task (hfresh x hfind htype)
    · refine .of_live ht (y := { x with status := .running }) ?_ rfl fun _ => htype
      exact mem_put_self (State.mem_of_step? hfind).1 rfl
  | heartbeatStep token now leaseSeconds =>
    obtain ⟨x, hfind, -, -, rfl⟩ := updateLeased_eq_ok hop
    exact hp.keep_put (y := { x with leaseExpiresAt := some (now + leaseSeconds) }) rfl rfl (State.mem_of_step? hfind).1
      rfl rfl
  | commitStepOutcome f token o =>
    obtain ⟨x, hx, hop1⟩ := bind_eq_ok.mp hop
    obtain ⟨u, hu, hop2⟩ := bind_eq_ok.mp hop1
    exact .of_derived hc ht (projectTask_status hop2).1
  | recoverExpiredStep id now =>
    rcases recoverExpiredStep_cases hop with rfl | ⟨x, hfind, hexp, hone⟩
    · exact hp
    · have hx := (State.mem_of_step? hfind).1
      obtain ⟨hrun, -⟩ := hlive.held hx (leaseExpired_isHeld hexp)
      obtain ⟨hrec, -⟩ := recoverOne_cases hrun hone
      generalize hr : t.run.status = run at hrec
      generalize hs : t.steps = rows at hrec
      cases hrec with
      | requeued hy hq =>
        exact .of_put ht hs hx (congrArg StepSpec.id hy) (by rw [hq]; rfl) (by rw [hq]; decide)
      | failed => exact .of_not_running ht (by rw [hr]; decide)
      | blocked => exact .of_not_running ht (by rw [hr]; decide)
  | pauseTask expected =>
    rcases pauseTask_eq_ok hop with rfl | ⟨-, -, htask, -⟩
    · exact hp
    · exact .of_task (by rw [htask]; decide)
  | resumeTask f expected undrained =>
    by_cases hg : Resumable s expected undrained
    · rw [Workflow.perform, resumeTask_eq hlive.rows hg (hfit.paused hg.run)] at hop
      obtain ⟨u, hu, hop1⟩ := bind_eq_ok.mp hop
      obtain ⟨v, hv, hop2⟩ := bind_eq_ok.mp hop1
      obtain ⟨hsv, -, hrv⟩ := restoreRun_cases hv
      obtain ⟨htask, hrt, hst⟩ := transitionTask_status hop2
      rcases hrv with ⟨-, hb⟩ | ⟨-, hrr⟩
      · exact .of_not_running ht (by rw [hrt, hb]; decide)
      · exact .of_derived hc ht (by rw [htask, hrt, hrr, hst, hsv])
    · rcases resumeTask_refused (f := f) hg with hsame | ⟨message, hm⟩
      · rw [Workflow.perform, hsame] at hop
        cases hop
        exact hp
      · rw [Workflow.perform, hm] at hop
        cases hop
  | cancelTask expected =>
    rcases cancelTask_cases hfit hop with rfl | hdead
    · exact hp
    · exact .of_task (by rw [hdead.task]; decide)
  | retryTask r =>
    obtain ⟨z, hz, hop1⟩ := bind_eq_ok.mp hop
    obtain ⟨hrun, -⟩ := retryTarget_eq_ok hz
    obtain ⟨x, hfind, -, -, hs, -⟩ := retryBlockedStep_eq_ok hop1 hrun
    exact .of_put ht hs (State.mem_of_step? hfind).1 rfl rfl (by rintro ⟨⟩)
  | continueOwnerDecision action r recorded =>
    obtain ⟨z, hz, hop1⟩ := bind_eq_ok.mp hop
    obtain ⟨hrun, -⟩ := retryTarget_eq_ok hz
    split_ifs at hop1
    obtain ⟨x, hfind, -, -, hs, -⟩ := retryBlockedStep_eq_ok hop1 hrun
    exact .of_put ht hs (State.mem_of_step? hfind).1 rfl rfl (by rintro ⟨⟩)
  | decideResult approvalId decision userId now =>
    obtain ⟨x, -, -, -, y, -, -, ⟨-, -, -, -, htask⟩ | ⟨-, -, -, htask⟩⟩ := decideResult_cases hop
    · exact .of_task (by rw [htask]; decide)
    · exact .of_task (by rw [htask]; decide)
  | recoverValidationEnvironment r retained unused =>
    obtain ⟨-, -, -, -, ps, y, htip, hq⟩ := recoverValidationEnvironment_cases hc hlive hop
    exact .of_live ht htip.mem (by rw [hq]; rfl) fun hrun => by rw [hq] at hrun; cases hrun
  | recoverUnsentCliReview r pinned unsent retained accounted =>
    obtain ⟨x, hx, hop1⟩ := bind_eq_ok.mp hop
    cases hop1
    obtain ⟨hfind, -⟩ := reviewRecoveryTarget_eq_ok hx
    exact .of_put ht rfl (State.mem_of_step? hfind).1 rfl rfl (by rintro ⟨⟩)
  | continueTask =>
    obtain ⟨-, x, hx, -, hs, -⟩ := continueTask_cases hop
    exact .of_put ht hs hx rfl rfl (by rintro ⟨⟩)
  | blockRoute id now category summary quota =>
    rcases blockRoute_cases hop with rfl | ⟨x, -, -, -, -, -, htask⟩
    · exact hp
    · rcases htask with htask | htask <;> exact .of_task (by rw [htask]; decide)
  | requestApproval token body shared expiresAt =>
    obtain ⟨-, htask, hsame | ⟨x, hx, hheld, y, hs, hy, hst, -⟩⟩ := requestApproval_cases hop
    · exact hp.keep (by rw [htask]) fun y hy hrun => ⟨y, by rw [← hsame]; exact hy, rfl, hrun⟩
    · exact hp.keep_put (by rw [htask]) hs hx (by rw [hy.toStepSpec]) hst
  | wakeCapabilityWaiter id approvalId =>
    rcases wakeCapabilityWaiter_cases hop with rfl | ⟨x, hfind, -, -, -, -, hs, -⟩
    · exact hp
    · exact .of_put ht hs (State.mem_of_step? hfind).1 rfl rfl (by rintro ⟨⟩)
  | recordEffects effects =>
    cases hop
    exact hp

theorem Reached.publishes (h : Reached StartsAfresh m s) : (Inv True m.chain s ∧ Publishes s) ∨ Dead s := by
  refine h.invariant (P := fun v => (Inv True m.chain v ∧ Publishes v) ∨ Dead v) (fun hm => Or.inl ⟨Inv.init hm, ?_⟩) ?_
  · obtain ⟨-, -, hsteps⟩ := materializeRun_eq_ok hm
    intro x hx _ hrun
    rw [hsteps] at hx
    obtain ⟨i, d, -, rfl⟩ := mem_compileWorkflow hx
    rw [materializedStep_status] at hrun
    split at hrun <;> cases hrun
  · rintro u v a (⟨hu, hp⟩ | hu) ha hop
    · have hv := hp.perform m.compiled hu hop (fun _ => trivial) ha
      exact (hu.perform m.compiled (fun _ => trivial) hop).imp (fun hinv => ⟨hinv, hv⟩) And.right
    · exact Or.inr (hu.perform hop)

end Publishes

section Check
variable {chain : List StepSpec} {x : Step} {s t : State} {token : LeaseToken} {m : Materialization}
  {taskId runId now : Nat} {requested : Bool}

structure PublishesUnder (s : State) (x : Step) (token : LeaseToken) : Prop where
  mem : x ∈ s.steps
  stepId : x.id = token.stepId
  stepType : x.stepType = .publishStatic
  running : x.status = .running
  holds : token.holds x = true

theorem checkExecution_eq (h : PublishesUnder s x token) (hrun : s.run.status = .running) :
    checkExecution taskId runId s x (executionRequest taskId runId x token) requested now =
      if s.task.status ∉ [TaskStatus.executing, .validating, .reviewing] ∨ x.leaseExpiresAt.all (· ≤ now) then
        .error publicationLeaseLost
      else if requested then .error "cancelled" else .ok () := by
  have hholds := h.holds
  simp only [LeaseToken.holds, Bool.and_eq_true, beq_iff_eq] at hholds
  unfold checkExecution executionRequest
  simp only [ne_eq, not_true_eq_false, hrun, h.running, hholds.1, hholds.2, false_or]

theorem Publishes.task_mem {loose : Prop} (hc : Chain chain) (h : Inv loose chain s) (hp : Publishes s)
    (hx : PublishesUnder s x token) : s.task.status = .executing := by
  obtain ⟨hrun, hd⟩ := h.live.derive_publication hc hx.mem hx.stepType hx.running
  have hne := hp x hx.mem hx.stepType hx.running
  rcases (TaskFits.running hrun).mp h.task with ht | ht | ht
  · rw [ht, hd]
  · exact ht
  · exact absurd ht hne

/-- In a run whose publications start while the task is not `RETRYING`, the check reports a lost lease exactly when the
    lease has expired. A publication that starts otherwise is refused under a valid lease. -/
theorem publication_lease_recognised (h : Reached StartsAfresh m s) :
    (∀ x token taskId runId requested now, PublishesUnder s x token → s.run.status = .running →
      checkExecution taskId runId s x (executionRequest taskId runId x token) requested now =
        if x.leaseExpiresAt.all (· ≤ now) then .error publicationLeaseLost
        else if requested then .error "cancelled" else .ok ()) ∧
      ∀ op t, perform s op = .ok t → ¬StartsAfresh s op → ∃ x token, PublishesUnder t x token ∧
        t.run.status = .running ∧ ∀ taskId runId requested now,
          checkExecution taskId runId t x (executionRequest taskId runId x token) requested now =
            .error publicationLeaseLost := by
  constructor
  · intro x token taskId runId requested now hx hrun
    rcases h.publishes with ⟨hinv, hp⟩ | hdead
    · rw [checkExecution_eq hx hrun, hp.task_mem m.compiled hinv hx]
      simp
    · rw [hdead.run] at hrun
      cases hrun
  · intro op t hop hnot
    simp only [StartsAfresh, not_forall, not_not] at hnot
    obtain ⟨x, hstarted, htype, htask⟩ := hnot
    cases op <;> try cases hstarted
    rename_i token
    have hfind : s.step? token.stepId = some x := hstarted
    obtain ⟨s1, h1, hop1⟩ := bind_eq_ok.mp hop
    obtain ⟨x', hfind', hholds, hm, rfl⟩ := updateLeased_eq_ok h1
    obtain rfl : x' = x := Option.some.inj (hfind'.symm.trans hfind)
    cases hop1
    simp only [Bool.and_eq_true, decide_eq_true_eq] at hm
    obtain ⟨hmem, hid⟩ := State.mem_of_step? hfind
    have hy : PublishesUnder (recordTaskProgress (s.putStep { x' with status := .running })) { x' with status := .running }
        token := ⟨mem_put_self hmem rfl, hid, htype, rfl, hholds⟩
    refine ⟨_, token, hy, hm.2, fun taskId runId requested now => ?_⟩
    rw [checkExecution_eq hy hm.2, if_pos]
    left
    change s.task.status ∉ _
    rw [htask]
    decide

def publicationStarted : List Op :=
  [.startRun {}] ++ finishSteps [1, 2, 3, 4, 5, 6, 7, 8, 9] ++ [.decideResult 0 .approve 7 1] ++ finishSteps [10] ++
    [.claimStep (sampleClaim 11), .startStep ⟨11, "worker", 1⟩]

theorem publication_lease_recognised_approved : ∃ s x, PublishesUnder s x ⟨11, "worker", 1⟩ ∧
    checkExecution 0 0 s x (executionRequest 0 0 x ⟨11, "worker", 1⟩) false 30 = .ok () := by
  obtain ⟨s0, hm, h0⟩ := exists_of_ends (r := materializeRun sampleRun) (p := fun s =>
    ends (fun t => t.run.status == .running && (t.step? 11).any fun x => x.stepType == .publishStatic &&
        x.status == .running && LeaseToken.holds ⟨11, "worker", 1⟩ x && !x.leaseExpiresAt.all (· ≤ 30))
      (runOps (fun s a => if StartsAfresh s a then perform s a else .error (.leaseLost 0)) s publicationStarted))
    (by decide +kernel)
  obtain ⟨s, hs, hp⟩ := exists_of_ends h0
  rw [Bool.and_eq_true, beq_iff_eq, Option.any_eq_true] at hp
  obtain ⟨hrun, x, hfind, hx⟩ := hp
  simp only [Bool.and_eq_true, beq_iff_eq, Bool.not_eq_true'] at hx
  obtain ⟨⟨⟨htype, hst⟩, hholds⟩, hvalid⟩ := hx
  obtain ⟨hmem, hid⟩ := State.mem_of_step? hfind
  have hunder : PublishesUnder s x ⟨11, "worker", 1⟩ := ⟨hmem, hid, htype, hst, hholds⟩
  refine ⟨s, x, hunder, ?_⟩
  rw [(publication_lease_recognised ⟨s0, hm, reach_of_guarded hs⟩).1 x _ 0 0 false 30 hunder hrun, hvalid]
  rfl

/-- The probe of a publication fails, and the owner retries the step: the next attempt is refused under its own
    lease. -/
theorem retried_publication_refused : ∃ s x, Reached anyOp sampleRun s ∧ s.run.status = .running ∧
    PublishesUnder s x ⟨11, "worker", 2⟩ ∧ x.leaseExpiresAt = some 60 ∧
    checkExecution 0 0 s x (executionRequest 0 0 x ⟨11, "worker", 2⟩) false 30 = .error publicationLeaseLost := by
  obtain ⟨s, hs, hp⟩ := Reached.of_runOps anyOp sampleRun
    (publicationStarted ++ [.commitStepOutcome {} ⟨11, "worker", 1⟩
        { kind := .blocked, category := some "static_publish_probe_failed" },
      .retryTask { userId := 7, expectedVersion := some 26, now := 0 },
      .claimStep (sampleClaim 11), .startStep ⟨11, "worker", 2⟩])
    (fun t => t.run.status == .running && (t.step? 11).any fun x => x.stepType == .publishStatic &&
      x.status == .running && LeaseToken.holds ⟨11, "worker", 2⟩ x && x.leaseExpiresAt == some 60 &&
      raises publicationLeaseLost (checkExecution 0 0 t x (executionRequest 0 0 x ⟨11, "worker", 2⟩) false 30))
    (fun _ _ _ => trivial) (by decide +kernel)
  rw [Bool.and_eq_true, beq_iff_eq, Option.any_eq_true] at hp
  obtain ⟨hrun, x, hfind, hx⟩ := hp
  simp only [Bool.and_eq_true, beq_iff_eq] at hx
  obtain ⟨⟨⟨⟨htype, hst⟩, hholds⟩, hexp⟩, hraise⟩ := hx
  obtain ⟨hmem, hid⟩ := State.mem_of_step? hfind
  exact ⟨s, x, hs, hrun, ⟨hmem, hid, htype, hst, hholds⟩, hexp, eq_error_of_raises hraise⟩

end Check

end Vuzol.Workflow
