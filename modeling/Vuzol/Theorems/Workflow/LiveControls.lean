import Vuzol.Theorems.Workflow.Live

/-! The owner's controls and the other writers keep the invariant of the engine, or settle every row. -/

namespace Vuzol.Workflow

open Vuzol.Lib

variable {rows : List Step} {now : Nat} {expected : Option Nat}

section Pause
variable {loose : Prop} {chain : List StepSpec} {ps : List Step} {x y : Step} {s t : State}

/-! ### Pause -/

theorem parkStep_cases (h : parkStep x = .ok y) : (x.status.isHeld = false ∧ y = x) ∨
    (x.status.isHeld = true ∧ y.toStepSpec = x.toStepSpec ∧ y.status = .blocked) := by
  unfold parkStep at h
  split_ifs at h with hheld
  · obtain ⟨-, h⟩ := transitionStep_bind.mp h
    cases h
    exact Or.inr ⟨hheld, rfl, rfl⟩
  · cases h
    exact Or.inl ⟨by simpa using hheld, rfl⟩

theorem mapM_parkStep_cases (h : Rows chain s.steps) (hm : s.steps.mapM parkStep = .ok rows) :
    ((∀ x ∈ s.steps, x.status.isHeld = false) ∧ rows = s.steps) ∨
      ∃ ps x y, Tip s.steps ps x ∧ x.status.isHeld = true ∧ parkStep x = .ok y ∧ rows = put Step.key y s.steps := by
  by_cases hex : ∃ x ∈ s.steps, x.status.isHeld = true
  · obtain ⟨x, hx, hheld⟩ := hex
    obtain ⟨ps, htip⟩ := h.tip_of_isLive hx (StepStatus.isLive_of_isHeld hheld)
    obtain ⟨y, hy⟩ : ∃ y, parkStep x = .ok y := by
      have hall := forall₂_of_mapM hm
      obtain ⟨y, -, hy⟩ := (Rewrites.of_forall₂ (N := fun _ => True) hall).kept x hx
      exact ⟨y, hy⟩
    refine Or.inr ⟨ps, x, y, htip, hheld, hy, ?_⟩
    refine eq_map_of_mapM hm fun z hz w hw => ?_
    have hid : Step.key y = Step.key x := (parkStep_wrote (q := True) hy).key
    rcases parkStep_cases hw with ⟨hz', rfl⟩ | ⟨hz', -⟩
    · rw [if_neg]
      intro hk
      rw [eq_of_key_eq h.laid.nodup hz hx (hk.trans hid), hheld] at hz'
      cases hz'
    · obtain rfl := htip.eq_of_isLive hz (StepStatus.isLive_of_isHeld hz')
      rw [if_pos hid.symm]
      exact Except.ok.inj (hw.symm.trans hy)
  · have hnone : ∀ x ∈ s.steps, x.status.isHeld = false := by
      intro x hx
      simpa using fun hheld => hex ⟨x, hx, hheld⟩
    refine Or.inl ⟨hnone, ?_⟩
    rw [eq_map_of_mapM (k := id) hm, List.map_id]
    intro z hz w hw
    rcases parkStep_cases hw with ⟨-, rfl⟩ | ⟨hz', -⟩
    · rfl
    · rw [hnone z hz] at hz'
      cases hz'

theorem pauseTask_eq_ok (h : pauseTask s expected = .ok t) :
    t = s ∨ (s.run.status.isTerminal = false ∧ t.run.status = .paused ∧ t.task.status = .paused ∧
      s.steps.mapM parkStep = .ok t.steps) := by
  unfold pauseTask at h
  obtain ⟨-, -, h⟩ := bind_eq_ok.mp h
  split_ifs at h with hp hterm
  · cases h
    exact Or.inl rfl
  · obtain ⟨s1, h1, h2⟩ := bind_eq_ok.mp h
    obtain ⟨s2, h3, h4⟩ := bind_eq_ok.mp h2
    obtain ⟨rows, hrows, h5⟩ := bind_eq_ok.mp h4
    obtain ⟨hr1, -, hs1⟩ := transitionRun_status h1
    obtain ⟨ht2, hr2, hs2⟩ := transitionTask_status h3
    rw [hs2, hs1] at hrows
    cases h5
    exact Or.inr ⟨by simpa using hterm, by rw [hr2, hr1], ht2, hrows⟩

theorem pauseTask_live (h : Live chain s) (hfit : TaskFits loose s) (hop : pauseTask s expected = .ok t) :
    Live chain t ∧ TaskFits loose t := by
  rcases pauseTask_eq_ok hop with rfl | ⟨hs, hr, ht, hm⟩
  · exact ⟨h, hfit⟩
  · have hs : s.run.status ≠ .failed := fun hf => by rw [hf] at hs; cases hs
    refine ⟨?_, by simp only [TaskFits, hr, ht, true_or]⟩
    rcases mapM_parkStep_cases h.rows hm with ⟨hnone, hsteps⟩ | ⟨ps, x, y, htip, hheld, hy, hsteps⟩
    · have hrows := h.rows
      have hf := h.noFailed hs
      rw [← hsteps] at hrows hf hnone
      refine ⟨hrows, fun _ => hf, fun htip hl => ?_⟩
      rw [hr]
      exact hnone _ htip.mem
    · rcases parkStep_cases hy with ⟨hnot, -⟩ | ⟨-, hspec, hb⟩
      · rw [hnot] at hheld
        cases hheld
      · exact (h.block htip hs hsteps hspec hb).1

end Pause

section Resume
variable {loose : Prop} {chain : List StepSpec} {ps : List Step} {x y p : Step} {s t : State} {f : Facts}
variable {undrained : Bool}

/-! ### Resume -/

theorem Parked.not_continuable (h : Parked p) : continuable p = false := by
  have hcat : ∀ c : String, c ∈ [leaseExpiredAttemptsExhausted, ownerPaused, ownerPausedBeforeStart] →
      repairableCategory (some c) = false ∧ c ≠ "capability_preflight_required" := by decide
  by_contra hcont
  simp only [Bool.not_eq_false, continuable, Bool.and_eq_true, List.contains_iff_mem, List.mem_cons,
    List.not_mem_nil, or_false] at hcont
  obtain ⟨c, hc, hmem⟩ : ∃ c, p.failureCategory = some c ∧
      c ∈ [leaseExpiredAttemptsExhausted, ownerPaused, ownerPausedBeforeStart] := by
    rcases hcont.1.1.2 with h | h | h
    · exact ⟨_, h, by simp⟩
    · exact ⟨_, h, by simp⟩
    · exact ⟨_, h, by simp⟩
  rcases h.category with hrep | hpre
  · rw [hc, (hcat c hmem).1] at hrep
    cases hrep
  · exact (hcat c hmem).2 (Option.some.inj (hc.symm.trans hpre))

theorem continuable_blocked (h : continuable x = true) : x.status = .blocked ∧ x.unknownEffects = false := by
  simp only [continuable, Bool.and_eq_true, decide_eq_true_eq, Bool.not_eq_true'] at h
  exact ⟨h.1.1.1, h.1.2⟩

theorem filter_continuable : rows.filter continuable = (openRows rows).filter continuable := by
  rw [openRows, List.filter_filter]
  apply List.filter_congr
  intro z _
  by_cases hz : continuable z = true
  · simp [hz, (continuable_blocked hz).1, StepStatus.isOpen]
  · simp [hz]

theorem Tip.filter_continuable (h : Tip rows ps x) : rows.filter continuable = if continuable x then [x] else [] := by
  have hps : ps.filter continuable = [] := by
    rw [List.filter_eq_nil_iff]
    intro p hp
    rw [(h.stack.parked hp).not_continuable]
    decide
  rw [Workflow.filter_continuable, h.opens, List.filter_append, hps]
  cases hx : continuable x <;> simp [hx]

def resumeRows (f : Facts) (s : State) : Except Failure State := do
  let u ← transitionRun s .running
  let u ← continueParked u (s.steps.filter continuable).head? f.now
  activateReadySteps f u

structure Resumable (s : State) (expected : Option Nat) (undrained : Bool) : Prop where
  version : checkTaskVersion s expected = .ok ()
  run : s.run.status = .paused
  drained : undrained = false
  known : ∀ x ∈ s.steps, x.status = .blocked → x.unknownEffects = false

structure Resumed (x y : Step) : Prop where
  toStepSpec : y.toStepSpec = x.toStepSpec
  status : y.status = if continuable x then .queued else x.status

def continuedStep (x : Step) : Step :=
  { grantAttempt x with status := .queued, failureCategory := none, failureSummary := none }

theorem continuePausedStep_eq (hb : x.status = .blocked) :
    continuePausedStep s x now = .ok (startBudgetEpoch (s.putStep (continuedStep x)) now) := by
  have hgrant : transitionStep (grantAttempt x) .queued = .ok { grantAttempt x with status := .queued } :=
    transitionStep_eq_ok.mpr ⟨by rw [grantAttempt_status, hb]; decide, rfl⟩
  rw [continuePausedStep, hgrant]
  rfl

theorem resumeRows_tip (hc : Chain chain) (h : Live chain s) (hrun : s.run.status = .paused) (htip : Tip s.steps ps x) :
    ∃ t y, resumeRows f s = .ok t ∧ Rows chain t.steps ∧ NoFailed t.steps ∧ Tip t.steps ps y ∧ Resumed x y ∧
      t.run.status = .running ∧ t.task.status = s.task.status := by
  have hf := h.noFailed (by rw [hrun]; decide)
  have htrans : transitionRun s .running = .ok { s with run := { s.run with status := .running } } :=
    transitionRun_eq_ok.mpr ⟨by rw [hrun]; decide, rfl⟩
  unfold resumeRows
  rw [htrans, ok_bind, htip.filter_continuable]
  generalize hu : ({ s with run := { s.run with status := .running } } : State) = u
  have husteps : u.steps = s.steps := by rw [← hu]
  have hurun : u.run.status = .running := by rw [← hu]
  have hutask : u.task = s.task := by rw [← hu]
  have hr := h.rows
  rw [← husteps] at hr hf htip
  cases hx : continuable x with
  | false =>
    refine ⟨u, x, ?_, hr, hf, htip, ⟨rfl, by simp [hx]⟩, hurun, by rw [hutask]⟩
    exact activateReadySteps_open hc hr htip
  | true =>
    obtain ⟨hb, hclean⟩ := continuable_blocked hx
    obtain ⟨hr', htip'⟩ := hr.retip htip (y := continuedStep x) rfl rfl fun _ => hclean
    refine ⟨startBudgetEpoch (u.putStep (continuedStep x)) f.now, continuedStep x, ?_, hr',
      hf.put_row (y := continuedStep x) nofun, htip', ⟨rfl, by rw [hx]; rfl⟩, hurun, by rw [← hutask]; rfl⟩
    have hcont : continuePausedStep u x f.now = _ := continuePausedStep_eq hb
    simp only [if_true, List.head?_cons, continueParked, hcont, ok_bind]
    exact activateReadySteps_open hc hr' htip'

theorem resumeRows_closed (hrun : s.run.status = .paused) (hnil : openRows s.steps = []) :
    resumeRows f s = activateReadySteps f { s with run := { s.run with status := .running } } := by
  have htrans : transitionRun s .running = .ok { s with run := { s.run with status := .running } } :=
    transitionRun_eq_ok.mpr ⟨by rw [hrun]; decide, rfl⟩
  unfold resumeRows
  rw [htrans, ok_bind, filter_continuable, hnil]
  rfl

theorem resumeTask_eq (hr : Rows chain s.steps) (hg : Resumable s expected undrained)
    (ht : s.task.status ≠ .failed ∧ s.task.status ≠ .cancelled ∧ s.task.status ≠ .completed) :
    resumeTask f s expected undrained = (resumeRows f s >>= fun u =>
      restoreRun u (deriveTaskStatus u.steps u.run.status) >>= fun v =>
        transitionTask v (deriveTaskStatus u.steps u.run.status)) := by
  have hunknown : (s.steps.any fun x => x.status = .blocked && x.unknownEffects) = false := by
    rw [List.any_eq_false]
    intro x hx hb
    rw [Bool.and_eq_true, decide_eq_true_eq] at hb
    rw [hg.known x hx hb.1] at hb
    cases hb.2
  have hlen : ¬1 < (s.steps.filter continuable).length := by
    rcases hr.waiting with hnil | ⟨ps, x, htip⟩
    · rw [filter_continuable, hnil]
      simp
    · rw [htip.filter_continuable]
      split <;> simp
  unfold resumeTask resumeRows
  rw [hg.version, ok_bind]
  simp [hg.run, hg.drained, ht, hunknown, hlen, bind_assoc]

theorem checkTaskVersion_cases (s : State) (expected : Option Nat) : checkTaskVersion s expected = .ok () ∨
    ∃ m, checkTaskVersion s expected = .error (.valueError m) := by
  unfold checkTaskVersion
  split
  · exact Or.inl rfl
  · split
    · exact Or.inr ⟨_, rfl⟩
    · exact Or.inl rfl

theorem resumeTask_refused (hg : ¬Resumable s expected undrained) :
    resumeTask f s expected undrained = .ok s ∨ ∃ m, resumeTask f s expected undrained = .error (.valueError m) := by
  unfold resumeTask
  rcases checkTaskVersion_cases s expected with hv | ⟨m, hv⟩
  · rw [hv, ok_bind]
    split_ifs with h1 h2 h3 h4 h5
    · exact Or.inl rfl
    · exact Or.inr ⟨_, rfl⟩
    · exact Or.inr ⟨_, rfl⟩
    · exact Or.inr ⟨_, rfl⟩
    · exact Or.inr ⟨_, rfl⟩
    · refine absurd ⟨hv, not_not.mp h2, by simpa using h4, fun x hx hb => ?_⟩ hg
      by_contra hu
      exact h5 (List.any_eq_true.mpr ⟨x, hx, by simpa [hb] using hu⟩)
  · rw [hv]
    exact Or.inr ⟨m, rfl⟩

theorem TaskFits.paused (hrun : s.run.status = .paused) (h : TaskFits loose s) :
    s.task.status ≠ .failed ∧ s.task.status ≠ .cancelled ∧ s.task.status ≠ .completed := by
  simp only [TaskFits, hrun] at h
  rcases h with h | ⟨-, h, -⟩ <;> rw [h] <;> decide

theorem restoreRun_cases {target : TaskStatus} (h : restoreRun s target = .ok t) :
    t.steps = s.steps ∧ t.task = s.task ∧
      (target = .blocked ∧ t.run.status = .blocked ∨ target ≠ .blocked ∧ t.run.status = s.run.status) := by
  unfold restoreRun at h
  split_ifs at h with hb
  · obtain ⟨hr, ht, hs⟩ := transitionRun_status h
    exact ⟨hs, ht, Or.inl ⟨hb, hr⟩⟩
  · cases h
    exact ⟨rfl, rfl, Or.inr ⟨hb, rfl⟩⟩

theorem Step.taskStatus_ne_blocked (h : x.status.isLive = true) : x.taskStatus ≠ .blocked := by
  have hwork := x.toStepSpec.workStatus_mem
  rcases Step.taskStatus_live h with ⟨-, ht⟩ | ⟨-, ht⟩ | ⟨-, ht⟩ <;> rw [ht]
  · decide
  · decide
  · rintro hb
    rw [hb] at hwork
    simp at hwork

theorem Live.restore (hc : Chain chain) (h : Live chain s) (hrun : s.run.status = .running)
    (hheld : ∀ ps x, Tip s.steps ps x → x.status.isHeld = false) (hb : deriveTaskStatus s.steps .running = .blocked)
    (ht : t.steps = s.steps) (hr : t.run.status = .blocked) : Live chain t := by
  obtain ⟨hrows, hf, -⟩ := h
  have hf := hf (by rw [hrun]; decide)
  rw [← ht] at hrows hf hheld hb
  refine ⟨hrows, fun _ => hf, fun {ps x} htip hl => ?_⟩
  rw [deriveTaskStatus_tip hc hrows hf htip] at hb
  rw [hr]
  refine ⟨hheld ps x htip, ?_⟩
  split_ifs at hb with hn
  · exact hn
  · exact absurd hb (Step.taskStatus_ne_blocked hl)

theorem resumeRows_live (hc : Chain chain) (h : Live chain s) (hrun : s.run.status = .paused)
    (hop : resumeRows f s = .ok t) :
    Live chain t ∧ t.run.status = .running ∧ ∀ ps x, Tip t.steps ps x → x.status.isHeld = false := by
  rcases h.rows.waiting with hnil | ⟨ps, x, htip⟩
  · rw [resumeRows_closed hrun hnil] at hop
    have hf := h.noFailed (by rw [hrun]; decide)
    obtain ⟨hlive, hr, -, hrows⟩ := activateReadySteps_live hc hop h.rows hf rfl
    have hr : t.run.status = .running := by rw [hr]
    refine ⟨hlive, hr, fun ps x htip => ?_⟩
    rcases hrows with ⟨hopen, -⟩ | ⟨-, rfl | ⟨w, hw, hready, y, hy, ht⟩⟩
    · exact absurd hnil hopen
    · exact absurd hnil htip.not_nil
    · obtain ⟨-, rfl⟩ := (Live.open_ready hc h.rows hf hnil hw hready hy ht hr).2.unique htip
      rw [hy.status]
      split <;> rfl
  · obtain ⟨u, y, hu, hr, hf, htip', hres, hru, -⟩ := resumeRows_tip (f := f) hc h hrun htip
    obtain rfl : u = t := Except.ok.inj (hu.symm.trans hop)
    refine ⟨.of_tip hr (fun _ => hf) htip' fun _ => by rw [hru]; trivial, hru, fun qs z hz => ?_⟩
    obtain ⟨-, rfl⟩ := htip'.unique hz
    rw [hres.status]
    split
    · rfl
    · rcases StepStatus.isLive_or_blocked htip.isOpen with hl | hb
      · have hfit := h.tip htip hl
        rw [hrun] at hfit
        exact hfit
      · rw [hb]
        rfl

theorem resumeTask_live (hc : Chain chain) (h : Live chain s) (hfit : TaskFits loose s)
    (hop : resumeTask f s expected undrained = .ok t) : Live chain t ∧ TaskFits loose t := by
  by_cases hg : Resumable s expected undrained
  · rw [resumeTask_eq h.rows hg (hfit.paused hg.run)] at hop
    obtain ⟨u, hu, hop1⟩ := bind_eq_ok.mp hop
    obtain ⟨v, hv, hop2⟩ := bind_eq_ok.mp hop1
    obtain ⟨hlive, hru, hheld⟩ := resumeRows_live hc h hg.run hu
    obtain ⟨hsv, -, hrv⟩ := restoreRun_cases hv
    obtain ⟨htt, hrt, hst⟩ := transitionTask_status hop2
    rw [hru] at hrv htt
    rcases hrv with ⟨hb, hrb⟩ | ⟨-, hrr⟩
    · refine ⟨hlive.restore hc hru hheld hb (by rw [hst, hsv]) (by rw [hrt, hrb]), ?_⟩
      simp only [TaskFits, hrt, hrb, htt, hb, true_or]
    · refine ⟨hlive.congr (by rw [hst, hsv]) (by rw [hrt, hrr, hru]), .of_derive ?_⟩
      rw [htt, hrt, hrr, hst, hsv]
  · rcases resumeTask_refused (f := f) hg with hsame | ⟨m, hm⟩
    · rw [hsame] at hop
      cases hop
      exact ⟨h, hfit⟩
    · rw [hm] at hop
      cases hop

end Resume

section Cancel
variable {loose : Prop} {chain : List StepSpec} {x y : Step} {s t : State}

/-! ### Cancel -/

theorem cancelStep_settled (h : cancelStep x = .ok y) : y.status.isTerminal = true := by
  unfold cancelStep at h
  split_ifs at h with hterm
  · cases h
    exact hterm
  · obtain ⟨-, h⟩ := transitionStep_bind.mp h
    cases h
    rfl

theorem foldl_abandon_status {xs : List Step} {s : State} :
    (xs.foldl (fun s x => abandonCapabilityInstallation s x.id) s).run = s.run ∧
      (xs.foldl (fun s x => abandonCapabilityInstallation s x.id) s).task = s.task := by
  induction xs generalizing s with
  | nil => exact ⟨rfl, rfl⟩
  | cons x xs ih => exact ih

theorem cancelTask_cases (hfit : TaskFits loose s) (h : cancelTask s expected = .ok t) : t = s ∨ Dead t := by
  unfold cancelTask at h
  obtain ⟨-, -, h⟩ := bind_eq_ok.mp h
  split_ifs at h
  · cases h
    exact Or.inl rfl
  · obtain ⟨rows, hrows, h1⟩ := bind_eq_ok.mp h
    obtain ⟨s1, hs1, h2⟩ := bind_eq_ok.mp h1
    obtain ⟨s2, hs2, h3⟩ := bind_eq_ok.mp h2
    cases h3
    obtain ⟨hr1, -, hsteps1⟩ := transitionRun_status hs1
    have hretain : (decide (s.task.status = .failed) && decide (s.run.status = .paused)) = false := by
      rw [Bool.and_eq_false_iff, or_iff_not_imp_right]
      intro hp
      simp only [Bool.not_eq_false, decide_eq_true_eq] at hp
      exact decide_eq_false (hfit.paused hp).1
    unfold settleTask at hs2
    rw [hretain] at hs2
    obtain ⟨ht2, hr2, hsteps2⟩ := transitionTask_status hs2
    refine Or.inr ⟨?_, ?_, ?_⟩
    · rw [foldl_abandon_status.1, hr2, hr1]
    · rw [foldl_abandon_status.2, ht2]
    · rw [foldl_abandon_steps, hsteps2, hsteps1]
      intro y hy
      rcases (Rewrites.of_forall₂ (N := fun _ => False) (forall₂_of_mapM hrows)).source y hy with ⟨x, -, hx⟩ | hf
      · exact cancelStep_settled hx
      · exact hf.elim

end Cancel

section Retry
variable {loose : Prop} {chain : List StepSpec} {ps : List Step} {x y : Step} {s t : State}
variable {r : RetryRequest}

/-! ### Owner retry -/

theorem Live.retryTarget (h : Live chain s) (hrun : s.run.status = .blocked)
    (htarget : currentRetryTarget s.steps = some x) :
    ∃ ps, Tip s.steps ps x ∧ x.status = .blocked ∧ revalidates (ps ++ [x]) = false := by
  rcases h.rows.waiting with hnil | ⟨ps, z, htip⟩
  · rw [currentRetryTarget_closed hnil] at htarget
    cases htarget
  · rcases StepStatus.isLive_or_blocked htip.isOpen with hl | hb
    · have hfit := h.tip htip hl
      rw [hrun] at hfit
      rw [currentRetryTarget_nested h.rows htip hl hfit.2] at htarget
      cases htarget
    · rw [currentRetryTarget_blocked h.rows htip hb] at htarget
      split_ifs at htarget with hn
      cases htarget
      exact ⟨ps, htip, hb, by simpa using hn⟩

theorem retryTarget_eq_ok {command : String} (h : retryTarget s r command = .ok x) :
    s.run.status = .blocked ∧ currentRetryTarget s.steps = some x := by
  unfold Workflow.retryTarget at h
  split_ifs at h
  split at h
  · cases h
  · rename_i target htarget
    split_ifs at h with hb
    cases h
    rw [not_or, not_not] at hb
    exact ⟨hb.1, htarget⟩

theorem reopenRun_status (h : reopenRun s = .ok t) (hrun : s.run.status = .blocked) :
    t.run.status = .running ∧ t.task = s.task ∧ t.steps = s.steps := by
  unfold reopenRun at h
  rw [if_pos hrun] at h
  obtain ⟨s1, h1, h2⟩ := bind_eq_ok.mp h
  obtain ⟨hr, ht, hs⟩ := transitionRun_status h1
  cases h2
  exact ⟨hr, ht, hs⟩

theorem retryBlockedStep_eq_ok {id : Nat} (h : retryBlockedStep s id now = .ok t) (hrun : s.run.status = .blocked) :
    ∃ x, s.step? id = some x ∧ x.status = .blocked ∧ x.unknownEffects = false ∧
      t.steps = put Step.key (continuedStep x) s.steps ∧ t.run.status = .running ∧
      (s.task.status = .blocked ∨ s.task.status = .quotaExhausted → t.task.status = .retrying) := by
  unfold retryBlockedStep at h
  split at h
  · cases h
  · rename_i x hfind
    split_ifs at h with hb hretry
    simp only at h
    obtain ⟨-, h1⟩ := transitionStep_bind.mp h
    obtain ⟨s1, hs1, h2⟩ := bind_eq_ok.mp h1
    obtain ⟨hr1, ht1, hsteps1⟩ := reopenRun_status hs1 hrun
    have hclean : x.unknownEffects = false := by
      unfold blockedStepIsRetryable at hretry
      by_contra hu
      simp [hu] at hretry
    refine ⟨x, hfind, not_not.mp hb, hclean, ?_⟩
    have htask : s1.task.status = s.task.status := by rw [ht1]; rfl
    split_ifs at h2 with hstop
    · obtain ⟨ht, hr, hs⟩ := transitionTask_status h2
      exact ⟨by rw [hs, hsteps1]; rfl, by rw [hr, hr1], fun _ => ht⟩
    · cases h2
      exact ⟨hsteps1, hr1, fun hs => absurd (by rw [htask]; exact hs) hstop⟩

section
variable (h : Live chain s) (hfit : TaskFits loose s)
include h hfit

theorem retryBlockedStep_live (hrun : s.run.status = .blocked)
    (htarget : currentRetryTarget s.steps = some x) (hop : retryBlockedStep s x.id now = .ok t) :
    Live chain t ∧ TaskFits loose t := by
  obtain ⟨ps, htip, hb, -⟩ := h.retryTarget hrun htarget
  obtain ⟨z, hfind, -, hclean, hsteps, hr, htask⟩ := retryBlockedStep_eq_ok hop hrun
  obtain rfl : z = x := h.rows.laid.eq_of_id (State.mem_of_step? hfind).1 htip.mem (State.mem_of_step? hfind).2
  have hs : s.run.status ≠ .failed := by rw [hrun]; decide
  refine ⟨(h.retip htip hs hsteps rfl rfl (fun _ => hclean) fun _ => by rw [hr]; trivial).1, ?_⟩
  simp only [TaskFits, hrun] at hfit
  rw [TaskFits.running hr]
  exact Or.inr (Or.inr (htask hfit))

theorem retryTask_live (hop : retryTask s r = .ok t) : Live chain t ∧ TaskFits loose t := by
  unfold retryTask at hop
  obtain ⟨x, hx, hop1⟩ := bind_eq_ok.mp hop
  obtain ⟨hrun, htarget⟩ := retryTarget_eq_ok hx
  exact retryBlockedStep_live h hfit hrun htarget hop1

theorem continueOwnerDecision_live {action : OwnerAction} {recorded : Bool}
    (hop : continueOwnerDecision s action r recorded = .ok t) : Live chain t ∧ TaskFits loose t := by
  unfold continueOwnerDecision at hop
  obtain ⟨x, hx, hop1⟩ := bind_eq_ok.mp hop
  obtain ⟨hrun, htarget⟩ := retryTarget_eq_ok hx
  split_ifs at hop1
  exact retryBlockedStep_live h hfit hrun htarget hop1

end

end Retry

section Decisions
variable {loose : Prop} {chain : List StepSpec} {ps : List Step} {x y : Step} {s t : State} {a : Approval}

/-! ### Result decisions -/

theorem Tip.not_nested_of_asksConsent {rows : List Step} (h : Tip rows ps x) (hx : asksConsent x.stepType = true) :
    revalidates ps = false := by
  have hstack := h.stack
  generalize hcx : x.toStepSpec = c at hstack
  rw [show x.stepType = c.stepType from by rw [hcx]] at hx
  cases hstack with
  | root => rfl
  | one _ hl _ => simp [revalidates, hl]
  | repairAgain _ _ _ _ hr =>
    have hw := hr.stepType
    cases hct : c.stepType <;> simp_all [StepType.isWorker, asksConsent]
  | preflightAgain _ hl hp _ _ => simp [revalidates, hl, hp.links]

theorem Live.decided (h : Live chain s) (hx : x ∈ s.steps) (hw : x.status = .waitingApproval)
    (hcons : asksConsent x.stepType = true) :
    (s.run.status = .running ∨ s.run.status = .paused) ∧ ∃ ps, Tip s.steps ps x := by
  have hl : x.status.isLive = true := by rw [hw]; rfl
  obtain ⟨ps, htip⟩ := h.rows.tip_of_isLive hx hl
  refine ⟨?_, ps, htip⟩
  have hfit := h.tip htip hl
  cases hrun : s.run.status with
  | running => exact Or.inl rfl
  | paused => exact Or.inr rfl
  | awaitingUser =>
    rw [hrun] at hfit
    rw [show x.status = .awaitingUser from hfit] at hw
    cases hw
  | blocked =>
    rw [hrun] at hfit
    have hn := hfit.2
    rw [htip.not_nested_of_asksConsent hcons] at hn
    cases hn
  | created | failed | cancelled | completed =>
    rw [hrun] at hfit
    exact hfit.elim

theorem approveResult_eq_ok (h : approveResult s a x = .ok t) :
    ∃ y, t.steps = put Step.key y s.steps ∧ y.toStepSpec = x.toStepSpec ∧ y.status = .queued ∧
      y.unknownEffects = x.unknownEffects ∧ t.run = s.run ∧ t.task.status = .executing := by
  unfold approveResult at h
  simp only at h
  obtain ⟨-, h1⟩ := transitionStep_bind.mp h
  obtain ⟨ht, hr, hs⟩ := transitionTask_status h1
  exact ⟨_, hs, rfl, rfl, rfl, hr, ht⟩

theorem refuseResult_eq_ok (h : refuseResult s x = .ok t) :
    ∃ y, t.steps = put Step.key y s.steps ∧ y.toStepSpec = x.toStepSpec ∧ y.status = .cancelled ∧
      t.run.status = .cancelled ∧ t.task.status = .cancelled := by
  unfold refuseResult at h
  obtain ⟨-, h1⟩ := transitionStep_bind.mp h
  obtain ⟨s1, hs1, h2⟩ := bind_eq_ok.mp h1
  obtain ⟨hr1, -, hst1⟩ := transitionRun_status hs1
  obtain ⟨ht, hr, hs⟩ := transitionTask_status h2
  exact ⟨_, hs.trans hst1, rfl, rfl, by rw [hr, hr1], ht⟩

theorem decideResult_cases {approvalId : Nat} {decision : Decision} {userId : Int} {now : Nat}
    (h : decideResult s approvalId decision userId now = .ok t) :
    ∃ x ∈ s.steps, x.status = .waitingApproval ∧ x.payload.actionEnvelope.isSome = true ∧
      ∃ y, y.toStepSpec = x.toStepSpec ∧ t.steps = put Step.key y s.steps ∧
        (decision = .approve ∧ y.status = .queued ∧ y.unknownEffects = x.unknownEffects ∧ t.run = s.run ∧
            t.task.status = .executing ∨
          decision ≠ .approve ∧ y.status = .cancelled ∧ t.run.status = .cancelled ∧ t.task.status = .cancelled) := by
  unfold decideResult at h
  obtain ⟨⟨a, x⟩, hdec, h1⟩ := bind_eq_ok.mp h
  obtain ⟨hfind, hw, henv⟩ := decidable_eq_ok hdec
  refine ⟨x, (State.mem_of_step? hfind).1, hw, henv, ?_⟩
  cases decision with
  | approve =>
    obtain ⟨y, hs, hy, hq, hu, hr, ht⟩ := approveResult_eq_ok h1
    exact ⟨y, hy, hs, Or.inl ⟨rfl, hq, hu, hr, ht⟩⟩
  | redo =>
    simp only at h1
    split_ifs at h1
    obtain ⟨y, hs, hy, hq, hr, ht⟩ := refuseResult_eq_ok h1
    exact ⟨y, hy, hs, Or.inr ⟨nofun, hq, hr, ht⟩⟩
  | reject =>
    obtain ⟨y, hs, hy, hq, hr, ht⟩ := refuseResult_eq_ok h1
    exact ⟨y, hy, hs, Or.inr ⟨nofun, hq, hr, ht⟩⟩

theorem decideResult_live {approvalId : Nat} {decision : Decision} {userId : Int} (h : Live chain s)
    (hcons : ∀ x ∈ s.steps, x.Consented) (hloose : decision = .approve → s.run.status = .paused → loose)
    (hop : decideResult s approvalId decision userId now = .ok t) : Live chain t ∧ TaskFits loose t := by
  obtain ⟨x, hx, hw, henv, y, hy, hs, hcases⟩ := decideResult_cases hop
  have hask := hcons x hx henv
  obtain ⟨hrun, ps, htip⟩ := h.decided hx hw hask
  have hf : s.run.status ≠ .failed := by rcases hrun with hrun | hrun <;> rw [hrun] <;> decide
  have hclean := h.rows.clean_of_isLive hx (by rw [hw]; rfl)
  rcases hcases with ⟨happ, hq, hu, hr, ht⟩ | ⟨-, hq, hr, ht⟩
  · refine ⟨(h.retip htip hf hs hy (by rw [hq]; rfl) (fun _ => hu.trans hclean) fun _ => ?_).1, ?_⟩
    · rw [hr]
      rcases hrun with hrun | hrun <;> rw [hrun]
      · trivial
      · change y.status.isHeld = false
        rw [hq]
        rfl
    · rcases hrun with hrun | hrun
      · rw [TaskFits.running (by rw [hr, hrun])]
        exact Or.inr (Or.inl ht)
      · have hmem : y ∈ t.steps := by
          rw [hs]
          exact mem_put_self hx (congrArg StepSpec.id hy).symm
        have htype : asksConsent y.stepType = true := by rw [show y.stepType = x.stepType from by rw [hy]]; exact hask
        simp only [TaskFits, hr, hrun]
        exact Or.inr ⟨hloose happ hrun, ht, y, hmem, hq, htype⟩
  · refine ⟨h.close htip hf hs hy (by rw [hq]; rfl) (by rw [hq]; decide) fun _ => by rw [hq]; decide, ?_⟩
    simp only [TaskFits, hr, ht]

end Decisions

section Others
variable {loose : Prop} {chain : List StepSpec} {ps : List Step} {x y : Step} {s t : State}

/-! ### Other subsystems -/

theorem continueTask_cases (hop : continueTask s = .ok t) : s.run.status = .awaitingUser ∧
    ∃ x ∈ s.steps, x.status = .awaitingUser ∧ t.steps = put Step.key { x with status := .queued } s.steps ∧
      t.run.status = .running ∧ t.task.status = .executing := by
  unfold continueTask at hop
  split_ifs at hop with hrun
  split at hop
  · cases hop
  · rename_i x hfind
    obtain ⟨-, hop1⟩ := transitionStep_bind.mp hop
    obtain ⟨s1, h1, hop2⟩ := bind_eq_ok.mp hop1
    obtain ⟨hr1, -, hs1⟩ := transitionRun_status h1
    obtain ⟨ht, hr, hs⟩ := transitionTask_status hop2
    exact ⟨not_not.mp hrun, x, List.mem_of_find?_eq_some hfind, by simpa using List.find?_some hfind, hs.trans hs1,
      by rw [hr, hr1], ht⟩

theorem continueTask_live (h : Live chain s) (hop : continueTask s = .ok t) : Live chain t ∧ TaskFits loose t := by
  obtain ⟨hrun, x, hmem, hw, hst, hrt, ht⟩ := continueTask_cases hop
  have hl : x.status.isLive = true := by rw [hw]; rfl
  obtain ⟨ps, htip⟩ := h.rows.tip_of_isLive hmem hl
  have hclean := h.rows.clean_of_isLive hmem hl
  refine ⟨(h.retip htip (by rw [hrun]; decide) hst rfl rfl (fun _ => hclean) fun _ => by rw [hrt]; trivial).1, ?_⟩
  rw [TaskFits.running hrt]
  exact Or.inr (Or.inl ht)

theorem blockRoute_cases {id : Nat} {category summary : String} {quota : Bool}
    (h : blockRoute s id now category summary quota = .ok t) :
    t = s ∨ ∃ x ∈ s.steps, x.status = .queued ∧ s.run.status = .running ∧
      t.steps = put Step.key (unroutedStep category summary { x with status := .blocked }) s.steps ∧
      t.run.status = .blocked ∧ (t.task.status = .blocked ∨ t.task.status = .quotaExhausted) := by
  unfold blockRoute at h
  split at h
  · cases h
    exact Or.inl rfl
  · rename_i x hfind
    split at h
    · cases h
      exact Or.inl rfl
    · rename_i hg
      obtain ⟨-, h1⟩ := transitionStep_bind.mp h
      obtain ⟨s1, hs1, h2⟩ := bind_eq_ok.mp h1
      obtain ⟨hr1, -, hst1⟩ := transitionRun_status hs1
      obtain ⟨ht, hr, hs⟩ := moveTask_status h2
      simp only [Bool.or_eq_true, decide_eq_true_eq, not_or, not_not, ne_eq] at hg
      refine Or.inr ⟨x, (State.mem_of_step? hfind).1, hg.1.1.1, hg.2, ?_, ?_, ?_⟩
      · rw [hs]
        exact hst1
      · rw [hr]
        exact hr1
      · rw [ht]
        cases quota <;> simp

theorem blockRoute_live {id : Nat} {category summary : String} {quota : Bool} (h : Live chain s)
    (hop : blockRoute s id now category summary quota = .ok t) : Live chain t ∧ KeepsTask s t := by
  rcases blockRoute_cases hop with rfl | ⟨x, hx, hq, hrun, hs, hr, ht⟩
  · exact ⟨h, fun _ hfit => hfit⟩
  · obtain ⟨ps, htip⟩ := h.rows.tip_of_isLive hx (by rw [hq]; rfl)
    refine ⟨(h.block htip (by rw [hrun]; decide) hs rfl rfl).1, fun loose _ => ?_⟩
    simp only [TaskFits, hr]
    exact ht

theorem requestApproval_cases {token : LeaseToken} {body : String} {shared : Option Nat} {expiresAt : Nat}
    (h : requestApproval s token body shared expiresAt = .ok t) :
    t.run = s.run ∧ t.task = s.task ∧ (t.steps = s.steps ∨ ∃ x ∈ s.steps, x.status.isHeld = true ∧
      ∃ y, t.steps = put Step.key y s.steps ∧ Kept x y ∧ y.status = x.status ∧
        y.unknownEffects = x.unknownEffects) := by
  unfold requestApproval at h
  split at h
  · cases h
  · rename_i x hfind
    have hx := (State.mem_of_step? hfind).1
    split_ifs at h with hheld
    simp only [Bool.or_eq_true, Bool.not_eq_true', not_or, Bool.not_eq_false] at hheld
    split at h
    · cases h
    · split at h
      · cases h
        exact ⟨rfl, rfl, Or.inl rfl⟩
      · split at h
        · cases h
          unfold joinApproval
          split
          · exact ⟨rfl, rfl, Or.inr ⟨x, hx, hheld.2, _, rfl, ⟨rfl, rfl, rfl, rfl, rfl⟩, rfl, rfl⟩⟩
          · exact ⟨rfl, rfl, Or.inl rfl⟩
        · cases h
          exact ⟨rfl, rfl, Or.inr ⟨x, hx, hheld.2, _, rfl, ⟨rfl, rfl, rfl, rfl, rfl⟩, rfl, rfl⟩⟩

theorem requestApproval_live {token : LeaseToken} {body : String} {shared : Option Nat} {expiresAt : Nat}
    (hc : Chain chain) (h : Live chain s) (hop : requestApproval s token body shared expiresAt = .ok t) :
    Live chain t ∧ KeepsTask s t := by
  obtain ⟨hr, ht, hsame | ⟨x, hx, hheld, y, hs, hy, hst, hu⟩⟩ := requestApproval_cases hop
  · refine ⟨h.congr hsame (by rw [hr]), fun loose hfit => ?_⟩
    simp only [TaskFits, hr, ht, hsame]
    exact hfit
  · obtain ⟨hrun, ps, htip⟩ := h.held hx hheld
    have hw := StepStatus.isWorking_of_isHeld hheld
    exact h.work hc htip hrun hw hs hy.toStepSpec (by rw [hst]; exact hw) hu (by rw [hr, hrun]) (by rw [ht])

theorem wakeCapabilityWaiter_cases {id approvalId : Nat} (h : wakeCapabilityWaiter s id approvalId = .ok t) :
    t = s ∨ ∃ x, s.step? id = some x ∧ x.status = .waitingApproval ∧
      x.payload.capabilityWaitApprovalId = some approvalId ∧ s.run.status = .running ∧ t.run = s.run ∧
      t.steps = put Step.key { x with status := .queued, attemptCount := x.attemptCount - 1 } s.steps ∧
      (s.task.status = .waitingApproval ∧ t.task.status = .executing ∨
        s.task.status ≠ .waitingApproval ∧ t.task.status = s.task.status) := by
  unfold wakeCapabilityWaiter at h
  split at h
  · cases h
    exact Or.inl rfl
  · rename_i x hfind
    split_ifs at h with hg
    · cases h
      exact Or.inl rfl
    · obtain ⟨-, h1⟩ := transitionStep_bind.mp h
      simp only [Bool.or_eq_true, decide_eq_true_eq, not_or, not_not, ne_eq] at hg
      refine Or.inr ⟨x, hfind, hg.1.1, hg.1.2, hg.2, ?_⟩
      simp only at h1
      split_ifs at h1 with htask
      · obtain ⟨ht, hr, hs⟩ := transitionTask_status h1
        exact ⟨hr, hs, Or.inl ⟨htask, ht⟩⟩
      · cases h1
        exact ⟨rfl, rfl, Or.inr ⟨htask, rfl⟩⟩

theorem wakeCapabilityWaiter_live {id approvalId : Nat} (hc : Chain chain) (h : Live chain s)
    (hop : wakeCapabilityWaiter s id approvalId = .ok t) : Live chain t ∧ KeepsTask s t := by
  rcases wakeCapabilityWaiter_cases hop with rfl | ⟨x, hfind, hw, -, hrun, hr, hs, htask⟩
  · exact ⟨h, fun _ hfit => hfit⟩
  · have hx := (State.mem_of_step? hfind).1
    have hl : x.status.isLive = true := by rw [hw]; rfl
    obtain ⟨ps, htip⟩ := h.rows.tip_of_isLive hx hl
    have hf : s.run.status ≠ .failed := by rw [hrun]; decide
    have hrt : t.run.status = .running := by rw [hr, hrun]
    have hclean := h.rows.clean_of_isLive hx hl
    obtain ⟨hlive, htip'⟩ := h.retip htip hf hs rfl rfl (fun _ => hclean) fun _ => by rw [hrt]; trivial
    refine ⟨hlive, fun loose hfit => ?_⟩
    rw [TaskFits.running hrt]
    rcases htask with ⟨-, ht⟩ | ⟨hne, ht⟩
    · exact Or.inr (Or.inl ht)
    · -- A task that does not show the wait is behind a parked revalidation, or was set by a command.
      rw [TaskFits.running hrun, deriveTaskStatus_tip hc h.rows (h.noFailed hf) htip] at hfit
      rw [deriveTaskStatus_tip hc hlive.rows (hlive.noFailed (by rw [hrt]; decide)) htip', ht]
      rcases hfit with hfit | hfit
      · split_ifs at hfit ⊢
        · exact Or.inl hfit
        · exact absurd (hfit.trans (by simp [Step.taskStatus, hw])) hne
      · exact Or.inr hfit

end Others

end Vuzol.Workflow
