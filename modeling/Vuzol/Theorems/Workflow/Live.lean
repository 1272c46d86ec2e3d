import Vuzol.Theorems.Workflow.Projection

/-! The invariant of the engine. The rows form a waiting stack, the run allows what the top of the stack is
    doing, and the task follows the run. -/

namespace Vuzol.Workflow

open Vuzol.Lib

variable {qs : List Step} {target : TaskStatus}

/-- What a run allows its live tip to be. A blocked run has a live tip only where a parked revalidation hid it
    from a resume. -/
def TipFits (run : RunStatus) (ps : List Step) (x : Step) : Prop :=
  match run with
  | .running => True
  | .paused => x.status.isHeld = false
  | .awaitingUser => x.status = .awaitingUser
  | .blocked => x.status.isHeld = false ∧ revalidates ps = true
  | .created | .failed | .cancelled | .completed => False

structure Live (chain : List StepSpec) (s : State) : Prop where
  rows : Rows chain s.steps
  noFailed : s.run.status ≠ .failed → NoFailed s.steps
  tip : ∀ {ps x}, Tip s.steps ps x → x.status.isLive = true → TipFits s.run.status ps x

/-- The task of a run. `loose`: a result may be approved while the run is paused, which continues the task
    alone. -/
def TaskFits (loose : Prop) (s : State) : Prop :=
  match s.run.status with
  | .created => s.task.status = .interpreted
  | .running => s.task.status = deriveTaskStatus s.steps .running ∨ s.task.status = .executing ∨
      s.task.status = .retrying
  | .awaitingUser => s.task.status = .awaitingUser
  | .paused => s.task.status = .paused ∨
      (loose ∧ s.task.status = .executing ∧ ∃ x ∈ s.steps, x.status = .queued ∧ asksConsent x.stepType = true)
  | .blocked => s.task.status = .blocked ∨ s.task.status = .quotaExhausted
  | .failed => s.task.status = .failed
  | .cancelled => s.task.status = .cancelled
  | .completed => s.task.status = .completed

def KeepsTask (s t : State) : Prop := ∀ loose, TaskFits loose s → TaskFits loose t

structure Inv (loose : Prop) (chain : List StepSpec) (s : State) : Prop where
  live : Live chain s
  task : TaskFits loose s
  consented : ∀ x ∈ s.steps, x.Consented

structure Dead (s : State) : Prop where
  run : s.run.status = .cancelled
  task : s.task.status = .cancelled
  rows : ∀ x ∈ s.steps, x.status.isTerminal = true

section Basics
variable {loose : Prop} {chain : List StepSpec} {rows ps ps' : List Step} {x y c : Step} {s t : State}

theorem Tip.unique (h : Tip rows ps x) (h' : Tip rows ps' y) : ps = ps' ∧ x = y := by
  have heq := h.opens.symm.trans h'.opens
  exact List.append_singleton_inj.mp heq

theorem Tip.not_nil (h : Tip rows ps x) : openRows rows ≠ [] := by
  rw [h.opens]
  simp

section
variable (hr : Rows chain t.steps) (hf : t.run.status ≠ .failed → NoFailed t.steps)
include hr hf

theorem Live.of_tip (htip : Tip t.steps ps x) (hfit : x.status.isLive = true → TipFits t.run.status ps x) : Live chain t where
  rows := hr
  noFailed := hf
  tip htip' hlive := by
    obtain ⟨rfl, rfl⟩ := htip.unique htip'
    exact hfit hlive

theorem Live.of_closed (hnil : openRows t.steps = []) : Live chain t where
  rows := hr
  noFailed := hf
  tip htip := absurd hnil htip.not_nil

end

theorem NoFailed.put_row (h : NoFailed rows) (hy : y.status ≠ .failed) : NoFailed (put Step.key y rows) := by
  intro z hz
  rcases mem_or_of_mem_put hz with rfl | hz
  · exact hy
  · exact h z hz

theorem NoFailed.append_row (h : NoFailed rows) (hc : c.status ≠ .failed) : NoFailed (rows ++ [c]) := by
  intro z hz
  rcases Lib.mem_concat.mp hz with hz | rfl
  · exact h z hz
  · exact hc

theorem Live.held (h : Live chain s) (hx : x ∈ s.steps) (hheld : x.status.isHeld = true) :
    s.run.status = .running ∧ ∃ ps, Tip s.steps ps x := by
  obtain ⟨ps, htip⟩ := h.rows.tip_of_isLive hx (StepStatus.isLive_of_isHeld hheld)
  refine ⟨?_, ps, htip⟩
  have hfit := h.tip htip (StepStatus.isLive_of_isHeld hheld)
  cases hrun : s.run.status with
  | running => rfl
  | awaitingUser =>
    rw [hrun] at hfit
    rw [show x.status = .awaitingUser from hfit] at hheld
    cases hheld
  | paused =>
    rw [hrun] at hfit
    rw [show x.status.isHeld = false from hfit] at hheld
    cases hheld
  | blocked =>
    rw [hrun] at hfit
    rw [hfit.1] at hheld
    cases hheld
  | created | failed | cancelled | completed =>
    rw [hrun] at hfit
    exact hfit.elim

theorem Live.congr (h : Live chain s) (hsteps : t.steps = s.steps) (hrun : t.run.status = s.run.status) :
    Live chain t := by
  obtain ⟨hr, hf, ht⟩ := h
  rw [← hsteps] at hr hf ht
  rw [← hrun] at hf ht
  exact ⟨hr, hf, fun htip hl => ht htip hl⟩

section
variable (h : Live chain s) (htip : Tip s.steps ps x) (hs : s.run.status ≠ .failed)
    (ht : t.steps = put Step.key y s.steps) (hy : y.toStepSpec = x.toStepSpec)
include h htip hs ht hy

theorem Live.retip (hopen : y.status.isOpen = true) (hclean : y.status.isLive = true → y.unknownEffects = false)
    (hfit : y.status.isLive = true → TipFits t.run.status ps y) : Live chain t ∧ Tip t.steps ps y := by
  obtain ⟨hr, htip'⟩ := h.rows.retip htip hy hopen hclean
  have hf : NoFailed (put Step.key y s.steps) :=
    (h.noFailed hs).put_row (by rintro hf; rw [hf] at hopen; cases hopen)
  rw [← ht] at hr htip' hf
  exact ⟨.of_tip hr (fun _ => hf) htip' hfit, htip'⟩

theorem Live.block (hb : y.status = .blocked) : Live chain t ∧ Tip t.steps ps y := by
  have hdead : y.status.isLive = false := by rw [hb]; rfl
  exact h.retip htip hs ht hy (by rw [hb]; rfl) (fun hl => by rw [hdead] at hl; cases hl) fun hl => by
    rw [hdead] at hl
    cases hl

theorem Live.close (hopen : y.status.isOpen = false)
    (hp : y.status ≠ .pending) (hf : t.run.status ≠ .failed → y.status ≠ .failed) : Live chain t := by
  obtain ⟨hr, hopens, hpop⟩ := h.rows.close htip hy hopen hp
  have hf' : t.run.status ≠ .failed → NoFailed (put Step.key y s.steps) :=
    fun hne => (h.noFailed hs).put_row (hf hne)
  rw [← ht] at hr hf' hopens hpop
  rcases List.eq_nil_or_concat ps with hnil | ⟨qs, q, hqs⟩
  · exact .of_closed hr hf' (hopens.trans hnil)
  · rw [List.concat_eq_append] at hqs
    have hq : q.status = .blocked := (htip.stack.parked (by rw [hqs]; simp)).blocked
    exact .of_tip hr hf' (hpop qs q hqs) fun hl => by rw [hq] at hl; cases hl

end

theorem Tip.mem_parked (hn : (s.steps.map Step.key).Nodup) {p : Step} (htip : Tip s.steps (qs ++ [p]) x)
    (hy : y.toStepSpec = x.toStepSpec) : p ∈ put Step.key y s.steps := by
  have hne := htip.parent_ne hn (p := p) (by simp)
  refine mem_put_of_ne (htip.mem_parent (by simp)) ?_
  rw [show Step.key y = x.id from congrArg StepSpec.id hy]
  exact hne

/-! ### The task -/

def StepStatus.isWorking : StepStatus → Bool
  | .queued | .leased | .running => true
  | _ => false

theorem StepStatus.isLive_of_isWorking {a : StepStatus} (h : a.isWorking = true) : a.isLive = true := by
  cases a <;> first | rfl | cases h

theorem StepStatus.isWorking_of_isHeld {a : StepStatus} (h : a.isHeld = true) : a.isWorking = true := by
  cases a <;> first | rfl | cases h

theorem Step.taskStatus_working (h : x.status.isWorking = true) : x.taskStatus = x.toStepSpec.workStatus := by
  unfold Step.taskStatus
  cases hs : x.status <;> simp_all [StepStatus.isWorking]

theorem StepSpec.workStatus_mem (c : StepSpec) :
    c.workStatus ∈ [TaskStatus.executing, .retrying, .contextPrepared, .validating, .reviewing] := by
  unfold StepSpec.workStatus
  split_ifs
  · simp
  · simp
  · split <;> simp

theorem Step.taskStatus_live (h : x.status.isLive = true) :
    (x.status = .waitingApproval ∧ x.taskStatus = .waitingApproval) ∨
      (x.status = .awaitingUser ∧ x.taskStatus = .awaitingUser) ∨
      (x.status.isWorking = true ∧ x.taskStatus = x.toStepSpec.workStatus) := by
  cases hs : x.status with
  | waitingApproval => exact Or.inl ⟨rfl, by simp [Step.taskStatus, hs]⟩
  | awaitingUser => exact Or.inr (Or.inl ⟨rfl, by simp [Step.taskStatus, hs]⟩)
  | queued | leased | running => exact Or.inr (Or.inr ⟨rfl, Step.taskStatus_working (by rw [hs]; rfl)⟩)
  | blocked | pending | failed | cancelled | completed =>
    rw [hs] at h
    cases h

theorem Step.taskStatus_mem (x : Step) : x.taskStatus ∈
    [TaskStatus.waitingApproval, .awaitingUser, .blocked, .failed, .executing, .retrying, .contextPrepared, .validating,
      .reviewing] := by
  have hwork := x.toStepSpec.workStatus_mem
  unfold Step.taskStatus
  split
  · simp
  · simp
  · simp
  · simp
  · simp only [List.mem_cons, List.not_mem_nil, or_false] at hwork ⊢
    tauto

theorem deriveTaskStatus_running_mem (rows : List Step) : deriveTaskStatus rows .running ∈
    [TaskStatus.waitingApproval, .awaitingUser, .blocked, .failed, .executing, .retrying, .contextPrepared, .validating,
      .reviewing] := by
  unfold deriveTaskStatus
  simp only
  split
  · simp
  · exact Step.taskStatus_mem _

theorem TaskFits.of_derive (h : t.task.status = deriveTaskStatus t.steps t.run.status) : TaskFits loose t := by
  unfold TaskFits
  cases hrun : t.run.status <;> rw [hrun] at h
  · exact h
  · exact Or.inl h
  · exact h
  · exact Or.inl h
  · exact Or.inl h
  · exact h
  · exact h
  · exact h

theorem TaskFits.running (hrun : s.run.status = .running) : TaskFits loose s ↔
    s.task.status = deriveTaskStatus s.steps .running ∨ s.task.status = .executing ∨ s.task.status = .retrying := by
  simp only [TaskFits, hrun]

theorem Live.work (hc : Chain chain) (h : Live chain s) (htip : Tip s.steps ps x) (hrun : s.run.status = .running)
    (hx : x.status.isWorking = true) (ht : t.steps = put Step.key y s.steps) (hy : y.toStepSpec = x.toStepSpec)
    (hw : y.status.isWorking = true) (hu : y.unknownEffects = x.unknownEffects) (htr : t.run.status = .running)
    (htask : t.task.status = s.task.status) : Live chain t ∧ KeepsTask s t := by
  have hlx := StepStatus.isLive_of_isWorking hx
  have hly := StepStatus.isLive_of_isWorking hw
  have hne : s.run.status ≠ .failed := by rw [hrun]; decide
  have hclean : y.unknownEffects = false := hu.trans (h.rows.clean_of_isLive htip.mem hlx)
  obtain ⟨hlive, htip'⟩ := h.retip htip hne ht hy (StepStatus.isOpen_of_isLive hly) (fun _ => hclean)
    (fun _ => by rw [htr]; trivial)
  refine ⟨hlive, fun loose hfit => ?_⟩
  have hderive : deriveTaskStatus t.steps .running = deriveTaskStatus s.steps .running := by
    rw [deriveTaskStatus_tip hc hlive.rows (hlive.noFailed (by rw [htr]; decide)) htip',
      deriveTaskStatus_tip hc h.rows (h.noFailed hne) htip, Step.taskStatus_working hw, Step.taskStatus_working hx, hy]
  rw [TaskFits.running hrun] at hfit
  rw [TaskFits.running htr, hderive, htask]
  exact hfit

theorem transitionTask_status (h : transitionTask s target = .ok t) :
    t.task.status = target ∧ t.run = s.run ∧ t.steps = s.steps := by
  obtain ⟨-, rfl⟩ := transitionTask_eq_ok.mp h
  exact ⟨rfl, rfl, rfl⟩

theorem transitionRun_status {target : RunStatus} (h : transitionRun s target = .ok t) :
    t.run.status = target ∧ t.task = s.task ∧ t.steps = s.steps := by
  obtain ⟨-, rfl⟩ := transitionRun_eq_ok.mp h
  exact ⟨rfl, rfl, rfl⟩

theorem moveTask_status (h : moveTask s target = .ok t) : t.task.status = target ∧ t.run = s.run ∧ t.steps = s.steps := by
  unfold moveTask at h
  split_ifs at h with hs
  · cases h
    exact ⟨hs, rfl, rfl⟩
  · exact transitionTask_status h

theorem projectTask_status {o : StepOutcome} (h : projectTask o s = .ok t) :
    t.task.status = deriveTaskStatus t.steps t.run.status ∧ t.run = s.run ∧ t.steps = s.steps := by
  unfold projectTask at h
  simp only at h
  split_ifs at h with h1 h2
  · obtain ⟨ht, hr, hs⟩ := transitionTask_status h
    exact ⟨by rw [ht, hr, hs], hr, hs⟩
  · cases h
    exact ⟨(not_not.mp h1).symm, rfl, rfl⟩
  · cases h
    exact ⟨(not_not.mp h1).symm, rfl, rfl⟩

end Basics

section Service
variable {loose : Prop} {chain : List StepSpec} {ps : List Step} {x y c : Step} {s t u : State} {f : Facts}
  {o : StepOutcome}

/-! ### The service -/

theorem Live.park (h : Live chain s) (htip : Tip s.steps ps x) (hs : s.run.status ≠ .failed)
    (ht : t.steps = put Step.key y s.steps ++ [c]) (hy : y.toStepSpec = x.toStepSpec) (hb : y.status = .blocked)
    (hstack : Stack (ps ++ [y]) c.toStepSpec) (hadd : Added s.steps c) (hrun : t.run.status = .running) :
    Live chain t ∧ Tip t.steps (ps ++ [y]) c := by
  obtain ⟨hr, htip'⟩ := h.rows.park htip hy hb hstack hadd.id hadd.ordinal hadd.predecessors
    (by rw [hadd.queued]; rfl) hadd.clean
  have hf := ((h.noFailed hs).put_row (y := y) (by rw [hb]; decide)).append_row (c := c) (by rw [hadd.queued]; decide)
  rw [← ht] at hr htip' hf
  exact ⟨.of_tip hr (fun _ => hf) htip' fun _ => by rw [hrun]; trivial, htip'⟩

theorem Live.wake {p p' : Step} (h : Live chain s) (htip : Tip s.steps (qs ++ [p]) x) (hs : s.run.status ≠ .failed)
    (ht : t.steps = put Step.key p' (put Step.key y s.steps)) (hy : y.toStepSpec = x.toStepSpec)
    (hcomp : y.status = .completed) (hp : Woken p p') (hrun : t.run.status = .running) :
    Live chain t ∧ Tip t.steps qs p' := by
  obtain ⟨hr, htip'⟩ := h.rows.wake htip hy (by rw [hcomp]; rfl) (by rw [hcomp]; decide) hp.toStepSpec
    (by rw [hp.queued]; rfl) (fun _ => hp.clean)
  have hf := ((h.noFailed hs).put_row (y := y) (by rw [hcomp]; decide)).put_row (y := p') (by rw [hp.queued]; decide)
  rw [← ht] at hr htip' hf
  exact ⟨.of_tip hr (fun _ => hf) htip' fun _ => by rw [hrun]; trivial, htip'⟩

theorem Live.open_ready (hc : Chain chain) {rows : List Step} (hr : Rows chain rows) (hf : NoFailed rows)
    (hnil : openRows rows = []) (hx : x ∈ rows) (hready : Step.ready rows x = true) (hy : Opened x y)
    (ht : t.steps = put Step.key y rows) (hrun : t.run.status = .running) : Live chain t ∧ Tip t.steps [] y := by
  obtain ⟨hr', htip'⟩ := hr.enter_ready hc hnil hx hready hy
  have hf' := hf.put_row (y := y) (by rintro hs; have hl := hy.isLive; rw [hs] at hl; cases hl)
  rw [← ht] at hr' htip' hf'
  exact ⟨.of_tip hr' (fun _ => hf') htip' fun _ => by rw [hrun]; trivial, htip'⟩

theorem Live.settled (h : Live chain s) (htip : Tip s.steps [] x) (hs : s.run.status ≠ .failed)
    (hy : y.toStepSpec = x.toStepSpec) (hcomp : y.status = .completed) :
    Rows chain (put Step.key y s.steps) ∧ NoFailed (put Step.key y s.steps) ∧
      openRows (put Step.key y s.steps) = [] := by
  obtain ⟨hr, hnil, -⟩ := h.rows.close htip hy (by rw [hcomp]; rfl) (by rw [hcomp]; decide)
  exact ⟨hr, (h.noFailed hs).put_row (by rw [hcomp]; decide), hnil⟩

theorem Live.revalidate {p : Step} (h : Live chain s) (htip : Tip s.steps (qs ++ [p]) x) (hs : s.run.status ≠ .failed)
    (ht : t.steps = put Step.key y s.steps ++ [c]) (hy : y.toStepSpec = x.toStepSpec) (hcomp : y.status = .completed)
    (hadd : Added s.steps c) (hr : Revalidates p c.toStepSpec) (hrun : t.run.status = .running) :
    Live chain t ∧ Tip t.steps (qs ++ [p]) c := by
  obtain ⟨hr1, hopens, -⟩ := h.rows.close htip hy (by rw [hcomp]; rfl) (by rw [hcomp]; decide)
  obtain ⟨hr2, htip'⟩ := hr1.push hopens (by simp) (htip.stack.push_revalidate hr) (by rw [length_put, hadd.id])
    (by rw [length_put, hadd.ordinal]) hadd.predecessors (by rw [hadd.queued]; rfl) hadd.clean
  have hf := ((h.noFailed hs).put_row (y := y) (by rw [hcomp]; decide)).append_row (c := c)
    (by rw [hadd.queued]; decide)
  rw [← ht] at hr2 htip' hf
  exact ⟨.of_tip hr2 (fun _ => hf) htip' fun _ => by rw [hrun]; trivial, htip'⟩

section
variable (hc : Chain chain)
include hc

theorem Completed.live (h : Live chain s) (htip : Tip s.steps ps x) (hrun : s.run.status = .running)
    (hy : y.toStepSpec = x.toStepSpec) (hcomp : y.status = .completed)
    (hcom : Completed s ps x y t.run.status t.steps) : Live chain t := by
  have hs : s.run.status ≠ .failed := by rw [hrun]; decide
  have hclosed : y.status.isOpen = false := by rw [hcomp]; rfl
  have hp : y.status ≠ .pending := by rw [hcomp]; decide
  generalize hr : t.run.status = run at hcom
  generalize ht : t.steps = rows at hcom
  cases hcom with
  | ended => exact h.close htip hs ht hy hclosed hp fun _ => by rw [hcomp]; decide
  | opened hps hw hready hz =>
    subst hps
    obtain ⟨hr', hf', hnil⟩ := h.settled htip hs hy hcomp
    exact (Live.open_ready hc hr' hf' hnil hw hready hz ht hr).1
  | woke hps hwoken => subst hps; exact (h.wake htip hs ht hy hcomp hwoken hr).1
  | refunded hps hwoken => subst hps; exact (h.wake htip hs ht hy hcomp hwoken hr).1
  | revalidated hps hadd hrev => subst hps; exact (h.revalidate htip hs ht hy hcomp hadd hrev hr).1
  | stranded => exact h.close htip hs ht hy hclosed hp fun _ => by rw [hcomp]; decide

theorem Committed.live (h : Live chain s) (htip : Tip s.steps ps x)
    (hlive : x.status.isLive = true) (hrun : s.run.status = .running)
    (hcom : Committed f s ps x o t.run.status t.steps) : Live chain t := by
  have hs : s.run.status ≠ .failed := by rw [hrun]; decide
  have hclean := h.rows.clean_of_isLive htip.mem hlive
  have hfit : ∀ z : Step, t.run.status = .running → z.status.isLive = true → TipFits t.run.status ps z := by
    intro z hr _
    rw [hr]
    trivial
  generalize hr : t.run.status = run at hcom
  generalize ht : t.steps = rows at hcom
  cases hcom with
  | @waited y _ hy hq hu =>
    exact (h.retip htip hs ht hy (by rw [hq]; rfl) (fun _ => hu.trans hclean) (hfit y hr)).1
  | @retried y _ hy hq hu =>
    exact (h.retip htip hs ht hy.toStepSpec (by rw [hq]; rfl) (fun _ => hu.trans hclean) (hfit y hr)).1
  | @released y _ _ hy hq hu =>
    exact (h.retip htip hs ht hy (by rw [hq]; rfl) (fun _ => hu.trans hclean) (hfit y hr)).1
  | @asked y _ _ hy hq hu =>
    exact (h.retip htip hs ht hy.toStepSpec (by rw [hq]; rfl) (fun _ => hu.trans hclean) (hfit y hr)).1
  | questioned _ hy hq hu =>
    refine (h.retip htip hs ht hy.toStepSpec (by rw [hq]; rfl) (fun _ => hu.trans hclean) fun _ => ?_).1
    rw [hr]
    exact hq
  | stopped hy hq => exact (h.block htip hs ht hy.toStepSpec hq).1
  | failed _ _ hy hq =>
    exact h.close htip hs ht hy.toStepSpec (by rw [hq]; rfl) (by rw [hq]; decide) fun hne => absurd hr hne
  | cancelled _ _ hy hq =>
    exact h.close htip hs ht hy.toStepSpec (by rw [hq]; rfl) (by rw [hq]; decide) fun _ => by rw [hq]; decide
  | repaired _ _ hy hp hadd hrep =>
    exact (h.park htip hs ht hy.toStepSpec hp.blocked (htip.stack.push_repair hy.toStepSpec hp hrep) hadd hr).1
  | preflighted _ _ hy _ _ _ hp hadd hpre =>
    exact (h.park htip hs ht hy hp.blocked (htip.stack.push_preflight hy hp hpre) hadd hr).1
  | completed _ hy hq hcomp =>
    subst hr ht
    exact hcomp.live hc h htip hrun hy.toStepSpec hq

theorem commitStepOutcome_live {token : LeaseToken} (h : Live chain s)
    (hop : commitStepOutcome f s token o = .ok t) : Live chain t ∧ KeepsTask s t := by
  unfold commitStepOutcome at hop
  obtain ⟨x, hx, hop⟩ := bind_eq_ok.mp hop
  obtain ⟨u, hu, hop⟩ := bind_eq_ok.mp hop
  obtain ⟨hfind, -, hheld, -, -⟩ := leasedRow_eq_ok hx
  have hmem := (State.mem_of_step? hfind).1
  obtain ⟨hrun, ps, htip⟩ := h.held hmem hheld
  have hcom := commitRows_cases hc h.rows htip hheld hrun hu
  have hlive := hcom.live hc h htip (StepStatus.isLive_of_isHeld hheld) hrun
  obtain ⟨htask, hr, hs⟩ := projectTask_status hop
  exact ⟨hlive.congr hs (by rw [hr]), fun _ _ => .of_derive htask⟩

theorem activateReadySteps_live (h : activateReadySteps f s = .ok t) (hr : Rows chain s.steps)
    (hf : NoFailed s.steps) (hrun : s.run.status = .running) :
    Live chain t ∧ t.run = s.run ∧ t.task = s.task ∧
      ((openRows s.steps ≠ [] ∧ t = s) ∨ (openRows s.steps = [] ∧ (t = s ∨
        ∃ x ∈ s.steps, Step.ready s.steps x = true ∧ ∃ y, Opened x y ∧ t.steps = put Step.key y s.steps))) := by
  rcases hr.waiting with hnil | ⟨ps, x, htip⟩
  · rcases activateReadySteps_cases hc hr h with rfl | ⟨x, hx, hready, hact⟩
    · exact ⟨.of_closed hr (fun _ => hf) hnil, rfl, rfl, Or.inr ⟨hnil, Or.inl rfl⟩⟩
    · obtain ⟨y, hy, hs, hr', ht', -⟩ := activateStep_eq_ok hact
      have hlive := (Live.open_ready hc hr hf hnil hx hready hy hs (by rw [hr', hrun])).1
      exact ⟨hlive, hr', ht', Or.inr ⟨hnil, Or.inr ⟨x, hx, hready, y, hy, hs⟩⟩⟩
  · rw [activateReadySteps_open hc hr htip] at h
    cases h
    exact ⟨.of_tip hr (fun _ => hf) htip fun _ => by rw [hrun]; trivial, rfl, rfl, Or.inl ⟨htip.not_nil, rfl⟩⟩

theorem startRun_cases (h : Live chain s) (hop : startRun f s = .ok t) :
    t = s ∨ Live chain t ∧ t.run.status = .running ∧ t.task.status = deriveTaskStatus t.steps t.run.status ∧
      t.steps.filter (Step.ready t.steps) = [] ∧ (t.steps = s.steps ∨
        ∃ x ∈ s.steps, Step.ready s.steps x = true ∧ ∃ y, Opened x y ∧ t.steps = put Step.key y s.steps) := by
  unfold startRun at hop
  split_ifs at hop with hrun hcreated
  · cases hop
    exact Or.inl rfl
  · obtain ⟨s1, h1, hop1⟩ := bind_eq_ok.mp hop
    obtain ⟨s2, h2, hop2⟩ := bind_eq_ok.mp hop1
    obtain ⟨-, rfl⟩ := transitionRun_eq_ok.mp h1
    have hne : s.run.status ≠ .failed := by rw [not_not.mp hcreated]; decide
    obtain ⟨hlive, hr2, -, hrows⟩ := activateReadySteps_live hc h2 h.rows (h.noFailed hne) rfl
    have hsettled := activateReadySteps_settled hc (by exact h.rows) (by rfl) h2
    obtain ⟨htask, hr, hs⟩ := moveTask_status hop2
    refine Or.inr ⟨hlive.congr hs (by rw [hr]), by rw [hr, hr2], by rw [htask, hr, hs], by rw [hs]; exact hsettled, ?_⟩
    rw [hs]
    rcases hrows with ⟨-, rfl⟩ | ⟨-, rfl | hrows⟩
    · exact Or.inl rfl
    · exact Or.inl rfl
    · exact Or.inr hrows

theorem startRun_live (h : Live chain s) (hop : startRun f s = .ok t) : Live chain t ∧ KeepsTask s t := by
  rcases startRun_cases hc h hop with rfl | ⟨hlive, -, htask, -⟩
  · exact ⟨h, fun _ hfit => hfit⟩
  · exact ⟨hlive, fun _ _ => .of_derive htask⟩

end

end Service

section Leases
variable {loose : Prop} {chain : List StepSpec} {ps : List Step} {x y : Step} {s t : State} {token : LeaseToken}

/-! ### Leases -/

theorem claimable_eq_true {k : Claim} (h : claimable s k x = true) :
    x.status = .queued ∧ x.attemptCount < x.maxAttempts ∧ s.run.status = .running := by
  simp only [claimable, Bool.and_eq_true, decide_eq_true_eq] at h
  exact ⟨h.1.1.1.1.1, h.1.1.1.2, h.2⟩

section
variable (hc : Chain chain) (h : Live chain s)
include hc h

theorem claimStep_live {k : Claim} (hop : perform s (.claimStep k) = .ok t) : Live chain t ∧ KeepsTask s t := by
  rcases perform_claim_cases hop with rfl | ⟨x, hfind, hclaim, rfl⟩
  · exact ⟨h, fun _ hfit => hfit⟩
  obtain ⟨hq, -, hrun⟩ := claimable_eq_true hclaim
  obtain ⟨ps, htip⟩ := h.rows.tip_of_isLive (State.mem_of_step? hfind).1 (by rw [hq]; rfl)
  exact h.work hc (t := s.putStep (leaseStep k x)) htip hrun (by rw [hq]; rfl) rfl rfl rfl rfl hrun rfl

theorem updateLeased_live {matched : Step → Bool} {change : Step → Step} (hop : updateLeased s token matched change = .ok t)
    (hheld : ∀ x, matched x = true → x.status.isHeld = true) (hspec : ∀ x, (change x).toStepSpec = x.toStepSpec)
    (hstatus : ∀ x, x.status.isHeld = true → (change x).status.isHeld = true)
    (hu : ∀ x, (change x).unknownEffects = x.unknownEffects) : Live chain t ∧ KeepsTask s t := by
  obtain ⟨x, hfind, -, hm, rfl⟩ := updateLeased_eq_ok hop
  obtain ⟨hrun, ps, htip⟩ := h.held (State.mem_of_step? hfind).1 (hheld x hm)
  exact h.work hc (t := s.putStep (change x)) htip hrun (StepStatus.isWorking_of_isHeld (hheld x hm)) rfl (hspec x)
    (StepStatus.isWorking_of_isHeld (hstatus x (hheld x hm))) (hu x) hrun rfl

theorem startStep_live (hop : startStep s token = .ok t) : Live chain t ∧ KeepsTask s t := by
  unfold startStep at hop
  obtain ⟨s1, h1, hop1⟩ := bind_eq_ok.mp hop
  obtain ⟨hlive, htask⟩ := updateLeased_live hc h h1
    (fun x hm => by
      simp only [Bool.and_eq_true, decide_eq_true_eq] at hm
      rw [hm.1]
      rfl)
    (fun _ => rfl) (fun _ _ => rfl) (fun _ => rfl)
  cases hop1
  exact ⟨hlive.congr rfl rfl, htask⟩

theorem heartbeatStep_live {now leaseSeconds : Nat} (hop : heartbeatStep s token now leaseSeconds = .ok t) :
    Live chain t ∧ KeepsTask s t := by
  unfold heartbeatStep at hop
  refine updateLeased_live hc h hop (fun x hm => ?_) (fun _ => rfl) (fun _ hx => hx) (fun _ => rfl)
  rw [Bool.and_eq_true] at hm
  exact hm.1

end

def Task.Unsettled (a : Task) : Prop := a.status ≠ .cancelled ∧ a.status ≠ .completed

theorem stopTask_run (h : stopTask s target = .ok t) : t.run = s.run := by
  unfold stopTask at h
  split_ifs at h
  · cases h
    rfl
  · exact (transitionTask_status h).2.1

theorem stopTask_status (h : stopTask s target = .ok t) (htask : s.task.Unsettled) : t.task.status = target := by
  unfold stopTask at h
  split_ifs at h with hsame
  · cases h
    rcases hsame with hsame | hsame | hsame
    · exact hsame
    · exact absurd hsame htask.1
    · exact absurd hsame htask.2
  · exact (transitionTask_status h).1

theorem stopExpired_cases {runTarget : RunStatus} {taskTarget : TaskStatus} {category summary : String}
    (h : stopExpired s x runTarget taskTarget category summary = .ok t) (hrun : s.run.status = .running) :
    t.run.status = runTarget ∧ (s.task.Unsettled → t.task.status = taskTarget) := by
  unfold stopExpired at h
  obtain ⟨s1, h1, h2⟩ := bind_eq_ok.mp h
  obtain ⟨s2, h3, h4⟩ := bind_eq_ok.mp h2
  unfold stopRun at h1
  rw [if_pos hrun] at h1
  obtain ⟨hr1, ht1, -⟩ := transitionRun_status h1
  have hr2 : s2.run.status = runTarget := by rw [stopTask_run h3, hr1]
  have ht2 : s.task.Unsettled → s2.task.status = taskTarget := by
    intro hne
    exact stopTask_status h3 (by rw [ht1]; exact hne)
  cases h4
  split_ifs
  · exact ⟨hr2, ht2⟩
  · exact ⟨hr2, ht2⟩

theorem TaskFits.not_settled (hrun : s.run.status = .running) (h : TaskFits loose s) : s.task.Unsettled := by
  rw [TaskFits.running hrun] at h
  have hmem := deriveTaskStatus_running_mem s.steps
  constructor <;> intro hs <;> rw [hs] at h
  · rw [← h.resolve_right (by simp)] at hmem
    simp at hmem
  · rw [← h.resolve_right (by simp)] at hmem
    simp at hmem

/-- What recovery does to the expired lease of a running run. -/
inductive Recovered (s : State) (x : Step) : RunStatus → List Step → Prop
  | requeued {y : Step} (hs : y.toStepSpec = x.toStepSpec) (hq : y.status = .queued)
      (hu : y.unknownEffects = x.unknownEffects) (hm : y.maxAttempts = x.maxAttempts)
      (hb : y.payload = x.payload)
      (ha : x.status = .leased ∧ y.attemptCount = x.attemptCount - 1 ∨
        x.status ≠ .leased ∧ y.attemptCount = x.attemptCount ∧ x.attemptCount < x.maxAttempts) :
      Recovered s x .running (put Step.key y s.steps)
  | failed {y : Step} (hy : Kept x y) (hq : y.status = .failed) : Recovered s x .failed (put Step.key y s.steps)
  | blocked {y : Step} (hy : Kept x y) (hq : y.status = .blocked) (hu : y.unknownEffects = true) :
      Recovered s x .blocked (put Step.key y s.steps)

theorem recoverOne_cases (hrun : s.run.status = .running) (h : recoverOne s x = .ok t) :
    Recovered s x t.run.status t.steps ∧ (t.run.status = .running ∧ t.task = s.task ∨
      t.run.status = .failed ∧ (s.task.Unsettled → t.task.status = .failed) ∨
      t.run.status = .blocked ∧ (s.task.Unsettled → t.task.status = .blocked)) := by
  unfold recoverOne at h
  rw [hrun] at h
  simp only [RunStatus.isTerminal, Bool.false_eq_true, if_false, reduceCtorEq] at h
  split_ifs at h with hre hsafe
  · obtain ⟨y, hy, h1⟩ := bind_eq_ok.mp h
    cases h1
    unfold requeueExpired at hy
    obtain ⟨-, hy1⟩ := transitionStep_bind.mp hy
    cases hy1
    rw [State.putStep_run, State.putStep_steps, State.putStep_task, hrun]
    refine ⟨.requeued ?_ ?_ ?_ ?_ ?_ ?_, Or.inl ⟨rfl, rfl⟩⟩
    · split <;> rfl
    · split <;> rfl
    · split <;> rfl
    · split <;> rfl
    · split <;> rfl
    · by_cases hl : x.status = .leased
      · exact Or.inl ⟨hl, by rw [if_pos hl]; rfl⟩
      · refine Or.inr ⟨hl, by rw [if_neg hl]; rfl, ?_⟩
        simp only [requeuesExpired, hl, decide_false, Bool.false_or, Bool.and_eq_true, decide_eq_true_eq] at hre
        exact hre.2
  · obtain ⟨-, h1⟩ := transitionStep_bind.mp h
    obtain ⟨hr, ht⟩ := stopExpired_cases h1 (by rw [State.putStep_run, hrun])
    have hsteps := stopExpired_steps h1
    rw [hr, hsteps]
    exact ⟨.failed ⟨rfl, rfl, rfl, rfl, rfl⟩ rfl, Or.inr (Or.inl ⟨rfl, ht⟩)⟩
  · obtain ⟨-, h1⟩ := transitionStep_bind.mp h
    obtain ⟨hr, ht⟩ := stopExpired_cases h1 (by rw [State.putStep_run, hrun])
    have hsteps := stopExpired_steps h1
    rw [hr, hsteps]
    exact ⟨.blocked ⟨rfl, rfl, rfl, rfl, rfl⟩ rfl rfl, Or.inr (Or.inr ⟨rfl, ht⟩)⟩

theorem leaseExpired_isHeld {now : Nat} (h : leaseExpired now x = true) : x.status.isHeld = true := by
  rw [leaseExpired, Bool.and_eq_true] at h
  exact h.1

theorem recoverExpiredStep_cases {id now : Nat} (h : recoverExpiredStep s id now = .ok t) :
    t = s ∨ ∃ x, s.step? id = some x ∧ leaseExpired now x = true ∧ recoverOne s x = .ok t := by
  unfold recoverExpiredStep at h
  split at h
  · cases h
    exact Or.inl rfl
  · rename_i x hfind
    split_ifs at h with hexp
    · exact Or.inr ⟨x, hfind, hexp, h⟩
    · cases h
      exact Or.inl rfl

theorem recoverExpiredStep_live {id now : Nat} (hc : Chain chain) (h : Live chain s)
    (hop : recoverExpiredStep s id now = .ok t) : Live chain t ∧ KeepsTask s t := by
  rcases recoverExpiredStep_cases hop with rfl | ⟨x, hfind, hexp, hone⟩
  · exact ⟨h, fun _ hfit => hfit⟩
  · have hheld := leaseExpired_isHeld hexp
    obtain ⟨hrun, ps, htip⟩ := h.held (State.mem_of_step? hfind).1 hheld
    have hs : s.run.status ≠ .failed := by rw [hrun]; decide
    obtain ⟨hrec, htask⟩ := recoverOne_cases hrun hone
    generalize hr : t.run.status = run at hrec htask
    generalize ht : t.steps = rows at hrec
    cases hrec with
    | requeued hy hq hu =>
      have hst : t.task = s.task := by
        rcases htask with ⟨-, h⟩ | ⟨h, -⟩ | ⟨h, -⟩
        · exact h
        · cases h
        · cases h
      exact h.work hc htip hrun (StepStatus.isWorking_of_isHeld hheld) ht hy (by rw [hq]; rfl) hu hr (by rw [hst])
    | failed hy hq =>
      refine ⟨h.close htip hs ht hy.toStepSpec (by rw [hq]; rfl) (by rw [hq]; decide) fun hne => absurd hr hne, ?_⟩
      intro loose hfit
      rcases htask with ⟨h, -⟩ | ⟨-, h⟩ | ⟨h, -⟩
      · cases h
      · simp only [TaskFits, hr, h (hfit.not_settled hrun)]
      · cases h
    | blocked hy hq =>
      refine ⟨(h.block htip hs ht hy.toStepSpec hq).1, fun loose hfit => ?_⟩
      rcases htask with ⟨h, -⟩ | ⟨h, -⟩ | ⟨-, h⟩
      · cases h
      · cases h
      · simp only [TaskFits, hr, h (hfit.not_settled hrun), true_or]

end Leases

end Vuzol.Workflow
