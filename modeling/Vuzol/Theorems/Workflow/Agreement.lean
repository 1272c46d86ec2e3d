import Vuzol.Theorems.Workflow.Fencing
import Vuzol.Theorems.Workflow.Invariant

/-! Two safety properties of whole runs: the task says what its run does, and a run works on one step at a
    time, in the order of its chain. -/

namespace Vuzol.Workflow

open Vuzol.Lib

/-- The task has the status that its run stands for. -/
structure Agrees (s : State) : Prop where
  paused : s.run.status = .paused ↔ s.task.status = .paused
  awaitingUser : s.run.status = .awaitingUser → s.task.status = .awaitingUser
  blocked : s.run.status = .blocked → s.task.status = .blocked ∨ s.task.status = .quotaExhausted
  failed : s.run.status = .failed → s.task.status = .failed
  cancelled : s.run.status = .cancelled → s.task.status = .cancelled
  completed : s.run.status = .completed → s.task.status = .completed

section Agreement
variable {chain : List StepSpec} {s t : State} {m : Materialization} {op : Op}

theorem TaskFits.not_paused (h : TaskFits False s) (hrun : s.run.status ≠ .paused) : s.task.status ≠ .paused := by
  intro hp
  unfold TaskFits at h
  rw [hp] at h
  cases hr : s.run.status with
  | paused => exact hrun hr
  | running =>
    have hmem := deriveTaskStatus_running_mem s.steps
    rw [hr] at h
    rw [← h.resolve_right (by simp)] at hmem
    simp at hmem
  | created | awaitingUser | blocked | failed | cancelled | completed => simp [hr] at h

theorem TaskFits.agrees (h : TaskFits False s) : Agrees s := by
  have hp := h.not_paused
  unfold TaskFits at h
  refine ⟨⟨fun hrun => ?_, fun ht => not_not.mp fun hrun => hp hrun ht⟩, ?_, ?_, ?_, ?_, ?_⟩
  · simpa [hrun] using h
  all_goals
    intro hrun
    simpa only [hrun] using h

theorem Dead.agrees (h : Dead s) : Agrees s := by
  constructor <;> simp [h.run, h.task]

theorem approvesPaused_disagrees (h : approvesPaused s op) (hop : perform s op = .ok t) : ¬Agrees t := by
  obtain ⟨hrun, approvalId, userId, now, rfl⟩ := h
  change decideResult s approvalId .approve userId now = .ok t at hop
  obtain ⟨x, -, -, -, y, -, -, hcases⟩ := decideResult_cases hop
  intro hagrees
  rcases hcases with ⟨-, -, -, hr, ht⟩ | ⟨hne, -⟩
  · have hpaused := hagrees.paused.mp (by rw [hr, hrun])
    rw [ht] at hpaused
    cases hpaused
  · exact hne rfl

/-- Task and run agree in every state of a run in which no result is approved while the run is paused, and
    the first approval of this kind ends the agreement. -/
theorem task_run_agreement (h : Reached (fun u a => ¬approvesPaused u a) m s) :
    Agrees s ∧ ∀ op t, perform s op = .ok t → (Agrees t ↔ ¬approvesPaused s op) := by
  have hagrees : ∀ {u : State}, Reached (fun u a => ¬approvesPaused u a) m u → Agrees u := by
    intro u hu
    rcases hu.inv False fun v a hv ha => hv ha with hinv | hdead
    · exact hinv.task.agrees
    · exact hdead.agrees
  refine ⟨hagrees h, fun op t hop => ⟨fun ht happ => approvesPaused_disagrees happ hop ht, fun hallow => ?_⟩⟩
  obtain ⟨s0, hm, hreach⟩ := h
  exact hagrees ⟨s0, hm, .step hreach hallow hop⟩

def workStep (id generation : Nat) (outcome : StepOutcome) : List Op :=
  [.claimStep (sampleClaim id), .startStep ⟨id, "worker", generation⟩,
   .commitStepOutcome { evidence := some "tree" } ⟨id, "worker", generation⟩ outcome]

def finishSteps (ids : List Nat) : List Op := ids.flatMap fun id => workStep id 1 { kind := .succeeded }

theorem task_run_agreement_paused : ∃ s : State, Reached (fun u a => ¬approvesPaused u a) sampleRun s ∧
    s.run.status = .paused ∧ s.task.status = .paused := by
  obtain ⟨s, hs, hrun⟩ := Reached.of_runOps (fun u a => ¬approvesPaused u a) sampleRun
    [.startRun {}, .pauseTask none] (fun s => s.run.status == .paused) (by simp [approvesPaused]) (by decide +kernel)
  rw [beq_iff_eq] at hrun
  exact ⟨s, hs, hrun, (task_run_agreement hs).1.paused.mp hrun⟩

def Op.isCore : Op → Bool
  | .startRun _ | .claimStep _ | .startStep _ | .commitStepOutcome .. | .recoverExpiredStep .. | .pauseTask _
  | .resumeTask .. | .cancelTask _ | .retryTask _ | .decideResult .. => true
  | _ => false

/-- The result of a finished coding task is approved while its run is paused. -/
theorem task_run_agreement_approved_while_paused :
    ∃ s, Reached (fun _ a => a.isCore = true) sampleRun s ∧ ¬Agrees s := by
  obtain ⟨s, hs, hp⟩ := Reached.of_runOps (fun _ a => a.isCore = true) sampleRun
    ([.startRun {}] ++ finishSteps [1, 2, 3, 4, 5, 6, 7, 8, 9] ++ [.pauseTask none, .decideResult 0 .approve 7 1])
    (fun s => s.run.status == .paused && s.task.status == .executing)
    (by intro a ha _; revert a; decide) (by decide +kernel)
  simp only [Bool.and_eq_true, beq_iff_eq] at hp
  refine ⟨s, hs, fun hagrees => ?_⟩
  have hpaused := hagrees.paused.mp hp.1
  rw [hp.2] at hpaused
  cases hpaused

theorem Materialization.id_lt_of_mem {x : Step} (hx : x.toStepSpec ∈ m.chain) : x.id < m.chain.length := by
  obtain ⟨i, hi, hget⟩ := List.getElem_of_mem hx
  have hid := m.compiled.id (List.getElem?_eq_some_iff.mpr ⟨hi, hget⟩)
  rw [hid]
  exact hi

/-- A run that is not cancelled has at most one step that is queued, leased, running or waited for, and a step of its
    chain leaves `PENDING` after all earlier steps are completed. -/
theorem one_active_step (h : Reached (fun _ a => ∀ expected, a ≠ .cancelTask expected) m s) :
    (s.steps.filter fun x => x.status.isLive).length ≤ 1 ∧
      ∀ x ∈ s.steps, x.toStepSpec ∈ m.chain → x.status ≠ .pending →
        ∀ y ∈ s.steps, y.toStepSpec ∈ m.chain → y.ordinal < x.ordinal → y.status = .completed := by
  have hr := (h.inv_of_not_cancel fun u expected hne => hne expected rfl).live.rows
  constructor
  · rcases filter_eq_nil_or_singleton hr.laid.nodup (p := fun x => x.status.isLive)
      fun y hy z hz hly hlz => hr.live_unique hy hz hly hlz with hnil | ⟨x, -, -, hone⟩
    · rw [hnil]
      decide
    · rw [hone]
      exact Nat.le_refl 1
  · intro x hx hxc hp y hy hyc hlt
    obtain ⟨k, hk⟩ := hr.front
    rw [hr.laid.ordinal_eq hx, hr.laid.ordinal_eq hy] at hlt
    have hxk : x.id ≤ k := by
      by_contra hxk
      exact hp ((hk.row x hx).after (Nat.lt_of_not_le hxk) (Materialization.id_lt_of_mem hxc))
    exact (hk.row y hy).before (Nat.lt_of_lt_of_le hlt hxk)

theorem one_active_step_started : ∃ s : State, Reached (fun _ a => ∀ expected, a ≠ .cancelTask expected) sampleRun s ∧
    (s.steps.filter fun x => x.status.isLive).length = 1 := by
  obtain ⟨s, hs, hp⟩ := Reached.of_runOps (fun _ a => ∀ expected, a ≠ .cancelTask expected) sampleRun
    (.startRun {} :: finishSteps [1, 2]) (fun s => s.steps.any fun x => x.status.isLive)
    (by simp [finishSteps, workStep]) (by decide +kernel)
  obtain ⟨x, hx, hlive⟩ := List.any_eq_true.mp hp
  have hmem : x ∈ s.steps.filter fun x => x.status.isLive := List.mem_filter.mpr ⟨hx, hlive⟩
  have hpos := List.length_pos_of_mem hmem
  exact ⟨s, hs, Nat.le_antisymm (one_active_step hs).1 hpos⟩

end Agreement

end Vuzol.Workflow
