import Vuzol.Discussion.PackageRetry
import Vuzol.Theorems.Discussion.Commands
import Vuzol.Theorems.Workflow.OwnerView

/-! The retry of a package's item and the retry of its task pick one step, as long as no revalidation is blocked. -/

namespace Vuzol.Workflow

open Vuzol.Lib

section Last
variable {chain : List StepSpec} {rows ps : List Step} {x : Step}

def later (best : Option Step) (x : Step) : Option Step := if best.all fun b => b.ordinal ≤ x.ordinal then some x else best

theorem foldl_later_mem (l : List Step) : ∀ best, l.foldl later best = best ∨ ∃ y ∈ l, l.foldl later best = some y := by
  induction l with
  | nil => exact fun best => Or.inl rfl
  | cons y l ih =>
    intro best
    rcases ih (later best y) with h | ⟨z, hz, h⟩
    · rw [List.foldl_cons, h, later]
      split
      · exact Or.inr ⟨y, List.mem_cons_self, rfl⟩
      · exact Or.inl rfl
    · exact Or.inr ⟨z, List.mem_cons_of_mem y hz, h⟩

theorem foldl_later_last {l : List Step} (h : ∀ y ∈ l, y.ordinal ≤ x.ordinal) : (l ++ [x]).foldl later none = some x := by
  rw [List.foldl_append, List.foldl_cons, List.foldl_nil, later, if_pos]
  rcases foldl_later_mem l none with hnone | ⟨y, hy, hsome⟩
  · rw [hnone]
    rfl
  · rw [hsome, Option.all_some]
    exact decide_eq_true (h y hy)

theorem Laid.ordinal_le (h : Laid chain (specsOf rows)) (hsub : (ps ++ [x]).Sublist rows) : ∀ y ∈ ps, y.ordinal ≤ x.ordinal := by
  have hkeys : ((ps ++ [x]).map Step.key).Pairwise (· < ·) :=
    List.pairwise_lt_range.sublist (h.keys ▸ hsub.map Step.key)
  rw [List.map_append, List.pairwise_append] at hkeys
  intro y hy
  have hlt : y.id < x.id := hkeys.2.2 _ (List.mem_map_of_mem hy) _ (List.mem_map_of_mem List.mem_cons_self)
  rw [h.ordinal_eq (hsub.subset (List.mem_append_left _ hy)),
    h.ordinal_eq (hsub.subset (List.mem_append_right _ List.mem_cons_self))]
  exact hlt.le

theorem Rows.blocked_stack (h : Rows chain rows) : (rows.filter fun z => z.status = .blocked) = [] ∨
    ∃ ps x, (rows.filter fun z => z.status = .blocked) = ps ++ [x] ∧ Stack ps x.toStepSpec := by
  rcases h.waiting with hnil | ⟨ps, x, htip⟩
  · refine Or.inl (List.filter_eq_nil_iff.mpr fun z hz hb => ?_)
    have hopen : z ∈ openRows rows := mem_openRows.mpr ⟨hz, by rw [of_decide_eq_true hb]; rfl⟩
    rw [hnil] at hopen
    cases hopen
  · by_cases hb : x.status = .blocked
    · exact Or.inr ⟨ps, x, by rw [filter_blocked htip, if_pos hb], htip.stack⟩
    · have hfilter : (rows.filter fun z => z.status = .blocked) = ps := by
        rw [filter_blocked htip, if_neg hb, List.append_nil]
      rcases List.eq_nil_or_concat ps with hnil | ⟨qs, p, hps⟩
      · exact Or.inl (hfilter.trans hnil)
      · rw [List.concat_eq_append] at hps
        exact Or.inr ⟨qs, p, hfilter.trans hps, (hps ▸ htip.stack).pop⟩

def NoneRevalidates (rows : List Step) : Prop :=
  ∀ x ∈ rows, x.status = .blocked → x.links.resumeAfterValidationStepId = none

theorem Rows.lastBlocked (h : Rows chain rows) (hlast : lastBlockedStep rows = some x) :
    (NoneRevalidates rows → currentRetryTarget rows = some x) ∧ (¬NoneRevalidates rows → currentRetryTarget rows = none) := by
  rcases h.blocked_stack with hnil | ⟨ps, y, hfilter, hstack⟩
  · rw [lastBlockedStep, hnil] at hlast
    cases hlast
  · have hsub : (ps ++ [y]).Sublist rows := hfilter ▸ List.filter_sublist
    have hxy : lastBlockedStep rows = some y := by
      rw [lastBlockedStep, hfilter]
      exact foldl_later_last (h.laid.ordinal_le hsub)
    obtain rfl : y = x := Option.some.inj (hxy.symm.trans hlast)
    have hrev : revalidates (ps ++ [y]) = false ↔ NoneRevalidates rows := by
      rw [← hfilter, revalidates, List.any_eq_false]
      simp [NoneRevalidates]
    rw [currentRetryTarget_stack (h.laid.nodup.sublist (hsub.map Step.key)) hstack hfilter]
    refine ⟨fun hnone => if_neg (by rw [hrev.mpr hnone]; decide), fun hsome => if_pos ?_⟩
    rw [← Bool.not_eq_false]
    exact fun hf => hsome (hrev.mp hf)

end Last

section Runs
variable {s₀ s t : State} {m : Materialization} {op : ItemOp} {now : Nat}

def SafeRetry (s : State) : ItemOp → Prop
  | .engine _ => True
  | .retryItem _ => s.run.status = .blocked ∧ NoneRevalidates s.steps

theorem Reached.target_of_lastBlocked (h : Reached anyOp m s) {x : Step} (hlast : lastBlockedStep s.steps = some x) :
    (NoneRevalidates s.steps → currentRetryTarget s.steps = some x) ∧
      (¬NoneRevalidates s.steps → currentRetryTarget s.steps = none) := by
  rcases h.inv True (fun _ _ _ _ => trivial) with hinv | hdead
  · exact hinv.live.rows.lastBlocked hlast
  · have hnil : s.steps.filter (fun z => z.status = .blocked) = [] := List.filter_eq_nil_iff.mpr fun z hz hb => by
      have hterm := hdead.rows z hz
      rw [of_decide_eq_true hb] at hterm
      cases hterm
    rw [lastBlockedStep, hnil] at hlast
    cases hlast

theorem performItem_eq_perform (h : Reached anyOp m s) (hsafe : SafeRetry s op) (hop : performItem s op = .ok t) :
    ∃ a, perform s a = .ok t := by
  cases op with
  | engine a => exact ⟨a, hop⟩
  | retryItem now =>
    simp only [performItem] at hop
    split at hop
    · cases hop
    · rename_i x hlast
      have htarget := (h.target_of_lastBlocked hlast).1 hsafe.2
      refine ⟨.retryTask { userId := s.task.userId, expectedVersion := some s.task.version, now := now }, ?_⟩
      have hfound : retryTarget s { userId := s.task.userId, expectedVersion := some s.task.version, now := now } "retry" =
          .ok x := by
        simp [retryTarget, htarget, hsafe.1]
      simpa [perform, retryTask, hfound] using hop

theorem reached_of_safe (h0 : materializeRun m = .ok s₀) (h : Reach performItem SafeRetry s₀ s) : Reached anyOp m s := by
  refine h.invariant (P := Reached anyOp m) ⟨s₀, h0, .refl⟩ ?_
  intro u v op hu hsafe hop
  obtain ⟨a, ha⟩ := performItem_eq_perform hu hsafe hop
  obtain ⟨u0, hu0, hreach⟩ := hu
  exact ⟨u0, hu0, .step hreach trivial ha⟩

end Runs

end Vuzol.Workflow

namespace Vuzol.Discussion

open Vuzol.Lib
open Vuzol.Workflow (later lastBlockedStep currentRetryTarget NoneRevalidates Materialization materializeRun performItem SafeRetry
  reached_of_safe)

section Package
variable {p p' : State} {run : Run} {x : Workflow.Step} {fence : Fence} {taskId : Nat}

theorem retryBlockedStep_runs (h : retryBlockedStep p run x = .ok p') : p'.runs = put Run.key (queueStep run x) p.runs := by
  simp only [retryBlockedStep, guard_eq_ok] at h
  obtain ⟨-, h⟩ := h
  split at h
  · cases h
  · split at h
    · obtain ⟨-, rfl⟩ := transitionTask_ok.mp h
      unfold publishTaskEvent
      split <;> rfl
    · cases h
      rfl

theorem retryItem_last (h : retryItem p fence = .ok p') : ∃ failed run x, p.package.lastFailureTaskId = some failed ∧
    lastStep? p failed .blocked = some (run, x) ∧ p'.runs = put Run.key (queueStep run x) p.runs := by
  simp only [retryItem, bind_eq_ok, guard_eq_ok] at h
  obtain ⟨_, -, _, -, _, -, -, -, h⟩ := h
  split at h
  · cases h
  · rename_i run x hlast
    obtain ⟨failed, hfailed, hlast⟩ := Option.bind_eq_some_iff.mp hlast
    simp only [bind_eq_ok, Except.ok.injEq] at h
    obtain ⟨u, hu, rfl⟩ := h
    have hruns := retryBlockedStep_runs (asNotRetryable_ok hu)
    exact ⟨failed, run, x, hfailed, hlast, hruns⟩

theorem foldl_pair (run : Run) (l : List Workflow.Step) : ∀ best : Option Workflow.Step,
    (l.map fun x => (run, x)).foldl (fun best x => if best.all fun b => b.2.ordinal ≤ x.2.ordinal then some x else best)
      (best.map fun x => (run, x)) = (l.foldl later best).map fun x => (run, x) := by
  induction l with
  | nil => exact fun _ => rfl
  | cons y l ih =>
    intro best
    rw [List.map_cons, List.foldl_cons, List.foldl_cons, ← ih, later, Option.all_map]
    split <;> rfl

theorem PausedOn.lastStep (h : PausedOn p run) :
    lastStep? p run.taskId .blocked = (lastBlockedStep run.steps).map fun x => (run, x) := by
  obtain ⟨before, after, hruns, hothers⟩ := h.runs
  have hnone : ∀ l : List Run, (∀ r ∈ l, r ∈ before ++ after) → (l.flatMap fun r =>
      (r.steps.filter (·.status = .blocked)).map fun x => (r, x)) = [] := by
    intro l hl
    refine List.flatMap_eq_nil_iff.mpr fun r hr => List.map_eq_nil_iff.mpr (List.filter_eq_nil_iff.mpr fun x hx => ?_)
    simpa using hothers r (hl r hr) x hx
  have hfound : ((p.runs.filter (·.taskId == run.taskId)).flatMap fun r =>
      (r.steps.filter (·.status = .blocked)).map fun x => (r, x)) =
        (run.steps.filter (·.status = .blocked)).map fun x => (run, x) := by
    rw [hruns, List.flatMap_append, List.flatMap_cons, hnone before fun r hr => List.mem_append_left _ hr,
      hnone after fun r hr => List.mem_append_right _ hr, List.nil_append, List.append_nil]
  rw [lastStep?, hfound]
  exact foldl_pair run _ none

end Package

/-- In every run of a package's item whose package retries were safe: a retry of the item retries the step that a retry of
    the task would take, if and only if no revalidation is blocked. -/
theorem package_retry_target {m : Materialization} {s₀ s : Workflow.State} (h0 : materializeRun m = .ok s₀)
    (h : Reach performItem SafeRetry s₀ s) {p p' : State} {run : Run} {fence : Fence} (hp : PausedOn p run)
    (hsteps : run.steps = s.steps) (hretry : retryItem p fence = .ok p') :
    (∃ x, currentRetryTarget s.steps = some x ∧ p'.runs = put Run.key (queueStep run x) p.runs) ↔ NoneRevalidates s.steps := by
  obtain ⟨failed, run', x, hfailed, hlast, hruns⟩ := retryItem_last hretry
  obtain rfl : failed = run.taskId := Option.some.inj (hfailed.symm.trans hp.failed)
  rw [hp.lastStep, hsteps] at hlast
  obtain ⟨y, hy, hpair⟩ := Option.map_eq_some_iff.mp hlast
  obtain ⟨rfl, rfl⟩ := Prod.mk.inj hpair
  obtain ⟨hsome, hnone⟩ := (reached_of_safe h0 h).target_of_lastBlocked hy
  refine ⟨fun ⟨z, hz, _⟩ => by_contra fun hrev => ?_, fun hrev => ⟨y, hsome hrev, hruns⟩⟩
  rw [hnone hrev] at hz
  cases hz

/-- A package that is paused on the only run of its task. -/
def pausedPackage (steps : List Workflow.Step) : State where
  package := {
    status := .paused
    version := 4
    headRevisionId := some 0
    approvedRevisionId := some 0
    runningRevisionId := some 0
    cursorOrdinal := some 1
    pauseReason := some .itemBlocked
    lastFailureTaskId := some 0 }
  revisions := [{ id := 0, number := 1, state := .approved, contentHash := { h8 := "plan" }
                  body := { title := "plan", items := [] }, items := [] }]
  tasks := [{ id := 0, status := .blocked }]
  runs := [{ id := 0, taskId := 0, steps := steps }]

theorem pausedPackage_on (steps : List Workflow.Step) : PausedOn (pausedPackage steps) { id := 0, taskId := 0, steps := steps } where
  status := rfl
  reason := rfl
  failed := rfl
  runs := ⟨[], [], rfl, fun _ hr => by cases hr⟩

def sampleFence : Fence := { revisionNumber := 1, h8 := "plan", generation := 4 }

def workedRun (ops : List Workflow.Op) : Except Workflow.Failure Workflow.State := do
  let s ← materializeRun Workflow.sampleRun
  runOps performItem s (ops.map .engine)

theorem reach_of_workedRun {ops : List Workflow.Op} {s : Workflow.State} (h : workedRun ops = .ok s) :
    ∃ s₀, materializeRun Workflow.sampleRun = .ok s₀ ∧ Reach performItem SafeRetry s₀ s := by
  obtain ⟨s₀, h0, hrun⟩ := bind_eq_ok.mp h
  refine ⟨s₀, h0, reach_of_runOps (fun op hop u => ?_) hrun⟩
  obtain ⟨a, -, rfl⟩ := List.mem_map.mp hop
  trivial

/-- A blocked validation is retried by both. -/
theorem package_retry_target_validation : ∃ (s : Workflow.State) (p' : State), retryItem (pausedPackage s.steps) sampleFence = .ok p' ∧
    ∃ x, currentRetryTarget s.steps = some x ∧
      p'.runs = put Run.key (queueStep { id := 0, taskId := 0, steps := s.steps } x) (pausedPackage s.steps).runs := by
  obtain ⟨s, hs, hp⟩ := exists_of_ends (p := fun s : Workflow.State =>
      s.steps.all (fun x => x.links.resumeAfterValidationStepId = none) &&
        ends (fun _ => true) (retryItem (pausedPackage s.steps) sampleFence))
    (by decide +kernel : ends _ (workedRun ([.startRun {}] ++ Workflow.finishSteps [1, 2, 3, 4, 5] ++
      Workflow.workStep 6 1 { kind := .blocked, category := some "validation_environment_missing_tool" })) = true)
  simp only [Bool.and_eq_true, List.all_eq_true, decide_eq_true_eq] at hp
  obtain ⟨p', hp', -⟩ := exists_of_ends hp.2
  obtain ⟨s₀, h0, hreach⟩ := reach_of_workedRun hs
  exact ⟨s, p', hp', (package_retry_target h0 hreach (pausedPackage_on s.steps) rfl hp').mpr fun x hx _ => hp.1 x hx⟩

/-- The package retries a blocked revalidation of a repaired review, where the task has no step to retry. -/
theorem package_retries_revalidation : ∃ s, workedRun ([.startRun {}] ++ Workflow.finishSteps [1, 2, 3, 4, 5, 6] ++
      Workflow.workStep 7 1 { kind := .blocked, category := some "review_findings" } ++ Workflow.finishSteps [13] ++
      Workflow.workStep 14 1 { kind := .blocked, category := some "validation_environment_missing_tool" }) = .ok s ∧
    s.run.status = .blocked ∧ currentRetryTarget s.steps = none ∧
    ∃ p', retryItem (pausedPackage s.steps) sampleFence = .ok p' := by
  obtain ⟨s, hs, hp⟩ := exists_of_ends (p := fun s : Workflow.State => s.run.status = .blocked &&
      currentRetryTarget s.steps = none && ends (fun _ => true) (retryItem (pausedPackage s.steps) sampleFence))
    (by decide +kernel : ends _ (workedRun ([.startRun {}] ++ Workflow.finishSteps [1, 2, 3, 4, 5, 6] ++
      Workflow.workStep 7 1 { kind := .blocked, category := some "review_findings" } ++ Workflow.finishSteps [13] ++
      Workflow.workStep 14 1 { kind := .blocked, category := some "validation_environment_missing_tool" })) = true)
  simp only [Bool.and_eq_true, decide_eq_true_eq] at hp
  obtain ⟨p', hp', -⟩ := exists_of_ends hp.2
  exact ⟨s, hs, hp.1.1, hp.1.2, p', hp'⟩

end Vuzol.Discussion
