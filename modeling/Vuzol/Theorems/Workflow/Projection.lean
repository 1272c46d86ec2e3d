import Vuzol.Theorems.Workflow.Commit

/-! What the two queries over a run's rows answer on a waiting stack: the task status that
    `derive_task_status` projects, and the step that `current_retry_target` offers to the owner. Both are
    decided by the top of the stack, unless a revalidation is among the parked steps. -/

namespace Vuzol.Workflow

open Vuzol.Lib

section Projection
variable {chain : List StepSpec} {rows ps : List Step} {x y p q : Step} {c : StepSpec} {i : Nat}
variable {targets : List Nat} {blocked : List Step}

def revalidates (ps : List Step) : Bool := ps.any fun p => p.links.resumeAfterValidationStepId.isSome

def NoFailed (rows : List Step) : Prop := ∀ x ∈ rows, x.status ≠ .failed

/-- One round of the last pass of `derive_task_status`. -/
def suspendRound (acc : List Nat) (x : Step) : List Nat :=
  if x.unfinished || acc.contains x.id then acc ++ x.links.validationEnvironmentForStepId.toList else acc

variable {acc : List Nat}

theorem mem_suspendRound_of_mem (h : i ∈ acc) : i ∈ suspendRound acc x := by
  unfold suspendRound
  split
  · exact List.mem_append_left _ h
  · exact h

theorem mem_foldl_suspendRound (h : i ∈ acc) : i ∈ rows.foldl suspendRound acc := by
  induction rows generalizing acc with
  | nil => exact h
  | cons x rows ih => exact ih (mem_suspendRound_of_mem h)

theorem mem_foldl_of_environment (hy : y ∈ rows) (hlive : y.unfinished = true ∨ y.id ∈ acc)
    (hl : y.links.validationEnvironmentForStepId = some i) : i ∈ rows.foldl suspendRound acc := by
  induction rows generalizing acc with
  | nil => cases hy
  | cons x rows ih =>
    rcases List.mem_cons.mp hy with rfl | hy
    · have hcond : (y.unfinished || acc.contains y.id) = true := by
        rcases hlive with h | h
        · simp [h]
        · simp [h]
      have hmem : i ∈ suspendRound acc y := by
        unfold suspendRound
        rw [if_pos hcond, hl]
        simp
      rw [List.foldl_cons]
      exact mem_foldl_suspendRound hmem
    · exact ih hy (hlive.imp_right mem_suspendRound_of_mem)

theorem foldl_suspendRound_invariant {P : Nat → Prop} (h0 : ∀ i ∈ acc, P i)
    (hstep : ∀ y ∈ rows, y.unfinished = true ∨ P y.id → ∀ i, y.links.validationEnvironmentForStepId = some i → P i) :
    ∀ i ∈ rows.foldl suspendRound acc, P i := by
  induction rows generalizing acc with
  | nil => exact h0
  | cons x rows ih =>
    refine ih ?_ fun y hy => hstep y (List.mem_cons_of_mem _ hy)
    intro i hi
    unfold suspendRound at hi
    split_ifs at hi with hcond
    · rcases List.mem_append.mp hi with hi | hi
      · exact h0 i hi
      · refine hstep x List.mem_cons_self ?_ i (by simpa using hi)
        simp only [Bool.or_eq_true, List.contains_iff_mem] at hcond
        exact hcond.imp_right (h0 x.id)
    · exact h0 i hi

theorem activeRepairTargets_eq : activeRepairTargets rows = rows.foldl suspendRound
    ((rows.filterMap fun x => if x.unfinished then x.links.repairForStepId else none) ++
      (rows.filterMap fun x => if x.unfinished then x.links.resumeAfterValidationStepId else none) ++
      rows.filterMap fun x => if x.unfinished then x.links.capabilityForStepId else none) := rfl

theorem mem_linked {key : Step → Option Nat} :
    i ∈ (rows.filterMap fun x => if x.unfinished then key x else none) ↔
      ∃ x ∈ rows, x.unfinished = true ∧ key x = some i := by
  simp only [List.mem_filterMap, Option.ite_none_right_eq_some]

theorem Waits.mem_targets (h : Waits p x.toStepSpec) (hx : x ∈ rows) (hlive : x.unfinished = true) :
    p.id ∈ activeRepairTargets rows := by
  rw [activeRepairTargets_eq]
  rcases h with h | h | h | h
  · apply mem_foldl_suspendRound
    simp only [List.mem_append, mem_linked]
    exact Or.inl (Or.inl ⟨x, hx, hlive, by rw [h.links]⟩)
  · apply mem_foldl_suspendRound
    simp only [List.mem_append, mem_linked]
    exact Or.inl (Or.inr ⟨x, hx, hlive, by rw [h.links]⟩)
  · apply mem_foldl_suspendRound
    simp only [List.mem_append, mem_linked]
    exact Or.inr ⟨x, hx, hlive, by rw [h.links]⟩
  · exact mem_foldl_of_environment hx (Or.inl hlive) (by rw [h.links])

theorem Preflights.mem_targets (h : Preflights p x.toStepSpec) (hq : Prepares q p.toStepSpec) (hp : p ∈ rows)
    (hx : x ∈ rows) (hlive : x.unfinished = true) : q.id ∈ activeRepairTargets rows := by
  rw [activeRepairTargets_eq]
  refine mem_foldl_of_environment hp (Or.inr ?_) (by rw [hq.links])
  simp only [List.mem_append, mem_linked]
  exact Or.inr ⟨x, hx, hlive, by rw [h.links]⟩

theorem activeRepairTargets_invariant {P : Nat → Prop}
    (h0 : ∀ y ∈ rows, y.unfinished = true → ∀ i, y.links.repairForStepId = some i ∨
      y.links.resumeAfterValidationStepId = some i ∨ y.links.capabilityForStepId = some i → P i)
    (hstep : ∀ y ∈ rows, y.unfinished = true ∨ P y.id → ∀ i, y.links.validationEnvironmentForStepId = some i → P i) :
    ∀ i ∈ activeRepairTargets rows, P i := by
  rw [activeRepairTargets_eq]
  refine foldl_suspendRound_invariant ?_ hstep
  intro i hi
  simp only [List.mem_append, mem_linked] at hi
  rcases hi with (⟨y, hy, hu, hl⟩ | ⟨y, hy, hu, hl⟩) | ⟨y, hy, hu, hl⟩
  · exact h0 y hy hu i (Or.inl hl)
  · exact h0 y hy hu i (Or.inr (Or.inl hl))
  · exact h0 y hy hu i (Or.inr (Or.inr hl))

theorem Rows.unfinished_cases (hc : Chain chain) (h : Rows chain rows) (htip : Tip rows ps x) (hy : y ∈ rows)
    (hu : y.unfinished = true) : y.links = {} ∨ y = x := by
  rcases Step.unfinished_iff.mp hu with hlive | hpend
  · exact Or.inr (htip.eq_of_isLive hy hlive)
  · obtain ⟨k, hk⟩ := h.front
    refine Or.inl ((h.laid.links_iff hc hy).mpr ?_)
    by_contra hlt
    exact (hk.row y hy).added (Nat.le_of_not_lt hlt) hpend

theorem Rows.targets_nil (hc : Chain chain) (h : Rows chain rows) (htip : Tip rows ps x)
    (hx : x.status = .blocked ∨ x.links = {}) : activeRepairTargets rows = [] := by
  -- No unfinished row names a step.
  have hnone : ∀ y ∈ rows, y.unfinished = true → y.links = {} := by
    intro y hy hu
    rcases h.unfinished_cases hc htip hy hu with hl | rfl
    · exact hl
    · rcases hx with hb | hl
      · rw [Step.unfinished, hb] at hu
        cases hu
      · exact hl
  refine List.eq_nil_iff_forall_not_mem.mpr (activeRepairTargets_invariant (P := fun _ => False) ?_ ?_)
  · intro y hy hu i hl
    rw [hnone y hy hu] at hl
    simp at hl
  · intro y hy hu i hl
    rcases hu with hu | hu
    · rw [hnone y hy hu] at hl
      simp at hl
    · exact hu

theorem decisive_isOpen (hf : x.status ≠ .failed) (h : Step.decisive targets x = true) : x.status.isOpen = true := by
  unfold Step.decisive at h
  cases hs : x.status <;> simp_all [StepStatus.isOpen]

theorem find?_decisive (hf : NoFailed rows) {targets : List Nat} :
    rows.find? (Step.decisive targets) = (openRows rows).find? (Step.decisive targets) := by
  rw [openRows, List.find?_filter]
  induction rows with
  | nil => rfl
  | cons x rows ih =>
    have ih := ih fun y hy => hf y (List.mem_cons_of_mem _ hy)
    have hx : decide (x.status.isOpen = true ∧ Step.decisive targets x = true) = Step.decisive targets x := by
      cases hd : Step.decisive targets x with
      | false => simp
      | true => simp [decisive_isOpen (hf x List.mem_cons_self) hd]
    rw [List.find?_cons, List.find?_cons, hx, ih]

theorem deriveTaskStatus_closed (hf : NoFailed rows) (hnil : openRows rows = []) :
    deriveTaskStatus rows .running = .executing := by
  unfold deriveTaskStatus
  simp only [find?_decisive hf, hnil, List.find?_nil]

theorem decisive_of_isLive (h : x.status.isLive = true) : Step.decisive targets x = true := by
  unfold Step.decisive
  cases hs : x.status <;> simp_all [StepStatus.isLive]

theorem decisive_blocked (h : x.status = .blocked) : Step.decisive targets x = !targets.contains x.id := by
  simp [Step.decisive, h]

theorem taskStatus_blocked (h : x.status = .blocked) : x.taskStatus = .blocked := by
  simp [Step.taskStatus, h]

theorem deriveTaskStatus_blocked (hc : Chain chain) (h : Rows chain rows) (hf : NoFailed rows) (htip : Tip rows ps x)
    (hb : x.status = .blocked) : deriveTaskStatus rows .running = .blocked := by
  unfold deriveTaskStatus
  simp only [find?_decisive hf, htip.opens, h.targets_nil hc htip (Or.inl hb)]
  have hall : ∀ z ∈ ps ++ [x], z.status = .blocked := by
    intro z hz
    rcases List.mem_append.mp hz with hz | hz
    · exact (htip.stack.parked hz).blocked
    · rw [List.mem_singleton.mp hz, hb]
  cases hps : ps ++ [x] with
  | nil => simp at hps
  | cons z zs =>
    have hz := hall z (by rw [hps]; simp)
    rw [List.find?_cons, decisive_blocked hz]
    simp [taskStatus_blocked hz]

theorem Tip.mem_targets (htip : Tip rows ps x) (hlive : x.status.isLive = true) (hn : revalidates ps = false) {z : Step}
    (hz : z ∈ ps) : z.id ∈ activeRepairTargets rows := by
  have hu : x.unfinished = true := Step.unfinished_iff.mpr (Or.inl hlive)
  have hstack := htip.stack
  generalize hcx : x.toStepSpec = c at hstack
  cases hstack with
  | root => cases hz
  | one _ _ hw =>
    obtain rfl := List.mem_singleton.mp hz
    exact Waits.mem_targets (hcx ▸ hw) htip.mem hu
  | @repairAgain q p _ _ _ h1 _ _ =>
    simp only [revalidates, List.any_cons, h1.links] at hn
    simp at hn
  | @preflightAgain q p _ _ _ h1 _ h2 =>
    have h2 : Preflights p x.toStepSpec := hcx ▸ h2
    rcases List.mem_pair.mp hz with rfl | rfl
    · exact h2.mem_targets h1 (htip.mem_parent (by simp)) htip.mem hu
    · exact Waits.mem_targets (.preflight h2) htip.mem hu

theorem deriveTaskStatus_live (hf : NoFailed rows) (htip : Tip rows ps x)
    (hlive : x.status.isLive = true) (hn : revalidates ps = false) : deriveTaskStatus rows .running = x.taskStatus := by
  have hparked : ∀ z ∈ ps, Step.decisive (activeRepairTargets rows) z = false := by
    intro z hz
    rw [decisive_blocked (htip.stack.parked hz).blocked]
    simpa using htip.mem_targets hlive hn hz
  unfold deriveTaskStatus
  simp only [find?_decisive hf, htip.opens]
  rw [List.find?_append, List.find?_eq_none.mpr (fun z hz => by rw [hparked z hz]; simp), Option.none_or,
    List.find?_cons, decisive_of_isLive hlive]

section
variable (hc : Chain chain) (h : Rows chain rows) (hf : NoFailed rows) (htip : Tip rows ps x)
include hc h hf htip

theorem deriveTaskStatus_nested (hlive : x.status.isLive = true) (hn : revalidates ps = true) :
    deriveTaskStatus rows .running = .blocked := by
  have hnd := htip.nodup h.laid.nodup
  have hstack := htip.stack
  generalize hcx : x.toStepSpec = c at hstack
  cases hstack with
  | root => cases hn
  | one _ hl _ => simp [revalidates, hl] at hn
  | @preflightAgain q p _ _ hl h1 _ _ => simp [revalidates, hl, h1.links] at hn
  | @repairAgain q p _ hq hl h1 hp h2 =>
    have h2 : Repairs p x.toStepSpec := hcx ▸ h2
    have hqp : q.id ≠ p.id := by
      simp only [List.cons_append, List.nil_append, List.map_cons, List.map_nil, List.nodup_cons, List.mem_cons] at hnd
      exact fun he => hnd.1 (Or.inl he)
    -- Only the revalidation is suspended: it is blocked, so that its own link is not read.
    have htargets : ∀ i ∈ activeRepairTargets rows, i = p.id := by
      refine activeRepairTargets_invariant ?_ ?_
      · intro y hy hu i hlink
        rcases h.unfinished_cases hc htip hy hu with hly | rfl
        · rw [hly] at hlink
          simp at hlink
        · rw [h2.links] at hlink
          exact (by simpa using hlink : p.id = i).symm
      · intro y hy hu i hlink
        have hyl : y.links.validationEnvironmentForStepId = none := by
          rcases hu with hu | hid
          · rcases h.unfinished_cases hc htip hy hu with hly | rfl
            · rw [hly]
            · rw [h2.links]
          · rw [h.laid.eq_of_id hy (htip.mem_parent (by simp)) hid, h1.links]
        rw [hyl] at hlink
        cases hlink
    unfold deriveTaskStatus
    simp only [find?_decisive hf, htip.opens, List.cons_append]
    have hdec : Step.decisive (activeRepairTargets rows) q = true := by
      rw [decisive_blocked hq.blocked]
      simpa using fun hmem => hqp (htargets q.id hmem)
    rw [List.find?_cons, hdec]
    exact taskStatus_blocked hq.blocked

theorem deriveTaskStatus_tip : deriveTaskStatus rows .running = if revalidates ps then .blocked else x.taskStatus := by
  rcases StepStatus.isLive_or_blocked htip.isOpen with hlive | hb
  · cases hn : revalidates ps with
    | false => exact deriveTaskStatus_live hf htip hlive hn
    | true => exact deriveTaskStatus_nested hc h hf htip hlive hn
  · rw [deriveTaskStatus_blocked hc h hf htip hb, taskStatus_blocked hb, ite_self]

end

/-- `x` repairs a revalidation, so that two steps are parked below it. -/
def repairsRevalidation (rows : List Step) (x : Step) : Bool :=
  rows.any fun p => x.links.repairForStepId = some p.id && p.links.resumeAfterValidationStepId.isSome

theorem revalidates_eq (h : Rows chain rows) (htip : Tip rows ps x) : revalidates ps = repairsRevalidation rows x := by
  have hstack := htip.stack
  generalize hcx : x.toStepSpec = c at hstack
  have hlinks : x.links = c.links := by rw [hcx]
  unfold repairsRevalidation
  rw [hlinks]
  -- The only row that a repair names is the one it waits for.
  have hrow : ∀ {p : Step}, p ∈ rows → (rows.any fun z => some p.id = some z.id &&
      z.links.resumeAfterValidationStepId.isSome) = p.links.resumeAfterValidationStepId.isSome := by
    intro p hp
    rw [Bool.eq_iff_iff, List.any_eq_true]
    constructor
    · rintro ⟨z, hz, hzp⟩
      simp only [Bool.and_eq_true, decide_eq_true_eq, Option.some.injEq] at hzp
      rw [h.laid.eq_of_id hp hz hzp.1]
      exact hzp.2
    · exact fun hl => ⟨p, hp, by simpa using hl⟩
  cases hstack with
  | root hl => simp [revalidates, hl]
  | @one p _ _ hl hw =>
    rcases hw with hw | hw | hw | hw
    · rw [hw.links, hrow (htip.mem_parent (by simp))]
      simp [revalidates]
    · simp [revalidates, hl, hw.links]
    · simp [revalidates, hl, hw.links]
    · simp [revalidates, hl, hw.links]
  | @repairAgain q p _ _ hl h1 _ h2 =>
    rw [h2.links, hrow (htip.mem_parent (by simp))]
    simp [revalidates, hl]
  | @preflightAgain q p _ _ hl h1 _ h2 => simp [revalidates, hl, h1.links, h2.links]

theorem filter_blocked (htip : Tip rows ps x) :
    (rows.filter fun z => z.status = .blocked) = ps ++ (if x.status = .blocked then [x] else []) := by
  have hopens : (rows.filter fun z => z.status = .blocked) = (openRows rows).filter fun z => z.status = .blocked := by
    rw [openRows, List.filter_filter]
    apply List.filter_congr
    intro z _
    by_cases hz : z.status = .blocked
    · simp [hz, StepStatus.isOpen]
    · simp [hz]
  have hps : (ps.filter fun z => z.status = .blocked) = ps := by
    rw [List.filter_eq_self]
    intro z hz
    simp [(htip.stack.parked hz).blocked]
  rw [hopens, htip.opens, List.filter_append, hps]
  by_cases hx : x.status = .blocked <;> simp [hx]

theorem Waits.suspended {c : Step} (h : Waits p c.toStepSpec) (hp : Parked p) (hc : c ∈ blocked)
    (hr : c.links.resumeAfterValidationStepId = none) : suspendedParent blocked p = true := by
  unfold suspendedParent
  rw [hp.clean]
  rcases h with h | h | h | h
  · have hb : blocked.any (boundRepair p) = true :=
      List.any_eq_true.mpr ⟨c, hc, by simp [boundRepair, h.stepType, h.links, h.bound, h.key, h.ordinal]⟩
    rcases h.parent with ht | ht <;> simp [ht, hb]
  · rw [h.links] at hr
    cases hr
  · have hb : blocked.any (boundPreflight p) = true :=
      List.any_eq_true.mpr ⟨c, hc, by simp [boundPreflight, h.stepType, h.links, h.bound, h.key]⟩
    simp [h.parent, h.category, hb]
  · have hb : blocked.any (boundEnvironment p) = true :=
      List.any_eq_true.mpr ⟨c, hc, by simp [boundEnvironment, h.stepType, h.links, h.bound, h.key]⟩
    simp [h.parent, hb]

theorem not_suspended (h : ∀ c ∈ blocked, c.links.repairForStepId ≠ some p.id ∧ c.links.capabilityForStepId ≠ some p.id ∧
      c.links.validationEnvironmentForStepId ≠ some p.id) : suspendedParent blocked p = false := by
  have henv : blocked.any (boundEnvironment p) = false := by
    rw [List.any_eq_false]
    intro c hc
    simp [boundEnvironment, (h c hc).2.2]
  have hpre : blocked.any (boundPreflight p) = false := by
    rw [List.any_eq_false]
    intro c hc
    simp [boundPreflight, (h c hc).2.1]
  have hrep : blocked.any (boundRepair p) = false := by
    rw [List.any_eq_false]
    intro c hc
    simp [boundRepair, (h c hc).1]
  simp [suspendedParent, henv, hpre, hrep]

theorem Waits.links_eq (h : Waits p c) (hi : c.links.repairForStepId = some i ∨ c.links.capabilityForStepId = some i ∨
    c.links.validationEnvironmentForStepId = some i) : i = p.id := by
  rcases h with h | h | h | h <;> rw [h.links] at hi <;> simp at hi <;> exact hi.symm

theorem not_suspended_of_root (hw : ∀ c ∈ blocked, c.links = {} ∨
    ∃ z, Waits z c.toStepSpec ∧ z.id ≠ p.id) : suspendedParent blocked p = false := by
  apply not_suspended
  intro c hc
  rcases hw c hc with hl | ⟨z, hz, hne⟩
  · rw [hl]
    simp
  · exact ⟨fun h => hne (hz.links_eq (Or.inl h)).symm, fun h => hne (hz.links_eq (Or.inr (Or.inl h))).symm,
      fun h => hne (hz.links_eq (Or.inr (Or.inr h))).symm⟩

theorem not_suspended_of_revalidates {c : Step} (hr : Revalidates p c.toStepSpec)
    (hw : ∀ z ∈ blocked, z = c ∨ z.links = {} ∨ ∃ w, Waits w z.toStepSpec ∧ w.id ≠ p.id) :
    suspendedParent blocked p = false := by
  apply not_suspended
  intro z hz
  rcases hw z hz with rfl | hl | ⟨w, hw, hne⟩
  · rw [hr.links]
    simp
  · rw [hl]
    simp
  · exact ⟨fun h => hne (hw.links_eq (Or.inl h)).symm, fun h => hne (hw.links_eq (Or.inr (Or.inl h))).symm,
      fun h => hne (hw.links_eq (Or.inr (Or.inr h))).symm⟩

theorem currentRetryTarget_stack (hnd : ((ps ++ [x]).map Step.key).Nodup) (hstack : Stack ps x.toStepSpec)
    (hblocked : (rows.filter fun z => z.status = .blocked) = ps ++ [x]) :
    currentRetryTarget rows = if revalidates (ps ++ [x]) then none else some x := by
  have hne : ∀ z ∈ ps, z.id ≠ x.id := by
    rw [List.map_append, List.nodup_append] at hnd
    exact fun z hz => hnd.2.2 _ (List.mem_map_of_mem hz) _ (List.mem_map_of_mem List.mem_cons_self)
  unfold currentRetryTarget
  simp only [hblocked]
  generalize hcx : x.toStepSpec = c at hstack
  cases hstack with
  | root hl =>
    have hl : x.links = {} := by rw [hcx]; exact hl
    have hx : suspendedParent [x] x = false := not_suspended_of_root fun z hz => by
      rw [List.mem_singleton.mp hz]
      exact Or.inl hl
    simp [hx, revalidates, hl]
  | @one p _ hp hl hw =>
    have hw : Waits p x.toStepSpec := hcx ▸ hw
    have hpx := hne p (by simp)
    have hx : suspendedParent [p, x] x = false := not_suspended_of_root fun z hz => by
      rcases List.mem_pair.mp hz with rfl | rfl
      · exact Or.inl hl
      · exact Or.inr ⟨p, hw, hpx⟩
    cases hres : x.links.resumeAfterValidationStepId with
    | none =>
      have hps : suspendedParent [p, x] p = true := hw.suspended hp (by simp) hres
      simp [hx, hps, revalidates, hl, hres]
    | some j =>
      have hrev : Revalidates p x.toStepSpec := by
        rcases hw with hw | hw | hw | hw
        · rw [hw.links] at hres; cases hres
        · exact hw
        · rw [hw.links] at hres; cases hres
        · rw [hw.links] at hres; cases hres
      have hps : suspendedParent [p, x] p = false := not_suspended_of_revalidates hrev fun z hz => by
        rcases List.mem_pair.mp hz with rfl | rfl
        · exact Or.inr (Or.inl hl)
        · exact Or.inl rfl
      simp [hx, hps, revalidates, hl, hres]
  | @repairAgain q p _ hq hl h1 hp h2 =>
    have h2 : Repairs p x.toStepSpec := hcx ▸ h2
    have hqx := hne q (by simp)
    have hpx := hne p (by simp)
    have hqp : q.id ≠ p.id := by
      simp only [List.cons_append, List.nil_append, List.map_cons, List.map_nil, List.nodup_cons, List.mem_cons] at hnd
      exact fun he => hnd.1 (Or.inl he)
    have hmem : ∀ z ∈ [q, p, x], z = q ∨ z = p ∨ z = x := by simp
    have hxl : suspendedParent [q, p, x] x = false := not_suspended_of_root fun z hz => by
      rcases hmem z hz with rfl | rfl | rfl
      · exact Or.inl hl
      · exact Or.inr ⟨q, .revalidate h1, hqx⟩
      · exact Or.inr ⟨p, .repair h2, hpx⟩
    have hql : suspendedParent [q, p, x] q = false := not_suspended_of_revalidates h1 fun z hz => by
      rcases hmem z hz with rfl | rfl | rfl
      · exact Or.inr (Or.inl hl)
      · exact Or.inl rfl
      · exact Or.inr (Or.inr ⟨p, .repair h2, hqp.symm⟩)
    have hpl : suspendedParent [q, p, x] p = true :=
      Waits.suspended (.repair h2) hp (by simp) (by rw [h2.links])
    simp [hxl, hql, hpl, revalidates, h1.links]
  | @preflightAgain q p _ hq hl h1 hp h2 =>
    have h2 : Preflights p x.toStepSpec := hcx ▸ h2
    have hqx := hne q (by simp)
    have hpx := hne p (by simp)
    have hmem : ∀ z ∈ [q, p, x], z = q ∨ z = p ∨ z = x := by simp
    have hxl : suspendedParent [q, p, x] x = false := not_suspended_of_root fun z hz => by
      rcases hmem z hz with rfl | rfl | rfl
      · exact Or.inl hl
      · exact Or.inr ⟨q, .prepare h1, hqx⟩
      · exact Or.inr ⟨p, .preflight h2, hpx⟩
    have hql : suspendedParent [q, p, x] q = true :=
      Waits.suspended (.prepare h1) hq (by simp) (by rw [h1.links])
    have hpl : suspendedParent [q, p, x] p = true :=
      Waits.suspended (.preflight h2) hp (by simp) (by rw [h2.links])
    simp [hxl, hql, hpl, revalidates, hl, h1.links, h2.links]

theorem currentRetryTarget_blocked (h : Rows chain rows) (htip : Tip rows ps x) (hb : x.status = .blocked) :
    currentRetryTarget rows = if revalidates (ps ++ [x]) then none else some x :=
  currentRetryTarget_stack (htip.nodup h.laid.nodup) htip.stack (by rw [filter_blocked htip, if_pos hb])

theorem currentRetryTarget_nested (h : Rows chain rows) (htip : Tip rows ps x) (hlive : x.status.isLive = true)
    (hn : revalidates ps = true) : currentRetryTarget rows = none := by
  have hb : x.status ≠ .blocked := by rintro hb; rw [hb] at hlive; cases hlive
  have hnd := htip.nodup h.laid.nodup
  unfold currentRetryTarget
  simp only [filter_blocked htip, hb, if_false, List.append_nil]
  have hstack := htip.stack
  generalize x.toStepSpec = c at hstack
  cases hstack with
  | root => cases hn
  | one _ hl _ => simp [revalidates, hl] at hn
  | @preflightAgain q p _ _ hl h1 _ _ => simp [revalidates, hl, h1.links] at hn
  | @repairAgain q p _ hq hl h1 hp h2 =>
    have hqp : q.id ≠ p.id := by
      simp only [List.cons_append, List.nil_append, List.map_cons, List.map_nil, List.nodup_cons, List.mem_cons] at hnd
      exact fun he => hnd.1 (Or.inl he)
    have hql : suspendedParent [q, p] q = false := not_suspended_of_revalidates h1 fun z hz => by
      rcases List.mem_pair.mp hz with rfl | rfl
      · exact Or.inr (Or.inl hl)
      · exact Or.inl rfl
    have hpl : suspendedParent [q, p] p = false := not_suspended_of_root fun z hz => by
      rcases List.mem_pair.mp hz with rfl | rfl
      · exact Or.inl hl
      · exact Or.inr ⟨q, .revalidate h1, hqp⟩
    simp [hql, hpl]

theorem currentRetryTarget_closed (hnil : openRows rows = []) : currentRetryTarget rows = none := by
  have hb : (rows.filter fun z => z.status = .blocked) = [] := by
    rw [List.filter_eq_nil_iff]
    intro z hz hzb
    have hmem : z ∈ openRows rows := mem_openRows.mpr ⟨hz, by rw [of_decide_eq_true hzb]; rfl⟩
    rw [hnil] at hmem
    cases hmem
  simp [currentRetryTarget, hb]

end Projection

end Vuzol.Workflow
