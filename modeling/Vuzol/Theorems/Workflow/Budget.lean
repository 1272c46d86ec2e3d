import Vuzol.Theorems.Workflow.Invariant
import Vuzol.Workflow.TaskRuns

/-! What a run can spend. Every claim of a step is paid out of a budget that the rows carry: their attempts, their
    backpressure waits, and what the steps that a repair or a preflight still adds will cost. -/

namespace Vuzol.Workflow

open Vuzol.Lib

structure Step.Sound (x : Step) : Prop where
  positive : 1 ≤ x.maxAttempts
  attempts : x.attemptCount ≤ x.maxAttempts
  claimable : x.status = .queued ∨ x.status = .pending → x.attemptCount < x.maxAttempts
  unprepared : x.links.validationEnvironmentForStepId = none

/-- What a row that is not completed can still add to the run: a repair leads to a revalidation and to one more
    attempt, a revalidation and a preflight to one more attempt, and a dependency step to one preflight. -/
def Step.credit (waits : Nat) (x : Step) : Nat :=
  if x.status = .completed then 0
  else (if x.links.repairForStepId.isSome then waits + 2 else 0) +
    (if x.links.resumeAfterValidationStepId.isSome then 1 else 0) +
    (if x.links.capabilityForStepId.isSome then 1 else 0) +
    (if x.stepType = .ensureDependencies ∧ x.payload.capabilityPreflightStepId = none then waits + 2 else 0)

def Step.budget (waits : Nat) (x : Step) : Nat :=
  (x.maxAttempts - x.attemptCount) + (waits - x.payload.backpressureCount) + x.credit waits

section Rows
variable {waits : Nat} {x y : Step}

theorem Step.credit_le (waits : Nat) (hs : y.toStepSpec = x.toStepSpec)
    (hp : y.payload.capabilityPreflightStepId = x.payload.capabilityPreflightStepId) (hx : x.status ≠ .completed) :
    y.credit waits ≤ x.credit waits := by
  unfold Step.credit
  rw [hs, hp, if_neg hx]
  split
  · exact Nat.zero_le _
  · exact Nat.le_refl _

theorem Kept.budget_le (h : Kept x y) (hx : x.status ≠ .completed) : y.budget waits ≤ x.budget waits := by
  have hcredit := Step.credit_le waits h.toStepSpec h.preflight hx
  unfold Step.budget
  rw [h.attemptCount, h.maxAttempts, h.backpressureCount]
  omega

theorem Kept.sound (h : Kept x y) (hx : x.Sound)
    (hq : y.status = .queued ∨ y.status = .pending → x.attemptCount < x.maxAttempts) : y.Sound where
  positive := by rw [h.maxAttempts]; exact hx.positive
  attempts := by rw [h.attemptCount, h.maxAttempts]; exact hx.attempts
  claimable := by rw [h.attemptCount, h.maxAttempts]; exact hq
  unprepared := by rw [h.toStepSpec]; exact hx.unprepared

theorem Refunded.sound (h : Refunded x y) (hs : y.toStepSpec = x.toStepSpec) (hx : x.Sound) : y.Sound where
  positive := by rw [h.2]; exact hx.positive
  attempts := by
    have ha := hx.attempts
    rw [h.1, h.2]
    omega
  claimable _ := by
    have ha := hx.attempts
    have hp := hx.positive
    rw [h.1, h.2]
    omega
  unprepared := by rw [hs]; exact hx.unprepared

theorem Refunded.budget_le (h : Refunded x y) (hs : y.toStepSpec = x.toStepSpec)
    (hb : y.payload.backpressureCount = x.payload.backpressureCount)
    (hp : y.payload.capabilityPreflightStepId = x.payload.capabilityPreflightStepId) (hx : x.status ≠ .completed) :
    y.budget waits ≤ x.budget waits + 1 := by
  have hcredit := Step.credit_le waits hs hp hx
  unfold Step.budget
  rw [h.1, h.2, hb]
  omega

theorem Kept.budget_completed (h : Kept x y) (hy : y.status = .completed) :
    y.budget waits + x.credit waits ≤ x.budget waits := by
  have hcredit : y.credit waits = 0 := by simp [Step.credit, hy]
  unfold Step.budget
  rw [hcredit, h.attemptCount, h.maxAttempts, h.backpressureCount]
  omega

theorem Granted.sound (h : Granted x y) (hs : y.toStepSpec = x.toStepSpec) (hx : x.Sound) : y.Sound := by
  have ha := hx.attempts
  have hp := hx.positive
  have hlt : y.attemptCount < y.maxAttempts := by
    rw [h.1, h.2]
    split <;> omega
  exact ⟨by omega, by omega, fun _ => hlt, by rw [hs]; exact hx.unprepared⟩

theorem Granted.budget_le (h : Granted x y) (hw : Woken x y) (hx : x.status ≠ .completed) :
    y.budget waits ≤ x.budget waits + 1 := by
  have hcredit := Step.credit_le waits hw.toStepSpec hw.preflight hx
  unfold Step.budget
  rw [h.1, h.2, hw.backpressureCount]
  split <;> omega

theorem Opened.kept (h : Opened x y) : Kept x y :=
  ⟨h.toStepSpec, h.attemptCount, h.maxAttempts, h.backpressureCount, h.capabilityPreflightStepId⟩

theorem Added.sound {rows : List Step} (h : Added rows x) (hl : x.links.validationEnvironmentForStepId = none) :
    x.Sound where
  positive := by rw [h.maxAttempts]
  attempts := by rw [h.attemptCount, h.maxAttempts]; decide
  claimable _ := by rw [h.attemptCount, h.maxAttempts]; decide
  unprepared := hl

theorem Added.budget_eq {rows : List Step} (h : Added rows x) : x.budget waits = 1 + waits + x.credit waits := by
  unfold Step.budget
  rw [h.attemptCount, h.maxAttempts, h.backpressureCount]
  omega

end Rows

def PreflightsBound (rows : List Step) : Prop :=
  ∀ x ∈ rows, x.payload.capabilityPreflightStepId ≠ none →
    ∃ z ∈ rows, z.stepType = .ensureCapabilities ∧ z.links.capabilityForStepId = some x.id

/-- The rows change, with `spent` claims paid and `given` added to their budget, and `added` new repairs. -/
structure Charged (waits : Nat) (rows rows' : List Step) (spent given added : Nat) : Prop where
  total : Charges (Step.budget waits) rows rows' spent given
  sound : (∀ x ∈ rows, x.Sound) → ∀ y ∈ rows', y.Sound
  bound : PreflightsBound rows → PreflightsBound rows'
  repairs : repairsOf rows' = repairsOf rows + added

section Tables
variable {waits a b a' b' n n' : Nat} {rows rows' rows'' : List Step} {x y c : Step}

theorem Charged.refl : Charged waits rows rows 0 0 0 where
  total := Nat.le_refl _
  sound h := h
  bound h := h
  repairs := rfl

theorem Charged.trans (h1 : Charged waits rows rows' a b n) (h2 : Charged waits rows' rows'' a' b' n') :
    Charged waits rows rows'' (a + a') (b + b') (n + n') where
  total := h1.total.trans h2.total
  sound h := h2.sound (h1.sound h)
  bound h := h2.bound (h1.bound h)
  repairs := by rw [h2.repairs, h1.repairs, Nat.add_assoc]

theorem Charged.settle (h : Charged waits rows rows' a b n) (hab : a' + b ≤ a + b') :
    Charged waits rows rows' a' b' n where
  total := by
    have htotal := h.total
    unfold Charges at htotal ⊢
    omega
  sound := h.sound
  bound := h.bound
  repairs := h.repairs

theorem repairsOf_eq : repairsOf rows = (specsOf rows).countP fun c => c.templateKey = .repairCode := by
  rw [specsOf, List.countP_map]
  rfl

section
variable (hn : (rows.map Step.key).Nodup) (hx : x ∈ rows)
include hn hx

theorem Charged.put_row (hs : y.toStepSpec = x.toStepSpec)
    (hsound : x.Sound → y.Sound)
    (hbind : y.payload.capabilityPreflightStepId ≠ none → x.payload.capabilityPreflightStepId ≠ none ∨
      ∃ z ∈ rows, z.stepType = .ensureCapabilities ∧ z.links.capabilityForStepId = some x.id)
    (h : y.budget waits + a ≤ x.budget waits + b) : Charged waits rows (put Step.key y rows) a b 0 where
  total := .put_row hn hx (congrArg StepSpec.id hs).symm h
  sound hall z hz := by
    rcases mem_or_of_mem_put hz with rfl | hz
    · exact hsound (hall x hx)
    · exact hall z hz
  bound hall z hz hpre := by
    have hold : ∃ w ∈ rows, w.stepType = .ensureCapabilities ∧ w.links.capabilityForStepId = some z.id := by
      rcases mem_or_of_mem_put hz with rfl | hz
      · rw [hs]
        rcases hbind hpre with hx' | hw
        · exact hall x hx hx'
        · exact hw
      · exact hall z hz hpre
    obtain ⟨w, hw, htype, hlink⟩ := hold
    have hmem := mem_specsOf hw
    rw [← specsOf_put hn hx hs] at hmem
    obtain ⟨w', hw', hspec⟩ := List.mem_map.mp hmem
    exact ⟨w', hw', by rw [hspec]; exact htype, by rw [hspec]; exact hlink⟩
  repairs := by rw [repairsOf_eq, repairsOf_eq, specsOf_put hn hx hs, Nat.add_zero]

theorem Charged.put_kept (hy : Kept x y) (hnc : x.status ≠ .completed)
    (hq : x.Sound → y.status = .queued ∨ y.status = .pending → x.attemptCount < x.maxAttempts) :
    Charged waits rows (put Step.key y rows) 0 0 0 :=
  .put_row hn hx hy.toStepSpec (fun hsound => hy.sound hsound (hq hsound))
    (fun hpre => Or.inl (by rw [← hy.preflight]; exact hpre)) (hy.budget_le hnc)

theorem Charged.put_refunded (hr : Refunded x y)
    (hs : y.toStepSpec = x.toStepSpec) (hb : y.payload.backpressureCount = x.payload.backpressureCount)
    (hp : y.payload.capabilityPreflightStepId = x.payload.capabilityPreflightStepId) (hnc : x.status ≠ .completed) :
    Charged waits rows (put Step.key y rows) 0 1 0 :=
  .put_row hn hx hs (hr.sound hs) (fun hpre => Or.inl (by rw [← hp]; exact hpre)) (hr.budget_le hs hb hp hnc)

end

theorem Charged.append (hc : Added rows c) (hl : c.links.validationEnvironmentForStepId = none)
    (h : c.budget waits ≤ b) :
    Charged waits rows (rows ++ [c]) 0 b (if c.templateKey = .repairCode then 1 else 0) where
  total := .append h
  sound hall z hz := by
    rcases Lib.mem_concat.mp hz with hz | rfl
    · exact hall z hz
    · exact hc.sound hl
  bound hall z hz hpre := by
    rcases List.mem_append.mp hz with hz | hz
    · obtain ⟨w, hw, hrest⟩ := hall z hz hpre
      exact ⟨w, List.mem_append_left _ hw, hrest⟩
    · rw [List.mem_singleton.mp hz, hc.preflight] at hpre
      exact absurd rfl hpre
  repairs := by simp [repairsOf, List.countP_append, List.countP_cons]

end Tables

section Commit
variable {waits : Nat} {chain : List StepSpec} {ps qs rows : List Step} {x y p c : Step} {s : State} {f : Facts}
  {o : StepOutcome} {run : RunStatus}

theorem Charged.append_step {b : Nat} (hc : Added rows c) (hl : c.links.validationEnvironmentForStepId = none)
    (hk : c.templateKey ≠ .repairCode) (h : c.budget waits ≤ b) : Charged waits rows (rows ++ [c]) 0 b 0 := by
  have hcharge : Charged waits rows (rows ++ [c]) 0 b (if c.templateKey = .repairCode then 1 else 0) := .append hc hl h
  rwa [if_neg hk] at hcharge

theorem Charged.append_repair (hc : Added rows c) (hr : Repairs y c.toStepSpec) :
    Charged waits rows (rows ++ [c]) 0 (2 * waits + 3) 1 := by
  have hcredit : c.credit waits = waits + 2 := by
    have hne : c.stepType ≠ .ensureDependencies := by
      rintro hd
      have htype := hr.stepType
      rw [hd] at htype
      cases htype
    simp [Step.credit, hc.queued, hr.links, hne]
  have hcharge : Charged waits rows (rows ++ [c]) 0 (2 * waits + 3) (if c.templateKey = .repairCode then 1 else 0) :=
    .append hc (by rw [hr.links]) (by rw [hc.budget_eq, hcredit]; omega)
  rwa [if_pos hr.key] at hcharge

theorem Added.put_row (h : Added rows c) : Added (put Step.key y rows) c :=
  ⟨by rw [length_put]; exact h.id, by rw [length_put]; exact h.ordinal, h.predecessors, h.queued, h.clean, h.attemptCount,
    h.maxAttempts, h.backpressureCount, h.preflight⟩

theorem Completed.charged (hn : (s.steps.map Step.key).Nodup) (htip : Tip s.steps ps x) (hy : Kept x y)
    (hq : y.status = .completed) (hx : x.Sound) (hnc : x.status ≠ .completed)
    (hcomp : Completed s ps x y run rows) : Charged waits s.steps rows 0 0 0 := by
  have hn' : ((put Step.key y s.steps).map Step.key).Nodup := by rwa [map_put fun _ _ hk => hk]
  -- Completing the step frees its credit.
  have hdone : Charged waits s.steps (put Step.key y s.steps) (x.credit waits) 0 0 :=
    .put_row hn htip.mem hy.toStepSpec (fun hsound => hy.sound hsound fun h => by rw [hq] at h; simp at h)
      (fun hpre => Or.inl (by rw [← hy.preflight]; exact hpre)) (hy.budget_completed hq)
  have hfree : ∀ {rows' : List Step} {b : Nat}, b ≤ x.credit waits →
      Charged waits (put Step.key y s.steps) rows' 0 b 0 → Charged waits s.steps rows' 0 0 0 := by
    intro rows' b hb hnext
    exact (hdone.trans hnext).settle (by omega)
  cases hcomp with
  | ended => exact hfree (Nat.zero_le _) .refl
  | stranded => exact hfree (Nat.zero_le _) .refl
  | opened _ hw hready hz =>
    refine hfree (Nat.zero_le _) (.put_kept hn' hw hz.kept ?_ fun hsound _ => hsound.claimable (Or.inr ?_))
    · rw [(Step.ready_eq_true.mp hready).1]
      decide
    · exact (Step.ready_eq_true.mp hready).1
  | @woke qs p p' hps hp hg hlink =>
    subst hps
    have hb : p.status ≠ .completed := by
      rw [(htip.stack.parked (p := p) (by simp)).blocked]
      decide
    have hone : 1 ≤ x.credit waits := by
      rcases hlink with ⟨hl, -⟩ | hl | hl
      · simp only [Step.credit, if_neg hnc, hl, if_true]
        omega
      · simp only [Step.credit, if_neg hnc, hl, if_true]
        omega
      · rw [hx.unprepared] at hl
        cases hl
    exact hfree hone (.put_row hn' (htip.mem_parked hn hy.toStepSpec) hp.toStepSpec (hg.sound hp.toStepSpec)
      (fun hpre => Or.inl (by rw [← hp.preflight]; exact hpre)) (hg.budget_le hp hb))
  | @refunded qs p p' hps hp hr hlink =>
    subst hps
    have hb : p.status ≠ .completed := by
      rw [(htip.stack.parked (p := p) (by simp)).blocked]
      decide
    have hone : 1 ≤ x.credit waits := by
      simp only [Step.credit, if_neg hnc, hlink, if_true]
      omega
    exact hfree hone (.put_refunded hn' (htip.mem_parked hn hy.toStepSpec) hr hp.toStepSpec hp.backpressureCount
      hp.preflight hb)
  | @revalidated qs p c hps hadd hrev hk hlink =>
    have hcredit : c.credit waits = 1 := by
      simp [Step.credit, hadd.queued, hrev.links, hrev.stepType]
    have hpay : waits + 2 ≤ x.credit waits := by
      simp only [Step.credit, if_neg hnc, hlink, if_true]
      omega
    refine hfree hpay (.append_step hadd.put_row (by rw [hrev.links]) (by rw [hk]; decide) ?_)
    rw [hadd.budget_eq, hcredit]
    omega

def refundOf (f : Facts) (x : Step) (o : StepOutcome) : Nat :=
  if o.kind = .needsApproval && sharedApprovalSettled f x then 1 else 0

theorem Charged.put_waited (hn : (rows.map Step.key).Nodup) (hx : x ∈ rows) (hs : y.toStepSpec = x.toStepSpec)
    (hr : Refunded x y) (hb : y.payload.backpressureCount = x.payload.backpressureCount + 1)
    (hcap : x.payload.backpressureCount < waits)
    (hp : y.payload.capabilityPreflightStepId = x.payload.capabilityPreflightStepId) (hnc : x.status ≠ .completed) :
    Charged waits rows (put Step.key y rows) 0 0 0 := by
  refine .put_row hn hx hs (hr.sound hs) (fun hpre => Or.inl (by rw [← hp]; exact hpre)) ?_
  have hcredit := Step.credit_le waits hs hp hnc
  unfold Step.budget
  rw [hr.1, hr.2, hb]
  omega

theorem Charged.preflighted (hl : Laid chain (specsOf rows)) (hx : x ∈ rows) (hs : y.toStepSpec = x.toStepSpec)
    (ha : y.attemptCount = x.attemptCount) (hm : y.maxAttempts = x.maxAttempts)
    (hb : y.payload.backpressureCount = x.payload.backpressureCount) (hblocked : y.status = .blocked)
    (hnc : x.status ≠ .completed) (hc : Added rows c) (hr : Preflights y c.toStepSpec) (hbound : PreflightsBound rows)
    (hnew : ∀ z ∈ rows, z.stepType = .ensureCapabilities → z.links.capabilityForStepId ≠ some x.id) :
    Charged waits rows (put Step.key y rows ++ [c]) 0 0 0 := by
  have hyx : y.id = x.id := congrArg StepSpec.id hs
  have hfresh : ∀ z ∈ rows, Step.key z ≠ c.id := fun z hz => by
    rw [hc.id]
    exact Nat.ne_of_lt (hl.id_lt hz)
  have hrows : put Step.key y rows ++ [c] = put Step.key y (rows ++ [c]) := by
    have hne : Step.key c ≠ Step.key y := by
      rw [show Step.key y = x.id from hyx]
      exact (hfresh x hx).symm
    rw [put_append, put_cons, if_neg hne, put_nil]
  have hn : ((rows ++ [c]).map Step.key).Nodup := nodup_map_append hl.nodup hfresh
  have hcredit : c.credit waits = 1 := by
    simp [Step.credit, hc.queued, hr.links, hr.stepType]
  have hadd : Charged waits rows (rows ++ [c]) 0 (waits + 2) 0 := by
    refine .append_step hc (by rw [hr.links]) (by rw [hr.key]; decide) ?_
    rw [hc.budget_eq, hcredit]
    omega
  have hnone : x.payload.capabilityPreflightStepId = none := by
    by_contra hsome
    obtain ⟨z, hz, htype, hlink⟩ := hbound x hx hsome
    exact hnew z hz htype hlink
  have htype : x.stepType = .ensureDependencies := by
    rw [show x.stepType = y.stepType from by rw [hs]]
    exact hr.parent
  have hput : Charged waits (rows ++ [c]) (put Step.key y (rows ++ [c])) (waits + 2) 0 0 := by
    refine .put_row hn (List.mem_append_left _ hx) hs (fun hsound => ?_) (fun _ => Or.inr ?_) ?_
    · refine ⟨by rw [hm]; exact hsound.positive, by rw [ha, hm]; exact hsound.attempts, fun hq => ?_,
        by rw [hs]; exact hsound.unprepared⟩
      rw [hblocked] at hq
      simp at hq
    · exact ⟨c, by simp, hr.stepType, by rw [hr.links, hyx]⟩
    · have hpaid : y.credit waits + (waits + 2) = x.credit waits := by
        simp [Step.credit, hblocked, hnc, hs, htype, hnone, hr.bound]
      unfold Step.budget
      rw [ha, hm, hb]
      omega
  rw [hrows]
  exact (hadd.trans hput).settle (by omega)

theorem Committed.charged (hl : Laid chain (specsOf s.steps)) (htip : Tip s.steps ps x)
    (hheld : x.status.isHeld = true) (hsound : ∀ z ∈ s.steps, z.Sound) (hbound : PreflightsBound s.steps)
    (hcom : Committed f s ps x o run rows) :
    ∃ added, Charged s.run.recoveryPolicy.backpressureWaitCap s.steps rows 0
        (refundOf f x o + added * (2 * s.run.recoveryPolicy.backpressureWaitCap + 3)) added ∧
      (added = 0 ∨ added = 1 ∧ repairsOf s.steps + f.otherRepairs < s.run.recoveryPolicy.taskRepairCap) := by
  have hn := hl.nodup
  have hnc : x.status ≠ .completed := by
    rintro hq
    rw [hq] at hheld
    cases hheld
  have hfree : ∀ {rows : List Step}, Charged s.run.recoveryPolicy.backpressureWaitCap s.steps rows 0 0 0 →
      ∃ added, Charged s.run.recoveryPolicy.backpressureWaitCap s.steps rows 0
          (refundOf f x o + added * (2 * s.run.recoveryPolicy.backpressureWaitCap + 3)) added ∧
        (added = 0 ∨ added = 1 ∧ repairsOf s.steps + f.otherRepairs < s.run.recoveryPolicy.taskRepairCap) :=
    fun h => ⟨0, h.settle (by omega), Or.inl rfl⟩
  -- Most outcomes store the row with its tallies, in a status that no claim starts from.
  have hstop : ∀ {y : Step}, Kept x y → y.status ≠ .queued → y.status ≠ .pending →
      Charged s.run.recoveryPolicy.backpressureWaitCap s.steps (put Step.key y s.steps) 0 0 0 :=
    fun hy hq hp => .put_kept hn htip.mem hy hnc fun _ h => absurd h (by simp [hq, hp])
  cases hcom with
  | waited _ hs _ _ hr hb hcap hpf => exact hfree (.put_waited hn htip.mem hs hr hb hcap hpf hnc)
  | retried _ hy _ _ hmore => exact hfree (.put_kept hn htip.mem hy hnc fun _ _ => hmore)
  | released ho hsettled hs _ _ hr hb hpf =>
    refine ⟨0, (Charged.put_refunded hn htip.mem hr hs hb hpf hnc).settle ?_, Or.inl rfl⟩
    simp [refundOf, ho, hsettled]
  | asked _ _ hy hq => exact hfree (hstop hy (by rw [hq]; decide) (by rw [hq]; decide))
  | questioned _ hy hq => exact hfree (hstop hy (by rw [hq]; decide) (by rw [hq]; decide))
  | stopped hy hq => exact hfree (hstop hy (by rw [hq]; decide) (by rw [hq]; decide))
  | failed _ _ hy hq => exact hfree (hstop hy (by rw [hq]; decide) (by rw [hq]; decide))
  | cancelled _ _ hy hq => exact hfree (hstop hy (by rw [hq]; decide) (by rw [hq]; decide))
  | repaired _ _ hy hp hc hr hcap =>
    have hput := hstop hy (by rw [hp.blocked]; decide) (by rw [hp.blocked]; decide)
    exact ⟨1, (hput.trans (.append_repair hc.put_row hr)).settle (by omega), Or.inr ⟨rfl, hcap⟩⟩
  | preflighted _ _ hs ha hm hb hp hc hr hnew =>
    exact hfree (.preflighted hl htip.mem hs ha hm hb hp.blocked hnc hc hr hbound hnew)
  | completed _ hy hq hcomp => exact hfree (hcomp.charged hn htip hy hq (hsound x htip.mem) hnc)

end Commit

section Operations
variable {waits : Nat} {chain : List StepSpec} {s t : State} {f : Facts} {o : StepOutcome} {op : Op}
  {token : LeaseToken}

theorem claimStep_charged {k : Claim} (h : Live chain s) (hop : perform s (.claimStep k) = .ok t) :
    Charged waits s.steps t.steps ((Op.claimStep k).claims s) 0 0 := by
  cases hclaim : claimStep s k with
  | none =>
    simp only [perform, hclaim, Option.elim_none, Except.ok.injEq] at hop
    subst hop
    simpa [Op.claims, hclaim] using Charged.refl
  | some r =>
    obtain ⟨x, hfind, hx, hr⟩ := claimStep_eq_some hclaim
    obtain ⟨hq, hlt, -⟩ := claimable_eq_true hx
    simp only [perform, hclaim, Option.elim_some, Except.ok.injEq] at hop
    have hsteps : t.steps = put Step.key (leaseStep k x) s.steps := by rw [← hop, hr]; rfl
    have hone : (Op.claimStep k).claims s = 1 := by simp [Op.claims, hclaim]
    rw [hsteps, hone]
    refine .put_row h.rows.laid.nodup (State.mem_of_step? hfind).1 rfl (fun hsound => ?_) (fun hpre => Or.inl hpre) ?_
    · refine ⟨hsound.positive, hlt, fun hst => ?_, hsound.unprepared⟩
      rcases hst with hst | hst
      · cases hst
      · cases hst
    · have hcredit : (leaseStep k x).credit waits ≤ x.credit waits :=
        Step.credit_le _ rfl rfl (by rw [hq]; decide)
      have hbudget : (leaseStep k x).budget waits = x.maxAttempts - (x.attemptCount + 1) +
          (waits - x.payload.backpressureCount) + (leaseStep k x).credit waits := rfl
      rw [hbudget, Step.budget]
      omega

theorem updateLeased_charged {matched : Step → Bool} {change : Step → Step} (h : Live chain s)
    (hop : updateLeased s token matched change = .ok t) (hheld : ∀ x, matched x = true → x.status.isHeld = true)
    (hkept : ∀ x, Kept x (change x)) (hstatus : ∀ x, x.status.isHeld = true → (change x).status.isHeld = true) :
    Charged waits s.steps t.steps 0 0 0 := by
  obtain ⟨x, hfind, -, hm, rfl⟩ := updateLeased_eq_ok hop
  have hx := hheld x hm
  refine .put_kept h.rows.laid.nodup (State.mem_of_step? hfind).1 (hkept x) ?_ fun _ hq => ?_
  · rintro hc
    rw [hc] at hx
    cases hx
  · have hy := hstatus x hx
    rcases hq with hq | hq <;> rw [hq] at hy <;> cases hy

theorem startStep_charged (h : Live chain s) (hop : startStep s token = .ok t) : Charged waits s.steps t.steps 0 0 0 := by
  unfold startStep at hop
  obtain ⟨s1, h1, hop1⟩ := bind_eq_ok.mp hop
  cases hop1
  change Charged waits s.steps s1.steps 0 0 0
  refine updateLeased_charged h h1 (fun x hm => ?_) (fun _ => ⟨rfl, rfl, rfl, rfl, rfl⟩) fun _ _ => rfl
  simp only [Bool.and_eq_true, decide_eq_true_eq] at hm
  rw [hm.1]
  rfl

theorem heartbeatStep_charged {now leaseSeconds : Nat} (h : Live chain s)
    (hop : heartbeatStep s token now leaseSeconds = .ok t) : Charged waits s.steps t.steps 0 0 0 := by
  unfold heartbeatStep at hop
  refine updateLeased_charged h hop (fun x hm => ?_) (fun _ => ⟨rfl, rfl, rfl, rfl, rfl⟩) fun _ hx => hx
  rw [Bool.and_eq_true] at hm
  exact hm.1

theorem startRun_charged (hc : Chain chain) (h : Live chain s) (hop : startRun f s = .ok t) :
    Charged waits s.steps t.steps 0 0 0 := by
  rcases startRun_cases hc h hop with rfl | ⟨-, -, -, -, hs | ⟨x, hx, hready, y, hy, hs⟩⟩
  · exact .refl
  · rw [hs]
    exact .refl
  · have hp := (Step.ready_eq_true.mp hready).1
    rw [hs]
    exact .put_kept h.rows.laid.nodup hx hy.kept (by rw [hp]; decide) fun hsound _ => hsound.claimable (Or.inr hp)

theorem recoverExpiredStep_charged {id now : Nat} (h : Live chain s) (hop : recoverExpiredStep s id now = .ok t) :
    Charged waits s.steps t.steps 0 ((Op.recoverExpiredStep id now).refunds s) 0 := by
  rcases recoverExpiredStep_cases hop with rfl | ⟨x, hfind, hexp, hone⟩
  · exact Charged.refl.settle (by omega)
  · have hheld := leaseExpired_isHeld hexp
    have hx := (State.mem_of_step? hfind).1
    have hn := h.rows.laid.nodup
    have hnc : x.status ≠ .completed := by
      rintro hq
      rw [hq] at hheld
      cases hheld
    obtain ⟨hrun, -⟩ := h.held hx hheld
    obtain ⟨hrec, -⟩ := recoverOne_cases hrun hone
    generalize t.run.status = run at hrec
    generalize t.steps = rows at hrec
    have hstop : ∀ {y : Step}, Kept x y → y.status ≠ .queued → y.status ≠ .pending →
        Charged waits s.steps (put Step.key y s.steps) 0 ((Op.recoverExpiredStep id now).refunds s) 0 := by
      intro y hy hq hp
      exact (Charged.put_kept hn hx hy hnc fun _ hst => absurd hst (by simp [hq, hp])).settle (by omega)
    cases hrec with
    | requeued hs hq _ hm hb ha =>
      rcases ha with ⟨hleased, ha⟩ | ⟨hne, ha, hmore⟩
      · -- A claim that never started is given back.
        refine (Charged.put_refunded hn hx ⟨ha, hm⟩ hs (by rw [hb]) (by rw [hb]) hnc).settle ?_
        simp [Op.refunds, hfind, hexp, hleased]
      · exact (Charged.put_kept hn hx ⟨hs, ha, hm, by rw [hb], by rw [hb]⟩ hnc fun _ _ => hmore).settle (by omega)
    | failed hy hq => exact hstop hy (by rw [hq]; decide) (by rw [hq]; decide)
    | blocked hy hq => exact hstop hy (by rw [hq]; decide) (by rw [hq]; decide)

theorem blockRoute_charged {id now : Nat} {category summary : String} {quota : Bool} (h : Live chain s)
    (hop : blockRoute s id now category summary quota = .ok t) : Charged waits s.steps t.steps 0 0 0 := by
  rcases blockRoute_cases hop with rfl | ⟨x, hx, hq, -, hs, -⟩
  · exact .refl
  · rw [hs]
    refine .put_kept h.rows.laid.nodup hx ⟨rfl, rfl, rfl, rfl, rfl⟩ (by rw [hq]; decide) fun _ hst => ?_
    rcases hst with hst | hst <;> cases hst

theorem requestApproval_charged {body : String} {shared : Option Nat} {expiresAt : Nat} (h : Live chain s)
    (hop : requestApproval s token body shared expiresAt = .ok t) : Charged waits s.steps t.steps 0 0 0 := by
  obtain ⟨-, -, hsame | ⟨x, hx, hheld, y, hs, hy, hst, -⟩⟩ := requestApproval_cases hop
  · rw [hsame]
    exact .refl
  · rw [hs]
    refine .put_kept h.rows.laid.nodup hx hy ?_ fun _ hq => ?_
    · rintro hc
      rw [hc] at hheld
      cases hheld
    · rw [hst] at hq
      rcases hq with hq | hq <;> rw [hq] at hheld <;> cases hheld

theorem wakeCapabilityWaiter_charged {id approvalId : Nat} (h : Live chain s)
    (hop : wakeCapabilityWaiter s id approvalId = .ok t) :
    Charged waits s.steps t.steps 0 ((Op.wakeCapabilityWaiter id approvalId).refunds s) 0 := by
  rcases wakeCapabilityWaiter_cases hop with rfl | ⟨x, hfind, hw, hwait, hrun, -, hs, -⟩
  · exact Charged.refl.settle (by omega)
  · rw [hs]
    have hr : Refunded x { x with status := .queued, attemptCount := x.attemptCount - 1 } := ⟨rfl, rfl⟩
    refine (Charged.put_refunded h.rows.laid.nodup (State.mem_of_step? hfind).1 hr rfl rfl rfl
      (by rw [hw]; decide)).settle ?_
    simp [Op.refunds, hfind, hw, hwait, hrun]

theorem perform_charged (hc : Chain chain) (h : Live chain s) (hsound : ∀ z ∈ s.steps, z.Sound)
    (hbound : PreflightsBound s.steps) (hauto : op.isAutomatic = true) (hop : perform s op = .ok t) :
    Live chain t ∧ ∃ added, Charged s.run.recoveryPolicy.backpressureWaitCap s.steps t.steps (op.claims s)
        (op.refunds s + added * (2 * s.run.recoveryPolicy.backpressureWaitCap + 3)) added ∧
      (added = 0 ∨ added = 1 ∧ ∃ f token o, op = .commitStepOutcome f token o ∧
        repairsOf s.steps + f.otherRepairs < s.run.recoveryPolicy.taskRepairCap) := by
  have hfree : ∀ {claims refunds : Nat},
      Charged s.run.recoveryPolicy.backpressureWaitCap s.steps t.steps claims refunds 0 →
      ∃ added, Charged s.run.recoveryPolicy.backpressureWaitCap s.steps t.steps claims
          (refunds + added * (2 * s.run.recoveryPolicy.backpressureWaitCap + 3)) added ∧
        (added = 0 ∨ added = 1 ∧ ∃ f token o, op = .commitStepOutcome f token o ∧
          repairsOf s.steps + f.otherRepairs < s.run.recoveryPolicy.taskRepairCap) :=
    fun hcharge => ⟨0, hcharge.settle (by omega), Or.inl rfl⟩
  cases op with
  | startRun f => exact ⟨(startRun_live hc h hop).1, hfree (startRun_charged hc h hop)⟩
  | claimStep k => exact ⟨(claimStep_live hc h hop).1, hfree (claimStep_charged h hop)⟩
  | startStep token => exact ⟨(startStep_live hc h hop).1, hfree (startStep_charged h hop)⟩
  | heartbeatStep token now leaseSeconds =>
    exact ⟨(heartbeatStep_live hc h hop).1, hfree (heartbeatStep_charged h hop)⟩
  | commitStepOutcome f token o =>
    obtain ⟨x, hx, hop1⟩ := bind_eq_ok.mp hop
    obtain ⟨u, hu, hop2⟩ := bind_eq_ok.mp hop1
    obtain ⟨hfind, -, hheld, -, -⟩ := leasedRow_eq_ok hx
    obtain ⟨hrun, ps, htip⟩ := h.held (State.mem_of_step? hfind).1 hheld
    have hcom := commitRows_cases hc h.rows htip hheld hrun hu
    have hrefund : (Op.commitStepOutcome f token o).refunds s = refundOf f x o := by simp [Op.refunds, hfind, refundOf]
    obtain ⟨added, hcharge, hadded⟩ := hcom.charged h.rows.laid htip hheld hsound hbound
    rw [(projectTask_status hop2).2.2, hrefund]
    refine ⟨(commitStepOutcome_live hc h hop).1, added, hcharge, hadded.imp_right ?_⟩
    exact fun hcap => ⟨hcap.1, f, token, o, rfl, hcap.2⟩
  | recoverExpiredStep id now =>
    exact ⟨(recoverExpiredStep_live hc h hop).1, hfree (recoverExpiredStep_charged h hop)⟩
  | blockRoute id now category summary quota => exact ⟨(blockRoute_live h hop).1, hfree (blockRoute_charged h hop)⟩
  | requestApproval token body shared expiresAt =>
    exact ⟨(requestApproval_live hc h hop).1, hfree (requestApproval_charged h hop)⟩
  | wakeCapabilityWaiter id approvalId =>
    exact ⟨(wakeCapabilityWaiter_live hc h hop).1, hfree (wakeCapabilityWaiter_charged h hop)⟩
  | recordEffects effects =>
    cases hop
    exact ⟨h.congr rfl rfl, hfree .refl⟩
  | pauseTask | resumeTask | cancelTask | retryTask | continueOwnerDecision | decideResult |
    recoverValidationEnvironment | recoverUnsentCliReview | continueTask => cases hauto

end Operations

end Vuzol.Workflow
