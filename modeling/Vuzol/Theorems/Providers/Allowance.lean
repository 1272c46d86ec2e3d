import Vuzol.Theorems.Providers.Caps

/-! The review allowance of a task. A pool would let the reviews of a task go over its cap by the allowance
    together. `reserve_budget` takes from an overrun what one call adds and what the deductions of all earlier
    calls leave, so that it agrees with a pool in the states that `Covered` describes and in no others. -/

namespace Vuzol.Providers

open Vuzol.Lib

inductive Dimension where
  | inputTokens | outputTokens | costUnits

namespace Dimension

def of : Dimension → Amounts → Nat
  | inputTokens, a => a.inputTokens
  | outputTokens, a => a.outputTokens
  | costUnits, a => a.costUnits

def taskLimit : Dimension → HardLimits → Nat
  | inputTokens, limits => limits.taskInputTokens
  | outputTokens, limits => limits.taskOutputTokens
  | costUnits, limits => limits.taskCostUnits

def allowance : Dimension → HardLimits → Nat
  | inputTokens, limits => limits.reviewAllowanceInputTokens
  | outputTokens, limits => limits.reviewAllowanceOutputTokens
  | costUnits, limits => limits.reviewAllowanceCostUnits

def detail : Dimension → String
  | inputTokens => "task input-token limit exceeded"
  | outputTokens => "task output-token limit exceeded"
  | costUnits => "task cost limit exceeded"

end Dimension

namespace ReserveRequest
variable (g : Registry) (l : Ledger) (q : ReserveRequest) (d : Dimension)

def answers : Answers := (q.queries g).foldl (q.ask g l) {}

def taskHeld : Nat :=
  d.of (l.usageTotals q.taskId none (some (q.epoch g)) + l.reservedTotals q.taskId none (some (q.epoch g)))

def OverPool : Prop := d.taskLimit q.limits + d.allowance q.limits < q.taskHeld g l d + d.of q.estimate

/-- The estimate fits the cap, or nothing went over the cap before and the overrun fits what the deductions on the
    reservations of the task have left of the allowance. -/
def Covered : Prop :=
  q.taskHeld g l d + d.of q.estimate ≤ d.taskLimit q.limits ∨
    (q.taskHeld g l d ≤ d.taskLimit q.limits ∧
      d.of (l.taskReviewAllowance (q.taskId.getD 0)) + (q.taskHeld g l d + d.of q.estimate - d.taskLimit q.limits) ≤
        d.allowance q.limits)

/-- The check of `reserve_budget` on a task limit. -/
def exceeds (a : Answers) : Bool :=
  d.taskLimit q.limits < d.of (a.taskUsage + a.taskReserved) + d.of q.estimate - d.of (allowed q a)

/-- The call is new, names its key and a task, and passes the checks before and between those of the task: the size
    of the call and the limits of its step. -/
structure ReachesTask : Prop where
  keyed : q.stepId.isSome = true ∨ q.invocationId.isSome = true
  fresh : q.existing? l = none
  task : (q.taskId.bind g.task?).isSome = true
  call : enforceCall q = .ok ()
  stepTokens : enforceStepTokens q (q.answers g l) = .ok ()
  stepCost : enforceStepCost q (q.answers g l) = .ok ()

end ReserveRequest

section Answers
variable {g : Registry} {l : Ledger} {q : ReserveRequest}

theorem foldl_ask {β : Type} (column : Answers → β) (x : Query) {v : β}
    (hask : ∀ a y, column (q.ask g l a y) = if y = x then v else column a) (queries : List Query) (a : Answers)
    (h : x ∈ queries ∨ column a = v) : column (queries.foldl (q.ask g l) a) = v := by
  induction queries generalizing a with
  | nil => simpa using h
  | cons y queries ih =>
    refine ih _ ?_
    by_cases hy : y = x
    · right
      rw [hask, if_pos hy]
    · rcases h with h | h
      · exact Or.inl ((List.mem_cons.mp h).resolve_left (Ne.symm hy))
      · right
        rw [hask, if_neg hy, h]

theorem answers_existing : (q.answers g l).existing = q.existing? l := by
  refine foldl_ask (·.existing) .existing (fun a y => by cases y <;> rfl) _ _ (Or.inl ?_)
  unfold ReserveRequest.queries
  split <;> simp

theorem answers_taskUsage (hreview : q.reviewAllowance = true) :
    (q.answers g l).taskUsage = l.usageTotals q.taskId none (some (q.epoch g)) := by
  refine foldl_ask (·.taskUsage) .taskUsage (fun a y => by cases y <;> rfl) _ _ (Or.inl ?_)
  unfold ReserveRequest.queries ReserveRequest.reviewAllowance at *
  split <;> simp_all

theorem answers_taskReserved (hreview : q.reviewAllowance = true) :
    (q.answers g l).taskReserved = l.reservedTotals q.taskId none (some (q.epoch g)) := by
  refine foldl_ask (·.taskReserved) .taskReserved (fun a y => by cases y <;> rfl) _ _ (Or.inl ?_)
  unfold ReserveRequest.queries ReserveRequest.reviewAllowance at *
  split <;> simp_all

theorem answers_reviewAllowance (hreview : q.reviewAllowance = true) :
    (q.answers g l).reviewAllowance = l.taskReviewAllowance (q.taskId.getD 0) := by
  refine foldl_ask (·.reviewAllowance) .reviewAllowance (fun a y => by cases y <;> rfl) _ _ (Or.inl ?_)
  unfold ReserveRequest.queries
  split
  · simp [hreview]
  · rename_i hentry
    simp [ReserveRequest.reviewAllowance, hentry] at hreview

end Answers

section Refusals
variable {g : Registry} {l l' : Ledger} {q : ReserveRequest} {a : Answers} {d : Dimension} {e : LedgerError}

def Elsewhere {α : Type} (x : Except LedgerError α) : Prop := ∀ d : Dimension, x ≠ .error (.budgetExceeded d.detail)

theorem Elsewhere.require {ok : Bool} (he : ∀ d : Dimension, e ≠ .budgetExceeded d.detail) :
    Elsewhere (Providers.require ok e) := by
  intro d h
  cases ok with
  | true => cases h
  | false => exact he d (Except.error.inj h)

theorem Elsewhere.ok {α : Type} {x : α} : Elsewhere (.ok x) := fun _ h => by cases h

theorem Elsewhere.bind {α β : Type} {x : Except LedgerError α} {f : α → Except LedgerError β} (hx : Elsewhere x)
    (hf : ∀ y, Elsewhere (f y)) : Elsewhere (x >>= f) := by
  intro d h
  rcases bind_eq_error.mp h with h | ⟨y, -, h⟩
  · exact hx d h
  · exact hf y d h

theorem enforceDaily_elsewhere : Elsewhere (enforceDaily q a) :=
  .bind (.require fun d => by cases d <;> decide) fun _ => .require fun d => by cases d <;> decide

theorem enforceLifetime_elsewhere : Elsewhere (enforceLifetime g q a) := by
  unfold enforceLifetime
  cases hattempts : q.maxAttempts g with
  | none =>
    cases hcost : q.maxCost g with
    | none => exact .ok
    | some cost => exact .bind (.require fun d => by cases d <;> decide) fun _ => .ok
  | some cap =>
    have hcap : Elsewhere (require (lifetimeTaskCount g (a.usageTasks ++ a.reservedTasks) < cap)
        (.budgetExceeded "lifetime owner attempt budget exhausted")) := .require fun d => by cases d <;> decide
    cases hcost : q.maxCost g with
    | none => exact hcap
    | some cost => exact .bind (.require fun d => by cases d <;> decide) fun _ => hcap

theorem enforceCounters_elsewhere : Elsewhere (enforceCounters g q a) :=
  .bind (.require fun d => by cases d <;> decide) fun _ => .bind (.require fun d => by cases d <;> decide) fun _ =>
    .require fun d => by cases d <;> decide

theorem requireAdmissionOnlyConsent_elsewhere : Elsewhere (requireAdmissionOnlyConsent g q) :=
  .require fun d => by cases d <;> decide

theorem enforceExplicitMoneyCap_elsewhere : Elsewhere (enforceExplicitMoneyCap g q a) := by
  unfold enforceExplicitMoneyCap
  split
  · exact .bind (.require fun d => by cases d <;> decide) fun _ => .require fun d => by cases d <;> decide
  · exact .ok

theorem addReservation_elsewhere {r : ProviderBudgetReservation} : Elsewhere (l.addReservation r) := by
  intro d h
  unfold Ledger.addReservation at h
  split_ifs at h <;> cases h

theorem later_elsewhere : Elsewhere (do
    enforceDaily q a; enforceLifetime g q a; enforceCounters g q a; requireAdmissionOnlyConsent g q
    enforceExplicitMoneyCap g q a) :=
  .bind enforceDaily_elsewhere fun _ => .bind enforceLifetime_elsewhere fun _ => .bind enforceCounters_elsewhere fun _ =>
    .bind requireAdmissionOnlyConsent_elsewhere fun _ => enforceExplicitMoneyCap_elsewhere

theorem enforceTask_eq (tokens : q.limits.usageTotalEnforcement = .hard) (cost : q.limits.estimatedCostEnforcement = .hard) :
    enforceTaskTokens q a = (do
      require (!q.exceeds .inputTokens a) (.budgetExceeded (Dimension.detail .inputTokens))
      require (!q.exceeds .outputTokens a) (.budgetExceeded (Dimension.detail .outputTokens))) ∧
    enforceTaskCost q a = require (!q.exceeds .costUnits a) (.budgetExceeded (Dimension.detail .costUnits)) := by
  have hsoft : decide (Enforcement.hard = Enforcement.soft) = false := rfl
  simp only [enforceTaskTokens, enforceTaskCost, enforce, tokens, cost, hsoft, Bool.or_false]
  exact ⟨rfl, rfl⟩

/-- A call that gets to the checks of the task is refused on one of its limits exactly when one of them fails. -/
theorem refused_iff (hreview : q.reviewAllowance = true) (hreach : q.ReachesTask g l)
    (tokens : q.limits.usageTotalEnforcement = .hard) (cost : q.limits.estimatedCostEnforcement = .hard) :
    (∃ d : Dimension, reserve g l q = .error (.budgetExceeded d.detail)) ↔ ∃ d, q.exceeds d (q.answers g l) = true := by
  obtain ⟨stepId, invocationId, attempt, review, hentry⟩ : ∃ i k n b, q.entry = .workflow i k n b := by
    unfold ReserveRequest.reviewAllowance at hreview
    split at hreview
    · exact ⟨_, _, _, _, by assumption⟩
    · cases hreview
  have hkeyed : (q.stepId.isSome || q.invocationId.isSome) = true := by simpa using hreach.keyed
  have htask : q.taskId.isSome = true := by
    cases hid : q.taskId with
    | none => simpa [hid] using hreach.task
    | some id => rfl
  obtain ⟨htokens, hcost⟩ := enforceTask_eq (a := q.answers g l) tokens cost
  have heq : reserve g l q = (do
      require (!q.exceeds .inputTokens (q.answers g l)) (.budgetExceeded (Dimension.detail .inputTokens))
      require (!q.exceeds .outputTokens (q.answers g l)) (.budgetExceeded (Dimension.detail .outputTokens))
      require (!q.exceeds .costUnits (q.answers g l)) (.budgetExceeded (Dimension.detail .costUnits))
      (do
        enforceDaily q (q.answers g l); enforceLifetime g q (q.answers g l); enforceCounters g q (q.answers g l)
        requireAdmissionOnlyConsent g q; enforceExplicitMoneyCap g q (q.answers g l))
      l.addReservation (q.row g (q.answers g l))) := by
    change conclude g l q (q.answers g l) = _
    have hnew : (q.answers g l).existing.isSome = false := by rw [answers_existing, hreach.fresh]; rfl
    simp only [conclude, hnew, Bool.false_eq_true, if_false, gates, hentry, workflowGates, hkeyed, htask, hreach.task,
      hreach.call, hreach.stepTokens, hreach.stepCost, htokens, hcost, require, if_true, ok_bind, bind_assoc]
  have hrest : Elsewhere (do
      (do
        enforceDaily q (q.answers g l); enforceLifetime g q (q.answers g l); enforceCounters g q (q.answers g l)
        requireAdmissionOnlyConsent g q; enforceExplicitMoneyCap g q (q.answers g l))
      l.addReservation (q.row g (q.answers g l))) := .bind later_elsewhere fun _ => addReservation_elsewhere
  rw [heq]
  cases hin : q.exceeds .inputTokens (q.answers g l) with
  | true => exact ⟨fun _ => ⟨_, hin⟩, fun _ => ⟨.inputTokens, rfl⟩⟩
  | false =>
    cases hout : q.exceeds .outputTokens (q.answers g l) with
    | true => exact ⟨fun _ => ⟨_, hout⟩, fun _ => ⟨.outputTokens, rfl⟩⟩
    | false =>
      cases hc : q.exceeds .costUnits (q.answers g l) with
      | true => exact ⟨fun _ => ⟨_, hc⟩, fun _ => ⟨.costUnits, rfl⟩⟩
      | false =>
        constructor
        · rintro ⟨d, hd⟩
          exact absurd hd (hrest d)
        · rintro ⟨d, hd⟩
          cases d <;> simp_all

end Refusals

section Pool
variable {g : Registry} {l : Ledger} {q : ReserveRequest}

theorem of_allowed (hreview : q.reviewAllowance = true) (a : Answers) (d : Dimension) : d.of (allowed q a) =
    min (min (d.of q.estimate) (d.of (a.taskUsage + a.taskReserved) + d.of q.estimate - d.taskLimit q.limits))
      (d.allowance q.limits - d.of a.reviewAllowance) := by
  cases d <;> simp [allowed, hreview, Dimension.of, Dimension.taskLimit, Dimension.allowance]

theorem exceeds_iff (hreview : q.reviewAllowance = true) (d : Dimension) : q.exceeds d (q.answers g l) = true ↔
    d.taskLimit q.limits < q.taskHeld g l d + d.of q.estimate - min (min (d.of q.estimate)
      (q.taskHeld g l d + d.of q.estimate - d.taskLimit q.limits))
        (d.allowance q.limits - d.of (l.taskReviewAllowance (q.taskId.getD 0))) := by
  rw [ReserveRequest.exceeds, of_allowed hreview, answers_taskUsage hreview, answers_taskReserved hreview,
    answers_reviewAllowance hreview, decide_eq_true_eq]
  rfl

/-- A review that gets to the task limits is refused on one of them exactly when the check of one fails. In each
    dimension the check is the pool law where the pool is exceeded or the overrun is covered, and nowhere else. -/
theorem review_allowance_pool (hreview : q.reviewAllowance = true) (hreach : q.ReachesTask g l)
    (tokens : q.limits.usageTotalEnforcement = .hard) (cost : q.limits.estimatedCostEnforcement = .hard) :
    ((∃ d : Dimension, reserve g l q = .error (.budgetExceeded d.detail)) ↔ ∃ d, q.exceeds d (q.answers g l) = true) ∧
    (∀ d, (q.exceeds d (q.answers g l) = true ↔ q.OverPool g l d) ↔ q.OverPool g l d ∨ q.Covered g l d) ∧
    (((∃ d : Dimension, reserve g l q = .error (.budgetExceeded d.detail)) ↔ ∃ d, q.OverPool g l d) ↔
      (∃ d, q.OverPool g l d) ∨ ∀ d, q.Covered g l d) := by
  have hrefused := refused_iff hreview hreach tokens cost
  have hstrict : ∀ d, q.OverPool g l d → q.exceeds d (q.answers g l) = true := by
    intro d hover
    rw [exceeds_iff hreview]
    unfold ReserveRequest.OverPool at hover
    omega
  have hcovered : ∀ d, q.exceeds d (q.answers g l) = false ↔ q.Covered g l d := by
    intro d
    rw [Bool.eq_false_iff, ne_eq, exceeds_iff hreview]
    unfold ReserveRequest.Covered
    omega
  refine ⟨hrefused, fun d => ?_, ?_⟩
  · cases hexceeds : q.exceeds d (q.answers g l) with
    | true =>
      have hnot : ¬q.Covered g l d := fun h => by rw [(hcovered d).mpr h] at hexceeds; cases hexceeds
      simp [hnot]
    | false =>
      have hnot : ¬q.OverPool g l d := fun h => by rw [hstrict d h] at hexceeds; cases hexceeds
      simp [hnot, (hcovered d).mp hexceeds]
  · rw [hrefused]
    constructor
    · intro h
      by_cases hover : ∃ d, q.OverPool g l d
      · exact Or.inl hover
      · refine Or.inr fun d => (hcovered d).mp ?_
        rw [Bool.eq_false_iff]
        exact fun hexceeds => hover (h.mp ⟨d, hexceeds⟩)
    · rintro (hover | hall)
      · obtain ⟨d, hd⟩ := hover
        exact ⟨fun _ => ⟨d, hd⟩, fun _ => ⟨d, hstrict d hd⟩⟩
      · refine ⟨fun ⟨d, hd⟩ => ?_, fun ⟨d, hd⟩ => ⟨d, hstrict d hd⟩⟩
        rw [(hcovered d).mpr (hall d)] at hd
        cases hd

end Pool

section Check

def pooledTask : Registry := { tasks := [{ id := 0 }] }

def pooledCall (stepId inputTokens : Nat) (review : Bool) : ReserveRequest where
  entry := .workflow (some stepId) none 1 review
  taskId := some 0
  estimate := { inputTokens := inputTokens }
  limits := { taskInputTokens := 100, reviewAllowanceInputTokens := 10 }

def atCap : List LedgerOp := [.reserve pooledTask (pooledCall 0 100 false)]

theorem review_allowance_pool_first :
    (∃ d : Dimension, reserve pooledTask (atCap.foldl Ledger.after {}) (pooledCall 1 11 true) =
      .error (.budgetExceeded d.detail)) ∧
    ((pooledCall 1 11 true).exceeds .inputTokens ((pooledCall 1 11 true).answers pooledTask (atCap.foldl Ledger.after {})) =
      true ↔ (pooledCall 1 11 true).OverPool pooledTask (atCap.foldl Ledger.after {}) .inputTokens) ∧
    ((∃ d : Dimension, reserve pooledTask (atCap.foldl Ledger.after {}) (pooledCall 1 11 true) =
      .error (.budgetExceeded d.detail)) ↔ ∃ d, (pooledCall 1 11 true).OverPool pooledTask (atCap.foldl Ledger.after {}) d) := by
  have hover : (pooledCall 1 11 true).OverPool pooledTask (atCap.foldl Ledger.after {}) .inputTokens := by
    unfold ReserveRequest.OverPool
    decide +kernel
  obtain ⟨hrefused, heach, hall⟩ := @review_allowance_pool pooledTask (atCap.foldl Ledger.after {}) (pooledCall 1 11 true) rfl
    ⟨by decide, by decide +kernel, by decide, by decide +kernel, by decide +kernel, by decide +kernel⟩ rfl rfl
  have hiff := (heach .inputTokens).mpr (.inl hover)
  exact ⟨hrefused.mpr ⟨_, hiff.mpr hover⟩, hiff, hall.mpr (.inl ⟨_, hover⟩)⟩

def reviewUnderWay : List LedgerOp := atCap ++ [.reserve pooledTask (pooledCall 1 3 true)]

def reviewReleased : List LedgerOp :=
  atCap ++ [.reserve pooledTask (pooledCall 1 10 true), .settle {} (.releaseReservationUnfenced 1)]

/-- Two reviews of three tokens each do not share an allowance of ten, and a review that is released keeps its part. -/
theorem review_allowance_not_pooled :
    (reserve pooledTask (reviewUnderWay.foldl Ledger.after {}) (pooledCall 2 3 true) =
        .error (.budgetExceeded (Dimension.detail .inputTokens)) ∧
      ¬∃ d, (pooledCall 2 3 true).OverPool pooledTask (reviewUnderWay.foldl Ledger.after {}) d) ∧
    reserve pooledTask (reviewReleased.foldl Ledger.after {}) (pooledCall 2 10 true) =
        .error (.budgetExceeded (Dimension.detail .inputTokens)) ∧
      ¬∃ d, (pooledCall 2 10 true).OverPool pooledTask (reviewReleased.foldl Ledger.after {}) d := by
  refine ⟨⟨eq_error_of_raises (by decide +kernel), ?_⟩, eq_error_of_raises (by decide +kernel), ?_⟩
  · rintro ⟨d, hd⟩
    revert hd
    unfold ReserveRequest.OverPool
    cases d <;> decide +kernel
  · rintro ⟨d, hd⟩
    revert hd
    unfold ReserveRequest.OverPool
    cases d <;> decide +kernel

end Check

end Vuzol.Providers
