import Vuzol.Theorems.Workflow.Stack

/-! What `activate_ready_steps` does: nothing while a row is open, and otherwise it opens the pending step
    at the front of the chain. -/

namespace Vuzol.Workflow

open Vuzol.Lib

section Activation
variable {chain : List StepSpec} {rows ps : List Step} {x y z : Step} {s t : State} {f : Facts} {k : Nat}

theorem Step.ready_eq_true : Step.ready rows x = true ↔ x.status = .pending ∧
    ∀ o ∈ x.predecessorOrdinals, ∃ y ∈ rows, y.ordinal = o ∧ y.status = .completed := by
  simp [Step.ready]

theorem Rows.ready_front (hc : Chain chain) (h : Rows chain rows) (hk : Front chain.length k rows) (hx : x ∈ rows)
    (hr : Step.ready rows x = true) : x.status = .pending ∧ x.id = k ∧ x.id < chain.length := by
  obtain ⟨hp, hpred⟩ := Step.ready_eq_true.mp hr
  have hlt : x.id < chain.length := by
    by_contra hlt
    exact (hk.row x hx).added (Nat.le_of_not_lt hlt) hp
  refine ⟨hp, ?_, hlt⟩
  rcases Nat.lt_trichotomy x.id k with hxk | hxk | hxk
  · rw [(hk.row x hx).before hxk] at hp
    cases hp
  · exact hxk
  · -- The predecessor is not before the front, so that it is not completed.
    rw [hc.predecessors (h.laid.compiled_row hx hlt), if_neg (by omega)] at hpred
    obtain ⟨y, hy, hord, hcomp⟩ := hpred (x.id - 1) (by simp)
    rw [h.laid.ordinal_eq hy] at hord
    rcases Nat.lt_or_eq_of_le (show k ≤ y.id by omega) with hyk | hyk
    · rw [(hk.row y hy).after hyk (by omega)] at hcomp
      cases hcomp
    · exact absurd hcomp ((hk.row y hy).here hyk.symm (by omega))

theorem Rows.ready_nil (hc : Chain chain) (h : Rows chain rows) (htip : Tip rows ps x) :
    rows.filter (Step.ready rows) = [] := by
  rw [List.filter_eq_nil_iff]
  intro y hy hr
  obtain ⟨k, hk⟩ := h.front
  obtain ⟨hp, hyk, -⟩ := h.ready_front hc hk hy hr
  obtain ⟨z, hz, hopen, hl⟩ := htip.root
  have hzk := (hk.row z hz).id_eq hopen ((h.laid.links_iff hc hz).mp hl)
  rw [← h.laid.eq_of_id hy hz (by omega), hp] at hopen
  cases hopen

def Payload.repairs (p : Payload) : Nat × List String := (p.repairCount, p.failureFingerprintHistory)

/-- The row that an activation writes. -/
structure Opened (x y : Step) : Prop where
  toStepSpec : y.toStepSpec = x.toStepSpec
  status : y.status = if x.stepType = .approval then .waitingApproval else .queued
  unknownEffects : y.unknownEffects = x.unknownEffects
  attemptCount : y.attemptCount = x.attemptCount
  maxAttempts : y.maxAttempts = x.maxAttempts
  leaseOwner : y.leaseOwner = x.leaseOwner
  leaseGeneration : y.leaseGeneration = x.leaseGeneration
  backpressureCount : y.payload.backpressureCount = x.payload.backpressureCount
  capabilityPreflightStepId : y.payload.capabilityPreflightStepId = x.payload.capabilityPreflightStepId
  envelope : y.payload.actionEnvelope = x.payload.actionEnvelope ∨ x.stepType = .approval
  repairs : y.payload.repairs = x.payload.repairs

theorem Opened.isLive (h : Opened x y) : y.status.isLive = true := by
  rw [h.status]
  split <;> rfl

theorem activateStep_eq_ok (h : activateStep f s x = .ok t) :
    ∃ y, Opened x y ∧ t.steps = put Step.key y s.steps ∧ t.run = s.run ∧ t.task = s.task ∧ t.effects = s.effects := by
  simp only [activateStep] at h
  obtain ⟨-, h⟩ := transitionStep_bind.mp h
  by_cases ht : x.stepType = .approval
  · simp only [ht, if_true] at h
    have hsame : Opened x { x with status := .waitingApproval } :=
      ⟨rfl, by simp [ht], rfl, rfl, rfl, rfl, rfl, rfl, rfl, Or.inl rfl, rfl⟩
    unfold ensureResultApproval at h
    split_ifs at h
    · cases h
      exact ⟨_, hsame, rfl, rfl, rfl, rfl⟩
    · cases h
      exact ⟨_, hsame, rfl, rfl, rfl, rfl⟩
    · cases hev : f.evidence with
      | none => simp [hev] at h
      | some body =>
        simp only [hev, Except.ok.injEq] at h
        subst h
        refine ⟨_, ?_, put_put (by rfl), rfl, rfl, rfl⟩
        exact ⟨rfl, by simp [ht], rfl, rfl, rfl, rfl, rfl, rfl, rfl, Or.inr ht, rfl⟩
  · simp only [ht, if_false, reduceCtorEq] at h
    cases h
    refine ⟨_, ?_, rfl, rfl, rfl, rfl⟩
    exact ⟨rfl, by simp [ht], rfl, rfl, rfl, rfl, rfl, rfl, rfl, Or.inl rfl, rfl⟩

section
variable (hc : Chain chain)
include hc

theorem activateReadySteps_open (h : Rows chain s.steps) (htip : Tip s.steps ps x) :
    activateReadySteps f s = .ok s := by
  unfold activateReadySteps
  split_ifs
  · rfl
  · rw [h.ready_nil hc htip]
    rfl

theorem Rows.ready_cases (h : Rows chain rows) : rows.filter (Step.ready rows) = [] ∨
    ∃ x ∈ rows, Step.ready rows x = true ∧ rows.filter (Step.ready rows) = [x] := by
  obtain ⟨k, hk⟩ := h.front
  refine filter_eq_nil_or_singleton h.laid.nodup fun y hy z hz hry hrz => ?_
  exact h.laid.eq_of_id hy hz ((h.ready_front hc hk hy hry).2.1.trans (h.ready_front hc hk hz hrz).2.1.symm)

theorem activateReadySteps_cases (h : Rows chain s.steps) (hact : activateReadySteps f s = .ok t) :
    t = s ∨ ∃ x ∈ s.steps, Step.ready s.steps x = true ∧ activateStep f s x = .ok t := by
  unfold activateReadySteps at hact
  split_ifs at hact
  · cases hact
    exact Or.inl rfl
  · rcases h.ready_cases hc with hr | ⟨x, hx, hready, hr⟩
    · rw [hr] at hact
      cases hact
      exact Or.inl rfl
    · rw [hr, List.foldlM_cons, bind_eq_ok] at hact
      obtain ⟨u, hu, hact⟩ := hact
      cases hact
      exact Or.inr ⟨x, hx, hready, hu⟩

theorem Rows.enter_ready (h : Rows chain rows) (hnil : openRows rows = []) (hx : x ∈ rows)
    (hready : Step.ready rows x = true) (hy : Opened x y) :
    Rows chain (put Step.key y rows) ∧ Tip (put Step.key y rows) [] y := by
  obtain ⟨k, hk⟩ := h.front
  obtain ⟨hp, rfl, hlt⟩ := h.ready_front hc hk hx hready
  have hclean : y.unknownEffects = false := by
    rw [hy.unknownEffects]
    exact h.clean x hx (Step.unfinished_iff.mpr (Or.inr hp))
  exact h.enter hc hnil hx hlt hk hy.toStepSpec hy.isLive hclean

theorem activateReadySteps_settled (h : Rows chain s.steps) (hrun : s.run.status = .running)
    (hact : activateReadySteps f s = .ok t) : t.steps.filter (Step.ready t.steps) = [] := by
  rcases h.waiting with hnil | ⟨ps, x, htip⟩
  · unfold activateReadySteps at hact
    rw [if_neg (not_not.mpr hrun)] at hact
    rcases h.ready_cases hc with hr | ⟨x, hx, hready, hr⟩
    · rw [hr] at hact
      cases hact
      exact hr
    · rw [hr, List.foldlM_cons, bind_eq_ok] at hact
      obtain ⟨u, hu, hact⟩ := hact
      cases hact
      obtain ⟨y, hy, hs, -⟩ := activateStep_eq_ok hu
      obtain ⟨hr', htip⟩ := h.enter_ready hc hnil hx hready hy
      rw [← hs] at hr' htip
      exact hr'.ready_nil hc htip
  · rw [activateReadySteps_open hc h htip] at hact
    cases hact
    exact h.ready_nil hc htip

end

end Activation

end Vuzol.Workflow
