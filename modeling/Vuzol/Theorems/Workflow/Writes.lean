import Vuzol.Theorems.Workflow.Activation
import Vuzol.Workflow.Repairs

/-! What every operation but a claim leaves of a row: its columns, and its lease unless the lease is
    dropped. No operation hands a lease to another owner, and none takes a generation back. -/

namespace Vuzol.Workflow

open Vuzol.Lib

def asksConsent : StepType → Bool
  | .approval | .ensureCapabilities | .publishStatic => true
  | _ => false

def Step.Consented (x : Step) : Prop := x.payload.actionEnvelope.isSome = true → asksConsent x.stepType = true

/-- What becomes of a row. `repairing`: the operation schedules a repair of a step. -/
structure Wrote (repairing : Prop) (x y : Step) : Prop where
  toStepSpec : y.toStepSpec = x.toStepSpec
  lease : (y.leaseOwner = x.leaseOwner ∧ y.leaseGeneration = x.leaseGeneration) ∨
    (y.leaseOwner = none ∧ x.leaseGeneration ≤ y.leaseGeneration)
  consent : x.Consented → y.Consented
  repairs : repairing ∨ y.payload.repairs = x.payload.repairs

structure Step.Blank (repairing : Prop) (x : Step) : Prop where
  consented : x.Consented
  unrepaired : repairing ∨ x.payload.repairs = (0, [])

def Keyed (s : State) : Prop := s.steps.map Step.key = List.range s.steps.length

structure Writes (repairing : Prop) (s t : State) : Prop where
  keyed : Keyed t
  rows : Rewrites (Wrote repairing) (Step.Blank repairing) s.steps t.steps

section Wrote
variable {q : Prop} {x y z : Step}

theorem Wrote.refl (x : Step) : Wrote q x x := ⟨rfl, Or.inl ⟨rfl, rfl⟩, fun h => h, Or.inr rfl⟩

theorem Wrote.trans (h1 : Wrote q x y) (h2 : Wrote q y z) : Wrote q x z where
  toStepSpec := h2.toStepSpec.trans h1.toStepSpec
  lease := by
    rcases h1.lease with ⟨ho, hg⟩ | ⟨ho, hg⟩ <;> rcases h2.lease with ⟨ho', hg'⟩ | ⟨ho', hg'⟩
    · exact Or.inl ⟨ho'.trans ho, hg'.trans hg⟩
    · exact Or.inr ⟨ho', by omega⟩
    · exact Or.inr ⟨ho'.trans ho, by omega⟩
    · exact Or.inr ⟨ho', by omega⟩
  consent h := h2.consent (h1.consent h)
  repairs := by
    rcases h1.repairs with hr | h1
    · exact Or.inl hr
    · exact h2.repairs.imp_right fun h2 => h2.trans h1

theorem Wrote.key (h : Wrote q x y) : Step.key y = Step.key x := congrArg StepSpec.id h.toStepSpec

theorem Wrote.id_eq (h : Wrote q x y) : y.id = x.id := congrArg StepSpec.id h.toStepSpec

theorem Wrote.generation (h : Wrote q x y) : x.leaseGeneration ≤ y.leaseGeneration := by
  rcases h.lease with ⟨-, hg⟩ | ⟨-, hg⟩ <;> omega

theorem Wrote.same (hs : y.toStepSpec = x.toStepSpec) (ho : y.leaseOwner = x.leaseOwner)
    (hg : y.leaseGeneration = x.leaseGeneration) (he : y.payload.actionEnvelope = x.payload.actionEnvelope)
    (hp : y.payload.repairs = x.payload.repairs) : Wrote q x y := by
  refine ⟨hs, Or.inl ⟨ho, hg⟩, fun h => ?_, Or.inr hp⟩
  unfold Step.Consented at *
  rwa [he, hs]

theorem Wrote.dropped (hs : y.toStepSpec = x.toStepSpec) (ho : y.leaseOwner = none)
    (hg : x.leaseGeneration ≤ y.leaseGeneration) (he : y.payload.actionEnvelope = x.payload.actionEnvelope)
    (hp : y.payload.repairs = x.payload.repairs) : Wrote q x y := by
  refine ⟨hs, Or.inr ⟨ho, hg⟩, fun h => ?_, Or.inr hp⟩
  unfold Step.Consented at *
  rwa [he, hs]

theorem Wrote.repaired (hq : q) (hs : y.toStepSpec = x.toStepSpec) (ho : y.leaseOwner = x.leaseOwner)
    (hg : y.leaseGeneration = x.leaseGeneration) (he : y.payload.actionEnvelope = x.payload.actionEnvelope) :
    Wrote q x y := by
  refine ⟨hs, Or.inl ⟨ho, hg⟩, fun h => ?_, Or.inl hq⟩
  unfold Step.Consented at *
  rwa [he, hs]

theorem Opened.wrote (h : Opened x y) : Wrote q x y := by
  refine ⟨h.toStepSpec, Or.inl ⟨h.leaseOwner, h.leaseGeneration⟩, fun hx => ?_, Or.inr h.repairs⟩
  unfold Step.Consented at *
  rw [h.toStepSpec]
  rcases h.envelope with he | ht
  · rwa [he]
  · intro _
    rw [ht]
    rfl

theorem transitionStep_wrote {target : StepStatus} (h : transitionStep x target = .ok y) : Wrote q x y := by
  obtain ⟨-, rfl⟩ := transitionStep_eq_ok.mp h
  exact .same rfl rfl rfl rfl rfl

theorem Step.Blank.over (h : x.Blank q) (hw : Wrote q x y) : y.Blank q where
  consented := hw.consent h.consented
  unrepaired := by
    rcases hw.repairs with hq | he
    · exact Or.inl hq
    · exact h.unrepaired.imp_right fun hx => he.trans hx

end Wrote

section Writes
variable {q : Prop} {s t u : State} {x y z : Step} {f : Facts}
variable {retained : Bool} {token : LeaseToken} {now : Nat} {r : OperatorRequest} {expected : Option Nat} {o : StepOutcome}
    {target : TaskStatus}

theorem Keyed.nodup (h : Keyed s) : (s.steps.map Step.key).Nodup := by
  rw [h]
  exact List.nodup_range

theorem Keyed.put (h : Keyed s) (ht : t.steps = put Step.key y s.steps) : Keyed t := by
  unfold Keyed
  rw [ht, length_put, map_put, h]
  intro z _ hk
  exact hk

theorem Writes.of_steps (h : Keyed s) (ht : t.steps = s.steps) : Writes q s t where
  keyed := by rw [Keyed, ht]; exact h
  rows := by rw [ht]; exact .refl Wrote.refl

theorem Writes.refl (h : Keyed s) : Writes q s s := .of_steps h rfl

theorem Writes.trans (h1 : Writes q s t) (h2 : Writes q t u) : Writes q s u where
  keyed := h2.keyed
  rows := Rewrites.trans Wrote.trans Step.Blank.over h1.rows h2.rows

theorem Writes.over (hk : Keyed s) (h : Writes q s t) (hx : x ∈ s.steps)
    (hu : u.steps = put Step.key y t.steps) (hw : Wrote q x y) : Writes q s u := by
  refine ⟨h.keyed.put hu, ?_⟩
  rw [hu]
  exact h.rows.put_over Wrote.key hk.nodup hx hw

theorem Writes.put (hk : Keyed s) (hx : x ∈ s.steps) (ht : t.steps = put Step.key y s.steps) (hw : Wrote q x y) :
    Writes q s t := (Writes.refl hk).over hk hx ht hw

theorem Writes.append (hk : Keyed s) (hid : y.id = s.steps.length) (he : y.payload.actionEnvelope = none)
    (hp : y.payload.repairs = (0, [])) (ht : t.steps = s.steps ++ [y]) : Writes q s t where
  keyed := by
    unfold Keyed at *
    rw [ht, List.map_append, hk]
    simp [List.range_succ, hid]
  rows := by
    rw [ht]
    refine .append Wrote.refl ⟨fun h => ?_, Or.inr hp⟩
    rw [he] at h
    cases h

theorem Writes.then_steps (h : Writes q s t) (hu : u.steps = t.steps) : Writes q s u := h.trans (.of_steps h.keyed hu)

theorem Writes.of_mapM {g : Step → Except Failure Step} {rows : List Step} (hk : Keyed s)
    (hg : ∀ x y, g x = .ok y → Wrote q x y) (h : s.steps.mapM g = .ok rows) (ht : t.steps = rows) : Writes q s t := by
  have hall : List.Forall₂ (Wrote q) s.steps rows := (forall₂_of_mapM h).imp fun x y hxy => hg x y hxy
  refine ⟨?_, ?_⟩
  · have hmap : rows.map Step.key = s.steps.map Step.key := by
      clear h ht
      generalize s.steps = before at hall
      induction hall with
      | nil => rfl
      | cons hab _ ih => rw [List.map_cons, List.map_cons, ih, hab.key]
    rw [Keyed, ht, hmap, hk, hall.length_eq]
  · rw [ht]
    exact .of_forall₂ hall

/-! ### Task and run -/

theorem transitionTask_steps (h : transitionTask s target = .ok t) : t.steps = s.steps := by
  obtain ⟨-, rfl⟩ := transitionTask_eq_ok.mp h
  rfl

theorem transitionRun_steps {target : RunStatus} (h : transitionRun s target = .ok t) : t.steps = s.steps := by
  obtain ⟨-, rfl⟩ := transitionRun_eq_ok.mp h
  rfl

theorem moveTask_steps (h : moveTask s target = .ok t) : t.steps = s.steps := by
  unfold moveTask at h
  split_ifs at h
  · cases h; rfl
  · exact transitionTask_steps h

theorem projectTask_steps (h : projectTask o s = .ok t) : t.steps = s.steps := by
  unfold projectTask at h
  simp only at h
  split_ifs at h
  · exact transitionTask_steps h
  · cases h; rfl
  · cases h; rfl

/-! ### The service -/

theorem activateReadySteps_writes (hk : Keyed s) (h : activateReadySteps f s = .ok t) : Writes q s t := by
  unfold activateReadySteps at h
  split_ifs at h
  · cases h
    exact .refl hk
  · -- The activated rows are those found at the start, whatever was stored since.
    have hmem : ∀ x ∈ s.steps.filter (Step.ready s.steps), x ∈ s.steps := fun x hx => (List.mem_filter.mp hx).1
    have hrun : ∀ (rows : List Step) (v : State), (∀ x ∈ rows, x ∈ s.steps) → Writes q s v →
        rows.foldlM (activateStep f) v = .ok t → Writes q s t := by
      intro rows
      induction rows with
      | nil => intro v _ hv hf; cases hf; exact hv
      | cons x rows ih =>
        intro v hx hv hf
        rw [List.foldlM_cons, bind_eq_ok] at hf
        obtain ⟨w, hw, hf⟩ := hf
        obtain ⟨y, hy, hsteps, -⟩ := activateStep_eq_ok hw
        exact ih w (fun z hz => hx z (List.mem_cons_of_mem _ hz))
          (hv.over hk (hx x List.mem_cons_self) hsteps hy.wrote) hf
    exact hrun _ s hmem (.refl hk) h

theorem startRun_writes (hk : Keyed s) (h : startRun f s = .ok t) : Writes q s t := by
  unfold startRun at h
  split_ifs at h
  · cases h
    exact .refl hk
  · obtain ⟨s1, h1, h⟩ := bind_eq_ok.mp h
    obtain ⟨s2, h2, h⟩ := bind_eq_ok.mp h
    have hs1 : Keyed { s1 with run := { s1.run with startedAt := some f.now } } := by
      rw [Keyed, transitionRun_steps h1]
      exact hk
    have h₁' : Writes q s { s1 with run := { s1.run with startedAt := some f.now } } :=
      .of_steps hk (by rw [← transitionRun_steps h1])
    exact (h₁'.trans (activateReadySteps_writes hs1 h2)).then_steps (moveTask_steps h)

theorem blockForAttention_eq_ok (h : blockForAttention s x = .ok (t, y)) :
    y = { x with status := .blocked } ∧ .blocked ∈ stepTransitions x.status ∧
      .blocked ∈ runTransitions s.run.status ∧ t = { s with run := { s.run with status := .blocked } }.putStep y := by
  unfold blockForAttention at h
  obtain ⟨y', hy, h⟩ := bind_eq_ok.mp h
  obtain ⟨s', hs, h⟩ := bind_eq_ok.mp h
  obtain ⟨hmem, rfl⟩ := transitionStep_eq_ok.mp hy
  obtain ⟨hrun, rfl⟩ := transitionRun_eq_ok.mp hs
  cases h
  exact ⟨rfl, hmem, hrun, rfl⟩

section
variable (hk : Keyed s) (hx : x ∈ s.steps)
include hk hx

theorem blockForAttention_writes (h : blockForAttention s x = .ok (t, y)) : Writes q s t ∧ Wrote q x y := by
  obtain ⟨rfl, -, -, rfl⟩ := blockForAttention_eq_ok h
  have hw : Wrote q x { x with status := .blocked } := .same rfl rfl rfl rfl rfl
  exact ⟨.put hk hx rfl hw, hw⟩

theorem retryOutcome_writes (h : retryOutcome f s x o = .ok (t, y)) : Writes q s t ∧ Wrote q x y := by
  unfold retryOutcome at h
  simp only at h
  split at h
  · obtain ⟨-, h⟩ := transitionStep_bind.mp h
    cases h
    exact ⟨.put hk hx rfl (.same rfl rfl rfl rfl rfl), .same rfl rfl rfl rfl rfl⟩
  · obtain ⟨-, h⟩ := transitionStep_bind.mp h
    cases h
    exact ⟨.put hk hx rfl (.same rfl rfl rfl rfl rfl), .same rfl rfl rfl rfl rfl⟩
  · exact blockForAttention_writes hk hx h

theorem scheduleBoundedRepair_writes (hq : q)
    (h : scheduleBoundedRepair f s x o = .ok (some (t, y))) : Writes q s t ∧ Wrote q x y := by
  unfold scheduleBoundedRepair at h
  simp only at h
  split_ifs at h
  · cases h
  · cases h
  · split at h
    · cases h
    · obtain ⟨-, h⟩ := transitionStep_bind.mp h
      cases h
      exact ⟨(Writes.append hk rfl rfl rfl rfl).over hk hx rfl (.repaired hq rfl rfl rfl rfl), .repaired hq rfl rfl rfl rfl⟩

theorem preflightOutcome_writes (h : preflightOutcome f s x = .ok (t, y)) : Writes q s t ∧ Wrote q x y := by
  unfold preflightOutcome at h
  cases hsched : scheduleCapabilityPreflight f s x with
  | none =>
    simp only [hsched] at h
    exact blockForAttention_writes hk hx h
  | some scheduled =>
    simp only [hsched] at h
    unfold scheduleCapabilityPreflight at hsched
    split_ifs at hsched
    cases hsched
    obtain ⟨-, h⟩ := transitionStep_bind.mp h
    obtain ⟨s', hs, h⟩ := bind_eq_ok.mp h
    cases h
    have happ : Writes q s (s.appendStep (preflightStep f s x)) := .append hk rfl rfl rfl rfl
    have hput := happ.over hk hx
      (State.putStep_steps (x := { bindPreflight x (preflightStep f s x).id with status := .blocked }))
      (.same rfl rfl rfl rfl rfl)
    exact ⟨hput.trans (activateReadySteps_writes hput.keyed hs), .same rfl rfl rfl rfl rfl⟩

theorem blockedOutcome_writes {o : StepOutcome} (hq : ∀ {z}, scheduleBoundedRepair f s x o = .ok (some z) → q)
    (h : blockedOutcome f s x o = .ok (t, y)) : Writes q s t ∧ Wrote q x y := by
  unfold blockedOutcome at h
  obtain ⟨scheduled, hsched, h⟩ := bind_eq_ok.mp h
  cases scheduled with
  | some scheduled =>
    cases h
    exact scheduleBoundedRepair_writes hk hx (hq hsched) hsched
  | none =>
    obtain ⟨⟨s', y'⟩, hblock, h⟩ := bind_eq_ok.mp h
    obtain ⟨hs, hy⟩ := blockForAttention_writes (q := q) hk hx hblock
    cases h
    have hy' : Wrote q x { y' with unknownEffects := o.unknownEffects } := hy.trans (.same rfl rfl rfl rfl rfl)
    exact ⟨hs.over hk hx rfl hy', hy'⟩

end

theorem scheduleBoundedRepair_known {r : State × Step} (h : scheduleBoundedRepair f s x o = .ok (some r)) :
    o.unknownEffects = false := by
  unfold scheduleBoundedRepair at h
  simp only at h
  split_ifs at h with _ hdecide
  · cases h
  · cases h
  · exact (decideRecovery_repair (not_not.mp hdecide)).1

theorem applyOutcome_writes (hk : Keyed s) (hx : x ∈ s.steps) (hq : repairScheduled f s x o = true → q)
    (h : applyOutcome f s x o = .ok (t, y)) : Writes q s t ∧ Wrote q x y := by
  -- A branch that stores one transition of the row itself, and maybe one of the run.
  have hone : ∀ {target : StepStatus} {y' z : Step} {s' : State}, transitionStep x target = .ok y' →
      s'.steps = s.steps → Wrote q y' z → Writes q s (s'.putStep z) ∧ Wrote q x z := by
    intro target y' z s' hy hs hz
    have hxz := (transitionStep_wrote hy).trans hz
    exact ⟨.put hk hx (by rw [State.putStep_steps, hs]) hxz, hxz⟩
  unfold applyOutcome at h
  split at h
  · obtain ⟨y', hy, h⟩ := bind_eq_ok.mp h
    cases h
    exact hone hy rfl (.same rfl rfl rfl rfl rfl)
  · exact retryOutcome_writes hk hx h
  · obtain ⟨y', hy, h⟩ := bind_eq_ok.mp h
    obtain ⟨s', hs, h⟩ := bind_eq_ok.mp h
    cases h
    exact hone hy (transitionRun_steps hs) (.refl _)
  · split_ifs at h
    · obtain ⟨y', hy, h⟩ := bind_eq_ok.mp h
      cases h
      exact hone hy rfl (.same rfl rfl rfl rfl rfl)
    · obtain ⟨y', hy, h⟩ := bind_eq_ok.mp h
      cases h
      exact hone hy rfl (.refl _)
  · split_ifs at h
    · exact preflightOutcome_writes hk hx h
    · rename_i hblocked
      refine blockedOutcome_writes hk hx (fun hsched => hq ?_) h
      have hkind : o.kind = .blocked := by
        rw [scheduleBoundedRepair_known hsched] at hblocked
        simpa using hblocked
      simp [repairScheduled, hkind, hsched, ends]
    · obtain ⟨y', hy, h⟩ := bind_eq_ok.mp h
      cases h
      exact hone hy rfl (.refl _)
    · obtain ⟨y', hy, h⟩ := bind_eq_ok.mp h
      obtain ⟨s', hs, h⟩ := bind_eq_ok.mp h
      cases h
      exact hone hy (transitionRun_steps hs) (.refl _)

/-! ### Woken steps -/

theorem wake_writes {target : StepStatus} (hk : Keyed s) (hx : x ∈ s.steps) (hy : transitionStep x target = .ok y)
    (ht : t.steps = put Step.key z s.steps) (hz : Wrote q y z) : Writes q s t :=
  .put hk hx ht ((transitionStep_wrote hy).trans hz)

theorem resumeAfterValidationEnvironment_writes (hk : Keyed s) (h : resumeAfterValidationEnvironment s x = .ok t) :
    Writes q s t := by
  unfold resumeAfterValidationEnvironment at h
  split_ifs at h
  · cases h; exact .refl hk
  · split at h
    · cases h; exact .refl hk
    · split at h
      · cases h
      · rename_i hfind
        split_ifs at h
        obtain ⟨y', hy, h⟩ := bind_eq_ok.mp h
        cases h
        exact wake_writes hk (List.mem_of_find?_eq_some hfind) hy rfl (.same rfl rfl rfl rfl rfl)

theorem resumeAfterCapabilityPreflight_writes (hk : Keyed s) (h : resumeAfterCapabilityPreflight s x = .ok t) :
    Writes q s t := by
  unfold resumeAfterCapabilityPreflight at h
  split_ifs at h
  · cases h; exact .refl hk
  · split at h
    · cases h; exact .refl hk
    · split at h
      · cases h
      · rename_i hfind
        split_ifs at h
        obtain ⟨y', hy, h⟩ := bind_eq_ok.mp h
        cases h
        exact wake_writes hk (List.mem_of_find?_eq_some hfind) hy rfl (.same rfl rfl rfl rfl rfl)

theorem resumeRepairedStep_writes (hk : Keyed s) (h : resumeRepairedStep f s x = .ok t) : Writes q s t := by
  unfold resumeRepairedStep at h
  split at h
  · cases h; exact .refl hk
  · split at h
    · cases h; exact .refl hk
    · rename_i hfind
      split_ifs at h
      · cases h; exact .refl hk
      · split at h
        · cases h; exact .refl hk
        · cases h; exact .append hk rfl rfl rfl rfl
      · obtain ⟨y', hy, h⟩ := bind_eq_ok.mp h
        cases h
        exact wake_writes hk (State.mem_of_step? hfind).1 hy rfl (.same rfl rfl rfl rfl rfl)

theorem resumeReviewAfterValidation_writes (hk : Keyed s) (h : resumeReviewAfterValidation s x = .ok t) :
    Writes q s t := by
  unfold resumeReviewAfterValidation at h
  split at h
  · cases h; exact .refl hk
  · split at h
    · cases h; exact .refl hk
    · rename_i hfind
      split_ifs at h
      · cases h; exact .refl hk
      · obtain ⟨y', hy, h⟩ := bind_eq_ok.mp h
        cases h
        exact wake_writes hk (State.mem_of_step? hfind).1 hy rfl (.same rfl rfl rfl rfl rfl)

theorem finalizeIfComplete_steps (h : finalizeIfComplete s = .ok t) : t.steps = s.steps := by
  unfold finalizeIfComplete at h
  split_ifs at h
  · cases h; rfl
  · cases h; rfl
  · cases h; rfl
  · exact transitionRun_steps h

theorem afterCompletion_writes (hk : Keyed s) (h : afterCompletion f s x = .ok t) : Writes q s t := by
  unfold afterCompletion at h
  obtain ⟨s1, h1, h⟩ := bind_eq_ok.mp h
  obtain ⟨s2, h2, h⟩ := bind_eq_ok.mp h
  obtain ⟨s3, h3, h⟩ := bind_eq_ok.mp h
  obtain ⟨s4, h4, h⟩ := bind_eq_ok.mp h
  obtain ⟨s5, h5, h⟩ := bind_eq_ok.mp h
  have w1 : Writes q s s1 := resumeAfterValidationEnvironment_writes hk h1
  have w2 : Writes q s1 s2 := resumeAfterCapabilityPreflight_writes w1.keyed h2
  have w3 : Writes q s2 s3 := resumeRepairedStep_writes w2.keyed h3
  have w4 : Writes q s3 s4 := resumeReviewAfterValidation_writes w3.keyed h4
  have w5 : Writes q s4 s5 := activateReadySteps_writes w4.keyed h5
  exact (w1.trans (w2.trans (w3.trans (w4.trans w5)))).then_steps (finalizeIfComplete_steps h)

theorem releaseStep_wrote : Wrote q x (releaseStep o x) := by
  unfold releaseStep
  split
  · exact .dropped rfl rfl (Nat.le_refl _) rfl rfl
  · exact .dropped rfl rfl (Nat.le_refl _) rfl rfl

theorem recordRunFailure_steps : (recordRunFailure o s x).steps = s.steps := by
  unfold recordRunFailure
  split_ifs <;> rfl

theorem commitRows_writes (hk : Keyed s) (hx : x ∈ s.steps) (hq : repairScheduled f s x o = true → q)
    (h : commitRows f s x o = .ok t) : Writes q s t := by
  unfold commitRows at h
  obtain ⟨⟨s1, y⟩, h1, h⟩ := bind_eq_ok.mp h
  obtain ⟨hs1, hy⟩ := applyOutcome_writes hk hx hq h1
  have hz := hy.trans (releaseStep_wrote (o := o))
  have hput : Writes q s ((recordRunFailure o s1 (releaseStep o y)).putStep (releaseStep o y)) :=
    hs1.over hk hx (by rw [State.putStep_steps, recordRunFailure_steps]) hz
  simp only at h
  split_ifs at h
  · exact hput.trans (afterCompletion_writes hput.keyed h)
  · cases h
    exact hput

theorem leasedRow_eq_ok (h : leasedRow s token = .ok x) :
    s.step? token.stepId = some x ∧ token.holds x = true ∧ x.status.isHeld = true ∧
      s.run.status.isTerminal = false ∧ s.run.status ≠ .paused := by
  unfold leasedRow at h
  split at h
  · cases h
  · rename_i hfind
    split_ifs at h with h1 h2 h3
    cases h
    simp only [Bool.or_eq_true, Bool.not_eq_true', not_or, Bool.not_eq_false] at h1
    exact ⟨hfind, h1.1, h1.2, by simpa using h2, h3⟩

theorem commitStepOutcome_writes (hk : Keyed s) (hq : ((Op.commitStepOutcome f token o).repair s).isSome = true → q)
    (h : commitStepOutcome f s token o = .ok t) : Writes q s t := by
  unfold commitStepOutcome at h
  obtain ⟨x, hx, h⟩ := bind_eq_ok.mp h
  obtain ⟨s1, h1, h⟩ := bind_eq_ok.mp h
  have hmem := (State.mem_of_step? (leasedRow_eq_ok hx).1).1
  refine (commitRows_writes hk hmem (fun hsched => hq ?_) h1).then_steps (projectTask_steps h)
  simp [Op.repair, hx, ends, hsched]

/-! ### Leases -/

theorem updateLeased_eq_ok {matched : Step → Bool} {change : Step → Step} (h : updateLeased s token matched change = .ok t) :
    ∃ x, s.step? token.stepId = some x ∧ token.holds x = true ∧ matched x = true ∧ t = s.putStep (change x) := by
  unfold updateLeased at h
  split at h
  · cases h
  · rename_i x hfind
    split_ifs at h with hm
    cases h
    rw [Bool.and_eq_true] at hm
    exact ⟨x, hfind, hm.1, hm.2, rfl⟩

theorem updateLeased_writes {matched : Step → Bool} {change : Step → Step} (hk : Keyed s)
    (h : updateLeased s token matched change = .ok t) (hc : ∀ x, Wrote q x (change x)) : Writes q s t := by
  obtain ⟨x, hfind, -, -, rfl⟩ := updateLeased_eq_ok h
  exact .put hk (State.mem_of_step? hfind).1 rfl (hc x)

theorem startStep_writes (hk : Keyed s) (h : startStep s token = .ok t) : Writes q s t := by
  unfold startStep at h
  obtain ⟨s1, h1, h⟩ := bind_eq_ok.mp h
  cases h
  exact (updateLeased_writes hk h1 fun x => .same rfl rfl rfl rfl rfl).then_steps rfl

theorem heartbeatStep_writes {leaseSeconds : Nat} (hk : Keyed s) (h : heartbeatStep s token now leaseSeconds = .ok t) :
    Writes q s t :=
  updateLeased_writes hk h fun _ => .same rfl rfl rfl rfl rfl

theorem completeStep_writes {result : String} (hk : Keyed s) (h : completeStep s token result = .ok t) : Writes q s t :=
  updateLeased_writes hk h fun _ => .dropped rfl rfl (Nat.le_refl _) rfl rfl

theorem requeueExpired_wrote (h : requeueExpired x = .ok y) : Wrote q x y := by
  unfold requeueExpired at h
  obtain ⟨y', hy, h⟩ := bind_eq_ok.mp h
  cases h
  refine (transitionStep_wrote hy).trans ?_
  split
  · exact .same rfl rfl rfl rfl rfl
  · exact .refl _

theorem parkExpired_wrote (h : parkExpired x = .ok y) : Wrote q x y := by
  unfold parkExpired at h
  split_ifs at h
  · exact requeueExpired_wrote h
  · obtain ⟨y', hy, h⟩ := bind_eq_ok.mp h
    cases h
    exact (transitionStep_wrote hy).trans (.same rfl rfl rfl rfl rfl)
  · obtain ⟨y', hy, h⟩ := bind_eq_ok.mp h
    cases h
    have hx : Wrote q x { x with unknownEffects := true } := .same rfl rfl rfl rfl rfl
    exact (hx.trans (transitionStep_wrote hy)).trans (.same rfl rfl rfl rfl rfl)

theorem dropLease_wrote : Wrote q x (dropLease x) := .dropped rfl rfl (Nat.le_refl _) rfl rfl

theorem stopRun_steps {target : RunStatus} (h : stopRun s target = .ok t) : t.steps = s.steps := by
  unfold stopRun at h
  split_ifs at h
  · exact transitionRun_steps h
  · cases h; rfl

theorem stopTask_steps (h : stopTask s target = .ok t) : t.steps = s.steps := by
  unfold stopTask at h
  split_ifs at h
  · cases h; rfl
  · exact transitionTask_steps h

theorem stopExpired_steps {runTarget : RunStatus} {taskTarget : TaskStatus} {category summary : String}
    (h : stopExpired s x runTarget taskTarget category summary = .ok t) : t.steps = s.steps := by
  unfold stopExpired at h
  obtain ⟨s1, h1, h⟩ := bind_eq_ok.mp h
  obtain ⟨s2, h2, h⟩ := bind_eq_ok.mp h
  have hs := (stopTask_steps h2).trans (stopRun_steps h1)
  cases h
  split_ifs
  · exact hs
  · exact hs

theorem recoverOne_writes (hk : Keyed s) (hx : x ∈ s.steps) (h : recoverOne s x = .ok t) :
    Writes q s t ∧ ∃ y ∈ t.steps, y.id = x.id ∧ y.leaseOwner = none := by
  -- Every branch stores one row, whose lease is dropped.
  have hone : ∀ {y : Step}, Wrote q x y → t.steps = put Step.key (dropLease y) s.steps →
      Writes q s t ∧ ∃ y ∈ t.steps, y.id = x.id ∧ y.leaseOwner = none := by
    intro y hy ht
    refine ⟨.put hk hx ht (hy.trans dropLease_wrote), dropLease y, ?_, hy.id_eq, rfl⟩
    rw [ht]
    exact mem_put_self hx hy.id_eq.symm
  have hflag : Wrote q x { x with unknownEffects := true } := .same rfl rfl rfl rfl rfl
  unfold recoverOne at h
  split_ifs at h
  · obtain ⟨y, hy, h⟩ := bind_eq_ok.mp h
    cases h
    exact hone (transitionStep_wrote hy) rfl
  · obtain ⟨y, hy, h⟩ := bind_eq_ok.mp h
    cases h
    exact hone (parkExpired_wrote hy) rfl
  · obtain ⟨y, hy, h⟩ := bind_eq_ok.mp h
    cases h
    exact hone (requeueExpired_wrote hy) rfl
  · obtain ⟨y, hy, h⟩ := bind_eq_ok.mp h
    refine hone (y := { y with failureCategory := some leaseExpiredAttemptsExhausted
                               failureSummary := some exhaustedSummary }) ?_ (stopExpired_steps h)
    exact (transitionStep_wrote hy).trans (.same rfl rfl rfl rfl rfl)
  · obtain ⟨y, hy, h⟩ := bind_eq_ok.mp h
    refine hone (y := { y with failureCategory := some leaseExpiredUnknownEffects
                               failureSummary := some unknownSummary }) ?_ (stopExpired_steps h)
    exact (hflag.trans (transitionStep_wrote hy)).trans (.same rfl rfl rfl rfl rfl)

theorem recoverExpiredStep_writes {id : Nat} (hk : Keyed s) (h : recoverExpiredStep s id now = .ok t) : Writes q s t := by
  unfold recoverExpiredStep at h
  split at h
  · cases h; exact .refl hk
  · rename_i hfind
    split_ifs at h
    · exact (recoverOne_writes hk (State.mem_of_step? hfind).1 h).1
    · cases h; exact .refl hk

/-! ### Controls -/

theorem parkStep_wrote (h : parkStep x = .ok y) : Wrote q x y := by
  unfold parkStep at h
  split_ifs at h
  · obtain ⟨-, h⟩ := transitionStep_bind.mp h
    cases h
    exact .dropped rfl rfl (Nat.le_succ _) rfl rfl
  · cases h; exact .refl _

theorem cancelStep_wrote (h : cancelStep x = .ok y) : Wrote q x y := by
  unfold cancelStep at h
  split_ifs at h
  · cases h; exact .refl _
  · obtain ⟨-, h⟩ := transitionStep_bind.mp h
    cases h
    exact .dropped rfl rfl (Nat.le_refl _) rfl rfl

theorem pauseTask_writes (hk : Keyed s) (h : pauseTask s expected = .ok t) : Writes q s t := by
  unfold pauseTask at h
  obtain ⟨-, -, h⟩ := bind_eq_ok.mp h
  split_ifs at h
  · cases h; exact .refl hk
  · obtain ⟨s1, h1, h⟩ := bind_eq_ok.mp h
    obtain ⟨s2, h2, h⟩ := bind_eq_ok.mp h
    obtain ⟨rows, hrows, h⟩ := bind_eq_ok.mp h
    cases h
    rw [transitionTask_steps h2, transitionRun_steps h1] at hrows
    exact .of_mapM hk (fun _ _ => parkStep_wrote) hrows rfl

theorem foldl_abandon_steps {xs : List Step} {s : State} :
    (xs.foldl (fun s x => abandonCapabilityInstallation s x.id) s).steps = s.steps := by
  induction xs generalizing s with
  | nil => rfl
  | cons x xs ih => rw [List.foldl_cons, ih, abandonCapabilityInstallation_steps]

theorem settleTask_steps {retainFailure : Bool} (h : settleTask retainFailure s = .ok t) : t.steps = s.steps := by
  unfold settleTask at h
  split_ifs at h
  · cases h; rfl
  · exact transitionTask_steps h

theorem cancelTask_writes (hk : Keyed s) (h : cancelTask s expected = .ok t) : Writes q s t := by
  unfold cancelTask at h
  obtain ⟨-, -, h⟩ := bind_eq_ok.mp h
  split_ifs at h
  · cases h; exact .refl hk
  · obtain ⟨rows, hrows, h⟩ := bind_eq_ok.mp h
    obtain ⟨s1, h1, h⟩ := bind_eq_ok.mp h
    obtain ⟨s2, h2, h⟩ := bind_eq_ok.mp h
    cases h
    have hs2 : s2.steps = rows := (settleTask_steps h2).trans (transitionRun_steps h1)
    exact .of_mapM hk (fun _ _ => cancelStep_wrote) hrows (foldl_abandon_steps.trans hs2)

theorem continuePausedStep_writes (hk : Keyed s) (hx : x ∈ s.steps) (h : continuePausedStep s x now = .ok t) :
    Writes q s t := by
  unfold continuePausedStep at h
  obtain ⟨-, h⟩ := transitionStep_bind.mp h
  cases h
  exact .put hk hx rfl (.same rfl rfl rfl rfl rfl)

theorem continueParked_writes {parked : Option Step} (hk : Keyed s) (hp : ∀ x ∈ parked, x ∈ s.steps)
    (h : continueParked s parked now = .ok t) : Writes q s t := by
  unfold continueParked at h
  split at h
  · cases h; exact .refl hk
  · exact continuePausedStep_writes hk (hp _ rfl) h

theorem restoreRun_steps (h : restoreRun s target = .ok t) : t.steps = s.steps := by
  unfold restoreRun at h
  split_ifs at h
  · exact transitionRun_steps h
  · cases h; rfl

theorem resumeTask_writes {undrained : Bool} (hk : Keyed s) (h : resumeTask f s expected undrained = .ok t) :
    Writes q s t := by
  unfold resumeTask at h
  obtain ⟨-, -, h⟩ := bind_eq_ok.mp h
  split_ifs at h
  · cases h; exact .refl hk
  · simp only at h
    split_ifs at h
    obtain ⟨s1, h1, h⟩ := bind_eq_ok.mp h
    obtain ⟨s2, h2, h⟩ := bind_eq_ok.mp h
    obtain ⟨s3, h3, h⟩ := bind_eq_ok.mp h
    obtain ⟨s4, h4, h⟩ := bind_eq_ok.mp h
    have w1 : Writes q s s1 := .of_steps hk (transitionRun_steps h1)
    have hparked : ∀ x ∈ (s.steps.filter continuable).head?, x ∈ s1.steps := by
      intro x hx
      rw [transitionRun_steps h1]
      exact (List.mem_filter.mp (List.mem_of_head? hx)).1
    have w2 : Writes q s1 s2 := continueParked_writes w1.keyed hparked h2
    have w3 : Writes q s2 s3 := activateReadySteps_writes w2.keyed h3
    exact (w1.trans (w2.trans w3)).then_steps ((transitionTask_steps h).trans (restoreRun_steps h4))

theorem reopenRun_steps (h : reopenRun s = .ok t) : t.steps = s.steps := by
  unfold reopenRun at h
  split_ifs at h
  · obtain ⟨s0, h0, h⟩ := bind_eq_ok.mp h
    have hs := transitionRun_steps h0
    cases h
    exact hs
  · cases h; rfl

theorem retryBlockedStep_writes {id : Nat} (hk : Keyed s) (h : retryBlockedStep s id now = .ok t) : Writes q s t := by
  unfold retryBlockedStep at h
  split at h
  · cases h
  · rename_i hfind
    split_ifs at h
    simp only at h
    obtain ⟨-, h⟩ := transitionStep_bind.mp h
    obtain ⟨s1, h1, h⟩ := bind_eq_ok.mp h
    have hw : Writes q s s1 := .put hk (State.mem_of_step? hfind).1 (reopenRun_steps h1) (.same rfl rfl rfl rfl rfl)
    split_ifs at h
    · exact hw.then_steps (transitionTask_steps h)
    · cases h
      exact hw

theorem retryTask_writes {r : RetryRequest} (hk : Keyed s) (h : retryTask s r = .ok t) : Writes q s t := by
  unfold retryTask at h
  obtain ⟨x, -, h⟩ := bind_eq_ok.mp h
  exact retryBlockedStep_writes hk h

theorem continueOwnerDecision_writes {action : OwnerAction} {r : RetryRequest} {recorded : Bool} (hk : Keyed s)
    (h : continueOwnerDecision s action r recorded = .ok t) : Writes q s t := by
  unfold continueOwnerDecision at h
  obtain ⟨x, -, h⟩ := bind_eq_ok.mp h
  split_ifs at h
  exact retryBlockedStep_writes hk h

theorem decidable_eq_ok {a : Approval} {approvalId : Nat} {userId : Int} (h : decidable s approvalId userId now = .ok (a, x)) :
    s.step? a.stepId = some x ∧ x.status = .waitingApproval ∧ x.payload.actionEnvelope.isSome = true := by
  unfold decidable at h
  split at h
  · cases h
  · split at h
    · cases h
    · rename_i hfind
      split_ifs at h with _ _ hw
      obtain ⟨e, he, h⟩ := bind_eq_ok.mp h
      obtain ⟨-, -, h⟩ := bind_eq_ok.mp h
      cases h
      refine ⟨hfind, not_not.mp hw, ?_⟩
      unfold verifiedEnvelope at he
      split at he
      · cases he
      · rename_i henv
        rw [henv]
        rfl

theorem approveResult_writes {a : Approval} (hk : Keyed s) (hx : x ∈ s.steps) (h : approveResult s a x = .ok t) :
    Writes q s t := by
  unfold approveResult at h
  simp only at h
  obtain ⟨-, h⟩ := transitionStep_bind.mp h
  exact .put hk hx (transitionTask_steps h) (.same rfl rfl rfl rfl rfl)

theorem refuseResult_writes (hk : Keyed s) (hx : x ∈ s.steps) (h : refuseResult s x = .ok t) : Writes q s t := by
  unfold refuseResult at h
  obtain ⟨y, hy, h⟩ := bind_eq_ok.mp h
  obtain ⟨s1, h1, h⟩ := bind_eq_ok.mp h
  exact .put hk hx ((transitionTask_steps h).trans (transitionRun_steps h1)) (transitionStep_wrote hy)

theorem decideResult_writes {approvalId : Nat} {decision : Decision} {userId : Int} {now : Nat} (hk : Keyed s)
    (h : decideResult s approvalId decision userId now = .ok t) : Writes q s t := by
  unfold decideResult at h
  obtain ⟨⟨a, x⟩, hdec, h⟩ := bind_eq_ok.mp h
  have hx := (State.mem_of_step? (decidable_eq_ok hdec).1).1
  have hput : ∀ status, Writes q s (decideApproval s a status userId) := fun status => .of_steps hk rfl
  cases decision with
  | approve => exact (hput _).trans (approveResult_writes (hput _).keyed hx h)
  | redo =>
    simp only at h
    split_ifs at h
    exact (hput _).trans (refuseResult_writes (hput _).keyed hx h)
  | reject => exact (hput _).trans (refuseResult_writes (hput _).keyed hx h)

theorem retireRepair_writes {unused : Bool} (hk : Keyed s) (h : retireRepair s x unused = .ok t) : Writes q s t := by
  unfold retireRepair at h
  split at h
  · cases h; exact .refl hk
  · rename_i repair hfilter
    split_ifs at h
    obtain ⟨y, hy, h⟩ := bind_eq_ok.mp h
    cases h
    have hmem : repair ∈ s.steps.filter fun z => z.status = .blocked && z.id ≠ x.id := by rw [hfilter]; simp
    exact .put hk (List.mem_filter.mp hmem).1 rfl (transitionStep_wrote hy)
  · cases h

theorem environmentRecoveryTarget_eq_ok (h : environmentRecoveryTarget s r retained = .ok x) :
    s.step? r.stepId = some x ∧ s.run.status = .blocked ∧ x.stepType = .validate ∧ x.status = .blocked ∧
      x.unknownEffects = false ∧ repairableCategory x.failureCategory = true ∧
      x.payload.environmentRecoveryStepId = none := by
  unfold environmentRecoveryTarget at h
  split at h
  · cases h
  · split at h
    · cases h
    · split at h
      · cases h
      · rename_i hfind
        split_ifs at h with hg
        cases h
        simp only [Bool.or_eq_true, decide_eq_true_eq, not_or, not_not, Bool.not_eq_true,
          Option.isSome_eq_false_iff, Option.isNone_iff_eq_none, ne_eq] at hg
        obtain ⟨⟨⟨⟨⟨⟨hrun, htype⟩, hstatus⟩, hclean⟩, -⟩, hcat⟩, henv⟩ := hg
        refine ⟨hfind, hrun, htype, hstatus, hclean, ?_, henv⟩
        have hcat : x.failureCategory = some "validation_gate_failed" ∨
            x.failureCategory = some "validation_environment_missing_tool" := or_iff_not_imp_left.mpr (by simpa using hcat)
        rcases hcat with hcat | hcat <;> rw [hcat] <;> decide

theorem recoverValidationEnvironment_writes {unused : Bool} (hk : Keyed s)
    (h : recoverValidationEnvironment s r retained unused = .ok t) : Writes q s t := by
  unfold recoverValidationEnvironment at h
  obtain ⟨target, htarget, h⟩ := bind_eq_ok.mp h
  obtain ⟨s1, h1, h⟩ := bind_eq_ok.mp h
  obtain ⟨s2, h2, h⟩ := bind_eq_ok.mp h
  have hmem := (State.mem_of_step? (environmentRecoveryTarget_eq_ok htarget).1).1
  have w1 : Writes q s s1 := retireRepair_writes hk h1
  have w2 : Writes q s1 (s1.appendStep (preparationStep s1 target r.now)) := .append w1.keyed rfl rfl rfl rfl
  have w3 := (w1.trans w2).over hk hmem (transitionRun_steps h2) (.same rfl rfl rfl rfl rfl)
  exact w3.then_steps (transitionTask_steps h)

theorem reviewRecoveryTarget_eq_ok {pinned unsent accounted : Bool}
    (h : reviewRecoveryTarget s r pinned unsent retained accounted = .ok x) :
    s.step? r.stepId = some x ∧ s.task.status = .failed ∧ s.run.status = .failed ∧ x.stepType = .review ∧
      x.status = .failed ∧ x.unknownEffects = false ∧
      ∀ y ∈ s.steps, y.status.isHeld = false ∧ (y.id ≠ x.id → y.status ≠ .failed ∧ y.status ≠ .blocked) := by
  unfold reviewRecoveryTarget at h
  split at h
  · cases h
  · split at h
    · cases h
    · split at h
      · cases h
      · rename_i hfind
        split_ifs at h with hg hother
        cases h
        simp only [Bool.or_eq_true, decide_eq_true_eq, not_or, not_not, Bool.not_eq_true, ne_eq] at hg
        simp only [List.any_eq_true, not_exists, not_and, Bool.or_eq_true, Bool.and_eq_true, decide_eq_true_eq,
          not_or, ne_eq, Bool.not_eq_true] at hother
        obtain ⟨⟨⟨⟨⟨⟨⟨⟨⟨⟨htask, hrun⟩, htype⟩, hstatus⟩, -⟩, -⟩, hclean⟩, -⟩, -⟩, -⟩, -⟩ := hg
        refine ⟨hfind, htask, hrun, htype, hstatus, hclean, fun y hy => ⟨(hother y hy).1, fun hne => ?_⟩⟩
        have hno := (hother y hy).2
        exact ⟨fun hf => hno (Or.inl hf) hne, fun hb => hno (Or.inr hb) hne⟩

section
variable (hk : Keyed s)
include hk

theorem recoverUnsentCliReview_writes {pinned unsent accounted : Bool}
    (h : recoverUnsentCliReview s r pinned unsent retained accounted = .ok t) : Writes q s t := by
  unfold recoverUnsentCliReview at h
  obtain ⟨target, htarget, h⟩ := bind_eq_ok.mp h
  cases h
  exact .put hk (State.mem_of_step? (reviewRecoveryTarget_eq_ok htarget).1).1 rfl (.same rfl rfl rfl rfl rfl)

theorem continueTask_writes (h : continueTask s = .ok t) : Writes q s t := by
  unfold continueTask at h
  split_ifs at h
  split at h
  · cases h
  · rename_i x hfind
    obtain ⟨y, hy, h⟩ := bind_eq_ok.mp h
    obtain ⟨s1, h1, h⟩ := bind_eq_ok.mp h
    exact .put hk (List.mem_of_find?_eq_some hfind) ((transitionTask_steps h).trans (transitionRun_steps h1))
      (transitionStep_wrote hy)

theorem blockRoute_writes {id : Nat} {category summary : String} {quota : Bool}
    (h : blockRoute s id now category summary quota = .ok t) : Writes q s t := by
  unfold blockRoute at h
  split at h
  · cases h; exact .refl hk
  · rename_i x hfind
    split at h
    · cases h; exact .refl hk
    · obtain ⟨y, hy, h⟩ := bind_eq_ok.mp h
      obtain ⟨s1, h1, h⟩ := bind_eq_ok.mp h
      refine .put hk (State.mem_of_step? hfind).1 ((moveTask_steps h).trans (transitionRun_steps h1)) ?_
      exact (transitionStep_wrote hy).trans (.same rfl rfl rfl rfl rfl)

theorem requestApproval_writes {body : String} {shared : Option Nat} {expiresAt : Nat}
    (h : requestApproval s token body shared expiresAt = .ok t) : Writes q s t := by
  unfold requestApproval at h
  split at h
  · cases h
  · rename_i x hfind
    have hx := (State.mem_of_step? hfind).1
    split at h
    · cases h
    · split at h
      · cases h
      · rename_i action haction
        have hasks : asksConsent x.stepType = true := by
          cases ht : x.stepType <;> simp [ht, handlerAction] at haction <;> rfl
        split at h
        · cases h; exact .refl hk
        · split at h
          · cases h
            unfold joinApproval
            split
            · exact .put hk hx rfl (.same rfl rfl rfl rfl rfl)
            · exact .refl hk
          · cases h
            exact .put hk hx rfl ⟨rfl, Or.inl ⟨rfl, rfl⟩, fun _ _ => hasks, Or.inr rfl⟩

theorem wakeCapabilityWaiter_writes {id approvalId : Nat} (h : wakeCapabilityWaiter s id approvalId = .ok t) : Writes q s t := by
  unfold wakeCapabilityWaiter at h
  split at h
  · cases h; exact .refl hk
  · rename_i x hfind
    split_ifs at h
    · cases h; exact .refl hk
    · obtain ⟨-, h⟩ := transitionStep_bind.mp h
      simp only at h
      split_ifs at h
      · exact .put hk (State.mem_of_step? hfind).1 (transitionTask_steps h) (.same rfl rfl rfl rfl rfl)
      · cases h
        exact .put hk (State.mem_of_step? hfind).1 rfl (.same rfl rfl rfl rfl rfl)

theorem perform_writes {op : Op} (hop : ∀ c, op ≠ .claimStep c) (h : perform s op = .ok t) :
    Writes ((op.repair s).isSome = true) s t := by
  cases op with
  | startRun f => exact startRun_writes hk h
  | claimStep c => exact absurd rfl (hop c)
  | startStep token => exact startStep_writes hk h
  | heartbeatStep token now leaseSeconds => exact heartbeatStep_writes hk h
  | commitStepOutcome f token o => exact commitStepOutcome_writes hk id h
  | recoverExpiredStep id now => exact recoverExpiredStep_writes hk h
  | pauseTask expected => exact pauseTask_writes hk h
  | resumeTask f expected undrained => exact resumeTask_writes hk h
  | cancelTask expected => exact cancelTask_writes hk h
  | retryTask r => exact retryTask_writes hk h
  | continueOwnerDecision action r recorded => exact continueOwnerDecision_writes hk h
  | decideResult approvalId decision userId now => exact decideResult_writes hk h
  | recoverValidationEnvironment r retained unused => exact recoverValidationEnvironment_writes hk h
  | recoverUnsentCliReview r pinned unsent retained accounted => exact recoverUnsentCliReview_writes hk h
  | continueTask => exact continueTask_writes hk h
  | blockRoute id now category summary quota => exact blockRoute_writes hk h
  | requestApproval token body shared expiresAt => exact requestApproval_writes hk h
  | wakeCapabilityWaiter id approvalId => exact wakeCapabilityWaiter_writes hk h
  | recordEffects effects =>
    cases h
    exact .of_steps hk rfl

end

theorem claimStep_eq_some {c : Claim} {r : State × LeaseToken} (h : claimStep s c = some r) :
    ∃ x, s.step? c.stepId = some x ∧ claimable s c x = true ∧
      r = (s.putStep (leaseStep c x), { stepId := x.id, owner := c.owner, generation := x.leaseGeneration + 1 }) := by
  unfold claimStep at h
  split at h
  · cases h
  · rename_i x hfind
    split_ifs at h with hc
    cases h
    exact ⟨x, hfind, hc, rfl⟩

theorem perform_claim_cases {c : Claim} (h : perform s (.claimStep c) = .ok t) :
    t = s ∨ ∃ x, s.step? c.stepId = some x ∧ claimable s c x = true ∧ t = s.putStep (leaseStep c x) := by
  cases hclaim : claimStep s c with
  | none =>
    simp only [perform, hclaim, Option.elim_none, Except.ok.injEq] at h
    exact Or.inl h.symm
  | some r =>
    obtain ⟨x, hfind, hx, rfl⟩ := claimStep_eq_some hclaim
    simp only [perform, hclaim, Option.elim_some, Except.ok.injEq] at h
    exact Or.inr ⟨x, hfind, hx, h.symm⟩

theorem perform_keyed {op : Op} (hk : Keyed s) (h : perform s op = .ok t) : Keyed t := by
  by_cases hop : ∃ c, op = .claimStep c
  · obtain ⟨c, rfl⟩ := hop
    rcases perform_claim_cases h with rfl | ⟨x, -, -, rfl⟩
    · exact hk
    · exact hk.put rfl
  · exact (perform_writes hk (fun c hc => hop ⟨c, hc⟩) h).keyed

end Writes

end Vuzol.Workflow
