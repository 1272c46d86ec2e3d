import Vuzol.Workflow.ResultApproval

/-! A result is released as it was approved. Its evidence is found on completed steps, which stay as they are; the
    release takes a pending approval that has not expired and holds the envelope on the step, and there is one approval
    for each step. -/

namespace Vuzol.Workflow.Results

open ResultState

variable {s u v : ResultState} {op : ResultOp} {x y : StepRow} {a : ApprovalRow} {w : WorktreeRow} {m : Manifest}
variable {id : Nat}
  {steps collected : List StepRow} {envelope : ResultEnvelope}

/-! ### Evidence -/

def HasGates (x : StepRow) (envelope : ResultEnvelope) : Prop :=
  x.status = .completed ∧ ∃ m gates, x.manifest? = some m ∧ m.baseCommit = some envelope.baseCommit ∧
    m.resultCommit = envelope.resultCommit ∧ m.gates = some gates ∧ gates ≠ []

def Validates (x : StepRow) (envelope : ResultEnvelope) : Prop :=
  x.status = .completed ∧ ∃ m gates, x.manifest? = some m ∧ m.baseCommit = some envelope.baseCommit ∧
    m.resultCommit = envelope.resultCommit ∧ m.gates = some gates ∧ gates ≠ [] ∧
      ∀ g ∈ gates, ∃ gate, g = some gate ∧ gate.exitCode = some 0

/-- A completed review of the envelope's commits and diff passes, without an error or a blocker. -/
def Reviews (x : StepRow) (envelope : ResultEnvelope) : Prop :=
  x.stepType = .review ∧ x.status = .completed ∧ ∃ m findings, x.manifest? = some m ∧
    m.baseCommit = some envelope.baseCommit ∧ m.resultCommit = envelope.resultCommit ∧ m.diffHash = envelope.diffHash ∧
    (m.verdict = some "pass" ∨ m.verdict = some "pass_with_warnings") ∧ m.findings = some findings ∧
      ∀ f ∈ findings, ∃ finding, f = some finding ∧ finding.severity ≠ some "error" ∧ finding.severity ≠ some "blocker"

theorem gates_of_gatesPass (h : m.gatesPass = true) :
    ∃ gates, m.gates = some gates ∧ gates ≠ [] ∧ ∀ g ∈ gates, ∃ gate, g = some gate ∧ gate.exitCode = some 0 := by
  unfold Manifest.gatesPass at h
  rw [Option.any_eq_true] at h
  obtain ⟨gates, hm, h⟩ := h
  simp only [Bool.and_eq_true, Bool.not_eq_true', List.isEmpty_eq_false_iff, List.all_eq_true] at h
  refine ⟨gates, hm, h.1, fun g hg => ?_⟩
  have hpass := h.2 g hg
  rw [Option.any_eq_true] at hpass
  obtain ⟨gate, rfl, hexit⟩ := hpass
  exact ⟨gate, rfl, of_decide_eq_true hexit⟩

theorem findings_of_findingsPass (h : m.findingsPass = true) :
    ∃ findings, m.findings = some findings ∧
      ∀ f ∈ findings, ∃ finding, f = some finding ∧ finding.severity ≠ some "error" ∧ finding.severity ≠ some "blocker" := by
  unfold Manifest.findingsPass at h
  rw [Option.any_eq_true] at h
  obtain ⟨findings, hm, h⟩ := h
  refine ⟨findings, hm, fun f hf => ?_⟩
  have hpass := List.all_eq_true.mp h f hf
  rw [Option.any_eq_true] at hpass
  obtain ⟨finding, rfl, hsev⟩ := hpass
  simp only [Bool.and_eq_true, decide_eq_true_eq] at hsev
  exact ⟨finding, rfl, hsev⟩

theorem evidenceSource_mem (h : evidenceSource steps w = some x) :
    x ∈ steps ∧ (x.stepType = .validate ∨ ∀ y ∈ steps, y.stepType = .validate → y.holdsManifest w = false) := by
  unfold evidenceSource at h
  rcases Option.or_eq_some_iff.mp h with h | ⟨hnone, h⟩
  · obtain ⟨hx, hp⟩ := List.mem_filter.mp (List.mem_of_getLast? h)
    simp only [Bool.and_eq_true, decide_eq_true_eq] at hp
    exact ⟨hx, .inl hp.1⟩
  · refine ⟨(List.mem_filter.mp (List.mem_of_getLast? h)).1, .inr fun y hy hv => ?_⟩
    by_contra hm
    have hheld : y.holdsManifest w = true := by simpa using hm
    have hmem : y ∈ steps.filter fun x => x.stepType = .validate && x.holdsManifest w :=
      List.mem_filter.mpr ⟨hy, by simp [hv, hheld]⟩
    rw [List.getLast?_eq_none_iff] at hnone
    rw [hnone] at hmem
    cases hmem

theorem evidenceSource_completed (h : evidenceSource steps w = some x) : x.status = .completed := by
  unfold evidenceSource at h
  have hheld : x.holdsManifest w = true := by
    rcases Option.or_eq_some_iff.mp h with h | ⟨-, h⟩
    · have hp := (List.mem_filter.mp (List.mem_of_getLast? h)).2
      simp only [Bool.and_eq_true] at hp
      exact hp.2
    · exact (List.mem_filter.mp (List.mem_of_getLast? h)).2
  unfold StepRow.holdsManifest at hheld
  simp only [Bool.and_eq_true, decide_eq_true_eq] at hheld
  exact hheld.1

section
variable (hbase : envelope.baseCommit = w.baseCommit) (hresult : envelope.resultCommit = w.resultCommit)
include hbase hresult

/-- The validation that is found passed its gates; it is a validation, unless no validation holds a manifest. -/
theorem validationManifest_spec (h : validationManifest steps w = .ok m) :
    ∃ x ∈ steps, Validates x envelope ∧
      (x.stepType = .validate ∨ ∀ y ∈ steps, y.stepType = .validate → ¬HasGates y envelope) := by
  unfold validationManifest at h
  split at h
  · cases h
  rename_i source hsource
  split at h
  · cases h
  rename_i m' hm'
  split at h
  · cases h
  rename_i hcommits
  split at h
  · cases h
  rename_i hpass
  cases h
  obtain ⟨hmem, hkind⟩ := evidenceSource_mem hsource
  obtain ⟨gates, hgates, hne, hall⟩ := gates_of_gatesPass (Decidable.not_not.mp hpass)
  simp only [not_or, Decidable.not_not] at hcommits
  refine ⟨source, hmem, ⟨evidenceSource_completed hsource, m, gates, hm', ?_, ?_, hgates, hne, hall⟩, hkind.imp_right ?_⟩
  · rw [hbase]
    exact hcommits.2
  · rw [hresult]
    exact hcommits.1
  · rintro hnone y hy hv ⟨hdone, n, ngates, hn, hnbase, hnresult, hngates, hnne⟩
    have hheld := hnone y hy hv
    rw [hbase] at hnbase
    rw [hresult] at hnresult
    simp [StepRow.holdsManifest, Manifest.validates, hdone, hn, hnbase, hnresult, hngates, hnne] at hheld

theorem reviewManifest_spec {review : Option Manifest} (hdiff : envelope.diffHash = w.diffHash)
    (h : reviewManifest steps w = .ok review) : hasKind .review steps = true → ∃ x ∈ steps, Reviews x envelope := by
  unfold reviewManifest at h
  split at h
  · split at h
    · cases h
    · rename_i hno
      exact fun hyes => absurd hyes hno
  rename_i x hx
  split at h
  · cases h
  rename_i m' hm'
  split at h
  · cases h
  rename_i hcommits
  split at h
  · cases h
  rename_i hverdict
  split at h
  · cases h
  rename_i hfindings
  intro _
  have hkind := List.find?_some hx
  simp only [Bool.and_eq_true, decide_eq_true_eq] at hkind
  simp only [not_or, Decidable.not_not] at hcommits
  obtain ⟨findings, hf, hall⟩ := findings_of_findingsPass (Decidable.not_not.mp hfindings)
  have hpasses := Decidable.not_not.mp hverdict
  unfold Manifest.verdictPasses at hpasses
  simp only [Bool.or_eq_true, decide_eq_true_eq] at hpasses
  refine ⟨x, List.mem_of_find?_eq_some hx, hkind.1, hkind.2, m', findings, hm', ?_, ?_, ?_, hpasses, hf, hall⟩
  · rw [hbase]
    exact hcommits.1
  · rw [hresult]
    exact hcommits.2.1
  · rw [hdiff]
    exact hcommits.2.2

end

structure Evidenced (steps : List StepRow) (a : ApprovalRow) : Prop where
  validated : ∃ x ∈ steps, Validates x a.actionEnvelope ∧
    (x.stepType = .validate ∨ ∀ y ∈ a.collected, y.stepType = .validate → ¬HasGates y a.actionEnvelope)
  reviewed : hasKind .review steps = true → ∃ x ∈ steps, Reviews x a.actionEnvelope

theorem evidenced_of_validationEvidence {e : Evidence} {target : String × String} (h : validationEvidence u.steps w = .ok e) :
    Evidenced u.steps (u.requestedApproval x (u.resultEnvelope y w e target)) := by
  obtain ⟨m, hm, h⟩ := Lib.bind_eq_ok.mp h
  obtain ⟨review, hreview, -⟩ := Lib.bind_eq_ok.mp h
  exact ⟨validationManifest_spec rfl rfl hm, reviewManifest_spec rfl rfl rfl hreview⟩

/-! ### What a step does to the rows -/

theorem mem_of_step? (h : u.step? id = some x) : x ∈ u.steps ∧ x.id = id :=
  ⟨List.mem_of_find?_eq_some h, by simpa using List.find?_some h⟩

theorem mem_of_approval? (h : u.approval? id = some a) : a ∈ u.approvals ∧ a.id = id :=
  ⟨List.mem_of_find?_eq_some h, by simpa using List.find?_some h⟩

theorem moveTo_eq_ok {target : StepStatus} :
    u.moveTo x target = .ok v ↔ target ∈ stepTransitions x.status ∧ v = u.putStep { x with status := target } := by
  unfold moveTo
  split
  · rename_i h
    simp only [Except.ok.injEq, h, true_and]
    exact eq_comm
  · rename_i h
    simp only [reduceCtorEq, h, false_and]

structure StepsKept (steps steps' : List StepRow) : Prop where
  ids : (steps.map StepRow.key).Nodup → (steps'.map StepRow.key).Nodup
  completed : ∀ x ∈ steps, x.status = .completed →
    ∃ y ∈ steps', y.status = .completed ∧ y.stepType = x.stepType ∧ y.result = x.result
  reviews : hasKind .review steps' = true → hasKind .review steps = true

theorem StepsKept.refl (steps : List StepRow) : StepsKept steps steps :=
  ⟨id, fun x hx hc => ⟨x, hx, hc, rfl, rfl⟩, id⟩

theorem StepsKept.put (hn : (steps.map StepRow.key).Nodup) (hx : x ∈ steps) (hid : y.id = x.id)
    (hkind : y.stepType = x.stepType) (hopen : x.status ≠ .completed) : StepsKept steps (Lib.put StepRow.key y steps) where
  ids hn := by
    rw [Lib.map_put fun _ _ hk => hk]
    exact hn
  completed z hz hc := by
    refine ⟨z, Lib.mem_put_of_ne hz fun hk => hopen ?_, hc, rfl, rfl⟩
    have hzx : z = x := Lib.eq_of_key_eq hn hz hx (hk.trans hid)
    rw [← hzx]
    exact hc
  reviews hr := by
    obtain ⟨z, hz, hzr⟩ := List.any_eq_true.mp hr
    rcases Lib.mem_or_of_mem_put hz with rfl | hz
    · exact List.any_eq_true.mpr ⟨x, hx, by rw [← hkind]; exact hzr⟩
    · exact List.any_eq_true.mpr ⟨z, hz, hzr⟩

theorem Evidenced.kept {steps' : List StepRow} (h : Evidenced steps a) (hk : StepsKept steps steps') : Evidenced steps' a where
  validated := by
    obtain ⟨x, hx, ⟨hc, m, gates, hm, hrest⟩, hkind⟩ := h.validated
    obtain ⟨y, hy, hyc, hyt, hyr⟩ := hk.completed x hx hc
    refine ⟨y, hy, ⟨hyc, m, gates, ?_, hrest⟩, ?_⟩
    · unfold StepRow.manifest?
      rw [hyr]
      exact hm
    · rw [hyt]
      exact hkind
  reviewed hr := by
    obtain ⟨x, hx, hrev, hc, m, findings, hm, hrest⟩ := h.reviewed (hk.reviews hr)
    obtain ⟨y, hy, hyc, hyt, hyr⟩ := hk.completed x hx hc
    refine ⟨y, hy, hyt.trans hrev, hyc, m, findings, ?_, hrest⟩
    unfold StepRow.manifest?
    rw [hyr]
    exact hm

structure ApprovalKept (a b : ApprovalRow) : Prop where
  id : b.id = a.id
  stepId : b.stepId = a.stepId
  actionEnvelope : b.actionEnvelope = a.actionEnvelope
  collected : b.collected = a.collected
  decided : a.status ≠ .pending → b.status ≠ .pending

theorem ApprovalKept.refl (a : ApprovalRow) : ApprovalKept a a := ⟨rfl, rfl, rfl, rfl, fun h => h⟩

theorem ApprovalKept.evidenced {b : ApprovalRow} (h : ApprovalKept a b) (he : Evidenced steps a) : Evidenced steps b where
  validated := by
    rw [h.actionEnvelope, h.collected]
    exact he.validated
  reviewed := by
    rw [h.actionEnvelope]
    exact he.reviewed

structure Change (u v : ResultState) : Prop where
  steps : StepsKept u.steps v.steps
  approvals : List.Forall₂ ApprovalKept u.approvals v.approvals
  releases : v.releases = u.releases

theorem Change.of_steps (hs : StepsKept u.steps v.steps) (ha : v.approvals = u.approvals) (hr : v.releases = u.releases) :
    Change u v := by
  refine ⟨hs, ?_, hr⟩
  rw [ha]
  exact List.forall₂_same.mpr fun a _ => .refl a

theorem Change.of_eq (hs : v.steps = u.steps) (ha : v.approvals = u.approvals) (hr : v.releases = u.releases) : Change u v := by
  refine .of_steps ?_ ha hr
  rw [hs]
  exact .refl _

/-! ### Runs -/

structure Release.Admitted (r : Release) : Prop where
  pending : r.approval.status = .pending
  unexpired : r.releasedAt < r.approval.expiresAt
  envelope : r.envelope = some r.approval.actionEnvelope
  step : r.approval.stepId = r.stepId

structure Sound (u : ResultState) : Prop where
  ids : (u.steps.map StepRow.key).Nodup
  approvalIds : u.approvals.map (·.id) = List.range u.approvals.length
  single : (u.approvals.map (·.stepId)).Nodup
  evidenced : ∀ a ∈ u.approvals, Evidenced u.steps a
  admitted : ∀ r ∈ u.releases, r.Admitted
  decided : ∀ r ∈ u.releases, ∃ a ∈ u.approvals, a.stepId = r.stepId ∧ a.status ≠ .pending ∧
    a.actionEnvelope = r.approval.actionEnvelope ∧ a.collected = r.approval.collected
  once : (u.releases.map (·.stepId)).Nodup

theorem map_eq_of_kept {β : Type} {approvals approvals' : List ApprovalRow} {g : ApprovalRow → β}
    (h : List.Forall₂ ApprovalKept approvals approvals') (hg : ∀ a b, ApprovalKept a b → g b = g a) :
    approvals'.map g = approvals.map g := by
  induction h with
  | nil => rfl
  | cons hab _ ih => rw [List.map_cons, List.map_cons, hg _ _ hab, ih]

theorem Sound.change (h : Sound u) (hc : Change u v) : Sound v where
  ids := hc.steps.ids h.ids
  approvalIds := by
    rw [map_eq_of_kept hc.approvals fun _ _ hk => hk.id, h.approvalIds, hc.approvals.length_eq]
  single := by
    rw [map_eq_of_kept hc.approvals fun _ _ hk => hk.stepId]
    exact h.single
  evidenced b hb := by
    obtain ⟨a, ha, hk⟩ := (Lib.Rewrites.of_forall₂ (N := fun _ => False) hc.approvals).source b hb |>.resolve_right id
    exact hk.evidenced ((h.evidenced a ha).kept hc.steps)
  admitted := by
    rw [hc.releases]
    exact h.admitted
  decided r hr := by
    rw [hc.releases] at hr
    obtain ⟨a, ha, hstep, hst, henv, hcol⟩ := h.decided r hr
    obtain ⟨b, hb, hk⟩ := (Lib.Rewrites.of_forall₂ (N := fun _ => False) hc.approvals).kept a ha
    exact ⟨b, hb, hk.stepId.trans hstep, hk.decided hst, hk.actionEnvelope.trans henv, hk.collected.trans hcol⟩
  once := by
    rw [hc.releases]
    exact h.once

/-! ### Requests and releases -/

theorem Sound.request (h : Sound u) (hx : x ∈ u.steps) (hopen : x.status ≠ .completed)
    (hnone : ∀ a ∈ u.approvals, a.stepId ≠ x.id) (he : Evidenced u.steps (u.requestedApproval x envelope)) :
    Sound (u.request x envelope) := by
  have hkept : StepsKept u.steps (u.request x envelope).steps := .put h.ids hx rfl rfl hopen
  constructor
  · exact hkept.ids h.ids
  · show (u.approvals ++ [u.requestedApproval x envelope]).map (·.id) =
      List.range (u.approvals ++ [u.requestedApproval x envelope]).length
    rw [List.map_append, List.length_append, h.approvalIds, List.length_singleton, List.range_succ]
    rfl
  · exact Lib.nodup_map_append h.single hnone
  · intro a ha
    rcases Lib.mem_concat.mp ha with ha | rfl
    · exact (h.evidenced a ha).kept hkept
    · exact he.kept hkept
  · exact h.admitted
  · intro r hr
    obtain ⟨a, ha, hrest⟩ := h.decided r hr
    exact ⟨a, List.mem_append_left _ ha, hrest⟩
  · exact h.once

theorem approvalsKept_put {b : ApprovalRow} (hids : u.approvals.map (·.id) = List.range u.approvals.length)
    (ha : a ∈ u.approvals) (hk : ApprovalKept a b) : List.Forall₂ ApprovalKept u.approvals (u.putApproval b).approvals := by
  have hn : (u.approvals.map ApprovalRow.key).Nodup := by
    show (u.approvals.map (·.id)).Nodup
    rw [hids]
    exact List.nodup_range
  show List.Forall₂ ApprovalKept u.approvals (u.approvals.map fun c => if ApprovalRow.key c = ApprovalRow.key b then b else c)
  rw [List.forall₂_map_right_iff, List.forall₂_same]
  intro c hc
  split
  · rename_i hcb
    have hca : c = a := Lib.eq_of_key_eq hn hc ha (hcb.trans hk.id)
    rw [hca]
    exact hk
  · exact .refl c

theorem change_putApproval (status : ApprovalStatus) (userId : Option Int) (h : Sound u) (ha : a ∈ u.approvals)
    (hst : status ≠ .pending) : Change u (u.putApproval { a with status := status, decidingUserId := userId }) :=
  ⟨.refl _, approvalsKept_put h.approvalIds ha ⟨rfl, rfl, rfl, rfl, fun _ => hst⟩, rfl⟩

theorem release_eq_ok {approver : Approver} {userId : Option Int} (hop : u.release x a approver userId = .ok v) :
    StepStatus.queued ∈ stepTransitions x.status ∧
      v = ((u.putApproval { a with status := .approved, decidingUserId := userId }).logRelease
        { stepId := x.id, approver := approver, approval := a, envelope := x.actionEnvelope, releasedAt := u.now }).putStep
          { x with status := .queued } :=
  moveTo_eq_ok.mp hop

structure Releasable (u : ResultState) (x : StepRow) (a : ApprovalRow) : Prop where
  step : x ∈ u.steps
  opened : x.status ≠ .completed
  approval : a ∈ u.approvals
  pending : a.status = .pending
  unexpired : u.now < a.expiresAt
  stepId : a.stepId = x.id
  envelope : x.actionEnvelope = some a.actionEnvelope

theorem Sound.release {approver : Approver} {userId : Option Int} (h : Sound u) (hr : Releasable u x a)
    (hop : u.release x a approver userId = .ok v) : Sound v := by
  obtain ⟨-, rfl⟩ := release_eq_ok hop
  have hput := h.change (change_putApproval .approved userId h hr.approval (by decide))
  -- an earlier release of the step would have left its approval decided
  have hfirst : ∀ r ∈ u.releases, r.stepId ≠ x.id := by
    intro r hrel hid
    obtain ⟨b, hb, hstep, hst, -⟩ := h.decided r hrel
    have hab : b = a := Lib.eq_of_key_eq h.single hb hr.approval ((hstep.trans hid).trans hr.stepId.symm)
    rw [hab] at hst
    exact hst hr.pending
  refine Sound.change ?_ (.of_steps (.put hput.ids hr.step rfl rfl hr.opened) rfl rfl)
  refine ⟨hput.ids, hput.approvalIds, hput.single, hput.evidenced, ?_, ?_, ?_⟩
  · intro r hrel
    rcases Lib.mem_concat.mp hrel with hrel | rfl
    · exact h.admitted r hrel
    · exact ⟨hr.pending, hr.unexpired, hr.envelope, hr.stepId⟩
  · intro r hrel
    rcases Lib.mem_concat.mp hrel with hrel | rfl
    · exact hput.decided r hrel
    · exact ⟨_, Lib.mem_put_self hr.approval rfl, hr.stepId, fun hf => (nomatch hf), rfl, rfl⟩
  · exact Lib.nodup_map_append h.once hfirst

/-! ### The operations -/

theorem verifiedEnvelope_eq_ok {e : ResultEnvelope} (h : verifiedEnvelope x a = .ok e) :
    x.actionEnvelope = some a.actionEnvelope ∧ e = a.actionEnvelope := by
  unfold verifiedEnvelope at h
  split at h
  · cases h
  rename_i e' he
  split at h
  · cases h
  rename_i heq
  split at h
  · cases h
  cases h
  rw [Decidable.not_not.mp heq] at he
  exact ⟨he, Decidable.not_not.mp heq⟩

theorem releasable_of_decidable (h : u.decidable id = .ok (x, a)) : Releasable u x a ∧ x.status = .waitingApproval := by
  unfold ResultState.decidable at h
  split at h
  · cases h
  rename_i a' ha
  split at h
  · cases h
  rename_i x' hx
  split at h
  · cases h
  rename_i hpending
  split at h
  · cases h
  rename_i hlive
  split at h
  · cases h
  rename_i hwaiting
  obtain ⟨e, he, h⟩ := Lib.bind_eq_ok.mp h
  obtain ⟨-, -, h⟩ := Lib.bind_eq_ok.mp h
  cases h
  obtain ⟨hmem, hid⟩ := mem_of_step? hx
  have hst := Decidable.not_not.mp hwaiting
  refine ⟨⟨hmem, ?_, (mem_of_approval? ha).1, Decidable.not_not.mp hpending, Nat.lt_of_not_le hlive, hid.symm,
    (verifiedEnvelope_eq_ok he).1⟩, hst⟩
  rw [hst]
  decide

theorem releasable_of_acceptable {r : AcceptRequest} (h : u.acceptable r = .ok (x, a)) :
    Releasable u x a ∧ x.status = .waitingApproval := by
  obtain ⟨x', hx, h⟩ := Lib.bind_eq_ok.mp h
  split at h
  · rename_i a' w ha hw
    split at h
    · cases h
    rename_i hcurrent
    split at h
    · rename_i envelope e henv he
      split at h
      · cases h
        have hstep : x ∈ u.steps ∧ x.status = .waitingApproval := by
          unfold waitingStep at hx
          split at hx
          · cases hx
          rename_i y hy
          split at hx
          · cases hx
          cases hx
          have hp := List.find?_some hy
          simp only [Bool.and_eq_true, decide_eq_true_eq] at hp
          exact ⟨List.mem_of_find?_eq_some hy, hp.2⟩
        simp only [not_or, Decidable.not_not, Nat.not_le] at hcurrent
        refine ⟨⟨hstep.1, ?_, List.mem_of_find?_eq_some ha, hcurrent.1, hcurrent.2, by simpa using List.find?_some ha,
          (verifiedEnvelope_eq_ok henv).1⟩, hstep.2⟩
        rw [hstep.2]
        decide
      · cases h
    · cases h
  · cases h

/-- A result is requested for a step without an approval, and released at once where its plan covers it. -/
theorem ensureResultApproval_cases (hop : u.ensureResultApproval x = .ok v) :
    v = u ∨ ∃ envelope, (∀ a ∈ u.approvals, a.stepId ≠ x.id) ∧ Evidenced u.steps (u.requestedApproval x envelope) ∧
      (v = u.request x envelope ∨ (u.request x envelope).release { x with actionEnvelope := some envelope }
        (u.requestedApproval x envelope) .plan none = .ok v) := by
  unfold ResultState.ensureResultApproval at hop
  split at hop
  · cases hop
    exact .inl rfl
  split at hop
  · cases hop
    exact .inl rfl
  rename_i hnone
  split at hop
  · cases hop
  rename_i w hw
  split at hop
  · cases hop
  obtain ⟨e, he, hop⟩ := Lib.bind_eq_ok.mp hop
  obtain ⟨target, -, hop⟩ := Lib.bind_eq_ok.mp hop
  have hfirst : ∀ a ∈ u.approvals, a.stepId ≠ x.id := fun a ha hid =>
    hnone (List.any_eq_true.mpr ⟨a, ha, by simpa using hid⟩)
  refine .inr ⟨u.resultEnvelope x w e target, hfirst, evidenced_of_validationEvidence he, ?_⟩
  split at hop
  · exact .inr hop
  · cases hop
    exact .inl rfl

theorem activate_cases (hop : u.activate id = .ok v) :
    v = u ∨ ∃ x ∈ u.steps, x.status = .pending ∧
      (u.putStep { x with status := .waitingApproval }).ensureResultApproval { x with status := .waitingApproval } = .ok v := by
  unfold activate at hop
  split at hop
  · cases hop
  rename_i x hx
  split at hop
  · cases hop
    exact .inl rfl
  rename_i hready
  obtain ⟨t, ht, hop⟩ := Lib.bind_eq_ok.mp hop
  obtain ⟨-, rfl⟩ := moveTo_eq_ok.mp ht
  simp only [not_or, Decidable.not_not] at hready
  have hpending := hready.2.1
  unfold isReady at hpending
  simp only [Bool.and_eq_true, decide_eq_true_eq] at hpending
  exact .inr ⟨x, (mem_of_step? hx).1, hpending.1, hop⟩

theorem transitionTask_eq_ok {target : TaskStatus} (hop : u.transitionTask target = .ok v) :
    v = { u with task := { u.task with status := target } } := by
  unfold ResultState.transitionTask at hop
  split at hop
  · exact (Except.ok.inj hop).symm
  · cases hop

theorem transitionRun_eq_ok {target : RunStatus} (hop : u.transitionRun target = .ok v) :
    v = { u with run := { u.run with status := target } } := by
  unfold ResultState.transitionRun at hop
  split at hop
  · exact (Except.ok.inj hop).symm
  · cases hop

theorem refuse_eq_ok {userId : Int} (hop : u.refuse x a userId = .ok v) :
    v.steps = Lib.put StepRow.key { x with status := .cancelled } u.steps ∧
      v.approvals = (u.putApproval { a with status := .rejected, decidingUserId := some userId }).approvals ∧
        v.releases = u.releases := by
  obtain ⟨t, ht, hop⟩ := Lib.bind_eq_ok.mp hop
  obtain ⟨-, rfl⟩ := moveTo_eq_ok.mp ht
  obtain ⟨t', ht', hop⟩ := Lib.bind_eq_ok.mp hop
  obtain rfl := transitionRun_eq_ok ht'
  obtain rfl := transitionTask_eq_ok hop
  exact ⟨rfl, rfl, rfl⟩

theorem decideResult_cases {id : Nat} {decision : Decision} {userId : Int} (hop : u.decideResult id decision userId = .ok v) :
    ∃ x a, Releasable u x a ∧ x.status = .waitingApproval ∧
      ((∃ t, u.release x a (.owner userId) (some userId) = .ok t ∧ t.transitionTask .executing = .ok v) ∨
        u.refuse x a userId = .ok v) := by
  obtain ⟨⟨x, a⟩, hguard, hop⟩ := Lib.bind_eq_ok.mp hop
  obtain ⟨hr, hwaiting⟩ := releasable_of_decidable hguard
  refine ⟨x, a, hr, hwaiting, ?_⟩
  cases decision with
  | approve =>
    obtain ⟨t, ht, hop⟩ := Lib.bind_eq_ok.mp hop
    exact .inl ⟨t, ht, hop⟩
  | redo => exact .inr hop
  | reject => exact .inr hop

theorem acceptResult_cases {r : AcceptRequest} (hop : u.acceptResult r = .ok v) :
    v = u ∨ ∃ x a t t', Releasable u x a ∧ x.status = .waitingApproval ∧ u.release x a .lead none = .ok t ∧
      t.transitionTask .executing = .ok t' ∧ v = { t' with acceptedByLead := true } := by
  unfold acceptResult at hop
  split at hop
  · cases hop
  split at hop
  · cases hop
    exact .inl rfl
  split at hop
  · cases hop
  obtain ⟨-, -, hop⟩ := Lib.bind_eq_ok.mp hop
  split at hop
  · cases hop
  split at hop
  · cases hop
  obtain ⟨⟨x, a⟩, hguard, hop⟩ := Lib.bind_eq_ok.mp hop
  obtain ⟨hr, hwaiting⟩ := releasable_of_acceptable hguard
  obtain ⟨t, ht, hop⟩ := Lib.bind_eq_ok.mp hop
  obtain ⟨t', ht', hop⟩ := Lib.bind_eq_ok.mp hop
  exact .inr ⟨x, a, t, t', hr, hwaiting, ht, ht', (Except.ok.inj hop).symm⟩

theorem moveStep_cases {target : StepStatus} {result : Option StepResult} (hop : u.moveStep id target result = .ok v) :
    ∃ x ∈ u.steps, ∃ y, x.status ≠ .completed ∧ y.id = x.id ∧ y.stepType = x.stepType ∧ v = u.putStep y ∧
      (x.appliesResult = true → x.status = .pending ∨ x.status = .waitingApproval → y.status ≠ .queued) := by
  unfold moveStep at hop
  split at hop
  · cases hop
  rename_i x hx
  have hmem := (mem_of_step? hx).1
  split at hop
  · rename_i hreview
    refine ⟨x, hmem, { x with status := .queued }, ?_, rfl, rfl, (Except.ok.inj hop).symm, fun _ hst => ?_⟩
    · rw [hreview.1]
      decide
    · rw [hreview.1] at hst
      rcases hst with hst | hst <;> cases hst
  split at hop
  · cases hop
  rename_i hlegal
  split at hop
  · cases hop
  rename_i helsewhere
  refine ⟨x, hmem, { x with status := target, result := result.or x.result }, ?_, rfl, rfl, (Except.ok.inj hop).symm,
    fun happ hst hq => ?_⟩
  · intro hc
    rw [hc] at hlegal
    exact hlegal (List.not_mem_nil)
  · exact helsewhere ⟨happ, hst, .inl hq⟩

theorem addStep_eq_ok (hop : u.addStep x = .ok v) :
    (∀ y ∈ u.steps, y.id ≠ x.id) ∧ ResultState.isAddedKind x.stepType = true ∧ v = { u with steps := u.steps ++ [x] } := by
  unfold addStep at hop
  split at hop
  · cases hop
  rename_i hnew
  simp only [not_or, Decidable.not_not] at hnew
  refine ⟨fun y hy hid => ?_, hnew.2.1, (Except.ok.inj hop).symm⟩
  exact hnew.1 (List.find?_isSome.mpr ⟨y, hy, by simpa using hid⟩)

/-! ### Steps -/

theorem Sound.activate (h : Sound u) (hop : u.activate id = .ok v) : Sound v := by
  rcases activate_cases hop with rfl | ⟨x, hx, hpending, hop⟩
  · exact h
  have hopen : x.status ≠ .completed := by
    rw [hpending]
    decide
  have hmoved : Sound (u.putStep { x with status := .waitingApproval }) :=
    h.change (.of_steps (.put h.ids hx rfl rfl hopen) rfl rfl)
  have hmem : { x with status := .waitingApproval } ∈ (u.putStep { x with status := .waitingApproval }).steps :=
    Lib.mem_put_self hx rfl
  rcases ensureResultApproval_cases hop with rfl | ⟨envelope, hfirst, he, hop⟩
  · exact hmoved
  have hwaits : StepStatus.waitingApproval ≠ .completed := by decide
  have hrequested := hmoved.request hmem hwaits hfirst he
  rcases hop with rfl | hop
  · exact hrequested
  · refine hrequested.release ⟨Lib.mem_put_self hmem rfl, hwaits, List.mem_append_right _ (List.mem_singleton_self _), rfl,
      ?_, rfl, rfl⟩ hop
    show u.now < u.now + resultApprovalTtl
    exact Nat.lt_add_of_pos_right (by decide)

theorem Sound.step (h : Sound u) (hop : u.perform op = .ok v) : Sound v := by
  cases op with
  | activate id => exact h.activate hop
  | decideResult id decision userId =>
    obtain ⟨x, a, hr, -, ⟨t, ht, hop⟩ | hop⟩ := decideResult_cases hop
    · obtain rfl := transitionTask_eq_ok hop
      exact (h.release hr ht).change (.of_eq rfl rfl rfl)
    · obtain ⟨hsteps, happrovals, hreleases⟩ := refuse_eq_ok hop
      refine h.change ⟨?_, ?_, hreleases⟩
      · rw [hsteps]
        exact .put h.ids hr.step rfl rfl hr.opened
      · rw [happrovals]
        exact (change_putApproval _ _ h hr.approval (by decide)).approvals
  | acceptResult r =>
    rcases acceptResult_cases hop with rfl | ⟨x, a, t, t', hr, -, ht, ht', rfl⟩
    · exact h
    · obtain rfl := transitionTask_eq_ok ht'
      exact (h.release hr ht).change (.of_eq rfl rfl rfl)
  | expirePendingApprovals =>
    cases hop
    refine h.change ⟨.refl _, ?_, rfl⟩
    show List.Forall₂ ApprovalKept u.approvals (u.approvals.map _)
    rw [List.forall₂_map_right_iff, List.forall₂_same]
    intro a _
    split
    · exact ⟨rfl, rfl, rfl, rfl, fun hst => hst⟩
    · exact .refl a
  | moveStep id target result =>
    obtain ⟨x, hx, y, hopen, hid, hkind, rfl, -⟩ := moveStep_cases hop
    exact h.change (.of_steps (.put h.ids hx hid hkind hopen) rfl rfl)
  | addStep x =>
    obtain ⟨hfresh, hadded, rfl⟩ := addStep_eq_ok hop
    refine h.change (.of_steps ⟨fun hn => ?_, fun y hy hc => ⟨y, List.mem_append_left _ hy, hc, rfl, rfl⟩, fun hr => ?_⟩ rfl rfl)
    · exact Lib.nodup_map_append hn hfresh
    · obtain ⟨y, hy, hrev⟩ := List.any_eq_true.mp hr
      rcases List.mem_append.mp hy with hy | hy
      · exact List.any_eq_true.mpr ⟨y, hy, hrev⟩
      · rw [List.mem_singleton.mp hy, decide_eq_true_eq] at hrev
        rw [hrev] at hadded
        cases hadded
  | measure w =>
    cases hop
    exact h.change (.of_eq rfl rfl rfl)
  | replan link goal =>
    cases hop
    exact h.change (.of_eq rfl rfl rfl)
  | project task run =>
    cases hop
    exact h.change (.of_eq rfl rfl rfl)
  | wait =>
    cases hop
    exact h.change (.of_eq rfl rfl rfl)

def LogsReleases (u v : ResultState) : Prop :=
  ∀ x ∈ u.steps, ∀ y ∈ v.steps, y.id = x.id → x.appliesResult = true → x.status = .pending ∨ x.status = .waitingApproval →
    y.status = .queued → ∃ r, v.releases = u.releases ++ [r] ∧ r.stepId = x.id

theorem LogsReleases.of_put (hn : (u.steps.map StepRow.key).Nodup) (hx : x ∈ u.steps) (hid : y.id = x.id)
    (hv : v.steps = Lib.put StepRow.key y u.steps)
    (h : x.appliesResult = true → x.status = .pending ∨ x.status = .waitingApproval → y.status = .queued →
      ∃ r, v.releases = u.releases ++ [r] ∧ r.stepId = x.id) : LogsReleases u v := by
  intro x' hx' y' hy' hid' happ hst hq
  rw [hv] at hy'
  rcases Lib.mem_put.mp hy' with ⟨rfl, -⟩ | ⟨hy', -⟩
  · have hxx : x' = x := Lib.eq_of_key_eq hn hx' hx (hid'.symm.trans hid)
    rw [hxx] at happ hst ⊢
    exact h happ hst hq
  · have hyx : y' = x' := Lib.eq_of_key_eq hn hy' hx' hid'
    rw [hyx] at hq
    rw [hq] at hst
    rcases hst with hst | hst <;> cases hst

theorem LogsReleases.of_steps (hn : (u.steps.map StepRow.key).Nodup) (hv : v.steps = u.steps) : LogsReleases u v := by
  intro x hx y hy hid _ hst hq
  rw [hv] at hy
  have hyx : y = x := Lib.eq_of_key_eq hn hy hx hid
  rw [hyx] at hq
  rw [hq] at hst
  rcases hst with hst | hst <;> cases hst

theorem logsReleases_of_step (h : Sound u) (hop : u.perform op = .ok v) : LogsReleases u v := by
  cases op with
  | activate id =>
    rcases activate_cases hop with rfl | ⟨x, hx, hpending, hop⟩
    · exact .of_steps h.ids rfl
    rcases ensureResultApproval_cases hop with rfl | ⟨envelope, -, -, rfl | hop⟩
    · exact .of_put (y := { x with status := .waitingApproval }) h.ids hx rfl rfl fun _ _ hq => absurd hq (by simp)
    · exact .of_put (y := { x with status := .waitingApproval, actionEnvelope := some envelope }) h.ids hx rfl
        (Lib.put_put rfl) fun _ _ hq => absurd hq (by simp)
    · obtain ⟨-, rfl⟩ := release_eq_ok hop
      have hput : ∀ y1 y2 y : StepRow, y1.key = y.key → y2.key = y.key →
          Lib.put StepRow.key y (Lib.put StepRow.key y1 (Lib.put StepRow.key y2 u.steps)) = Lib.put StepRow.key y u.steps := by
        intro y1 y2 y h1 h2
        rw [Lib.put_put h1, Lib.put_put h2]
      refine .of_put (y := { x with status := .queued, actionEnvelope := some envelope }) h.ids hx rfl
        (hput _ _ _ rfl rfl) fun _ _ _ => ⟨_, rfl, rfl⟩
  | decideResult id decision userId =>
    obtain ⟨x, a, hr, -, ⟨t, ht, hop⟩ | hop⟩ := decideResult_cases hop
    · obtain rfl := transitionTask_eq_ok hop
      obtain ⟨-, rfl⟩ := release_eq_ok ht
      exact .of_put (y := { x with status := .queued }) h.ids hr.step rfl rfl fun _ _ _ => ⟨_, rfl, rfl⟩
    · exact .of_put (y := { x with status := .cancelled }) h.ids hr.step rfl (refuse_eq_ok hop).1 fun _ _ hq => absurd hq (by simp)
  | acceptResult r =>
    rcases acceptResult_cases hop with rfl | ⟨x, a, t, t', hr, -, ht, ht', rfl⟩
    · exact .of_steps h.ids rfl
    · obtain rfl := transitionTask_eq_ok ht'
      obtain ⟨-, rfl⟩ := release_eq_ok ht
      exact .of_put (y := { x with status := .queued }) h.ids hr.step rfl rfl fun _ _ _ => ⟨_, rfl, rfl⟩
  | moveStep id target result =>
    obtain ⟨x, hx, y, -, hid, -, rfl, hq⟩ := moveStep_cases hop
    exact .of_put h.ids hx hid rfl fun happ hst hqueued => absurd hqueued (hq happ hst)
  | addStep x =>
    obtain ⟨hfresh, -, rfl⟩ := addStep_eq_ok hop
    intro x' hx' y hy hid happ hst hq
    rcases Lib.mem_concat.mp hy with hy | rfl
    · exact LogsReleases.of_steps h.ids rfl x' hx' y hy hid happ hst hq
    · exact absurd hid.symm (hfresh x' hx')
  | expirePendingApprovals =>
    cases hop
    exact .of_steps h.ids rfl
  | measure w =>
    cases hop
    exact .of_steps h.ids rfl
  | replan link goal =>
    cases hop
    exact .of_steps h.ids rfl
  | project task run =>
    cases hop
    exact .of_steps h.ids rfl
  | wait =>
    cases hop
    exact .of_steps h.ids rfl

/-! ### Runs -/

structure ReleasedAsApproved (u : ResultState) : Prop where
  logged : ∀ op v, u.perform op = .ok v → LogsReleases u v
  once : (u.releases.map (·.stepId)).Nodup
  admitted : ∀ r ∈ u.releases, r.Admitted
  evidenced : ∀ r ∈ u.releases, Evidenced u.steps r.approval

/-- In every run that starts without approvals, each result is released once, under an approval that admits it, and with the
    evidence that was approved. -/
theorem result_released_as_approved (s u : ResultState) (hids : (s.steps.map StepRow.key).Nodup) (hnew : s.approvals = [])
    (hunreleased : s.releases = []) (h : s.Reaches u) : ReleasedAsApproved u := by
  have hstart : Sound s := by
    refine ⟨hids, ?_, ?_, ?_, ?_, ?_, ?_⟩
    · rw [hnew]
      rfl
    · rw [hnew]
      exact List.nodup_nil
    · rw [hnew]
      exact fun a ha => (nomatch ha)
    · rw [hunreleased]
      exact fun r hr => (nomatch hr)
    · rw [hunreleased]
      exact fun r hr => (nomatch hr)
    · rw [hunreleased]
      exact List.nodup_nil
  have hu : Sound u := h.invariant (P := Sound) hstart fun hu _ hop => hu.step hop
  refine ⟨fun op v hop => logsReleases_of_step hu hop, hu.once, hu.admitted, fun r hr => ?_⟩
  obtain ⟨a, ha, -, -, henvelope, hcollected⟩ := hu.decided r hr
  have he := hu.evidenced a ha
  constructor
  · rw [← henvelope, ← hcollected]
    exact he.validated
  · rw [← henvelope]
    exact he.reviewed

/-! ### One result -/

def aMeasuredWorktree : WorktreeRow where
  projectId := "p"
  repositoryIdentityHash := "i"
  defaultBranch := "main"
  expectedTargetHead := "a"
  baseCommit := "a"
  resultCommit := some "b"
  diffHash := some "d"

def aPassingManifest : Manifest where
  baseCommit := some "a"
  resultCommit := some "b"
  gates := some [some ⟨some 0⟩]

def aPassingReview : Manifest where
  baseCommit := some "a"
  resultCommit := some "b"
  diffHash := some "d"
  verdict := some "pass"

def completedStep (id : Nat) (kind : StepType) (m : Manifest) : StepRow where
  id := id
  ordinal := id
  stepType := kind
  status := .completed
  result := some { structuredOutput := some m }

def anApprovalStep : StepRow where
  id := 4
  ordinal := 4
  stepType := .approval
  status := .pending
  predecessorOrdinals := [3]
  requestedAction := some .applyResult

/-- A run that has come to its approval step. -/
def measuredRun (execution validation : Manifest) : ResultState where
  task := { status := .waitingApproval }
  run := { status := .running, fixedContract := true }
  steps := [completedStep 1 .executeCode execution, completedStep 2 .validate validation,
    completedStep 3 .review aPassingReview, anApprovalStep]
  worktree := some aMeasuredWorktree

def approvedByOwner : List ResultOp := [.activate 4, .decideResult 0 .approve 7]

theorem result_released_as_approved_once :
    ∃ u, (measuredRun {} aPassingManifest).Reaches u ∧ u.releases.map (·.approver) = [.owner 7] ∧ ReleasedAsApproved u := by
  have hrun : Lib.ends (fun u : ResultState => u.releases.map (·.approver) = [.owner 7])
      (Lib.runOps ResultState.perform (measuredRun {} aPassingManifest) approvedByOwner) = true := by decide
  obtain ⟨u, hu, hp⟩ := Lib.exists_of_ends hrun
  have hr : (measuredRun {} aPassingManifest).Reaches u := Lib.reach_of_runOps (fun _ _ _ => trivial) hu
  exact ⟨u, hr, of_decide_eq_true hp, result_released_as_approved _ u (by decide) rfl rfl hr⟩

/-- A result is released whose manifest is on the execution, while its validation ran no gate. -/
theorem released_without_validation :
    ∃ u, (measuredRun aPassingManifest { aPassingManifest with gates := some [] }).Reaches u ∧
      ∃ r ∈ u.releases, ¬∃ x ∈ u.steps, x.stepType = .validate ∧ Validates x r.approval.actionEnvelope := by
  have hrun : Lib.ends (fun u : ResultState => u.releases.length = 1 &&
      u.steps.filterMap (fun x => if x.stepType = .validate then x.manifest? else none) =
        [{ aPassingManifest with gates := some [] }])
      (Lib.runOps ResultState.perform (measuredRun aPassingManifest { aPassingManifest with gates := some [] })
        approvedByOwner) = true := by
    decide
  obtain ⟨u, hu, hp⟩ := Lib.exists_of_ends hrun
  simp only [Bool.and_eq_true, decide_eq_true_eq] at hp
  obtain ⟨hreleases, hsteps⟩ := hp
  obtain ⟨r, hr⟩ := List.length_eq_one_iff.mp hreleases
  refine ⟨u, Lib.reach_of_runOps (fun _ _ _ => trivial) hu, r, by rw [hr]; exact List.mem_cons_self, ?_⟩
  rintro ⟨x, hx, hkind, -, m, gates, hm, -, -, hgates, hne, -⟩
  have hmem : m ∈ u.steps.filterMap fun x => if x.stepType = .validate then x.manifest? else none :=
    List.mem_filterMap.mpr ⟨x, hx, by rw [if_pos hkind]; exact hm⟩
  rw [hsteps, List.mem_singleton] at hmem
  rw [hmem] at hgates
  exact hne (Option.some.inj hgates).symm

end Vuzol.Workflow.Results
