import Vuzol.Execution.Apply

/-! The effect of an approved result and its branch agree, unless a pass denies the effect while the attempt that
    launched it may still move the branch. The lease generation of the step tells which attempts can still write a
    receipt. -/

namespace Vuzol.Execution

open Vuzol.Workflow (EffectStatus)

variable {treeOf : String → String} {res : ApprovedResult} {u v : Applying} {a b : Attempt} {op : ApplyOp} {e : Effect}
variable {phase : Phase}
  {rows rows' : ApplyRows} {r r' : Repository} {l : StepLease} {c : Change}

/-! ### Git -/

/-- `examine` leaves the branch. It returns when the branch is at the result, which for a no-op it also is when it is
    missing, and else asks to advance it from the expected head. -/
theorem examine_ok {w : ResultWorktree} {verdict : Repository.Verdict} (h : r.examine treeOf c w = .ok (r', verdict)) :
    r'.target = r.target ∧
      ((verdict = .returns ∧ (c.isNoOp ∨ r.target = some c.resultCommit)) ∨
        (verdict = .advances r.target.isSome ∧ ¬c.isNoOp ∧ r.target.getD c.expectedHead = c.expectedHead)) := by
  unfold Repository.examine at h
  obtain ⟨-, h⟩ := Lib.guard_eq_ok.mp h
  obtain ⟨-, h⟩ := Lib.guard_eq_ok.mp h
  split at h
  · rename_i hnoop
    obtain ⟨-, h⟩ := Lib.guard_eq_ok.mp h
    obtain ⟨-, h⟩ := Lib.guard_eq_ok.mp h
    obtain ⟨-, h⟩ := Lib.guard_eq_ok.mp h
    cases h
    exact ⟨rfl, .inl ⟨rfl, .inl hnoop⟩⟩
  · rename_i hchange
    split at h
    · cases h
    obtain ⟨-, h⟩ := Lib.guard_eq_ok.mp h
    split at h
    · rename_i hat
      obtain ⟨r1, hr, h⟩ := Lib.bind_eq_ok.mp h
      cases h
      have htarget : r.target = some c.resultCommit := by
        cases ht : r.target with
        | none =>
          rw [ht] at hat
          exact absurd hat.symm hchange
        | some x =>
          rw [ht] at hat
          exact congrArg some hat
      refine ⟨?_, .inl ⟨rfl, .inr htarget⟩⟩
      unfold Repository.recover at hr
      split at hr
      · cases hr
        rfl
      · obtain ⟨-, hr⟩ := Lib.guard_eq_ok.mp hr
        obtain ⟨-, hr⟩ := Lib.guard_eq_ok.mp hr
        cases hr
        exact htarget.symm
    · obtain ⟨hexpected, h⟩ := Lib.guard_eq_ok.mp h
      obtain ⟨-, h⟩ := Lib.guard_eq_ok.mp h
      obtain ⟨-, h⟩ := Lib.guard_eq_ok.mp h
      cases h
      exact ⟨rfl, .inr ⟨rfl, hchange, not_not.mp hexpected⟩⟩

theorem updateRef_ok {targetExists : Bool} (h : r.updateRef c targetExists = .ok r') :
    r.target = (if targetExists then some c.expectedHead else none) ∧ r'.target = some c.resultCommit := by
  obtain ⟨hold, h⟩ := Lib.check_eq_ok.mp h
  cases h
  exact ⟨hold, rfl⟩

theorem align_ok (h : r.align treeOf c = .ok r') : r.target = some c.resultCommit ∧ r'.target = some c.resultCommit := by
  obtain ⟨hat, h⟩ := Lib.guard_eq_ok.mp h
  have hat := not_not.mp hat
  cases h
  refine ⟨hat, ?_⟩
  split
  · rfl
  · exact hat

/-! ### Effects -/

/-- An intent is not recorded on an uncertain effect. It launches the effect, or finds it settled or failed. -/
theorem recordIntent_ok {existing : Option Effect} {intent : EffectIntent} (h : recordIntent existing intent = .ok e) :
    (∀ x, existing = some x → x.status ≠ .uncertain) ∧
      ((e.status = .dispatched ∧ (∀ x, existing = some x → x.status ≠ .settled) ∧
          (e.purpose = intent.purpose ∨ ∃ x, existing = some x ∧ e.purpose = x.purpose)) ∨
        (existing = some e ∧ (e.status = .settled ∨ (e.status = .failed ∧ e.reconcileStatus ≠ .denied)))) := by
  unfold recordIntent at h
  split at h
  · cases h
    exact ⟨fun x hx => (nomatch hx), .inl ⟨rfl, fun x hx => (nomatch hx), .inl rfl⟩⟩
  · rename_i x
    obtain ⟨hsure, h⟩ := Lib.guard_eq_ok.mp h
    refine ⟨fun y hy => ?_, ?_⟩
    · cases hy
      exact fun hst => hsure (.inl hst)
    split at h
    · rename_i hdenied
      obtain ⟨-, h⟩ := Lib.guard_eq_ok.mp h
      obtain ⟨-, h⟩ := Lib.guard_eq_ok.mp h
      cases h
      refine .inl ⟨rfl, fun y hy => ?_, .inr ⟨x, rfl, rfl⟩⟩
      cases hy
      rw [hdenied.1]
      exact fun hf => nomatch hf
    · rename_i hdenied
      split at h
      · rename_i hst
        cases h
        exact .inr ⟨rfl, hst.imp_right fun hf => ⟨hf, fun hd => hdenied ⟨hf, hd⟩⟩⟩
      · rename_i hst
        cases h
        refine .inl ⟨rfl, fun y hy => ?_, .inr ⟨x, rfl, rfl⟩⟩
        cases hy
        exact fun hf => hst (.inl hf)

theorem observe_applied {repository : Option Repository} {ref : String} (h : observe treeOf e repository = (.applied, ref)) :
    ∃ r, repository = some r ∧ r.target = some e.purpose.change.resultCommit ∧ ref = e.purpose.change.resultCommit := by
  unfold observe at h
  split at h
  · cases h
  split at h
  · cases h
  rename_i r
  split at h
  · cases h
  obtain ⟨hclass, href⟩ := Prod.mk.inj h
  unfold classifyEffectObservation at hclass
  split at hclass
  · cases hclass
  · rename_i x hx
    split at hclass
    · rename_i hxr
      rw [hx] at href
      exact ⟨r, rfl, by rw [hx, hxr], href.symm.trans hxr⟩
    · split at hclass <;> cases hclass

/-! ### The ledger -/

def Delivered (res : ApprovedResult) (u : Applying) : Prop := u.moves = 1 ∨ res.change.isNoOp

structure EffectSound (res : ApprovedResult) (delivered : Prop) (e : Effect) : Prop where
  purpose : e.purpose = res.purpose
  failed : e.status = .failed → e.reconcileStatus = .denied
  settled : e.status = .settled → e.reconcileStatus = .confirmed ∧ delivered

structure LedgerSound (res : ApprovedResult) (u : Applying) : Prop where
  cell : (u.moves = 0 ∧ (u.repository.target = some res.change.resultCommit → res.change.isNoOp)) ∨
    (u.moves = 1 ∧ u.repository.target = some res.change.resultCommit)
  found : ∀ a ∈ u.attempts, ∀ targetExists, a.phase = .found targetExists → ¬res.change.isNoOp
  returned : ∀ a ∈ u.attempts, a.phase = .moved ∨ a.phase = .applied → Delivered res u
  observed : ∀ ref, u.observed = some (.applied, ref) → Delivered res u
  result : u.rows.worktree.resultCommit = res.change.resultCommit
  effect : ∀ e, u.rows.effect = some e → EffectSound res (Delivered res u) e
  launched : ∀ a ∈ u.attempts, a.isLaunched = true → a.lease.generation ≤ u.rows.step.leaseGeneration

/-- An attempt that can still write a receipt finds an effect that is not denied, and nothing is applied without an
    effect that is settled. -/
structure LedgerAgrees (u : Applying) : Prop where
  pending : ∀ a ∈ u.attempts, a.isLaunched = true → a.lease.generation = u.rows.step.leaseGeneration →
    ∃ e, u.rows.effect = some e ∧ e.status ≠ .failed
  applied : u.rows.worktree.deliveryState = .applied → ∃ e, u.rows.effect = some e ∧ e.status = .settled

theorem LedgerSound.delivered_of_target (h : LedgerSound res u) (ht : u.repository.target = some res.change.resultCommit) :
    Delivered res u := by
  rcases h.cell with ⟨-, hnoop⟩ | ⟨hm, -⟩
  · exact .inr (hnoop ht)
  · exact .inl hm

theorem LedgerSound.start (h : LedgerSound res u) (l : StepLease) :
    LedgerSound res { u with attempts := ⟨l, .started⟩ :: u.attempts } where
  cell := h.cell
  found a ha targetExists hp := by
    rcases List.mem_cons.mp ha with rfl | ha
    · cases hp
    · exact h.found a ha targetExists hp
  returned a ha hp := by
    rcases List.mem_cons.mp ha with rfl | ha
    · rcases hp with hp | hp <;> cases hp
    · exact h.returned a ha hp
  observed := h.observed
  result := h.result
  effect := h.effect
  launched a ha hl := by
    rcases List.mem_cons.mp ha with rfl | ha
    · cases hl
    · exact h.launched a ha hl

theorem LedgerSound.leave (h : LedgerSound res u) (a : Attempt) : LedgerSound res (u.leave a) where
  cell := h.cell
  found b hb := h.found b (List.mem_of_mem_erase hb)
  returned b hb := h.returned b (List.mem_of_mem_erase hb)
  observed := h.observed
  result := h.result
  effect := h.effect
  launched b hb := h.launched b (List.mem_of_mem_erase hb)

theorem LedgerAgrees.leave (h : LedgerAgrees u) (a : Attempt) : LedgerAgrees (u.leave a) where
  pending b hb := h.pending b (List.mem_of_mem_erase hb)
  applied := h.applied

theorem LedgerSound.goOn (h : LedgerSound res u) (hfound : ∀ targetExists, phase = .found targetExists → ¬res.change.isNoOp)
    (hreturned : phase = .moved ∨ phase = .applied → Delivered res u)
    (hlaunched : ({ a with phase := phase } : Attempt).isLaunched = true → a.lease.generation ≤ u.rows.step.leaseGeneration) :
    LedgerSound res (u.goOn a phase) where
  cell := h.cell
  found b hb := by
    rcases List.mem_cons.mp hb with rfl | hb
    · exact hfound
    · exact h.found b (List.mem_of_mem_erase hb)
  returned b hb := by
    rcases List.mem_cons.mp hb with rfl | hb
    · exact hreturned
    · exact h.returned b (List.mem_of_mem_erase hb)
  observed := h.observed
  result := h.result
  effect := h.effect
  launched b hb := by
    rcases List.mem_cons.mp hb with rfl | hb
    · exact hlaunched
    · exact h.launched b (List.mem_of_mem_erase hb)

theorem LedgerAgrees.goOn (h : LedgerAgrees u)
    (hpending : ({ a with phase := phase } : Attempt).isLaunched = true → a.lease.generation = u.rows.step.leaseGeneration →
      ∃ e, u.rows.effect = some e ∧ e.status ≠ .failed) :
    LedgerAgrees (u.goOn a phase) where
  pending b hb := by
    rcases List.mem_cons.mp hb with rfl | hb
    · exact hpending
    · exact h.pending b (List.mem_of_mem_erase hb)
  applied := h.applied

/-! ### The transactions on the rows -/

theorem rows_recordIntent_ok {blocker : Option String} (h : rows.recordIntent res l blocker = .ok rows') :
    l.holds rows.step = true ∧ ∃ e, recordIntent rows.effect (res.intent l.generation) = .ok e ∧
      rows' = { rows with effect := some e } := by
  unfold ApplyRows.recordIntent at h
  split at h
  · cases h
  obtain ⟨hheld, h⟩ := Lib.guard_eq_ok.mp h
  obtain ⟨-, h⟩ := Lib.guard_eq_ok.mp h
  obtain ⟨e, he, h⟩ := Lib.bind_eq_ok.mp h
  cases h
  exact ⟨by simpa using hheld, e, he, rfl⟩

theorem generation_of_holds {x : StepRow} (h : l.holds x = true) : l.generation = x.leaseGeneration := by
  simp only [StepLease.holds, Bool.and_eq_true, decide_eq_true_eq] at h
  exact h.2.symm

theorem recordHeadEvidence_eq (rows : ApplyRows) (p : PackageRow) :
    ∃ evidence, rows.recordHeadEvidence p = { rows with evidence := evidence } := by
  unfold ApplyRows.recordHeadEvidence
  split
  · exact ⟨rows.evidence, rfl⟩
  · split
    · exact ⟨rows.evidence, rfl⟩
    · exact ⟨_, rfl⟩

def packageAt (targetBranch commit : String) (p : PackageRow) : PackageRow :=
  if targetBranch = p.integrationBranch then { p with integrationHeadCommit := some commit } else p

def receiptOn (externalRef : String) (e : Effect) : Effect := if isActive e.status then e.settleApplied externalRef else e

theorem followApplied_eq (rows : ApplyRows) (targetBranch : String) :
    ∃ evidence, rows.followApplied targetBranch = { rows with
      package := rows.package.map (packageAt targetBranch rows.worktree.resultCommit), evidence := evidence } := by
  obtain ⟨step, approval, worktree, package, effect, evidence⟩ := rows
  cases package with
  | none => exact ⟨evidence, rfl⟩
  | some p =>
    by_cases hb : targetBranch = p.integrationBranch
    · obtain ⟨evidence', he⟩ := recordHeadEvidence_eq
        (ApplyRows.advancePackage ⟨step, approval, worktree, some p, effect, evidence⟩ worktree.resultCommit p) p
      refine ⟨evidence', ?_⟩
      simp only [ApplyRows.followApplied, hb, if_true, he, Option.map_some, packageAt]
      rfl
    · refine ⟨evidence, ?_⟩
      simp only [ApplyRows.followApplied, hb, if_false, Option.map_some, packageAt]

theorem settleEffect_eq (rows : ApplyRows) (externalRef : String) :
    rows.settleEffect externalRef = { rows with effect := rows.effect.map (receiptOn externalRef) } := by
  obtain ⟨step, approval, worktree, package, effect, evidence⟩ := rows
  cases effect with
  | none => rfl
  | some e =>
    by_cases hact : isActive e.status = true
    · simp only [ApplyRows.settleEffect, hact, if_true, Option.map_some, receiptOn]
    · simp only [ApplyRows.settleEffect, hact, Option.map_some, receiptOn, Bool.false_eq_true, if_false]

/-- What a receipt leaves: the approval is consumed, the worktree applied, the package follows, and an active effect
    is settled. -/
def receiptRows (rows : ApplyRows) (res : ApprovedResult) (now : Nat) : ApplyRows where
  step := rows.step
  approval := rows.approval.consume now
  worktree := { rows.worktree with
    deliveryState := .applied
    deliveryOperationHash := some res.envelopeHash
    deliveredRef := some (headRef res.change.targetBranch) }
  package := rows.package.map (packageAt res.change.targetBranch rows.worktree.resultCommit)
  effect := rows.effect.map (receiptOn (headRef res.change.targetBranch ++ "@" ++ rows.worktree.resultCommit))

structure SameRows (x y : ApplyRows) : Prop where
  step : x.step = y.step
  approval : x.approval = y.approval
  worktree : x.worktree = y.worktree
  package : x.package = y.package
  effect : x.effect = y.effect

variable {now : Nat}

theorem recordApplied_ok (h : rows.recordApplied res l now = .ok rows') :
    l.holds rows.step = true ∧ rows.approval.isGranted = true ∧ rows.worktree.deliveryState.isApplicable = true ∧
      SameRows rows' (receiptRows rows res now) := by
  obtain ⟨hheld, h⟩ := Lib.guard_eq_ok.mp h
  obtain ⟨hgranted, h⟩ := Lib.guard_eq_ok.mp h
  obtain ⟨hstate, h⟩ := Lib.guard_eq_ok.mp h
  refine ⟨by simpa using hheld, by simpa using hgranted, by simpa using hstate, ?_⟩
  cases h
  obtain ⟨evidence, hfollow⟩ := followApplied_eq { rows with
    approval := rows.approval.consume now
    worktree := { rows.worktree with
      deliveryState := .applied
      deliveryOperationHash := some res.envelopeHash
      deliveredRef := some (headRef res.change.targetBranch) } } res.change.targetBranch
  rw [hfollow, settleEffect_eq]
  exact ⟨rfl, rfl, rfl, rfl, rfl⟩

variable {observation : EffectObservation × String}

theorem reconcileOne_cases (he : rows.effect = some e)
    (hact : isActive e.status = true) :
    (observation.1 = .notApplied ∧ rows.reconcileOne observation now = { rows with effect := some e.markDenied }) ∨
    ((rows.reconcileOne observation now).effect = some e.markUncertain ∧
      (rows.reconcileOne observation now).worktree = rows.worktree ∧
      (rows.reconcileOne observation now).step.leaseGeneration = rows.step.leaseGeneration) ∨
    (observation.1 = .applied ∧ ∃ settled, rows.settleBusinessState e observation.2 now = some settled ∧
      rows.reconcileOne observation now =
        { settled with effect := some (e.settleApplied (e.purpose.targetReference ++ "@" ++ observation.2)) }) := by
  unfold ApplyRows.reconcileOne
  rw [he]
  simp only [hact, not_true_eq_false, if_false]
  cases hobs : observation.1 with
  | notApplied => exact .inl ⟨rfl, rfl⟩
  | uncertain =>
    refine .inr (.inl ⟨rfl, rfl, ?_⟩)
    show (ApplyRows.StepRow.flagUnknown rows.step).leaseGeneration = _
    unfold ApplyRows.StepRow.flagUnknown
    split <;> rfl
  | applied =>
    cases hsettle : rows.settleBusinessState e observation.2 now with
    | none => exact .inr (.inl ⟨rfl, rfl, rfl⟩)
    | some settled => exact .inr (.inr ⟨rfl, settled, rfl, rfl⟩)

theorem settleBusinessState_eq {ref : String} {settled : ApplyRows}
    (h : rows.settleBusinessState e ref now = some settled) :
    settled.step = rows.step ∧ settled.effect = rows.effect ∧ rows.worktree.resultCommit = ref ∧
      settled.approval = (if rows.approval.isGranted then rows.approval.consume now else rows.approval) ∧
      settled.worktree = { rows.worktree with
        deliveryState := .applied
        deliveryOperationHash := some e.purpose.payloadHash
        deliveredRef := some e.purpose.targetReference } ∧
      settled.package = rows.package.map fun p =>
        if e.purpose.targetReference = headRef p.integrationBranch then { p with integrationHeadCommit := some ref } else p := by
  obtain ⟨step, approval, worktree, package, effect, evidence⟩ := rows
  unfold ApplyRows.settleBusinessState at h
  split at h
  · cases h
  rename_i href
  split at h
  · cases h
  cases package with
  | none =>
    cases h
    exact ⟨rfl, rfl, not_not.mp href, rfl, rfl, rfl⟩
  | some p =>
    simp only at h
    split at h
    · rename_i hb
      cases h
      exact ⟨rfl, rfl, not_not.mp href, rfl, rfl, by rw [Option.map_some, if_pos hb]; rfl⟩
    · rename_i hb
      cases h
      exact ⟨rfl, rfl, not_not.mp href, rfl, rfl, by rw [Option.map_some, if_neg hb]⟩

/-! ### Steps -/

theorem LedgerSound.withRows (h : LedgerSound res u) (hresult : rows.worktree.resultCommit = u.rows.worktree.resultCommit)
    (hgen : u.rows.step.leaseGeneration ≤ rows.step.leaseGeneration)
    (heffect : ∀ e, rows.effect = some e → EffectSound res (Delivered res u) e) : LedgerSound res { u with rows := rows } where
  cell := h.cell
  found := h.found
  returned := h.returned
  observed := h.observed
  result := hresult.trans h.result
  effect := heffect
  launched a ha hl := Nat.le_trans (h.launched a ha hl) hgen

theorem LedgerSound.withRepository (h : LedgerSound res u) (htarget : r.target = u.repository.target) :
    LedgerSound res { u with repository := r } where
  cell := by
    have hcell := h.cell
    rw [← htarget] at hcell
    exact hcell
  found := h.found
  returned := h.returned
  observed := h.observed
  result := h.result
  effect := h.effect
  launched := h.launched

theorem LedgerSound.advance {targetExists : Bool} (h : LedgerSound res u) (hchange : ¬res.change.isNoOp)
    (hmove : u.repository.updateRef res.change targetExists = .ok r) :
    u.moves = 0 ∧ LedgerSound res { u with repository := r, moves := u.moves + 1 } := by
  obtain ⟨hold, hnew⟩ := updateRef_ok hmove
  have hzero : u.moves = 0 := by
    rcases h.cell with ⟨hm, -⟩ | ⟨-, ht⟩
    · exact hm
    · rw [ht] at hold
      cases targetExists with
      | false => cases hold
      | true => exact absurd (Option.some.inj hold) hchange
  have hone : ({ u with repository := r, moves := u.moves + 1 } : Applying).moves = 1 := by rw [hzero]
  refine ⟨hzero, ?_⟩
  exact {
    cell := .inr ⟨hone, hnew⟩
    found := h.found
    returned := fun _ _ _ => .inl hone
    observed := fun _ _ => .inl hone
    result := h.result
    effect := fun e he => ⟨(h.effect e he).purpose, (h.effect e he).failed, fun hst => ⟨((h.effect e he).settled hst).1, .inl hone⟩⟩
    launched := h.launched }

theorem EffectSound.recordIntent {delivered : Prop} {existing : Option Effect} {generation : Nat}
    (h : ∀ x, existing = some x → EffectSound res delivered x)
    (hi : Execution.recordIntent existing (res.intent generation) = .ok e) :
    EffectSound res delivered e ∧ (e.status = .dispatched ∨ e.status = .settled) := by
  obtain ⟨-, ⟨hst, -, hpurpose⟩ | ⟨hsame, hst⟩⟩ := recordIntent_ok hi
  · refine ⟨⟨?_, ?_, ?_⟩, .inl hst⟩
    · rcases hpurpose with hp | ⟨x, hx, hp⟩
      · exact hp
      · exact hp.trans (h x hx).purpose
    · rw [hst]
      exact fun hf => nomatch hf
    · rw [hst]
      exact fun hf => nomatch hf
  · refine ⟨h e hsame, .inr ?_⟩
    rcases hst with hst | ⟨hf, hnot⟩
    · exact hst
    · exact absurd ((h e hsame).failed hf) hnot

theorem EffectSound.receiptOn {delivered : Prop} {externalRef : String} (h : EffectSound res delivered e) (hd : delivered) :
    EffectSound res delivered (receiptOn externalRef e) := by
  unfold Execution.receiptOn
  split
  · exact ⟨h.purpose, fun hf => (nomatch hf), fun _ => ⟨rfl, hd⟩⟩
  · exact h

theorem reconcileOne_of_inactive
    (h : ∀ e, rows.effect = some e → isActive e.status = false) : rows.reconcileOne observation now = rows := by
  unfold ApplyRows.reconcileOne
  split
  · rfl
  · rename_i e he
    rw [if_pos (by simp [h e he])]

theorem LedgerSound.reconcile (h : LedgerSound res u) (hobs : u.observed = some observation) :
    LedgerSound res { u with rows := u.rows.reconcileOne observation now, observed := none } := by
  suffices hrows : LedgerSound res { u with rows := u.rows.reconcileOne observation now } by
    exact { hrows with observed := fun _ hr => (nomatch hr) }
  cases he : u.rows.effect with
  | none =>
    rw [reconcileOne_of_inactive fun e hx => by rw [he] at hx; cases hx]
    exact h
  | some e =>
    have hsound := h.effect e he
    by_cases hact : isActive e.status = true
    · rcases reconcileOne_cases he hact with ⟨-, heq⟩ | ⟨heff, hwork, hgen⟩ | ⟨happlied, settled, hsettle, heq⟩
      · rw [heq]
        refine h.withRows rfl (Nat.le_refl _) ?_
        intro x hx
        cases hx
        exact ⟨hsound.purpose, fun _ => rfl, fun hf => (nomatch hf)⟩
      · refine h.withRows (by rw [hwork]) (Nat.le_of_eq hgen.symm) ?_
        intro x hx
        rw [heff] at hx
        cases hx
        exact ⟨hsound.purpose, fun hf => (nomatch hf), fun hf => (nomatch hf)⟩
      · rw [heq]
        obtain ⟨hstep, -, -, -, hwork, -⟩ := settleBusinessState_eq hsettle
        refine h.withRows (by simp only [hwork]) (by simp only [hstep, Nat.le_refl]) ?_
        intro x hx
        cases hx
        exact ⟨hsound.purpose, fun hf => (nomatch hf), fun _ => ⟨rfl, h.observed observation.2 (by rw [hobs, ← happlied])⟩⟩
    · rw [reconcileOne_of_inactive fun x hx => by rw [he] at hx; cases hx; simpa using hact]
      exact h

theorem whenAt_ok {next : Except String Applying} (h : u.whenAt a phase next = .ok v) :
    a ∈ u.attempts ∧ a.phase = phase ∧ next = .ok v := by
  obtain ⟨⟨ha, hp⟩, h⟩ := Lib.check_eq_ok.mp h
  exact ⟨ha, hp, h⟩

theorem unlocked_ok {next : Except String Applying} (h : u.unlocked next = .ok v) : next = .ok v := (Lib.check_eq_ok.mp h).2

theorem LedgerSound.step (h : LedgerSound res u) (hop : u.perform treeOf res op = .ok v) : LedgerSound res v := by
  cases op with
  | start l =>
    cases hop
    exact h.start l
  | load a drift =>
    obtain ⟨ha, hp, hop⟩ := whenAt_ok hop
    unfold Applying.load at hop
    obtain ⟨-, hop⟩ := Lib.guard_eq_ok.mp hop
    obtain ⟨-, hop⟩ := Lib.guard_eq_ok.mp hop
    split at hop
    · cases hop
    · cases hop
      exact h.goOn (fun _ hf => (nomatch hf)) (fun hf => by rcases hf with hf | hf <;> cases hf) fun hf => (nomatch hf)
  | assertLease a =>
    obtain ⟨ha, hp, hop⟩ := whenAt_ok hop
    obtain ⟨-, hop⟩ := Lib.check_eq_ok.mp hop
    cases hop
    exact h.goOn (fun _ hf => (nomatch hf)) (fun hf => by rcases hf with hf | hf <;> cases hf) fun hf => (nomatch hf)
  | recordIntent a blocker =>
    obtain ⟨ha, hp, hop⟩ := whenAt_ok hop
    obtain ⟨rows, hrows, hop⟩ := Lib.bind_eq_ok.mp (unlocked_ok hop)
    cases hop
    obtain ⟨hheld, e, he, rfl⟩ := rows_recordIntent_ok hrows
    have hnext : LedgerSound res { u with rows := { u.rows with effect := some e } } := by
      refine h.withRows rfl (Nat.le_refl _) ?_
      intro x hx
      cases hx
      exact (EffectSound.recordIntent h.effect he).1
    exact hnext.goOn (fun _ hf => (nomatch hf)) (fun hf => by rcases hf with hf | hf <;> cases hf)
      fun _ => Nat.le_of_eq (generation_of_holds hheld)
  | examine a w =>
    obtain ⟨ha, hp, hop⟩ := whenAt_ok hop
    obtain ⟨⟨r, verdict⟩, hexamine, hop⟩ := Lib.bind_eq_ok.mp hop
    obtain ⟨htarget, ⟨rfl, hdone⟩ | ⟨rfl, hchange, -⟩⟩ := examine_ok hexamine
    · cases hop
      have hdelivered : Delivered res u := hdone.elim .inr h.delivered_of_target
      refine (h.withRepository htarget).goOn (fun _ hf => (nomatch hf)) (fun _ => hdelivered) fun _ => ?_
      exact h.launched a ha (by rw [Attempt.isLaunched, hp])
    · cases hop
      refine (h.withRepository htarget).goOn (fun _ _ => hchange) (fun hf => by rcases hf with hf | hf <;> cases hf) fun _ => ?_
      exact h.launched a ha (by rw [Attempt.isLaunched, hp])
  | updateRef a =>
    simp only [Applying.perform] at hop
    split at hop
    · rename_i targetExists hphase
      obtain ⟨ha, hp, hop⟩ := whenAt_ok hop
      obtain ⟨r, hmove, hop⟩ := Lib.bind_eq_ok.mp hop
      cases hop
      obtain ⟨hzero, hnext⟩ := h.advance (h.found a ha targetExists hp) hmove
      refine hnext.goOn (fun _ hf => (nomatch hf)) (fun _ => .inl (by simp only [hzero])) fun _ => ?_
      exact h.launched a ha (by rw [Attempt.isLaunched, hp])
    · cases hop
  | align a =>
    obtain ⟨ha, hp, hop⟩ := whenAt_ok hop
    obtain ⟨r, halign, hop⟩ := Lib.bind_eq_ok.mp hop
    cases hop
    obtain ⟨hat, hnew⟩ := align_ok halign
    refine (h.withRepository (hnew.trans hat.symm)).goOn (fun _ hf => (nomatch hf)) (fun _ => h.delivered_of_target hat) fun _ => ?_
    exact h.launched a ha (by rw [Attempt.isLaunched, hp])
  | recordApplied a now =>
    obtain ⟨ha, hp, hop⟩ := whenAt_ok hop
    obtain ⟨rows, hrows, hop⟩ := Lib.bind_eq_ok.mp (unlocked_ok hop)
    cases hop
    obtain ⟨-, -, -, hsame⟩ := recordApplied_ok hrows
    refine (h.withRows (by rw [hsame.worktree]; rfl) (by rw [hsame.step]; exact Nat.le_refl _) ?_).leave a
    intro x hx
    rw [hsame.effect] at hx
    obtain ⟨e, he, rfl⟩ := Option.map_eq_some_iff.mp hx
    exact (h.effect e he).receiptOn (h.returned a ha (.inr hp))
  | stop a =>
    cases hop
    exact h.leave a
  | look readable =>
    have hop := unlocked_ok hop
    split at hop
    · cases hop
    rename_i e he
    obtain ⟨-, hop⟩ := Lib.check_eq_ok.mp hop
    cases hop
    refine { h with observed := ?_ }
    intro ref href
    obtain ⟨r, hr, htarget, -⟩ := observe_applied (Option.some.inj href)
    cases readable with
    | false => cases hr
    | true =>
      cases hr
      rw [(h.effect e he).purpose] at htarget
      exact h.delivered_of_target htarget
  | settle now =>
    simp only [Applying.perform] at hop
    split at hop
    · cases hop
    · rename_i observation hobs
      cases hop
      exact h.reconcile hobs
  | abandon =>
    cases hop
    exact { h with observed := fun _ hr => (nomatch hr) }
  | claimStep owner =>
    cases hop
    exact h.withRows rfl (Nat.le_succ _) h.effect
  | moveStep status =>
    cases hop
    exact h.withRows rfl (Nat.le_refl _) h.effect
  | changeApproval approval =>
    cases hop
    exact h.withRows rfl (Nat.le_refl _) h.effect
  | changeDelivery state =>
    obtain ⟨-, hop⟩ := Lib.guard_eq_ok.mp hop
    cases hop
    exact h.withRows rfl (Nat.le_refl _) h.effect
  | changePackage p =>
    cases hop
    exact h.withRows rfl (Nat.le_refl _) h.effect
  | changeRepository r =>
    cases hop
    exact h.withRepository rfl

theorem recordIntent_keeps {generation : Nat} (h : LedgerSound res u)
    (hi : Execution.recordIntent u.rows.effect (res.intent generation) = .ok e) :
    e.status ≠ .failed ∧ ∀ x, u.rows.effect = some x → x.status = .settled → e.status = .settled := by
  obtain ⟨-, hst⟩ := EffectSound.recordIntent h.effect hi
  refine ⟨?_, ?_⟩
  · rcases hst with hst | hst <;> rw [hst] <;> exact fun hf => nomatch hf
  · intro x hx hs
    obtain ⟨-, ⟨-, hnot, -⟩ | ⟨hsame, -⟩⟩ := recordIntent_ok hi
    · exact absurd hs (hnot x hx)
    · rw [hx] at hsame
      cases hsame
      exact hs

theorem settled_of_receipt {externalRef : String} (h : e.status ≠ .failed) :
    (receiptOn externalRef e).status = .settled := by
  unfold receiptOn
  split
  · rfl
  · rename_i hact
    cases hst : e.status with
    | settled => rfl
    | failed => exact absurd hst h
    | _ => rw [hst] at hact; exact absurd rfl hact

/-- A pass leaves the effect unfailed unless it denies it, and settles it where it applies the result. -/
theorem LedgerAgrees.reconcile (h : LedgerAgrees u)
    (hquiet : observation.1 = .notApplied → ∀ a ∈ u.attempts, a.isLaunched = true →
      a.lease.generation ≠ u.rows.step.leaseGeneration) :
    LedgerAgrees { u with rows := u.rows.reconcileOne observation now, observed := none } := by
  cases he : u.rows.effect with
  | none =>
    rw [reconcileOne_of_inactive fun e hx => by rw [he] at hx; cases hx]
    exact { h with }
  | some e =>
    by_cases hact : isActive e.status = true
    · have hnot : u.rows.worktree.deliveryState ≠ .applied := by
        intro ha
        obtain ⟨x, hx, hst⟩ := h.applied ha
        rw [he] at hx
        cases hx
        rw [hst] at hact
        cases hact
      rcases reconcileOne_cases he hact with ⟨hobs, heq⟩ | ⟨heff, hwork, hgen⟩ | ⟨happlied, settled, hsettle, heq⟩
      · rw [heq]
        exact ⟨fun a ha hl hg => absurd hg (hquiet hobs a ha hl), fun ha => absurd ha hnot⟩
      · refine ⟨fun a ha hl hg => ⟨_, heff, fun hf => nomatch hf⟩, fun ha => absurd ha ?_⟩
        show (u.rows.reconcileOne observation now).worktree.deliveryState ≠ .applied
        rw [hwork]
        exact hnot
      · rw [heq]
        exact ⟨fun a ha hl hg => ⟨_, rfl, fun hf => nomatch hf⟩, fun _ => ⟨_, rfl, rfl⟩⟩
    · rw [reconcileOne_of_inactive fun x hx => by rw [he] at hx; cases hx; simpa using hact]
      exact { h with }

theorem LedgerAgrees.step (hs : LedgerSound res u) (h : LedgerAgrees u) (hquiet : u.DeniesNoneUnderWay op)
    (hop : u.perform treeOf res op = .ok v) : LedgerAgrees v := by
  cases op with
  | start l =>
    cases hop
    refine ⟨fun a ha hl => ?_, h.applied⟩
    rcases List.mem_cons.mp ha with rfl | ha
    · cases hl
    · exact h.pending a ha hl
  | load a drift =>
    obtain ⟨ha, hp, hop⟩ := whenAt_ok hop
    unfold Applying.load at hop
    obtain ⟨-, hop⟩ := Lib.guard_eq_ok.mp hop
    obtain ⟨-, hop⟩ := Lib.guard_eq_ok.mp hop
    split at hop
    · cases hop
    · cases hop
      exact h.goOn fun hf => (nomatch hf)
  | assertLease a =>
    obtain ⟨ha, hp, hop⟩ := whenAt_ok hop
    obtain ⟨-, hop⟩ := Lib.check_eq_ok.mp hop
    cases hop
    exact h.goOn fun hf => (nomatch hf)
  | recordIntent a blocker =>
    obtain ⟨ha, hp, hop⟩ := whenAt_ok hop
    obtain ⟨rows, hrows, hop⟩ := Lib.bind_eq_ok.mp (unlocked_ok hop)
    cases hop
    obtain ⟨-, e, he, rfl⟩ := rows_recordIntent_ok hrows
    obtain ⟨hfailed, hsettled⟩ := recordIntent_keeps hs he
    have hnext : LedgerAgrees { u with rows := { u.rows with effect := some e } } := by
      refine ⟨fun b hb hl hg => ⟨e, rfl, hfailed⟩, fun happ => ?_⟩
      obtain ⟨x, hx, hst⟩ := h.applied happ
      exact ⟨e, rfl, hsettled x hx hst⟩
    exact hnext.goOn fun _ _ => ⟨e, rfl, hfailed⟩
  | examine a w =>
    obtain ⟨ha, hp, hop⟩ := whenAt_ok hop
    obtain ⟨⟨r, verdict⟩, -, hop⟩ := Lib.bind_eq_ok.mp hop
    have hlaunched : a.isLaunched = true := by rw [Attempt.isLaunched, hp]
    have hnext : LedgerAgrees { u with repository := r } := { h with }
    cases verdict with
    | returns =>
      cases hop
      exact hnext.goOn fun _ hg => h.pending a ha hlaunched hg
    | advances targetExists =>
      cases hop
      exact hnext.goOn fun _ hg => h.pending a ha hlaunched hg
  | updateRef a =>
    simp only [Applying.perform] at hop
    split at hop
    · rename_i targetExists hphase
      obtain ⟨ha, hp, hop⟩ := whenAt_ok hop
      obtain ⟨r, -, hop⟩ := Lib.bind_eq_ok.mp hop
      cases hop
      have hlaunched : a.isLaunched = true := by rw [Attempt.isLaunched, hp]
      have hnext : LedgerAgrees { u with repository := r, moves := u.moves + 1 } := { h with }
      exact hnext.goOn fun _ hg => h.pending a ha hlaunched hg
    · cases hop
  | align a =>
    obtain ⟨ha, hp, hop⟩ := whenAt_ok hop
    obtain ⟨r, -, hop⟩ := Lib.bind_eq_ok.mp hop
    cases hop
    have hlaunched : a.isLaunched = true := by rw [Attempt.isLaunched, hp]
    have hnext : LedgerAgrees { u with repository := r } := { h with }
    exact hnext.goOn fun _ hg => h.pending a ha hlaunched hg
  | recordApplied a now =>
    obtain ⟨ha, hp, hop⟩ := whenAt_ok hop
    obtain ⟨rows, hrows, hop⟩ := Lib.bind_eq_ok.mp (unlocked_ok hop)
    cases hop
    obtain ⟨hheld, -, -, hsame⟩ := recordApplied_ok hrows
    -- the attempt holds the step, so that its effect was not denied meanwhile
    obtain ⟨e, he, hfailed⟩ := h.pending a ha (by rw [Attempt.isLaunched, hp]) (generation_of_holds hheld)
    have heffect := hsame.effect
    simp only [receiptRows, he, Option.map_some] at heffect
    have hst : (receiptOn (headRef res.change.targetBranch ++ "@" ++ u.rows.worktree.resultCommit) e).status = .settled :=
      settled_of_receipt hfailed
    have hnext : LedgerAgrees { u with rows := rows } := by
      refine ⟨fun b hb hl hg => ⟨_, heffect, ?_⟩, fun _ => ⟨_, heffect, hst⟩⟩
      rw [hst]
      exact fun hf => nomatch hf
    exact hnext.leave a
  | stop a =>
    cases hop
    exact h.leave a
  | look readable =>
    have hop := unlocked_ok hop
    split at hop
    · cases hop
    obtain ⟨-, hop⟩ := Lib.check_eq_ok.mp hop
    cases hop
    exact { h with }
  | settle now =>
    simp only [Applying.perform] at hop
    split at hop
    · cases hop
    · rename_i observation hobs
      cases hop
      refine h.reconcile fun hnot => hquiet ?_
      simp [Applying.denies, hobs, hnot]
  | abandon =>
    cases hop
    exact { h with }
  | claimStep owner =>
    cases hop
    refine ⟨fun a ha hl hg => ?_, h.applied⟩
    have hle := hs.launched a ha hl
    have hg : a.lease.generation = u.rows.step.leaseGeneration + 1 := hg
    omega
  | moveStep status =>
    cases hop
    exact { h with }
  | changeApproval approval =>
    cases hop
    exact { h with }
  | changeDelivery state =>
    obtain ⟨hnot, hop⟩ := Lib.guard_eq_ok.mp hop
    cases hop
    exact ⟨h.pending, fun ha => absurd ha hnot⟩
  | changePackage p =>
    cases hop
    exact { h with }
  | changeRepository r =>
    cases hop
    exact { h with }

/-! ### Runs -/

theorem LedgerSound.of_fresh (h : u.Fresh res) : LedgerSound res u where
  cell := .inl ⟨h.moves, h.target⟩
  found := by simp [h.attempts]
  returned := by simp [h.attempts]
  observed := by simp [h.observed]
  result := h.result
  effect := by simp [h.effect]
  launched := by simp [h.attempts]

theorem LedgerAgrees.of_fresh (h : u.Fresh res) : LedgerAgrees u where
  pending := by simp [h.attempts]
  applied ha := absurd ha h.retained

/-- The ledger agrees with Git. -/
structure LedgerFaithful (treeOf : String → String) (res : ApprovedResult) (u : Applying) : Prop where
  movedOnce : u.moves ≤ 1
  notRelaunched : ∀ e, u.rows.effect = some e → e.status = .uncertain →
    ∀ a blocker v, u.perform treeOf res (.recordIntent a blocker) ≠ .ok v
  settled : ∀ e, u.rows.effect = some e → e.status = .settled →
    (u.moves = 1 ∧ u.repository.target = some res.change.resultCommit) ∨ res.change.isNoOp
  applied : u.rows.worktree.deliveryState = .applied →
    ∃ e, u.rows.effect = some e ∧ e.status = .settled ∧ e.reconcileStatus = .confirmed

theorem LedgerSound.faithful (hs : LedgerSound res u) (h : LedgerAgrees u) : LedgerFaithful treeOf res u where
  movedOnce := by
    rcases hs.cell with ⟨hm, -⟩ | ⟨hm, -⟩ <;> omega
  notRelaunched e he hst a blocker v hop := by
    obtain ⟨-, -, hop⟩ := whenAt_ok hop
    obtain ⟨rows, hrows, -⟩ := Lib.bind_eq_ok.mp (unlocked_ok hop)
    obtain ⟨-, x, hx, -⟩ := rows_recordIntent_ok hrows
    exact (recordIntent_ok hx).1 e he hst
  settled e he hst := by
    refine ((hs.effect e he).settled hst).2.imp_left fun hm => ⟨hm, ?_⟩
    rcases hs.cell with ⟨hz, -⟩ | ⟨-, ht⟩
    · omega
    · exact ht
  applied ha := by
    obtain ⟨e, he, hst⟩ := h.applied ha
    exact ⟨e, he, hst, ((hs.effect e he).settled hst).1⟩

/-- For every run of attempts and passes in which no pass denies the effect of an attempt that is under way. -/
theorem effect_ledger_agrees (treeOf : String → String) (res : ApprovedResult) (s u : Applying) (hs : s.Fresh res)
    (h : s.Reaches treeOf res Applying.DeniesNoneUnderWay u) : LedgerFaithful treeOf res u := by
  have hboth : LedgerSound res u ∧ LedgerAgrees u := by
    refine h.invariant (P := fun u => LedgerSound res u ∧ LedgerAgrees u) ⟨.of_fresh hs, .of_fresh hs⟩ ?_
    intro u v op hu hquiet hop
    exact ⟨hu.1.step hop, hu.2.step hu.1 hquiet hop⟩
  exact hboth.1.faithful hboth.2

/-! ### An approved result -/

def anApproved : ApprovedResult where
  approvalId := 1
  stepId := 2
  taskId := 3
  runId := 4
  projectId := "p"
  worktreeId := 5
  envelopeHash := "h"
  change := ⟨"main", "base", "result"⟩

/-- The step is leased and the branch is at the base. -/
def approvedStart : Applying where
  rows := {
    step := { status := .running, leaseOwner := some "a", leaseGeneration := 1 }
    approval := { status := .approved }
    worktree := { deliveryState := .worktreeRetained, resultCommit := "result" } }
  repository := { target := some "base" }

theorem approvedStart_fresh : approvedStart.Fresh anApproved where
  attempts := rfl
  observed := rfl
  moves := rfl
  effect := rfl
  retained := by decide
  result := rfl
  target := by decide

def aWorktree : ResultWorktree where
  head := some "result"
  parent := some "base"
  fetched := some "result"

def launch (l : StepLease) : List ApplyOp :=
  [.start l, .load ⟨l, .started⟩ none, .assertLease ⟨l, .loaded⟩, .recordIntent ⟨l, .checked⟩ none]

def crashAfterMove : List ApplyOp :=
  let first : StepLease := ⟨"a", 1⟩
  let second : StepLease := ⟨"b", 2⟩
  launch first ++ [.examine ⟨first, .intended⟩ aWorktree, .updateRef ⟨first, .found true⟩, .stop ⟨first, .moved⟩,
    .look true, .settle 10, .claimStep "b"] ++ launch second ++
    [.examine ⟨second, .intended⟩ aWorktree, .recordApplied ⟨second, .applied⟩ 20]

theorem effect_ledger_agrees_after_crash :
    ∃ u, approvedStart.Reaches id anApproved Applying.DeniesNoneUnderWay u ∧ u.moves = 1 ∧
      u.rows.worktree.deliveryState = .applied ∧ LedgerFaithful id anApproved u := by
  have hrun : Lib.ends (fun u : Applying => u.moves = 1 && u.rows.worktree.deliveryState = .applied)
      (Lib.runOps (fun u op => if u.DeniesNoneUnderWay op then u.perform id anApproved op else .error "denied")
        approvedStart crashAfterMove) = true := by decide
  obtain ⟨u, hu, hp⟩ := Lib.exists_of_ends hrun
  simp only [Bool.and_eq_true, decide_eq_true_eq] at hp
  have hr : approvedStart.Reaches id anApproved Applying.DeniesNoneUnderWay u := Lib.reach_of_guarded hu
  exact ⟨u, hr, hp.1, hp.2, effect_ledger_agrees id anApproved approvedStart u approvedStart_fresh hr⟩

def denyBeforeMove : List ApplyOp :=
  let only : StepLease := ⟨"a", 1⟩
  launch only ++ [.look true, .settle 10, .examine ⟨only, .intended⟩ aWorktree, .updateRef ⟨only, .found true⟩,
    .align ⟨only, .moved⟩, .recordApplied ⟨only, .applied⟩ 20]

/-- The worktree is applied, and its effect stays denied. -/
theorem applied_result_denied :
    ∃ u, approvedStart.Fresh anApproved ∧ approvedStart.Reaches id anApproved (fun _ _ => True) u ∧
      u.repository.target = some "result" ∧ u.rows.worktree.deliveryState = .applied ∧
      (∃ e, u.rows.effect = some e ∧ e.status = .failed ∧ e.reconcileStatus = .denied) ∧
      ¬LedgerFaithful id anApproved u := by
  have hrun : Lib.ends (fun u : Applying => u.repository.target = some "result" && u.rows.worktree.deliveryState = .applied &&
      u.rows.effect.any fun e => e.status = .failed && e.reconcileStatus = .denied)
      (Lib.runOps (Applying.perform id anApproved) approvedStart denyBeforeMove) = true := by decide
  obtain ⟨u, hu, hp⟩ := Lib.exists_of_ends hrun
  simp only [Bool.and_eq_true, decide_eq_true_eq, Option.any_eq_true] at hp
  obtain ⟨⟨htarget, happlied⟩, e, he, hfailed, hdenied⟩ := hp
  refine ⟨u, approvedStart_fresh, Lib.reach_of_runOps (fun _ _ _ => trivial) hu, htarget, happlied, ⟨e, he, hfailed, hdenied⟩, ?_⟩
  intro hfaithful
  obtain ⟨x, hx, hsettled, -⟩ := hfaithful.applied happlied
  rw [he] at hx
  cases hx
  rw [hfailed] at hsettled
  cases hsettled

end Vuzol.Execution
