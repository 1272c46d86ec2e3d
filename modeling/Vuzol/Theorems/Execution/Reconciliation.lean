import Vuzol.Theorems.Execution.Effects

/-! A pass of the reconciler over a crashed apply: it writes the rows that the receipt would have written, but for the
    evidence on the head of a package, and denies an effect whose branch is still at the expected head. -/

namespace Vuzol.Execution

variable {treeOf : String → String} {res : ApprovedResult} {u v : Applying} {e : Effect} {rows rows' : ApplyRows}
  {r r' : Repository} {l : StepLease} {c : Change} {now : Nat}

theorem applyResult_noOp {w : ResultWorktree} {moved : Bool} (hnoop : c.isNoOp)
    (h : r.applyResult treeOf c w = .ok (r', moved)) :
    r' = r ∧ r.isClean treeOf = true ∧ (r.target = none ∨ r.target = some c.resultCommit) := by
  obtain ⟨⟨r1, verdict⟩, hexamine, h⟩ := Lib.bind_eq_ok.mp h
  unfold Repository.examine at hexamine
  obtain ⟨-, hexamine⟩ := Lib.guard_eq_ok.mp hexamine
  obtain ⟨-, hexamine⟩ := Lib.guard_eq_ok.mp hexamine
  rw [if_pos hnoop] at hexamine
  obtain ⟨-, hexamine⟩ := Lib.guard_eq_ok.mp hexamine
  obtain ⟨hclean, hexamine⟩ := Lib.guard_eq_ok.mp hexamine
  obtain ⟨htarget, hexamine⟩ := Lib.guard_eq_ok.mp hexamine
  cases hexamine
  cases h
  refine ⟨rfl, by simpa using hclean, ?_⟩
  cases ht : r.target with
  | none => exact .inl rfl
  | some x =>
    rw [ht] at htarget
    have hx : x = c.expectedHead := not_not.mp htarget
    exact .inr (congrArg some (hx.trans hnoop.symm))

theorem applyResult_change {w : ResultWorktree} {moved : Bool} (hchange : ¬c.isNoOp)
    (h : r.applyResult treeOf c w = .ok (r', moved)) : r'.target = some c.resultCommit := by
  obtain ⟨⟨r1, verdict⟩, hexamine, h⟩ := Lib.bind_eq_ok.mp h
  obtain ⟨hsame, ⟨rfl, hdone⟩ | ⟨rfl, -⟩⟩ := examine_ok hexamine
  · cases h
    exact hsame.trans (hdone.resolve_left hchange)
  · obtain ⟨r2, hmove, h⟩ := Lib.bind_eq_ok.mp h
    obtain ⟨r3, halign, h⟩ := Lib.bind_eq_ok.mp h
    cases h
    exact (align_ok halign).2

theorem observe_at_result (hp : e.purpose = res.purpose) (hclean : res.change.isNoOp → r.isClean treeOf = true)
    (ht : r.target = some res.change.resultCommit) :
    observe treeOf e (some r) = (.applied, res.change.resultCommit) := by
  have hskip : ¬(res.change.isNoOp ∧ ¬r.isClean treeOf = true) := fun hn => hn.2 (hclean hn.1)
  simp only [observe, hp, ApprovedResult.purpose, ne_eq, not_true_eq_false, if_false, if_neg hskip, ht,
    classifyEffectObservation, if_true, Option.getD_some]

theorem observe_at_expected (hp : e.purpose = res.purpose) (hchange : ¬res.change.isNoOp)
    (ht : r.target = some res.change.expectedHead) :
    observe treeOf e (some r) = (.notApplied, res.change.expectedHead) := by
  have hskip : ¬(res.change.isNoOp ∧ ¬r.isClean treeOf = true) := fun hn => hchange hn.1
  have hne : res.change.expectedHead ≠ res.change.resultCommit := fun h => hchange h.symm
  simp only [observe, hp, ApprovedResult.purpose, ne_eq, not_true_eq_false, if_false, if_neg hskip, ht,
    classifyEffectObservation, if_neg hne, if_true, Option.getD_some]

theorem observe_missing (hp : e.purpose = res.purpose) (ht : r.target = none) :
    (observe treeOf e (some r)).1 = .uncertain := by
  simp only [observe, hp, ApprovedResult.purpose, ne_eq, not_true_eq_false, if_false, ht, classifyEffectObservation]
  split <;> rfl

theorem pass_eq {repository : Option Repository} (he : rows.effect = some e) :
    rows.pass treeOf repository now = rows.reconcileOne (observe treeOf e repository) now := by
  unfold ApplyRows.pass
  rw [he]

theorem packageAt_of_headRef (branch commit : String) (p : PackageRow) :
    (if headRef branch = headRef p.integrationBranch then { p with integrationHeadCommit := some commit } else p) =
      packageAt branch commit p := by
  have hiff : headRef branch = headRef p.integrationBranch ↔ branch = p.integrationBranch :=
    String.append_right_inj "refs/heads/"
  unfold packageAt
  by_cases hb : branch = p.integrationBranch
  · rw [if_pos hb, if_pos (hiff.mpr hb)]
  · rw [if_neg hb, if_neg fun h => hb (hiff.mp h)]

theorem reconcileOne_eq_receipt {rows'' : ApplyRows} (hp : e.purpose = res.purpose) (he : rows.effect = some e)
    (hact : isActive e.status = true) (hresult : rows.worktree.resultCommit = res.change.resultCommit)
    (h : rows.recordApplied res l now = .ok rows'') :
    SameRows (rows.reconcileOne (.applied, res.change.resultCommit) now) rows'' := by
  obtain ⟨-, hgranted, hstate, hsame⟩ := recordApplied_ok h
  have hsettles : ∃ settled, rows.settleBusinessState e res.change.resultCommit now = some settled := by
    unfold ApplyRows.settleBusinessState
    rw [if_neg (not_not.mpr hresult), if_neg (not_not.mpr hstate)]
    cases hpackage : rows.package with
    | none => exact ⟨_, rfl⟩
    | some p =>
      simp only
      by_cases hb : e.purpose.targetReference = headRef p.integrationBranch
      · rw [if_pos hb]
        exact ⟨_, rfl⟩
      · rw [if_neg hb]
        exact ⟨_, rfl⟩
  obtain ⟨settled, hsettle⟩ := hsettles
  have hrows : rows.reconcileOne (.applied, res.change.resultCommit) now =
      { settled with effect := some (e.settleApplied (e.purpose.targetReference ++ "@" ++ res.change.resultCommit)) } := by
    simp only [ApplyRows.reconcileOne, he, hact, not_true_eq_false, if_false, hsettle]
  obtain ⟨hstep, -, -, happroval, hwork, hpackage⟩ := settleBusinessState_eq hsettle
  rw [hrows]
  refine ⟨?_, ?_, ?_, ?_, ?_⟩
  · rw [hsame.step]
    exact hstep
  · rw [hsame.approval]
    rw [if_pos hgranted] at happroval
    exact happroval
  · rw [hsame.worktree]
    show settled.worktree = _
    rw [hwork, hp]
    rfl
  · rw [hsame.package]
    show settled.package = _
    rw [hpackage, hp, receiptRows, hresult]
    exact congrArg (Option.map · rows.package) (funext fun p => packageAt_of_headRef _ _ p)
  · rw [hsame.effect]
    simp only [receiptRows, he, Option.map_some, receiptOn, hact, if_true, hp, hresult, ApprovedResult.purpose]

theorem recordIntent_markDenied {generation : Nat} (hp : e.purpose = res.purpose) (hgen : e.leaseGeneration < generation) :
    ∃ e', recordIntent (some e.markDenied) (res.intent generation) = .ok e' ∧ e'.status = .dispatched := by
  have hnot : ¬generation ≤ e.leaseGeneration := by omega
  simp [recordIntent, Effect.markDenied, ApprovedResult.intent, hp, ApprovedResult.purpose, hnot]

/-- What a pass does to the rows of an apply that crashed before its receipt, when `apply_result` takes the repository
    from `r` to `r'`. -/
structure Reconciles (treeOf : String → String) (res : ApprovedResult) (rows : ApplyRows) (e : Effect) (r r' : Repository)
    (now : Nat) : Prop where
  /-- `apply_result` has returned and the branch exists: the rows are those of the receipt. -/
  finished : r'.target ≠ none → ∀ l rows', rows.recordApplied res l now = .ok rows' →
    SameRows (rows.pass treeOf (some r') now) rows'
  denied : ¬res.change.isNoOp → r.target = some res.change.expectedHead →
    rows.pass treeOf (some r) now = { rows with effect := some e.markDenied } ∧
      ∀ generation, e.leaseGeneration < generation →
        ∃ e', recordIntent (some e.markDenied) (res.intent generation) = .ok e' ∧ e'.status = .dispatched
  settled : r.target = some res.change.resultCommit → ∀ l rows', rows.recordApplied res l now = .ok rows' →
    SameRows (rows.pass treeOf (some r) now) rows'
  missing : r.target = none → (rows.pass treeOf (some r) now).effect = some e.markUncertain

/-- For every state that attempts and passes reach with an effect that is not settled or failed, and every repository
    on which `apply_result` succeeds. -/
theorem crashed_apply_reconciled (treeOf : String → String) (res : ApprovedResult) (s u : Applying) (hs : s.Fresh res)
    (h : s.Reaches treeOf res (fun _ _ => True) u) (e : Effect) (he : u.rows.effect = some e)
    (hact : isActive e.status = true) (r r' : Repository) (w : ResultWorktree) (moved : Bool)
    (happly : r.applyResult treeOf res.change w = .ok (r', moved)) (now : Nat) :
    Reconciles treeOf res u.rows e r r' now := by
  have hsound : LedgerSound res u := h.invariant (.of_fresh hs) fun hu _ hop => hu.step hop
  have hp := (hsound.effect e he).purpose
  -- where the branch is at the result the pass writes the receipt
  have hreceipt : ∀ x : Repository, (res.change.isNoOp → x.isClean treeOf = true) → x.target = some res.change.resultCommit →
      ∀ l rows', u.rows.recordApplied res l now = .ok rows' → SameRows (u.rows.pass treeOf (some x) now) rows' := by
    intro x hclean ht l rows' hrows
    rw [pass_eq he, observe_at_result hp hclean ht]
    exact reconcileOne_eq_receipt hp he hact hsound.result hrows
  have hclean : res.change.isNoOp → r' = r ∧ r.isClean treeOf = true := by
    intro hnoop
    obtain ⟨hsame, hc, -⟩ := applyResult_noOp hnoop happly
    exact ⟨hsame, hc⟩
  refine ⟨?_, ?_, ?_, ?_⟩
  · intro hexists
    by_cases hnoop : res.change.isNoOp
    · obtain ⟨hsame, hc, ht⟩ := applyResult_noOp hnoop happly
      rw [hsame] at hexists ⊢
      exact hreceipt r (fun _ => hc) (ht.resolve_left hexists)
    · exact hreceipt r' (fun hn => absurd hn hnoop) (applyResult_change hnoop happly)
  · intro hchange ht
    refine ⟨?_, fun generation hgen => recordIntent_markDenied hp hgen⟩
    rw [pass_eq he, observe_at_expected hp hchange ht]
    simp only [ApplyRows.reconcileOne, he, hact, not_true_eq_false, if_false]
  · exact hreceipt r fun hnoop => (hclean hnoop).2
  · intro ht
    have hobs : (observe treeOf e (some r)).1 = .uncertain := observe_missing hp ht
    rw [pass_eq he]
    simp only [ApplyRows.reconcileOne, he, hact, not_true_eq_false, if_false, hobs]

/-- An attempt dies after its intent, and the branch is advanced by nobody. -/
theorem crashed_apply_reconciled_denied :
    ∃ u e rows, approvedStart.Reaches id anApproved (fun _ _ => True) u ∧ u.rows.effect = some e ∧
      (u.rows.pass id (some approvedStart.repository) 10).effect = some e.markDenied ∧
      u.rows.recordApplied anApproved ⟨"a", 1⟩ 10 = .ok rows ∧
      SameRows (u.rows.pass id (some { target := some "result" }) 10) rows := by
  have hrun : Lib.ends (fun u : Applying => u.rows.effect.any (fun e => isActive e.status) &&
        Lib.ends (fun _ => true) (u.rows.recordApplied anApproved ⟨"a", 1⟩ 10))
      (Lib.runOps (Applying.perform id anApproved) approvedStart (launch ⟨"a", 1⟩)) = true := by decide
  obtain ⟨u, hu, hp⟩ := Lib.exists_of_ends hrun
  rw [Bool.and_eq_true, Option.any_eq_true] at hp
  obtain ⟨⟨e, he, hact⟩, hends⟩ := hp
  obtain ⟨rows, hrows, -⟩ := Lib.exists_of_ends hends
  have hr : approvedStart.Reaches id anApproved (fun _ _ => True) u := Lib.reach_of_runOps (fun _ _ _ => trivial) hu
  have happly : approvedStart.repository.applyResult id anApproved.change aWorktree = .ok ({ target := some "result" }, true) := by
    decide
  have hall := crashed_apply_reconciled id anApproved approvedStart u approvedStart_fresh hr e he hact _ _ aWorktree _ happly 10
  have hdenied := (hall.denied (by decide) rfl).1
  exact ⟨u, e, rows, hr, he, by rw [hdenied], hrows, hall.finished (by decide) _ _ hrows⟩

def noChange : ApprovedResult := { anApproved with change := ⟨"main", "base", "base"⟩ }

def noChangeStart : Applying where
  rows := { approvedStart.rows with worktree := { deliveryState := .worktreeRetained, resultCommit := "base" } }
  repository := { target := some "base", checkedOut := true, files := some "base" }

/-- The attempt dies before `apply_result`, which would succeed; the pass settles the effect and does not deny it. -/
theorem no_op_settled_unapplied :
    ∃ u, noChangeStart.Fresh noChange ∧ noChangeStart.Reaches id noChange (fun _ _ => True) u ∧
      u.attempts = [⟨⟨"a", 1⟩, .intended⟩] ∧
      u.repository.applyResult id noChange.change { aWorktree with head := some "base" } = .ok (u.repository, false) ∧
      (u.rows.pass id (some u.repository) 10).effect.map (·.status) = some .settled := by
  have hfresh : noChangeStart.Fresh noChange := ⟨rfl, rfl, rfl, rfl, by decide, rfl, by decide⟩
  have hrun : Lib.ends (fun u : Applying => u.attempts = [⟨⟨"a", 1⟩, .intended⟩] &&
      (u.repository.applyResult id noChange.change { aWorktree with head := some "base" } = .ok (u.repository, false) &&
      (u.rows.pass id (some u.repository) 10).effect.map (·.status) = some .settled))
      (Lib.runOps (Applying.perform id noChange) noChangeStart (launch ⟨"a", 1⟩)) = true := by decide
  obtain ⟨u, hu, hp⟩ := Lib.exists_of_ends hrun
  simp only [Bool.and_eq_true, decide_eq_true_eq] at hp
  exact ⟨u, hfresh, Lib.reach_of_runOps (fun _ _ _ => trivial) hu, hp.1, hp.2.1, hp.2.2⟩

end Vuzol.Execution
