import Vuzol.Discussion.Transactions

/-! What each command of a package does when it succeeds: its guards, and the state it leaves. -/

namespace Vuzol.Discussion

open Vuzol.Lib

variable {digest : PlanBody → Digest} {s t : State}
variable {c : Cancellation} {fence : Fence} {l : MaterializationLink} {r revision : PlanRevision} {result : SequenceResult}
    {u : Unit} {status : WorkPackageStatus}

/-! ### Guards -/

theorem requireGeneration_ok {actual expected : Nat} : requireGeneration actual expected = .ok u ↔ actual = expected := by
  simp [requireGeneration]

theorem controlTransitionTarget_ok {action : PackageControlAction} :
    controlTransitionTarget status action = .ok u ↔ status ∈ controlSources action := by
  simp [controlTransitionTarget]

theorem requireMutable_ok (h : requireMutable status = .ok u) : status.isLive = true := by
  cases status <;> first | rfl | cases h

theorem fencedRevision_ok : fencedRevision s fence = .ok r ↔ fencedRevision? s fence = some r := by
  unfold fencedRevision
  cases fencedRevision? s fence <;> simp

theorem mem_of_fencedRevision (h : fencedRevision s fence = .ok r) : r ∈ s.revisions :=
  List.mem_of_find?_eq_some (fencedRevision_ok.mp h)

theorem queueControlPackage_ok :
    queueControlPackage s fence = .ok r ↔ (∃ u, requireMutable s.package.status = .ok u) ∧
      s.package.version = fence.generation ∧ fencedRevision s fence = .ok r ∧
      s.package.headRevisionId = some r.id := by
  simp only [queueControlPackage, bind_eq_ok, requireGeneration_ok, guard_eq_ok, Except.ok.injEq, not_not]
  constructor
  · rintro ⟨u, hm, -, hg, r', hr, hh, rfl⟩
    exact ⟨⟨u, hm⟩, hg, hr, hh⟩
  · rintro ⟨⟨u, hm⟩, hg, hr, hh⟩
    exact ⟨u, hm, (), hg, r, hr, hh, rfl⟩

theorem fencedApprovedRevision_ok :
    fencedApprovedRevision s fence = .ok r ↔ fencedRevision s fence = .ok r ∧ r.state = .approved := by
  simp only [fencedApprovedRevision, bind_eq_ok, guard_eq_ok, Except.ok.injEq, not_not]
  constructor
  · rintro ⟨r', hr, hs, rfl⟩
    exact ⟨hr, hs⟩
  · rintro ⟨hr, hs⟩
    exact ⟨r, hr, hs, rfl⟩

theorem mem_of_revision? {id : Nat} (h : s.revision? id = some r) : r ∈ s.revisions ∧ r.id = id :=
  mem_of_find?_key h

theorem mem_of_task? {id : Nat} {x : Task} (h : s.task? id = some x) : x ∈ s.tasks ∧ x.id = id := mem_of_find?_key h

theorem mem_of_linkOf {id : Nat} (h : s.linkOf id = some l) : l ∈ s.links ∧ l.taskId = id :=
  mem_of_find?_key h

theorem mem_of_linkAt {revisionId ordinal : Nat} (h : s.linkAt revisionId ordinal = some l) :
    l ∈ s.links ∧ l.planRevisionId = revisionId ∧ l.ordinal = ordinal :=
  ⟨List.mem_of_find?_eq_some h, by simpa using List.find?_some h⟩

variable {item : PlanRevisionItem}

theorem mem_of_itemAt {ordinal : Nat} (h : r.itemAt ordinal = some item) : item ∈ r.items ∧ item.ordinal = ordinal :=
  mem_of_find?_key h

theorem currentLink_ok (h : s.currentLink = some l) :
    l ∈ s.links ∧ s.package.runningRevisionId = some l.planRevisionId ∧ s.package.cursorOrdinal = some l.ordinal := by
  simp only [State.currentLink, Option.bind_eq_bind, Option.bind_eq_some_iff] at h
  obtain ⟨id, hid, ordinal, ho, hl⟩ := h
  obtain ⟨hmem, hr, hord⟩ := mem_of_linkAt hl
  exact ⟨hmem, by rw [hid, hr], by rw [ho, hord]⟩

theorem currentTask_ok {x : Task} (h : s.currentTask = some x) :
    ∃ l, s.currentLink = some l ∧ x ∈ s.tasks ∧ x.id = l.taskId := by
  obtain ⟨l, hl, hx⟩ := Option.bind_eq_some_iff.mp h
  exact ⟨l, hl, mem_of_task? hx⟩

/-! ### Tasks -/

def Follows (a b : Workflow.TaskStatus) : Prop := b ∈ Workflow.taskTransitions a ∧ b ≠ .rolledBack

theorem Follows.not_final {a b : Workflow.TaskStatus} (h : Follows a b) :
    a ≠ .completed ∧ a ≠ .failed ∧ a ≠ .cancelled := by
  obtain ⟨hmem, hne⟩ := h
  refine ⟨?_, ?_, ?_⟩ <;> rintro rfl <;> simp [Workflow.taskTransitions] at hmem
  exact hne hmem

theorem transitionTask_ok {x : Task} {target : Workflow.TaskStatus} :
    transitionTask s x target = .ok t ↔ target ∈ Workflow.taskTransitions x.status ∧
      t = publishTaskEvent (s.putTask { x with status := target, version := x.version + 1 })
        { x with status := target, version := x.version + 1 } := by
  simp only [transitionTask, check_eq_ok, Except.ok.injEq]
  rw [@eq_comm _ t]

theorem cancelLive_ok {x : Option Task} {c : Cancellation} (h : cancelLive s x c = .ok t) :
    t = s ∨ ∃ y, x = some y ∧ isUserTerminal y.status = false ∧ transitionTask s y .cancelled = .ok t := by
  cases x with
  | none => cases h; exact Or.inl rfl
  | some y =>
    simp only [cancelLive] at h
    split at h
    · cases h; exact Or.inl rfl
    · rename_i hlive
      cases c with
      | settles => exact Or.inr ⟨y, rfl, by simpa using hlive, h⟩
      | alreadyCancelled => cases h; exact Or.inl rfl
      | refused => cases h

/-! ### Revisions -/

/-- The rows that `_create_revision` adds. -/
structure NewRevision (digest : PlanBody → Digest) (s : State) (plan : PlanDraft) (ids : List Nat)
    (drafts : List WorkItemDraft) (revision : PlanRevision) : Prop where
  resolved : resolveItemIdentities s.drafts plan.items = .ok (ids, drafts)
  distinct : ids.Nodup
  id : revision.id = s.revisions.length
  state : revision.state = .draft
  contentHash : revision.contentHash = digest revision.body
  items : revision.items = revisionItems plan ids

theorem createRevision_ok {plan : PlanDraft} {parent : Option PlanRevision} {commit : Option String}
    (h : createRevision digest s plan parent commit = .ok t) :
    ∃ ids drafts revision, NewRevision digest s plan ids drafts revision ∧
      revision.number = parent.elim 1 (·.number + 1) ∧ t = addRevision s drafts revision := by
  simp only [createRevision, bind_eq_ok, check_eq_ok, Except.ok.injEq] at h
  obtain ⟨⟨ids, drafts⟩, hres, hnd, rfl⟩ := h
  exact ⟨ids, drafts, newRevision digest s plan ids parent commit, ⟨hres, hnd, rfl, rfl, rfl, rfl⟩, rfl, rfl⟩

theorem requireRevisable_ok {allowStopped : Bool} (h : requireRevisable status allowStopped = .ok u) :
    status.isLive = true ∨ (allowStopped ∧ status = .stopped) := by
  unfold requireRevisable at h
  split at h
  · rename_i hs
    exact Or.inr hs
  · exact Or.inl (requireMutable_ok h)

theorem revisable_ok {r : ReviseRequest} {previous : PlanRevision} (h : revisable s r = .ok previous) :
    (s.package.status.isLive = true ∨ (r.allowStopped ∧ s.package.status = .stopped)) ∧
      s.package.version = r.generation ∧ s.package.headRevisionId = some previous.id ∧ previous ∈ s.revisions := by
  simp only [revisable, bind_eq_ok, requireGeneration_ok] at h
  obtain ⟨_, hstatus, _, hgen, _, -, h⟩ := h
  refine ⟨requireRevisable_ok hstatus, hgen, ?_⟩
  cases hhead : s.package.headRevisionId with
  | none => simp [hhead] at h
  | some id =>
    cases hr : s.revision? id with
    | none => simp [hhead, hr] at h
    | some r' =>
      simp only [hhead, hr, Except.ok.injEq] at h
      subst h
      obtain ⟨hmem, hid⟩ := mem_of_revision? hr
      exact ⟨by rw [hid], hmem⟩

theorem requireManagedChange_ok {previous : PlanRevision} {plan : PlanDraft}
    (h : requireManagedChange s previous plan = .ok t) :
    (∃ drafts, t = { s with drafts := drafts } ∧
      (drafts = s.drafts ∨ ∃ ids, resolveItemIdentities s.drafts plan.items = .ok (ids, drafts))) ∧
    (s.isManaged = true → s.package.status ≠ .running ∧ ∀ cursor, s.package.cursorOrdinal = some cursor →
      ∃ ids, resolveItemIdentities s.drafts plan.items = .ok (ids, t.drafts) ∧
        ∀ item ∈ previous.items, isHistory s cursor item = true → keepsItem plan ids item = true) := by
  unfold requireManagedChange at h
  split at h
  · rename_i hm
    cases h
    exact ⟨⟨s.drafts, rfl, Or.inl rfl⟩, fun hm' => by simp [hm'] at hm⟩
  · simp only [guard_eq_ok, bind_eq_ok, Except.ok.injEq] at h
    obtain ⟨hrun, s', hkeep, -, rfl⟩ := h
    cases hc : s.package.cursorOrdinal with
    | none =>
      simp only [keepHistory, hc, Except.ok.injEq] at hkeep
      subst hkeep
      exact ⟨⟨s.drafts, rfl, Or.inl rfl⟩, fun _ => ⟨hrun, fun c hc' => by simp at hc'⟩⟩
    | some cursor =>
      simp only [keepHistory, hc, requireFutureOnlyRevision, bind_eq_ok, check_eq_ok, Except.ok.injEq] at hkeep
      obtain ⟨⟨ids, drafts⟩, hres, hall, rfl⟩ := hkeep
      refine ⟨⟨drafts, rfl, Or.inr ⟨ids, hres⟩⟩, fun _ => ⟨hrun, fun c hc' => ⟨ids, hres, ?_⟩⟩⟩
      intro item hitem hhist
      obtain rfl : cursor = c := by simpa [hc] using hc'
      exact List.all_eq_true.mp hall item (List.mem_filter.mpr ⟨hitem, hhist⟩)

theorem reviseDraft_ok {r : ReviseRequest} (h : reviseDraft digest s r = .ok t) :
    ∃ previous u v, revisable s r = .ok previous ∧ requireManagedChange s previous r.plan = .ok u ∧
      createRevision digest (supersede u previous) r.plan (some { previous with state := .superseded })
        r.sourceRepoCommit = .ok v ∧ t = expirePendingApprovals v r.now := by
  simp only [reviseDraft, bind_eq_ok, Except.ok.injEq] at h
  obtain ⟨previous, hp, u, hu, v, hv, rfl⟩ := h
  exact ⟨previous, u, v, hp, hu, hv, rfl⟩

variable {now : Nat}

theorem restartPlan_ok (h : restartPlan digest s fence now = .ok t) :
    s.package.version = fence.generation ∧ s.package.status = .stopped ∧
      ∃ plan u, reviseDraft digest s
        { generation := fence.generation, plan := plan, allowStopped := true, now := now } = .ok u ∧
        t = { u with package := { u.package with pauseReason := none, lastFailureTaskId := none } } := by
  simp only [restartPlan, bind_eq_ok, requireGeneration_ok, controlTransitionTarget_ok, guard_eq_ok,
    Except.ok.injEq] at h
  obtain ⟨_, hgen, _, hst, r, -, -, plan, -, u, hu, rfl⟩ := h
  exact ⟨hgen, by simpa [controlSources] using hst, plan, u, hu, rfl⟩

/-! ### Approval -/

structure AwaitsApproval (s : State) (revision : PlanRevision) : Prop where
  status : s.package.status = .draft
  mem : revision ∈ s.revisions
  head : s.package.headRevisionId = some revision.id
  state : revision.state = .draft

theorem authorizeApproval_ok {r : ApproveRequest} {revision : PlanRevision}
    (h : authorizeApproval digest s r revision = .ok t) :
    ∃ goal, t = { s with goal := goal } ∧ goal.map (·.parked) = s.goal.map (·.parked) := by
  unfold authorizeApproval at h
  cases hg : s.goal with
  | none =>
    simp only [hg, Except.ok.injEq] at h
    subst h
    exact ⟨s.goal, rfl, by rw [hg]⟩
  | some goal =>
    simp only [hg, bind_eq_ok, guard_eq_ok, Except.ok.injEq] at h
    obtain ⟨_, -, -, -, -, rfl⟩ := h
    exact ⟨_, rfl, rfl⟩

theorem approve_ok {r : ApproveRequest} (h : approve digest s r = .ok t) :
    s.package.version = r.fence.generation ∧ ∃ revision goal, fencedRevision s r.fence = .ok revision ∧
      goal.map (·.parked) = s.goal.map (·.parked) ∧
      ((t = { s with goal := goal } ∧ s.package.status = .approved ∧
          s.package.approvedRevisionId = some revision.id) ∨
        (AwaitsApproval s revision ∧
          t = settleGoal (bindApproval { s with goal := goal }
            { revision with approvedByUserId := some r.userId } r.now))) := by
  simp only [approve, bind_eq_ok, requireGeneration_ok] at h
  obtain ⟨_, hgen, revision, hrev, u, hauth, h⟩ := h
  obtain ⟨goal, rfl, hgoal⟩ := authorizeApproval_ok hauth
  refine ⟨hgen, revision, goal, hrev, hgoal, ?_⟩
  split at h
  · rename_i hdone
    cases h
    exact Or.inl ⟨rfl, hdone.1, hdone.2⟩
  · simp only [guard_eq_ok, Except.ok.injEq, not_or, not_not] at h
    obtain ⟨hst, ⟨hhead, hdraft⟩, -, rfl⟩ := h
    exact Or.inr ⟨⟨hst, mem_of_fencedRevision hrev, hhead, hdraft⟩, rfl⟩

theorem bindDelegatedApproval_ok {r : BindRequest} (h : bindDelegatedApproval digest s r = .ok t) :
    s.package.version = r.fence.generation ∧ ∃ revision, fencedRevision s r.fence = .ok revision ∧
      AwaitsApproval s revision ∧ t = bindApproval s
        { revision with approvedByUserId := none, approvedByDelegationId := some r.delegationId } r.now := by
  simp only [bindDelegatedApproval, bind_eq_ok, requireGeneration_ok, guard_eq_ok, Except.ok.injEq, not_or,
    not_not] at h
  obtain ⟨_, hgen, hst, revision, hrev, ⟨hhead, hdraft⟩, goal, -, _, -, -, rfl⟩ := h
  exact ⟨hgen, revision, hrev, ⟨hst, mem_of_fencedRevision hrev, hhead, hdraft⟩, rfl⟩

/-! ### Closing -/

theorem discard_ok (h : discard s fence = .ok t) :
    s.package.version = fence.generation ∧ s.package.status.isLive = true ∧ ∃ revision, fencedRevision s fence = .ok revision ∧
      s.package.headRevisionId = some revision.id ∧
      t = { closePackage s revision with goal := s.goal.map ManagedGoal.planDiscarded } := by
  simp only [discard, bind_eq_ok, requireGeneration_ok, controlTransitionTarget_ok, guard_eq_ok, Except.ok.injEq,
    not_not] at h
  obtain ⟨_, hgen, _, hst, revision, hrev, hhead, rfl⟩ := h
  have hlive : s.package.status = .draft ∨ s.package.status = .approved := by simpa [controlSources] using hst
  refine ⟨hgen, ?_, revision, hrev, hhead, rfl⟩
  rcases hlive with hst | hst <;> rw [hst] <;> rfl

theorem finishPackage_ok (h : finishPackage s fence c = .ok t) :
    ∃ revision u, fencedRevision s fence = .ok revision ∧ s.package.headRevisionId = some revision.id ∧
      cancelLive s s.currentTask c = .ok u ∧
      t = { closePackage u revision with package := { (closePackage u revision).package with pauseReason := none } } := by
  simp only [finishPackage, bind_eq_ok, requireGeneration_ok, controlTransitionTarget_ok, guard_eq_ok, Except.ok.injEq,
    not_not] at h
  obtain ⟨_, -, _, -, revision, hrev, hhead, u, hu, rfl⟩ := h
  exact ⟨revision, u, hrev, hhead, hu, rfl⟩

theorem stopPackage_ok (h : stopPackage s fence c = .ok t) :
    s.package.version = fence.generation ∧ s.package.status.isLive = true ∧ ∃ revision u, fencedRevision s fence = .ok revision ∧
      s.package.headRevisionId = some revision.id ∧ cancelLive s s.currentTask c = .ok u ∧
      t = { u with package := { u.package with
        status := .stopped, pauseReason := none, version := u.package.version + 1 } } := by
  simp only [stopPackage, bind_eq_ok, queueControlPackage_ok, controlTransitionTarget_ok, Except.ok.injEq] at h
  obtain ⟨revision, ⟨⟨_, hmut⟩, hgen, hrev, hhead⟩, _, -, u, hu, rfl⟩ := h
  exact ⟨hgen, requireMutable_ok hmut, revision, u, hrev, hhead, hu, rfl⟩

/-! ### Materialization -/

theorem checkItemDependencies_ok :
    checkItemDependencies s revision item = .ok u ↔
      ∀ localId ∈ item.contract.dependencies, dependencyMet s revision localId = true := by
  simp [checkItemDependencies]

structure Materializes (s : State) (revision : PlanRevision) (item : PlanRevisionItem) (ordinal : Nat) : Prop where
  cursor : s.package.cursorOrdinal = some ordinal
  found : revision.itemAt ordinal = some item
  unlinked : s.linkAt revision.id ordinal = none
  met : ∀ localId ∈ item.contract.dependencies, dependencyMet s revision localId = true

theorem materializeCurrent_ok (h : materializeCurrent s revision now = .ok (t, result)) :
    (t = s ∧ (s.goal.any (·.pendingAmendment) ∨ ∃ ordinal l, s.package.cursorOrdinal = some ordinal ∧
        s.linkAt revision.id ordinal = some l)) ∨
      (t = completePackage s ∧ ∃ ordinal, s.package.cursorOrdinal = some ordinal ∧ revision.itemAt ordinal = none) ∨
      (∃ item ordinal, Materializes s revision item ordinal ∧ t = addMaterialization s revision item ordinal ∧
        ∃ userId, approvalProvenance s revision now = .ok userId) := by
  unfold materializeCurrent at h
  split at h
  · rename_i hp
    cases h
    exact Or.inl ⟨rfl, Or.inl hp⟩
  · cases hc : s.package.cursorOrdinal with
    | none => simp [hc] at h
    | some ordinal =>
      simp only [hc] at h
      cases hi : revision.itemAt ordinal with
      | none =>
        simp only [hi, Except.ok.injEq, Prod.mk.injEq] at h
        exact Or.inr (Or.inl ⟨h.1.symm, ordinal, rfl, hi⟩)
      | some item =>
        simp only [hi] at h
        cases hl : s.linkAt revision.id ordinal with
        | some l =>
          simp only [hl, Except.ok.injEq, Prod.mk.injEq] at h
          exact Or.inl ⟨h.1.symm, Or.inr ⟨ordinal, l, rfl, hl⟩⟩
        | none =>
          simp only [hl, materializeItem, bind_eq_ok, checkItemDependencies_ok, Except.ok.injEq, Prod.mk.injEq] at h
          obtain ⟨_, hmet, userId, happ, hs, -⟩ := h
          exact Or.inr (Or.inr ⟨item, ordinal, ⟨hc, hi, hl, hmet⟩, hs.symm, userId, happ⟩)

/-! ### Start -/

structure Startable (s : State) (revision : PlanRevision) : Prop where
  status : s.package.status = .approved
  mem : revision ∈ s.revisions
  state : revision.state = .approved
  approved : s.package.approvedRevisionId = some revision.id
  head : s.package.headRevisionId = some revision.id
  settled : s.goal.any (·.pendingAmendment) = false

theorem requireDispatch_ok {revision : PlanRevision} {agent : Bool} {u : Unit}
    (h : requireDispatch digest s revision agent = .ok u) : s.goal.any (·.pendingAmendment) = false := by
  unfold requireDispatch at h
  cases hg : s.goal with
  | none => rfl
  | some goal =>
    simp only [hg, bind_eq_ok, requireManagedRevision, guard_eq_ok] at h
    obtain ⟨_, ⟨hm, -⟩, -⟩ := h
    simp only [Bool.or_eq_true, not_or, Bool.not_eq_true] at hm
    simpa using hm.1.1.2

theorem startable_ok {r : StartRequest} (h : startable digest s r = .ok revision) :
    s.package.version = r.fence.generation ∧ fencedRevision s r.fence = .ok revision ∧ Startable s revision := by
  simp only [startable, bind_eq_ok, requireGeneration_ok, controlTransitionTarget_ok, fencedApprovedRevision_ok,
    guard_eq_ok, Except.ok.injEq, not_or, not_not] at h
  obtain ⟨_, hgen, _, hst, r', ⟨hrev, hstate⟩, ⟨happ, hhead⟩, _, hdisp, rfl⟩ := h
  exact ⟨hgen, hrev, by simpa [controlSources] using hst, mem_of_fencedRevision hrev, hstate, happ, hhead,
    requireDispatch_ok hdisp⟩

theorem start_ok {r : StartRequest} (h : start digest s r = .ok (t, result)) :
    ∃ revision, startable digest s r = .ok revision ∧
      materializeCurrent (startRevision s revision) revision r.now = .ok (t, result) := by
  simpa only [start, bind_eq_ok] using h

/-! ### Observation -/

theorem isCurrent_iff :
    isCurrent s l = true ↔ s.package.status = .running ∧
      s.package.runningRevisionId = some l.planRevisionId ∧ s.package.cursorOrdinal = some l.ordinal := by
  simp [isCurrent, and_assoc]

theorem observeCompleted_ok {l : MaterializationLink} {result : SequenceResult}
    (h : observeCompleted s l now = .ok (t, result)) :
    ∃ revision, s.revision? l.planRevisionId = some revision ∧
      (t = advanceCursor s l.ordinal ∨ materializeCurrent (advanceCursor s l.ordinal) revision now = .ok (t, result)) := by
  unfold observeCompleted at h
  cases hr : s.revision? l.planRevisionId with
  | none => simp [hr] at h
  | some revision =>
    refine ⟨revision, rfl, ?_⟩
    simp only [hr] at h
    split at h
    · simp only [Except.ok.injEq, Prod.mk.injEq] at h
      exact Or.inl h.1.symm
    · exact Or.inr h

/-- An observation finds nothing to do, pauses the package on a failed item, or moves past a completed one. -/
theorem observeTerminal_ok {taskId now : Nat} {result : Option SequenceResult}
    (h : observeTerminal s taskId now = .ok (t, result)) :
    (t = s ∧ ∀ l, s.linkOf taskId = some l → isCurrent s l = false) ∨
      ∃ l x, s.linkOf taskId = some l ∧ s.task? taskId = some x ∧ isCurrent s l = true ∧
        isTerminalEvidence x.status = true ∧
        ((x.status ≠ .completed ∧ t = pauseOn s x) ∨
          (x.status = .completed ∧ ∃ r, observeCompleted s l now = .ok (t, r))) := by
  unfold observeTerminal at h
  cases hl : s.linkOf taskId with
  | none =>
    simp only [hl, Except.ok.injEq, Prod.mk.injEq] at h
    exact Or.inl ⟨h.1.symm, fun l hl' => by cases hl'⟩
  | some l =>
    cases hx : s.task? taskId with
    | none => simp [hl, hx] at h
    | some x =>
      simp only [hl, hx, guard_eq_ok, Bool.not_eq_true', Bool.not_eq_false] at h
      obtain ⟨hterm, h⟩ := h
      split at h
      · rename_i hcur
        simp only [Except.ok.injEq, Prod.mk.injEq] at h
        refine Or.inl ⟨h.1.symm, ?_⟩
        rintro l' hl'
        cases hl'
        exact hcur
      · rename_i hcur
        refine Or.inr ⟨l, x, rfl, rfl, by simpa using hcur, hterm, ?_⟩
        split at h
        · rename_i hdone
          simp only [bind_eq_ok, Except.ok.injEq, Prod.mk.injEq] at h
          obtain ⟨⟨u, r⟩, hu, rfl, -⟩ := h
          exact Or.inr ⟨hdone, r, hu⟩
        · rename_i hdone
          simp only [Except.ok.injEq, Prod.mk.injEq] at h
          exact Or.inl ⟨hdone, h.1.symm⟩

theorem processSequenceItem_ok {taskId version now : Nat} (h : processSequenceItem s taskId version now = .ok t) :
    (∃ x ∈ s.outbox, x.taskId = taskId ∧ x.version = version ∧ x.consumed = false) ∧
    ∃ u, t = markConsumed u taskId version ∧
      ((∃ result, observeTerminal s taskId now = .ok (u, result)) ∨
        (u = s ∧ (observeTerminal s taskId now = .error (.domain .materializedTaskMissing) ∨
          observeTerminal s taskId now = .error (.domain .taskNotTerminal)))) := by
  unfold processSequenceItem at h
  split at h
  · rename_i hrow
    simp only [List.any_eq_true, Bool.and_eq_true, beq_iff_eq, Bool.not_eq_true'] at hrow
    obtain ⟨x, hx, ⟨hid, hv⟩, hc⟩ := hrow
    refine ⟨⟨x, hx, hid, hv, hc⟩, ?_⟩
    split at h
    · rename_i u result hu
      cases h
      exact ⟨u, rfl, Or.inl ⟨result, hu⟩⟩
    · rename_i hu
      cases h
      exact ⟨s, rfl, Or.inr ⟨rfl, Or.inl hu⟩⟩
    · rename_i hu
      cases h
      exact ⟨s, rfl, Or.inr ⟨rfl, Or.inr hu⟩⟩
    · cases h
  · cases h

/-! ### Queue controls -/

structure StandsOn (s : State) (revision : PlanRevision) (ordinal : Nat) (item : PlanRevisionItem) : Prop where
  status : s.package.status = .running ∨ s.package.status = .paused
  cursor : s.package.cursorOrdinal = some ordinal
  running : s.package.runningRevisionId = some revision.id
  mem : revision ∈ s.revisions
  found : revision.itemAt ordinal = some item

theorem skippable_ok {revision : PlanRevision} {ordinal : Nat}
    (h : skippable s = .ok (revision, ordinal, item)) : StandsOn s revision ordinal item := by
  simp only [skippable, guard_eq_ok, not_and_or, not_not] at h
  obtain ⟨hst, h⟩ := h
  cases hc : s.package.cursorOrdinal with
  | none => simp [hc] at h
  | some c =>
    cases hr : s.package.runningRevisionId with
    | none => simp [hc, hr] at h
    | some id =>
      cases hrev : s.revision? id with
      | none => simp [hc, hr, hrev] at h
      | some r =>
        cases hi : r.itemAt c with
        | none => simp [hc, hr, hrev, hi] at h
        | some i =>
          simp only [hc, hr, hrev, hi, Except.ok.injEq, Prod.mk.injEq] at h
          obtain ⟨rfl, rfl, rfl⟩ := h
          obtain ⟨hmem, hid⟩ := mem_of_revision? hrev
          exact ⟨hst, hc, by rw [hr, hid], hmem, hi⟩

theorem skipCurrent_ok (h : skipCurrent s c now = .ok (t, result)) :
    ∃ revision ordinal item u, StandsOn s revision ordinal item ∧ cancelLive s s.currentTask c = .ok u ∧
      (t = passItem u revision ordinal item ∨
        materializeCurrent (passItem u revision ordinal item) revision now = .ok (t, result) ∧
          revision.itemAt (ordinal + 1) = none) := by
  simp only [skipCurrent, bind_eq_ok] at h
  obtain ⟨⟨revision, ordinal, item⟩, hskip, u, hu, h⟩ := h
  refine ⟨revision, ordinal, item, u, skippable_ok hskip, hu, ?_⟩
  split at h
  · simp only [Except.ok.injEq, Prod.mk.injEq] at h
    exact Or.inl h.1.symm
  · rename_i hnone
    exact Or.inr ⟨h, by simpa using hnone⟩

theorem runningRevision_ok {revision : PlanRevision} (h : runningRevision s = .ok revision) :
    s.package.status = .running ∧ s.package.runningRevisionId = some revision.id ∧ revision ∈ s.revisions := by
  simp only [runningRevision, guard_eq_ok, not_not] at h
  obtain ⟨hst, h⟩ := h
  cases hr : s.package.runningRevisionId with
  | none => simp [hr] at h
  | some id =>
    cases hrev : s.revision? id with
    | none => simp [hr, hrev] at h
    | some r =>
      simp only [hr, hrev, guard_eq_ok, Except.ok.injEq] at h
      obtain ⟨-, rfl⟩ := h
      obtain ⟨hmem, hid⟩ := mem_of_revision? hrev
      exact ⟨hst, by rw [hid], hmem⟩

theorem rematerializable_ok {fence : Fence} {l : MaterializationLink} (h : rematerializable s fence = .ok l) :
    s.package.status = .paused ∧ s.currentLink = some l := by
  simp only [rematerializable, bind_eq_ok, guard_eq_ok, not_or, not_not] at h
  obtain ⟨_, -, revision, -, ⟨hst, -, hr⟩, h⟩ := h
  cases hc : s.package.cursorOrdinal with
  | none => simp [hc] at h
  | some ordinal =>
    cases hf : s.package.lastFailureTaskId with
    | none => simp [hc, hf] at h
    | some failed =>
      simp only [hc, hf, guard_eq_ok] at h
      obtain ⟨-, -, h⟩ := h
      cases hl : s.linkAt revision.id ordinal with
      | none => simp [hl] at h
      | some l' =>
        simp only [hl, guard_eq_ok, Except.ok.injEq] at h
        obtain ⟨-, rfl⟩ := h
        exact ⟨hst, by simp [State.currentLink, hr, hc, hl]⟩

theorem retryFailedItem_ok (h : retryFailedItem s fence = .ok (t, result)) :
    ∃ l, s.package.status = .paused ∧ s.currentLink = some l ∧ t = replaceTask s l := by
  simp only [retryFailedItem, bind_eq_ok, Except.ok.injEq, Prod.mk.injEq] at h
  obtain ⟨l, hl, rfl, -⟩ := h
  obtain ⟨hst, hcur⟩ := rematerializable_ok hl
  exact ⟨l, hst, hcur, rfl⟩

theorem retryBlockedStep_ok {run : Run} {x : Workflow.Step} (h : retryBlockedStep s run x = .ok t) :
    ∃ runs, t = { s with runs := runs } ∨
      ∃ y, ({ s with runs := runs } : State).task? run.taskId = some y ∧
        transitionTask { s with runs := runs } y .retrying = .ok t := by
  simp only [retryBlockedStep, guard_eq_ok] at h
  obtain ⟨-, h⟩ := h
  refine ⟨put Run.key (queueStep run x) s.runs, ?_⟩
  split at h
  · cases h
  · rename_i y hy
    split at h
    · exact Or.inr ⟨y, hy, h⟩
    · cases h
      exact Or.inl rfl

theorem asNotRetryable_ok {α : Type} {r : Except Error α} {a : α} (h : asNotRetryable r = .ok a) : r = .ok a := by
  unfold asNotRetryable at h
  split at h
  · cases h
  · exact h

theorem retryItem_ok (h : retryItem s fence = .ok t) :
    s.package.status = .paused ∧ s.package.pauseReason = some .itemBlocked ∧
      ∃ run x u, retryBlockedStep s run x = .ok u ∧ t = { u with
        package := { u.package with status := .running, pauseReason := none, version := u.package.version + 1 }
        goal := u.goal.map ManagedGoal.retryAnswered } := by
  simp only [retryItem, bind_eq_ok, queueControlPackage_ok, controlTransitionTarget_ok, guard_eq_ok, not_not] at h
  obtain ⟨_, -, _, hst, _, -, -, hreason, h⟩ := h
  refine ⟨by simpa [controlSources] using hst, hreason, ?_⟩
  split at h
  · cases h
  · rename_i run x _
    simp only [bind_eq_ok, Except.ok.injEq] at h
    obtain ⟨u, hu, rfl⟩ := h
    exact ⟨run, x, u, asNotRetryable_ok hu, rfl⟩

theorem skipItem_ok {fence : Fence} (h : skipItem s fence = .ok t) :
    s.package.status = .paused ∧ ∃ revision ordinal, s.package.cursorOrdinal = some ordinal ∧
      s.package.headRevisionId = some revision.id ∧ revision ∈ s.revisions ∧ t = { s with
        package := { s.package with
          cursorOrdinal := some (ordinal + 1)
          status := .running
          pauseReason := none
          lastFailureTaskId := none
          version := s.package.version + 1 }
        events := s.events ++ [.itemSkipped revision.id ordinal none] } := by
  simp only [skipItem, bind_eq_ok, queueControlPackage_ok, controlTransitionTarget_ok] at h
  obtain ⟨revision, ⟨-, -, hrev, hhead⟩, _, hst, _, -, h⟩ := h
  refine ⟨by simpa [controlSources] using hst, ?_⟩
  cases hc : s.package.cursorOrdinal with
  | none => simp [hc] at h
  | some ordinal =>
    simp only [hc, Except.ok.injEq] at h
    exact ⟨revision, ordinal, rfl, hhead, mem_of_fencedRevision hrev, h.symm⟩

theorem taskMoves_ok {taskId : Nat} {target : Workflow.TaskStatus} (h : taskMoves s taskId target = .ok t) :
    ∃ x ∈ s.tasks, target ≠ .rolledBack ∧ transitionTask s x target = .ok t := by
  unfold taskMoves at h
  split at h
  · cases h
  · rename_i x hx
    obtain ⟨hne, h⟩ := guard_eq_ok.mp h
    exact ⟨x, (mem_of_task? hx).1, hne, h⟩

theorem taskProgresses_ok {taskId : Nat} (h : taskProgresses s taskId = .ok t) :
    ∃ x ∈ s.tasks, t = s.putTask { x with version := x.version + 1 } := by
  unfold taskProgresses at h
  split at h
  · cases h
  · rename_i x hx
    cases h
    exact ⟨x, (mem_of_task? hx).1, rfl⟩

theorem republish_ok {taskId : Nat} (h : republish s taskId = .ok t) : ∃ x ∈ s.tasks, t = publishTaskEvent s x := by
  unfold republish at h
  split at h
  · cases h
  · rename_i x hx
    cases h
    exact ⟨x, (mem_of_task? hx).1, rfl⟩

theorem pauseForItemOutcome_ok {r : PauseRequest} (h : pauseForItemOutcome s r = .ok t) :
    s.package.status = .running ∧ (∀ c, s.package.cursorOrdinal = some c → c = r.ordinal) ∧
      t = { s with package := { s.package with
        status := .paused
        pauseReason := some (if r.blocked then .itemBlocked else .itemFailed)
        cursorOrdinal := some r.ordinal
        lastFailureTaskId := r.failureTaskId
        version := s.package.version + 1 } } := by
  simp only [pauseForItemOutcome, bind_eq_ok, guard_eq_ok, Except.ok.injEq, not_not] at h
  obtain ⟨_, -, hst, revision, -, -, -, hcur, rfl⟩ := h
  refine ⟨hst, ?_, rfl⟩
  intro c hc
  simpa [hc] using hcur

/-! ### Parking -/

theorem interrupt_ok {c : Cancellation} {interrupted : Option Nat}
    (h : interrupt s c now = .ok (t, interrupted)) :
    t = s ∨ ∃ x u result, s.currentTask = some x ∧ isUserTerminal x.status = false ∧
      cancelTask s x c = .ok u ∧ observeTerminal u x.id now = .ok (t, result) := by
  unfold interrupt at h
  cases hx : s.currentTask with
  | none =>
    simp only [hx, Except.ok.injEq, Prod.mk.injEq] at h
    exact Or.inl h.1.symm
  | some x =>
    simp only [hx] at h
    split at h
    · simp only [Except.ok.injEq, Prod.mk.injEq] at h
      exact Or.inl h.1.symm
    · rename_i hlive
      simp only [bind_eq_ok, Except.ok.injEq, Prod.mk.injEq] at h
      obtain ⟨u, hu, ⟨v, result⟩, hv, rfl, -⟩ := h
      exact Or.inr ⟨x, u, result, rfl, by simpa using hlive, hu, hv⟩

theorem parkGoal_ok {c : Cancellation} (h : parkGoal s c now = .ok t) :
    ∃ goal goal', s.goal = some goal ∧
      ((t = { s with goal := some goal' } ∧ goal'.parked.bind (·.package) = none) ∨
        ∃ u interrupted, interrupt s c now = .ok (u, interrupted) ∧ s.package.status.isLive = true ∧
          goal'.parked.bind (·.package) = some (u.package.status, u.activeInTopic) ∧
          t = { u with
            package := { u.package with status := .stopped, version := u.package.version + 1 }
            activeInTopic := false
            goal := some goal' }) := by
  unfold parkGoal at h
  cases hg : s.goal with
  | none => simp [hg] at h
  | some goal =>
    simp only [hg, guard_eq_ok, bind_eq_ok, Except.ok.injEq] at h
    obtain ⟨-, ⟨u, saved, interrupted⟩, hu, rfl⟩ := h
    refine ⟨goal, goal.park saved interrupted, rfl, ?_⟩
    unfold parkPackage at hu
    split at hu
    · rename_i hlive
      simp only [bind_eq_ok, Except.ok.injEq, Prod.mk.injEq] at hu
      obtain ⟨⟨v, i⟩, hv, rfl, rfl, -⟩ := hu
      simp only [Bool.and_eq_true] at hlive
      exact Or.inr ⟨v, i, hv, hlive.2, rfl, rfl⟩
    · simp only [Except.ok.injEq, Prod.mk.injEq] at hu
      obtain ⟨rfl, rfl, -⟩ := hu
      exact Or.inl ⟨rfl, rfl⟩

theorem unparkGoal_ok {a b c : Bool} (h : unparkGoal s a b c = .ok t) :
    ∃ goal goal', s.goal = some goal ∧ goal'.parked = none ∧
      (t = { s with goal := some goal' } ∨
        ∃ status active topic, goal.parked.bind (·.package) = some (status, active) ∧
          s.package.status.isLive = false ∧ t = { s with
            package := { s.package with status := status, version := s.package.version + 1 }
            activeInTopic := topic
            goal := some goal' }) := by
  unfold unparkGoal at h
  cases hg : s.goal with
  | none => simp [hg] at h
  | some goal =>
    simp only [hg, guard_eq_ok, bind_eq_ok, Except.ok.injEq] at h
    obtain ⟨-, -, u, hu, rfl⟩ := h
    refine ⟨goal, goal.unpark, rfl, rfl, ?_⟩
    unfold returnPackage at hu
    cases hp : goal.parked.bind (·.package) with
    | none =>
      simp only [hp, Except.ok.injEq] at hu
      subst hu
      exact Or.inl rfl
    | some saved =>
      obtain ⟨status, active⟩ := saved
      simp only [hp] at hu
      split at hu
      · cases hu
        exact Or.inl rfl
      · simp only [guard_eq_ok, Except.ok.injEq, Bool.or_eq_true, not_or, Bool.not_eq_true] at hu
        obtain ⟨⟨-, hlive⟩, rfl⟩ := hu
        exact Or.inr ⟨status, active, _, rfl, hlive, rfl⟩

end Vuzol.Discussion
