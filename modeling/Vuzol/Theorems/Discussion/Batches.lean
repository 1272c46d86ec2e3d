import Vuzol.Discussion.Batches
import Vuzol.Theorems.Discussion.Invariant

/-! The lead works within what the owner has approved. No transaction on a package gives a plan an approver but
    the owner's approval and the lead's; the lead's is checked against the owner's last plan in the state that
    it meets; and a task is materialized from a plan that has an approver. -/

namespace Vuzol.Discussion

open Vuzol.Lib

variable {digest semanticHash : PlanBody → Digest} {provenance : Nat → Nat → Nat → Provenance} {s t u : State}
variable {c : Cancellation} {fence : Fence} {now : Nat} {revision : PlanRevision} {result : SequenceResult}

/-! ### Approved revisions -/

def PlanRevision.HasApprover (r : PlanRevision) : Prop := r.approvedByUserId ≠ none ∨ r.approvedByDelegationId ≠ none

structure SameApproval (r r' : PlanRevision) : Prop where
  plan : SamePlan r r'
  user : r'.approvedByUserId = r.approvedByUserId
  delegation : r'.approvedByDelegationId = r.approvedByDelegationId
  draft : r'.state = .draft → r.state = .draft

theorem SameApproval.refl {r : PlanRevision} : SameApproval r r := ⟨.refl, rfl, rfl, id⟩

theorem SameApproval.trans {r₁ r₂ r₃ : PlanRevision} (h1 : SameApproval r₁ r₂) (h2 : SameApproval r₂ r₃) :
    SameApproval r₁ r₃ :=
  ⟨h1.plan.trans h2.plan, h2.user.trans h1.user, h2.delegation.trans h1.delegation, fun h => h1.draft (h2.draft h)⟩

theorem SameApproval.hasApprover {r r' : PlanRevision} (h : SameApproval r r') : r'.HasApprover ↔ r.HasApprover := by
  rw [PlanRevision.HasApprover, PlanRevision.HasApprover, h.user, h.delegation]

def Listed (r : PlanRevision) : Prop :=
  r.items = r.body.items.map fun b => { itemId := b.itemId, ordinal := b.ordinal, contract := b.contract }

theorem SamePlan.listed {r r' : PlanRevision} (h : SamePlan r r') (hr : Listed r) : Listed r' := by
  unfold Listed
  rw [h.items, h.body]
  exact hr

structure Unapproved (r : PlanRevision) : Prop where
  bare : ¬ r.HasApprover
  listed : Listed r

theorem newRevision_unapproved {plan : PlanDraft} {ids : List Nat} {parent : Option PlanRevision}
    {commit : Option String} : Unapproved (newRevision digest s plan ids parent commit) where
  bare h := by rcases h with h | h <;> exact h rfl
  listed := by
    unfold Listed newRevision revisionBody
    cases s.goal <;> simp [canonicalPlanBody, revisionItems]

/-! ### What a transaction on a package carries on -/

def SameLink (l l' : MaterializationLink) : Prop :=
  l'.planRevisionId = l.planRevisionId ∧ l'.workItemDraftId = l.workItemDraftId ∧ l'.ordinal = l.ordinal

def Bound (s : State) (l : MaterializationLink) : Prop :=
  ∃ r ∈ s.revisions, r.id = l.planRevisionId ∧ r.HasApprover ∧
    ∃ item ∈ r.items, item.itemId = l.workItemDraftId ∧ item.ordinal = l.ordinal

def Numbered (s : State) : Prop := s.revisions.map PlanRevision.key = List.range s.revisions.length

structure Carries (s t : State) : Prop where
  numbered : Numbered t
  revisions : Rewrites SameApproval Unapproved s.revisions t.revisions
  links : ∀ l' ∈ t.links, (∃ l ∈ s.links, SameLink l l') ∨ Bound s l'

namespace Carries

theorem of_eq (hn : Numbered s) (hrev : t.revisions = s.revisions) (hlinks : t.links = s.links) : Carries s t where
  numbered := by
    unfold Numbered
    rw [hrev]
    exact hn
  revisions := hrev ▸ .refl fun _ => .refl
  links l hl := Or.inl ⟨l, hlinks ▸ hl, rfl, rfl, rfl⟩

theorem of_same (h : Carries t u) (hrev : t.revisions = s.revisions) (hlinks : t.links = s.links) : Carries s u where
  numbered := h.numbered
  revisions := hrev ▸ h.revisions
  links l' hl' := by
    rcases h.links l' hl' with ⟨l, hl, hsame⟩ | ⟨r, hr, hb⟩
    · exact Or.inl ⟨l, hlinks ▸ hl, hsame⟩
    · exact Or.inr ⟨r, hrev ▸ hr, hb⟩

theorem then_same (h : Carries s t) (hrev : u.revisions = t.revisions) (hlinks : u.links = t.links) : Carries s u where
  numbered := by
    unfold Numbered
    rw [hrev]
    exact h.numbered
  revisions := hrev ▸ h.revisions
  links l' hl' := h.links l' (hlinks ▸ hl')

theorem revise (hn : Numbered s) {previous : PlanRevision} (hprev : previous ∈ s.revisions) (hnew : Unapproved revision)
    (hid : revision.id = s.revisions.length)
    (hrev : t.revisions = put PlanRevision.key { previous with state := .superseded } s.revisions ++ [revision])
    (hlinks : t.links = s.links) : Carries s t where
  numbered := by
    unfold Numbered
    rw [hrev, List.map_append, map_put fun _ _ hk => hk, hn, List.length_append, length_put, List.length_singleton,
      List.range_succ]
    simp [PlanRevision.key, hid]
  revisions := by
    have hsup : SameApproval previous { previous with state := .superseded } :=
      ⟨by constructor <;> rfl, rfl, rfl, fun h => nomatch h⟩
    have hput : Rewrites SameApproval Unapproved s.revisions
        (put PlanRevision.key { previous with state := .superseded } s.revisions) :=
      (Rewrites.refl fun _ => .refl).put_over (fun h => h.plan.id) (hn ▸ List.nodup_range) hprev hsup
    rw [hrev]
    exact hput.trans SameApproval.trans
      (fun h hs => ⟨fun ha => h.bare (hs.hasApprover.mp ha), hs.plan.listed h.listed⟩)
      (.append (fun _ => .refl) hnew)
  links l hl := Or.inl ⟨l, hlinks ▸ hl, rfl, rfl, rfl⟩

theorem close (hn : Numbered s) (hmem : revision ∈ s.revisions) :
    Carries s (closePackage s revision) where
  numbered := by
    unfold Numbered closePackage State.putRevision
    simp only [map_put fun _ _ hk => hk, length_put]
    exact hn
  revisions := (Rewrites.refl fun _ => .refl).put_over (fun h => h.plan.id) (hn ▸ List.nodup_range) hmem
    ⟨by constructor <;> rfl, rfl, rfl, fun h => nomatch h⟩
  links l hl := Or.inl ⟨l, hl, rfl, rfl, rfl⟩

end Carries

/-! ### Materialization -/

theorem approvalProvenance_ok {revision : PlanRevision} {now : Nat} {userId : Int}
    (h : approvalProvenance s revision now = .ok userId) : revision.HasApprover := by
  unfold approvalProvenance at h
  cases hu : revision.approvedByUserId with
  | some user => exact Or.inl (by simp [hu])
  | none =>
    refine Or.inr fun hd => ?_
    simp [hu, hd] at h

theorem materializeCurrent_carries (hn : Numbered s) (hmem : revision ∈ s.revisions)
    (h : materializeCurrent s revision now = .ok (t, result)) : Carries s t := by
  rcases materializeCurrent_ok h with ⟨rfl, -⟩ | ⟨rfl, -⟩ | ⟨item, ordinal, hmat, rfl, userId, happ⟩
  · exact .of_eq hn rfl rfl
  · exact .of_eq hn rfl rfl
  · refine ⟨hn, .refl fun _ => .refl, fun l hl => ?_⟩
    rcases List.mem_append.mp hl with hl | hl
    · exact Or.inl ⟨l, hl, rfl, rfl, rfl⟩
    · obtain ⟨hitem, hord⟩ := mem_of_itemAt hmat.found
      rw [List.mem_singleton.mp hl]
      exact Or.inr ⟨revision, hmem, rfl, approvalProvenance_ok happ, item, hitem, rfl, hord⟩

/-! ### Transactions on a package -/

theorem reviseDraft_carries (hn : Numbered s) {r : ReviseRequest} (h : reviseDraft digest s r = .ok t) : Carries s t := by
  obtain ⟨previous, u, v, hp, hu, hv, rfl⟩ := reviseDraft_ok h
  obtain ⟨-, -, -, hprev⟩ := revisable_ok hp
  obtain ⟨⟨resolved, rfl, -⟩, -⟩ := requireManagedChange_ok hu
  simp only [createRevision, bind_eq_ok, check_eq_ok, Except.ok.injEq] at hv
  obtain ⟨⟨ids, drafts⟩, -, -, rfl⟩ := hv
  have hlen : (newRevision digest (supersede { s with drafts := resolved } previous) r.plan ids
      (some { previous with state := .superseded }) r.sourceRepoCommit).id = s.revisions.length := by
    simp [newRevision, supersede, State.putRevision]
  exact .revise hn hprev newRevision_unapproved hlen rfl rfl

theorem restartPlan_carries (hn : Numbered s) (h : restartPlan digest s fence now = .ok t) : Carries s t := by
  obtain ⟨-, -, plan, u, hu, rfl⟩ := restartPlan_ok h
  exact (reviseDraft_carries hn hu).then_same rfl rfl

theorem cancelLive_same {x : Option Task} (h : cancelLive s x c = .ok t) : t.revisions = s.revisions ∧ t.links = s.links := by
  obtain ⟨tasks, outbox, rfl⟩ := cancelLive_frame h
  exact ⟨rfl, rfl⟩

theorem transitionTask_same {x : Task} {target : Workflow.TaskStatus} (h : transitionTask s x target = .ok t) :
    t.revisions = s.revisions ∧ t.links = s.links := by
  obtain ⟨-, rfl⟩ := transitionTask_ok.mp h
  unfold publishTaskEvent
  split <;> exact ⟨rfl, rfl⟩

section
variable (hn : Numbered s)
include hn

theorem start_carries {r : StartRequest} (h : start digest s r = .ok (t, result)) : Carries s t := by
  obtain ⟨revision, hstart, hmat⟩ := start_ok h
  have hmem : revision ∈ s.revisions := (startable_ok hstart).2.2.mem
  exact (materializeCurrent_carries (s := startRevision s revision) hn hmem hmat).of_same rfl rfl

theorem finishPackage_carries (h : finishPackage s fence c = .ok t) : Carries s t := by
  obtain ⟨revision, u, hrev, -, hu, rfl⟩ := finishPackage_ok h
  obtain ⟨tasks, outbox, rfl⟩ := cancelLive_frame hu
  exact (Carries.close hn (mem_of_fencedRevision hrev)).then_same rfl rfl

theorem observeTerminal_carries {taskId : Nat} {result : Option SequenceResult}
    (h : observeTerminal s taskId now = .ok (t, result)) : Carries s t := by
  rcases observeTerminal_ok h with ⟨rfl, -⟩ | ⟨l, x, -, -, -, -, ⟨-, rfl⟩ | ⟨-, r, hobs⟩⟩
  · exact .of_eq hn rfl rfl
  · exact .of_eq hn rfl rfl
  · obtain ⟨revision, hrev, rfl | hmat⟩ := observeCompleted_ok hobs
    · exact .of_eq hn rfl rfl
    · have hmem : revision ∈ s.revisions := (mem_of_revision? hrev).1
      exact (materializeCurrent_carries (s := advanceCursor s l.ordinal) hn hmem hmat).of_same rfl rfl

theorem processSequenceItem_carries {taskId version : Nat}
    (h : processSequenceItem s taskId version now = .ok t) : Carries s t := by
  obtain ⟨-, u, rfl, ⟨result, hu⟩ | ⟨rfl, -⟩⟩ := processSequenceItem_ok h
  · exact (observeTerminal_carries hn hu).then_same rfl rfl
  · exact .of_eq hn rfl rfl

theorem skipCurrent_carries (h : skipCurrent s c now = .ok (t, result)) : Carries s t := by
  obtain ⟨revision, ordinal, item, u, hon, hu, hcase⟩ := skipCurrent_ok h
  obtain ⟨tasks, outbox, rfl⟩ := cancelLive_frame hu
  rcases hcase with rfl | ⟨hmat, -⟩
  · exact .of_eq hn rfl rfl
  · have hmem : revision ∈ s.revisions := hon.mem
    exact (materializeCurrent_carries (s := passItem { s with tasks := tasks, outbox := outbox } revision ordinal item)
      hn hmem hmat).of_same rfl rfl

theorem materializeRunning_carries (h : materializeRunning s now = .ok (t, result)) : Carries s t := by
  obtain ⟨revision, hrev, hmat⟩ := bind_eq_ok.mp h
  exact materializeCurrent_carries hn (runningRevision_ok hrev).2.2 hmat

theorem retryFailedItem_carries (h : retryFailedItem s fence = .ok (t, result)) : Carries s t := by
  obtain ⟨l, -, hcur, rfl⟩ := retryFailedItem_ok h
  have hmem : l ∈ s.links := (currentLink_ok hcur).1
  refine ⟨hn, .refl fun _ => .refl, fun l' hl' => ?_⟩
  rcases mem_or_of_mem_put hl' with rfl | hl'
  · exact Or.inl ⟨l, hmem, rfl, rfl, rfl⟩
  · exact Or.inl ⟨l', hl', rfl, rfl, rfl⟩

theorem retryItem_carries (h : retryItem s fence = .ok t) : Carries s t := by
  obtain ⟨-, -, run, x, u, hu, rfl⟩ := retryItem_ok h
  obtain ⟨runs, rfl | ⟨y, -, htask⟩⟩ := retryBlockedStep_ok hu
  · exact .of_eq hn rfl rfl
  · obtain ⟨hrev, hlinks⟩ := transitionTask_same htask
    exact .of_eq hn hrev hlinks

theorem parkGoal_carries (h : parkGoal s c now = .ok t) : Carries s t := by
  obtain ⟨goal, goal', -, ⟨rfl, -⟩ | ⟨u, interrupted, hu, -, -, rfl⟩⟩ := parkGoal_ok h
  · exact .of_eq hn rfl rfl
  · rcases interrupt_ok hu with rfl | ⟨x, v, result, -, hlive, hv, hobs⟩
    · exact .of_eq hn rfl rfl
    · have hcancel : cancelLive s (some x) c = .ok v := by simpa [cancelLive, hlive] using hv
      obtain ⟨tasks, outbox, rfl⟩ := cancelLive_frame hcancel
      have hcarries : Carries s u :=
        (observeTerminal_carries (s := { s with tasks := tasks, outbox := outbox }) hn hobs).of_same rfl rfl
      exact hcarries.then_same rfl rfl

end

def Op.approves : Op → Bool
  | .approve _ | .bindDelegatedApproval _ => true
  | _ => false

theorem map_fst_eq_ok {α β ε : Type} {x : Except ε (α × β)} {a : α} (h : x.map Prod.fst = .ok a) :
    ∃ b, x = .ok (a, b) := by
  obtain ⟨⟨a', b⟩, hx, rfl⟩ := map_eq_ok.mp h
  exact ⟨b, hx⟩

theorem perform_carries (hn : Numbered s) {op : Op} (hop : op.approves = false) (h : perform digest s op = .ok t) :
    Carries s t := by
  cases op with
  | approve r => cases hop
  | bindDelegatedApproval r => cases hop
  | reviseDraft r => exact reviseDraft_carries hn h
  | restartPlan fence now => exact restartPlan_carries hn h
  | start r =>
    obtain ⟨result, h⟩ := map_fst_eq_ok h
    exact start_carries hn h
  | discard fence =>
    obtain ⟨-, -, revision, hrev, -, rfl⟩ := discard_ok h
    exact (Carries.close hn (mem_of_fencedRevision hrev)).then_same rfl rfl
  | stopPackage fence c =>
    obtain ⟨-, -, revision, u, -, -, hu, rfl⟩ := stopPackage_ok h
    exact .of_eq hn (cancelLive_same hu).1 (cancelLive_same hu).2
  | finishPackage fence c => exact finishPackage_carries hn h
  | observeTerminal taskId now =>
    obtain ⟨result, h⟩ := map_fst_eq_ok h
    exact observeTerminal_carries hn h
  | processSequenceItem taskId version now => exact processSequenceItem_carries hn h
  | skipCurrent c now =>
    obtain ⟨result, h⟩ := map_fst_eq_ok h
    exact skipCurrent_carries hn h
  | materializeRunning now =>
    obtain ⟨result, h⟩ := map_fst_eq_ok h
    exact materializeRunning_carries hn h
  | retryFailedItem fence =>
    obtain ⟨result, h⟩ := map_fst_eq_ok h
    exact retryFailedItem_carries hn h
  | retryItem fence => exact retryItem_carries hn h
  | skipItem fence =>
    obtain ⟨-, revision, ordinal, -, -, -, rfl⟩ := skipItem_ok h
    exact .of_eq hn rfl rfl
  | pauseForItemOutcome r =>
    obtain ⟨-, -, rfl⟩ := pauseForItemOutcome_ok h
    exact .of_eq hn rfl rfl
  | parkGoal c now => exact parkGoal_carries hn h
  | unparkGoal a b c =>
    obtain ⟨goal, goal', -, -, rfl | ⟨status, active, topic, -, -, rfl⟩⟩ := unparkGoal_ok h <;> exact .of_eq hn rfl rfl
  | taskMoves taskId target =>
    obtain ⟨x, -, -, h⟩ := taskMoves_ok h
    exact .of_eq hn (transitionTask_same h).1 (transitionTask_same h).2
  | taskProgresses taskId =>
    obtain ⟨x, -, rfl⟩ := taskProgresses_ok h
    exact .of_eq hn rfl rfl
  | republish taskId =>
    obtain ⟨x, -, rfl⟩ := republish_ok h
    unfold publishTaskEvent
    split <;> exact .of_eq hn rfl rfl
  | workflowWrites runs commit => cases h; exact .of_eq hn rfl rfl
  | leadWrites goal delegations => cases h; exact .of_eq hn rfl rfl

/-! ### Approvals -/

structure Approves (s t : State) (r r' : PlanRevision) : Prop where
  mem : r ∈ s.revisions
  draft : r.state = .draft
  plan : SamePlan r r'
  approver : r'.HasApprover
  state : r'.state = .approved
  revisions : t.revisions = put PlanRevision.key r' s.revisions
  links : t.links = s.links

theorem Approves.numbered (hn : Numbered s) {r r' : PlanRevision} (ha : Approves s t r r') : Numbered t := by
  unfold Numbered
  rw [ha.revisions, map_put fun _ _ hk => hk, length_put]
  exact hn

theorem approve_cases (hn : Numbered s) {r : ApproveRequest} (h : approve digest s r = .ok t) :
    Carries s t ∨ ∃ revision r', Approves s t revision r' ∧ r'.approvedByUserId ≠ none := by
  obtain ⟨-, revision, goal, -, -, ⟨rfl, -, -⟩ | ⟨hwait, rfl⟩⟩ := approve_ok h
  · exact Or.inl (.of_eq hn rfl rfl)
  · refine Or.inr ⟨revision, { revision with approvedByUserId := some r.userId, state := .approved }, ?_, by simp⟩
    refine ⟨hwait.mem, hwait.state, by constructor <;> rfl, Or.inl (by simp), rfl, ?_, ?_⟩
    · unfold settleGoal
      split <;> rfl
    · unfold settleGoal
      split <;> rfl

theorem bindDelegatedApproval_cases {r : BindRequest} (h : bindDelegatedApproval digest s r = .ok t) :
    ∃ revision r', Approves s t revision r' ∧ r'.approvedByUserId = none ∧ fencedRevision s r.fence = .ok revision ∧
      r.needsOwner = false := by
  have hneeds : r.needsOwner = false := by
    simp only [bindDelegatedApproval, bind_eq_ok, guard_eq_ok] at h
    obtain ⟨_, -, -, revision, -, -, goal, -, _, -, hneeds, -⟩ := h
    simpa using hneeds
  obtain ⟨-, revision, hrev, hwait, rfl⟩ := bindDelegatedApproval_ok h
  let approved : PlanRevision :=
    { revision with state := .approved, approvedByUserId := none, approvedByDelegationId := some r.delegationId }
  refine ⟨revision, approved, ?_, rfl, hrev, hneeds⟩
  exact ⟨hwait.mem, hwait.state, by constructor <;> rfl, Or.inr (by simp [approved]), rfl, rfl, rfl⟩

/-! ### Sound plans -/

structure PlansSound (s : State) : Prop where
  numbered : Numbered s
  bare : ∀ r ∈ s.revisions, r.state = .draft → ¬ r.HasApprover
  listed : ∀ r ∈ s.revisions, Listed r
  bound : ∀ l ∈ s.links, Bound s l

theorem Bound.of_link {l l' : MaterializationLink} (h : Bound s l) (hsame : SameLink l l') : Bound s l' := by
  obtain ⟨r, hr, hid, happ, item, hi, hitem, hord⟩ := h
  exact ⟨r, hr, hid.trans hsame.1.symm, happ, item, hi, hitem.trans hsame.2.1.symm, hord.trans hsame.2.2.symm⟩

namespace PlansSound

theorem nodup (h : PlansSound s) : (s.revisions.map PlanRevision.key).Nodup := h.numbered ▸ List.nodup_range

theorem carries (h : PlansSound s) (hc : Carries s t) : PlansSound t where
  numbered := hc.numbered
  bare r hr hst := by
    rcases hc.revisions.source r hr with ⟨x, hx, hsame⟩ | hnew
    · exact fun happ => h.bare x hx (hsame.draft hst) (hsame.hasApprover.mp happ)
    · exact hnew.bare
  listed r hr := by
    rcases hc.revisions.source r hr with ⟨x, hx, hsame⟩ | hnew
    · exact hsame.plan.listed (h.listed x hx)
    · exact hnew.listed
  bound l' hl' := by
    have hb : Bound s l' := by
      rcases hc.links l' hl' with ⟨l, hl, hsame⟩ | hb
      · exact (h.bound l hl).of_link hsame
      · exact hb
    obtain ⟨r, hr, hid, happ, item, hi, hitem⟩ := hb
    obtain ⟨r', hr', hsame⟩ := hc.revisions.kept r hr
    exact ⟨r', hr', hsame.plan.id.trans hid, hsame.hasApprover.mpr happ, item, hsame.plan.items ▸ hi, hitem⟩

theorem approves (h : PlansSound s) {r r' : PlanRevision} (ha : Approves s t r r') : PlansSound t where
  numbered := ha.numbered h.numbered
  bare x hx hst := by
    rw [ha.revisions] at hx
    rcases mem_or_of_mem_put hx with rfl | hx
    · rw [ha.state] at hst
      cases hst
    · exact h.bare x hx hst
  listed x hx := by
    rw [ha.revisions] at hx
    rcases mem_or_of_mem_put hx with rfl | hx
    · exact ha.plan.listed (h.listed r ha.mem)
    · exact h.listed x hx
  bound l hl := by
    obtain ⟨x, hx, hid, happ, hitem⟩ := h.bound l (ha.links ▸ hl)
    have hne : x.key ≠ r'.key := fun hk => by
      have hxr : x = r := eq_of_key_eq h.nodup hx ha.mem (hk.trans ha.plan.id)
      exact h.bare r ha.mem ha.draft (hxr ▸ happ)
    exact ⟨x, ha.revisions ▸ mem_put_of_ne hx hne, hid, happ, hitem⟩

theorem created {topic : Topic} {goal : Option ManagedGoal} {delegations : List GoalDelegation} {plan : PlanDraft}
    {commit : Option String} (h : createDraft digest topic goal delegations plan commit = .ok s) :
    PlansSound s ∧ s.links = [] ∧ ∀ r ∈ s.revisions, ¬ r.HasApprover := by
  simp only [createDraft, guard_eq_ok, createRevision, bind_eq_ok, check_eq_ok, Except.ok.injEq] at h
  obtain ⟨-, -, -, ⟨ids, drafts⟩, -, -, rfl⟩ := h
  refine ⟨⟨rfl, ?_, ?_, fun l hl => absurd hl List.not_mem_nil⟩, rfl, ?_⟩
  · intro r hr _
    rw [List.mem_singleton.mp hr]
    exact newRevision_unapproved.bare
  · intro r hr
    rw [List.mem_singleton.mp hr]
    exact newRevision_unapproved.listed
  · intro r hr
    rw [List.mem_singleton.mp hr]
    exact newRevision_unapproved.bare

end PlansSound

/-! ### The owner's last approval -/

section
variable {g g' g'' : GoalState} {p q b : Planned}

/-- The last revision of the goal, beside `p`, that the owner approved under the scope of `p`. -/
structure IsBaseline (g : GoalState) (p b : Planned) : Prop where
  mem : b ∈ g.planned
  other : b.key ≠ p.key
  approved : b.revision.approvedByUserId ≠ none
  scope : b.revision.body.scopeRevision = p.revision.body.scopeRevision
  last : ∀ q ∈ g.planned, q.key ≠ p.key → q.revision.approvedByUserId ≠ none →
    q.revision.body.scopeRevision = p.revision.body.scopeRevision → g.approvedAt q ≤ g.approvedAt b

theorem mem_ownerApproved : q ∈ g.ownerApproved p ↔
    q ∈ g.planned ∧ q.key ≠ p.key ∧ q.revision.approvedByUserId ≠ none := by
  simp [GoalState.ownerApproved, Option.isSome_iff_ne_none, -Prod.mk.injEq]

theorem isBaseline_of_ownerBaseline (h : g.ownerBaseline p = some b) : IsBaseline g p b := by
  simp only [GoalState.ownerBaseline, Option.filter_eq_some_iff, decide_eq_true_eq] at h
  obtain ⟨hmax, hscope⟩ := h
  obtain ⟨hmem, hother, happ⟩ := mem_ownerApproved.mp (List.argmax_mem hmax)
  refine ⟨hmem, hother, happ, hscope, fun q hq hqo hqa _ => ?_⟩
  exact List.le_of_mem_argmax (mem_ownerApproved.mpr ⟨hq, hqo, hqa⟩) hmax

theorem le_maxRisk {items : List BodyItem} (hne : items ≠ []) {n : Nat} (h : n ≤ maxRisk items) :
    ∃ x ∈ items, n ≤ x.risk := by
  induction items with
  | nil => exact absurd rfl hne
  | cons x items ih =>
    by_cases hx : n ≤ x.risk
    · exact ⟨x, List.mem_cons_self, hx⟩
    · have hrest : n ≤ maxRisk items := by
        simp only [maxRisk, List.map_cons, List.foldr_cons, le_max_iff] at h
        exact h.resolve_left hx
      have hitems : items ≠ [] := by
        rintro rfl
        exact hx (Nat.le_trans hrest (Nat.zero_le _))
      obtain ⟨y, hy, hle⟩ := ih hitems hrest
      exact ⟨y, List.mem_cons_of_mem _ hy, hle⟩

def WithinBaseline (provenance : Nat → Nat → Nat → Provenance) (p b : Planned) (item : BodyItem) : Prop :=
  (∃ x ∈ b.items, decisionContent provenance b x = decisionContent provenance p item) ∨
    ((∃ x ∈ b.items, item.risk ≤ x.risk) ∧ (item.isLarge = true → ∃ x ∈ b.items, x.isLarge = true) ∧
      (item.isGated = true → ∃ x ∈ b.items, x.isGated = true))

def SingleLowRisk (p : Planned) : Prop :=
  ∃ item, p.items = [item] ∧ item.contract.suggestedRisk = .low ∧ item.isGated = false ∧ item.isLarge = false ∧
    p.revision.body.environmentDelta = ""

def WithinMandate (provenance : Nat → Nat → Nat → Provenance) (g : GoalState) (p : Planned) : Prop :=
  (∃ b, IsBaseline g p b ∧ p.revision.body.environmentDelta = b.revision.body.environmentDelta ∧
    ∀ item ∈ p.items, WithinBaseline provenance p b item) ∨ SingleLowRisk p

theorem singleLowRisk_of (h : isSingleLowRisk p = true) : SingleLowRisk p := by
  simp only [isSingleLowRisk, Bool.and_eq_true, beq_iff_eq, List.length_eq_one_iff] at h
  obtain ⟨⟨⟨item, hitem⟩, hall⟩, hdelta⟩ := h
  simp only [hitem, List.all_cons, List.all_nil, Bool.and_true, Bool.and_eq_true, decide_eq_true_eq,
    Bool.not_eq_true'] at hall
  exact ⟨item, hitem, hall.1.1, hall.1.2, hall.2, hdelta⟩

theorem withinBaseline_of (hne : b.items ≠ []) {item : BodyItem} (h : exceeds provenance p b item = false) :
    WithinBaseline provenance p b item := by
  simp only [exceeds, Bool.and_eq_false_iff, Bool.not_eq_false', Bool.or_eq_false_iff, decide_eq_false_iff_not,
    not_lt] at h
  rcases h with hdec | ⟨⟨hrisk, hlarge⟩, hgated⟩
  · simp only [decided, List.contains_iff_mem, List.mem_map] at hdec
    exact Or.inl hdec
  · refine Or.inr ⟨le_maxRisk hne hrisk, fun hl => ?_, fun hg => ?_⟩
    · rcases hlarge with h | h
      · rw [hl] at h
        cases h
      · simpa using h
    · rcases hgated with h | h
      · rw [hg] at h
        cases h
      · simpa using h

theorem withinMandate_of (h : g.revisionNeedsOwner provenance p = false) : WithinMandate provenance g p := by
  unfold GoalState.revisionNeedsOwner ownerApprovalRequired at h
  split at h
  · rename_i b hb
    obtain ⟨hb, hfollow⟩ := Option.filter_eq_some_iff.mp hb
    simp only [isFollowUp, Bool.and_eq_true, Bool.not_eq_true', List.isEmpty_eq_false_iff, beq_iff_eq] at hfollow
    obtain ⟨⟨hne, -⟩, hdelta⟩ := hfollow
    refine Or.inl ⟨b, isBaseline_of_ownerBaseline hb, hdelta, fun item hitem => withinBaseline_of hne ?_⟩
    simpa using List.any_eq_false.mp h item hitem
  · exact Or.inr (singleLowRisk_of (by simpa using h))

theorem WithinMandate.of_same {i : Nat} {r r' : PlanRevision} (hsame : SamePlan r r')
    (h : WithinMandate provenance g { packageId := i, revision := r }) :
    WithinMandate provenance g { packageId := i, revision := r' } := by
  obtain ⟨hid, -, -, hbody, -⟩ := hsame
  rcases h with ⟨b, hb, hdelta, hall⟩ | ⟨item, hitem, hrest⟩
  · refine Or.inl ⟨b, ⟨hb.mem, ?_, hb.approved, ?_, ?_⟩, ?_, ?_⟩
    · have hother := hb.other
      simpa only [Planned.key, hid] using hother
    · rw [hbody]
      exact hb.scope
    · simpa only [Planned.key, hid, hbody] using hb.last
    · rw [hbody]
      exact hdelta
    · simpa only [Planned.items, WithinBaseline, decisionContent, hid, hbody] using hall
  · exact Or.inr ⟨item, by simpa only [Planned.items, hbody] using hitem, by simpa only [hbody] using hrest⟩

/-! ### Transactions on a goal -/

inductive Evolves (provenance : Nat → Nat → Nat → Provenance) (g : GoalState) (i : Nat) (s t : State) : Prop
  | carries (h : Carries s t)
  | owner {r r' : PlanRevision} (h : Approves s t r r') (huser : r'.approvedByUserId ≠ none)
  | lead {r r' : PlanRevision} {u : State} (h : Approves s u r r') (huser : r'.approvedByUserId = none)
      (hneeds : g.revisionNeedsOwner provenance { packageId := i, revision := r } = false) (hc : Carries u t)

def AllNumbered (g : GoalState) : Prop := ∀ (i : Nat) (x : GoalPackage), g.packages[i]? = some x → Numbered x.rows

def ApprovesNothing (g g' : GoalState) : Prop :=
  ∀ (i : Nat) (x' : GoalPackage), g'.packages[i]? = some x' → ∃ x, g.packages[i]? = some x ∧ Carries x.rows x'.rows

theorem ApprovesNothing.of_eq (hn : AllNumbered g) (h : g'.packages = g.packages) : ApprovesNothing g g' :=
  fun i x hx => ⟨x, h ▸ hx, .of_eq (hn i x (h ▸ hx)) rfl rfl⟩

theorem fromPackage_eq_ok {α : Type} {x : Except Error α} {a : α} : fromPackage x = .ok a ↔ x = .ok a := by
  cases x <;> simp [fromPackage]

theorem onPackage_ok {i now : Nat} {f : State → Except Error State} (h : g.onPackage i now f = .ok g') :
    ∃ x rows, g.packages[i]? = some x ∧ f (g.view i x) = .ok rows ∧ g' = g.store i rows now := by
  unfold GoalState.onPackage at h
  cases hx : g.packages[i]? with
  | none => simp [hx] at h
  | some x =>
    simp only [hx, map_eq_ok, fromPackage_eq_ok] at h
    obtain ⟨rows, hrows, rfl⟩ := h
    exact ⟨x, rows, rfl, hrows, rfl⟩

theorem store_packages {i j : Nat} {rows : State} {x' : GoalPackage} (h : (g.store i rows now).packages[j]? = some x') :
    (i = j ∧ x'.rows = rows) ∨ g.packages[j]? = some x' := by
  simp only [GoalState.store, List.getElem?_modify] at h
  split at h
  · rename_i hij
    obtain ⟨x, -, rfl⟩ := Option.map_eq_some_iff.mp h
    exact Or.inl ⟨hij, rfl⟩
  · exact Or.inr (by simpa using h)

theorem onPackage_kept (hn : AllNumbered g) {i : Nat} {f : State → Except Error State}
    (hf : ∀ rows rows', Numbered rows → f rows = .ok rows' → Carries rows rows') (h : g.onPackage i now f = .ok g') :
    ApprovesNothing g g' := by
  obtain ⟨x, rows, hx, hrows, rfl⟩ := onPackage_ok h
  intro j x' hx'
  rcases store_packages hx' with ⟨rfl, rfl⟩ | hold
  · exact ⟨x, hx, (hf (g.view i x) _ (hn i x hx) hrows).of_same rfl rfl⟩
  · exact ⟨x', hold, .of_eq (hn j x' hold) rfl rfl⟩

theorem ApprovesNothing.evolves (h : ApprovesNothing g g') {i : Nat} {x' : GoalPackage} (hx' : g'.packages[i]? = some x') :
    ∃ x, g.packages[i]? = some x ∧ Evolves provenance g i x.rows x'.rows := by
  obtain ⟨x, hx, hc⟩ := h i x' hx'
  exact ⟨x, hx, .carries hc⟩

theorem bindForLead_ok {i : Nat} {r : BindRequest} (h : bindForLead digest provenance g i r = .ok g') :
    ∃ x rows revision r', g.packages[i]? = some x ∧ g' = g.store i rows r.now ∧ Approves x.rows rows revision r' ∧
      r'.approvedByUserId = none ∧ g.revisionNeedsOwner provenance { packageId := i, revision := revision } = false := by
  obtain ⟨x, rows, hx, hrows, rfl⟩ := onPackage_ok h
  obtain ⟨revision, r', happ, huser, hrev, hneeds⟩ := bindDelegatedApproval_cases hrows
  refine ⟨x, rows, revision, r', hx, rfl, ⟨happ.mem, happ.draft, happ.plan, happ.approver, happ.state, happ.revisions,
    happ.links⟩, huser, ?_⟩
  rw [fencedRevision_ok] at hrev
  simpa [hrev] using hneeds

theorem startBatch_kept (hn : AllNumbered g) {r : BatchRequest} (h : startBatch digest semanticHash g p r = .ok g') :
    ApprovesNothing g g' := by
  unfold startBatch at h
  split at h
  · cases h
  · rename_i package hpackage
    simp only [bind_eq_ok, Except.ok.injEq] at h
    obtain ⟨_, -, g1, hg1, rfl⟩ := h
    have hpackages : (countRepeat semanticHash g p package.rows).packages = g.packages := by
      simp only [countRepeat]
      split <;> rfl
    have hkept : ApprovesNothing (countRepeat semanticHash g p package.rows) g1 := by
      refine onPackage_kept (fun i x hx => hn i x (hpackages ▸ hx)) (fun rows rows' hrows hstart => ?_) hg1
      obtain ⟨result, hstart⟩ := map_fst_eq_ok hstart
      exact start_carries hrows hstart
    intro i x hx
    rw [← hpackages]
    exact hkept i x hx

def AllEvolve (provenance : Nat → Nat → Nat → Provenance) (g g' : GoalState) : Prop :=
  ∀ (i : Nat) (x' : GoalPackage), g'.packages[i]? = some x' →
    ∃ x, g.packages[i]? = some x ∧ Evolves provenance g i x.rows x'.rows

theorem bindForLead_evolves (hn : AllNumbered g) {i : Nat} {r : BindRequest}
    (h : bindForLead digest provenance g i r = .ok g') : AllEvolve provenance g g' := by
  obtain ⟨x, rows, revision, r', hx, rfl, happ, huser, hneeds⟩ := bindForLead_ok h
  intro j x' hx'
  rcases store_packages hx' with ⟨rfl, rfl⟩ | hold
  · exact ⟨x, hx, .lead happ huser hneeds (.of_eq (happ.numbered (hn i x hx)) rfl rfl)⟩
  · exact ⟨x', hold, .carries (.of_eq (hn j x' hold) rfl rfl)⟩

theorem bindForLead_start (hn : AllNumbered g) {r : BindRequest} {r' : BatchRequest}
    (h : bindForLead digest provenance g p.packageId r = .ok g') (h' : startBatch digest semanticHash g' p r' = .ok g'') :
    AllEvolve provenance g g'' := by
  obtain ⟨x, rows, revision, approved, hx, rfl, happ, huser, hneeds⟩ := bindForLead_ok h
  have hn' : AllNumbered (g.store p.packageId rows r.now) := by
    intro j y hy
    rcases store_packages hy with ⟨rfl, rfl⟩ | hold
    · exact happ.numbered (hn _ x hx)
    · exact hn j y hold
  intro j x'' hx''
  obtain ⟨y, hy, hc⟩ := startBatch_kept hn' h' j x'' hx''
  rcases store_packages hy with ⟨rfl, rfl⟩ | hold
  · exact ⟨x, hx, .lead happ huser hneeds hc⟩
  · exact ⟨y, hold, .carries hc⟩

theorem executeBatch_evolves (hn : AllNumbered g) {r : BatchRequest}
    (h : executeBatch digest semanticHash provenance g r = .ok g') : AllEvolve provenance g g' := by
  simp only [executeBatch, bind_eq_ok] at h
  obtain ⟨_, -, h⟩ := h
  split at h
  · cases h
  · rename_i package p _
    simp only [bind_eq_ok] at h
    obtain ⟨_, -, _, -, _, -, _, -, _, -, h⟩ := h
    unfold dispatchPlan at h
    split at h
    · simp only [bind_eq_ok, Except.ok.injEq] at h
      obtain ⟨g1, hg1, rfl⟩ := h
      have hkept : ApprovesNothing g g1 := onPackage_kept hn (fun rows rows' hrows hmat => by
        obtain ⟨result, hmat⟩ := map_fst_eq_ok hmat
        exact materializeRunning_carries hrows hmat) hg1
      exact fun i x hx => hkept.evolves hx
    · split at h
      · cases h
        exact fun i x hx => (ApprovesNothing.of_eq hn rfl).evolves hx
      · simp only [bind_eq_ok] at h
        obtain ⟨g1, hbind, hstart⟩ := h
        exact bindForLead_start hn hbind hstart
    · exact fun i x hx => (startBatch_kept hn h).evolves hx
    · cases h

theorem performPackage_eq {i : Nat} {op : Op} (hop : op.approves = false) :
    performPackage digest provenance g i now op =
      if op.isParking ∧ g.currentPackageId ≠ some i then .error (.package .lookupError)
      else g.onPackage i now fun rows => perform digest rows op := by
  cases op <;> first | rfl | cases hop

theorem performPackage_evolves (hn : AllNumbered g) {i : Nat} {op : Op}
    (h : performPackage digest provenance g i now op = .ok g') : AllEvolve provenance g g' := by
  by_cases hop : op.approves = false
  · rw [performPackage_eq hop, guard_eq_ok] at h
    have hkept : ApprovesNothing g g' := onPackage_kept hn (fun rows rows' hrows => perform_carries hrows hop) h.2
    exact fun i x hx => hkept.evolves hx
  · cases op with
    | bindDelegatedApproval r => exact bindForLead_evolves hn h
    | approve r =>
      simp only [performPackage, guard_eq_ok] at h
      obtain ⟨x, rows, hx, hrows, rfl⟩ := onPackage_ok h.2
      intro j x' hx'
      rcases store_packages hx' with ⟨rfl, rfl⟩ | hold
      · have hview : Numbered (g.view i x) := hn i x hx
        refine ⟨x, hx, ?_⟩
        rcases approve_cases hview hrows with hc | ⟨revision, r', happ, huser⟩
        · exact .carries (hc.of_same rfl rfl)
        · exact .owner ⟨happ.mem, happ.draft, happ.plan, happ.approver, happ.state, happ.revisions, happ.links⟩ huser
      · exact ⟨x', hold, .carries (.of_eq (hn j x' hold) rfl rfl)⟩
    | _ => exact absurd rfl hop

def IsNewPlan (s : State) : Prop := PlansSound s ∧ ∀ r ∈ s.revisions, ¬ r.HasApprover

theorem admitPackage_cases (hn : AllNumbered g) {r : ProposeRequest} {commit : String}
    (h : admitPackage digest g r commit = .ok g') {i : Nat} {x' : GoalPackage} (hx' : g'.packages[i]? = some x') :
    (∃ x, g.packages[i]? = some x ∧ Carries x.rows x'.rows) ∨ IsNewPlan x'.rows := by
  simp only [admitPackage, bind_eq_ok, fromPackage_eq_ok, Except.ok.injEq] at h
  obtain ⟨_, -, rows, hrows, rfl⟩ := h
  simp only [List.getElem?_append] at hx'
  split at hx'
  · exact Or.inl ⟨x', hx', .of_eq (hn i x' hx') rfl rfl⟩
  · obtain rfl : { rows := rows } = x' := List.mem_singleton.mp (List.mem_of_getElem? hx') |>.symm
    obtain ⟨hsound, -, hbare⟩ := PlansSound.created hrows
    exact Or.inr ⟨hsound, hbare⟩

theorem storePlan_cases (hn : AllNumbered g) {r : ProposeRequest} {commit : String}
    (h : storePlan digest g r commit = .ok g') {i : Nat} {x' : GoalPackage} (hx' : g'.packages[i]? = some x') :
    (∃ x, g.packages[i]? = some x ∧ Carries x.rows x'.rows) ∨ IsNewPlan x'.rows := by
  unfold storePlan at h
  split at h
  · split at h
    · simp only [revisePackage, bind_eq_ok] at h
      obtain ⟨_, -, h⟩ := h
      refine Or.inl (onPackage_kept hn (fun rows rows' hrows hrev => ?_) h i x' hx')
      have hsame : (pauseRunning rows).revisions = rows.revisions ∧ (pauseRunning rows).links = rows.links := by
        unfold pauseRunning
        split <;> exact ⟨rfl, rfl⟩
      have hpaused : Numbered (pauseRunning rows) := by
        unfold Numbered
        rw [hsame.1]
        exact hrows
      exact (reviseDraft_carries hpaused hrev).of_same hsame.1 hsame.2
    · exact admitPackage_cases hn h hx'
  · exact admitPackage_cases hn h hx'

theorem applyPendingAmendment_kept (hn : AllNumbered g) {r : AmendmentRequest} :
    ApprovesNothing g (applyPendingAmendment g r) := by
  unfold applyPendingAmendment
  split
  · exact .of_eq hn rfl
  · split
    · exact .of_eq hn rfl
    · split
      · exact .of_eq hn rfl
      · intro i x' hx'
        simp only [amendGoal, List.getElem?_modify] at hx'
        split at hx'
        · obtain ⟨x, hx, rfl⟩ := Option.map_eq_some_iff.mp hx'
          exact ⟨x, hx, .of_eq (hn i x hx) rfl rfl⟩
        · have hold : g.packages[i]? = some x' := by simpa using hx'
          exact ⟨x', hold, .of_eq (hn i x' hold) rfl rfl⟩

theorem GoalState.perform_evolves (hn : AllNumbered g) {op : GoalOp}
    (h : g.perform digest semanticHash provenance op = .ok g') {i : Nat} {x' : GoalPackage}
    (hx' : g'.packages[i]? = some x') :
    (∃ x, g.packages[i]? = some x ∧ Evolves provenance g i x.rows x'.rows) ∨ IsNewPlan x'.rows := by
  cases op with
  | proposePlan r =>
    simp only [GoalState.perform, Discussion.proposePlan, bind_eq_ok] at h
    obtain ⟨commit, -, g1, hstore, h⟩ := h
    split at h
    · cases h
    · cases h
      rcases storePlan_cases hn hstore hx' with ⟨x, hx, hc⟩ | hnew
      · exact Or.inl ⟨x, hx, .carries hc⟩
      · exact Or.inr hnew
  | executeBatch r => exact Or.inl (executeBatch_evolves hn h i x' hx')
  | applyPendingAmendment r =>
    cases h
    exact Or.inl ((applyPendingAmendment_kept hn).evolves hx')
  | package j op now => exact Or.inl (performPackage_evolves hn h i x' hx')
  | leadWrites goal delegations =>
    cases h
    exact Or.inl ((ApprovesNothing.of_eq hn rfl).evolves hx')

end

/-! ### Runs -/

section
variable {g₀ g g' : GoalState} {i : Nat} {x x' : GoalPackage} {r r' : PlanRevision}

abbrev Runs (digest semanticHash : PlanBody → Digest) (provenance : Nat → Nat → Nat → Provenance) :
    GoalState → GoalState → Prop :=
  Reach (GoalState.perform digest semanticHash provenance) fun _ _ => True

/-- In this transaction the draft `r` of a package becomes approved. -/
structure Binds (g g' : GoalState) (i : Nat) (r : PlanRevision) : Prop where
  draft : ∃ x, g.packages[i]? = some x ∧ ∃ r₁ ∈ x.rows.revisions, SamePlan r₁ r ∧ r₁.state = .draft
  approved : ∃ x, g'.packages[i]? = some x ∧ ∃ r₂ ∈ x.rows.revisions, SameApproval r₂ r

/-- Some transaction of the run approved the plan, and the plan was within the mandate of the lead when this
    transaction began. -/
def ApprovedByLead (digest semanticHash : PlanBody → Digest) (provenance : Nat → Nat → Nat → Provenance)
    (g₀ g : GoalState) (i : Nat) (r : PlanRevision) : Prop :=
  ∃ g₁ op g₂, Runs digest semanticHash provenance g₀ g₁ ∧ g₁.perform digest semanticHash provenance op = .ok g₂ ∧
    Runs digest semanticHash provenance g₂ g ∧ Binds g₁ g₂ i r ∧
    WithinMandate provenance g₁ { packageId := i, revision := r }

theorem ApprovedByLead.later {op : GoalOp} (h : ApprovedByLead digest semanticHash provenance g₀ g i r)
    (hsame : SameApproval r r') (hop : g.perform digest semanticHash provenance op = .ok g') :
    ApprovedByLead digest semanticHash provenance g₀ g' i r' := by
  obtain ⟨g1, op1, g2, h1, hstep, h2, ⟨⟨x1, hx1, r1, hr1, hplan, hdraft⟩, x2, hx2, r2, hr2, happ⟩, hmandate⟩ := h
  refine ⟨g1, op1, g2, h1, hstep, .step h2 trivial hop, ⟨⟨x1, hx1, r1, hr1, hplan.trans hsame.plan, hdraft⟩, x2, hx2,
    r2, hr2, happ.trans hsame⟩, hmandate.of_same hsame.plan⟩

structure GoalSound (digest semanticHash : PlanBody → Digest) (provenance : Nat → Nat → Nat → Provenance)
    (g₀ g : GoalState) : Prop where
  run : Runs digest semanticHash provenance g₀ g
  plans : ∀ (i : Nat) (x : GoalPackage), g.packages[i]? = some x → PlansSound x.rows
  lead : ∀ (i : Nat) (x : GoalPackage), g.packages[i]? = some x → ∀ r ∈ x.rows.revisions, r.HasApprover →
    r.approvedByUserId = none → ApprovedByLead digest semanticHash provenance g₀ g i r

namespace GoalSound

section
variable (h : GoalSound digest semanticHash provenance g₀ g)
include h

theorem numbered : AllNumbered g :=
  fun i x hx => (h.plans i x hx).numbered

theorem evolve {op : GoalOp}
    (hop : g.perform digest semanticHash provenance op = .ok g') (hx : g.packages[i]? = some x)
    (hx' : g'.packages[i]? = some x') (he : Evolves provenance g i x.rows x'.rows) :
    PlansSound x'.rows ∧ ∀ r ∈ x'.rows.revisions, r.HasApprover → r.approvedByUserId = none →
      ApprovedByLead digest semanticHash provenance g₀ g' i r := by
  have hold : ∀ y ∈ x.rows.revisions, ∀ r, SameApproval y r → r.HasApprover → r.approvedByUserId = none →
      ApprovedByLead digest semanticHash provenance g₀ g' i r := by
    intro y hy r hsame happ huser
    exact (h.lead i x hx y hy (hsame.hasApprover.mp happ) (hsame.user.symm.trans huser)).later hsame hop
  cases he with
  | carries hc =>
    refine ⟨(h.plans i x hx).carries hc, fun r hr happ huser => ?_⟩
    rcases hc.revisions.source r hr with ⟨y, hy, hsame⟩ | hnew
    · exact hold y hy r hsame happ huser
    · exact absurd happ hnew.bare
  | @owner r0 r1 ha hby =>
    refine ⟨(h.plans i x hx).approves ha, fun r hr happ huser => ?_⟩
    rw [ha.revisions] at hr
    rcases mem_or_of_mem_put hr with rfl | hr
    · exact absurd huser hby
    · exact hold r hr r .refl happ huser
  | @lead r0 r1 u ha hby hneeds hc =>
    refine ⟨((h.plans i x hx).approves ha).carries hc, fun r hr happ huser => ?_⟩
    rcases hc.revisions.source r hr with ⟨y, hy, hsame⟩ | hnew
    · rw [ha.revisions] at hy
      rcases mem_or_of_mem_put hy with rfl | hy
      · -- The plan that this transaction approved.
        have hplan : SamePlan r0 r := ha.plan.trans hsame.plan
        refine ⟨g, op, g', h.run, hop, .refl, ⟨⟨x, hx, r0, ha.mem, hplan, ha.draft⟩, x', hx', r, hr, .refl⟩, ?_⟩
        exact (withinMandate_of hneeds).of_same hplan
      · exact hold y hy r hsame happ huser
    · exact absurd happ hnew.bare

theorem perform {op : GoalOp}
    (hop : g.perform digest semanticHash provenance op = .ok g') : GoalSound digest semanticHash provenance g₀ g' where
  run := .step h.run trivial hop
  plans i x' hx' := by
    rcases GoalState.perform_evolves h.numbered hop hx' with ⟨x, hx, he⟩ | hnew
    · exact (h.evolve hop hx hx' he).1
    · exact hnew.1
  lead i x' hx' r hr happ huser := by
    rcases GoalState.perform_evolves h.numbered hop hx' with ⟨x, hx, he⟩ | hnew
    · exact (h.evolve hop hx hx' he).2 r hr happ huser
    · exact absurd happ (hnew.2 r hr)

end

theorem reach (h0 : g₀.New) (h : Runs digest semanticHash provenance g₀ g) :
    GoalSound digest semanticHash provenance g₀ g := by
  have hnone : ∀ (i : Nat) (x : GoalPackage), g₀.packages[i]? ≠ some x := by
    intro i x hx
    rw [h0.1] at hx
    cases hx
  refine Reach.invariant h ⟨.refl, fun i x hx => absurd hx (hnone i x), fun i x hx => absurd hx (hnone i x)⟩ ?_
  exact fun hs _ hop => hs.perform hop

end GoalSound

/-- In every run of a goal, an item that was materialized belongs to a plan that the owner approved, or that
    the lead approved in a transaction of the run: every item of such a plan was then decided by the owner in
    their last plan of the same scope or goes no further than that plan, with the same change of the
    environment; or the plan is a single item without risk that leaves the environment alone. -/
theorem lead_stays_within_approval (h0 : g₀.New) (h : Runs digest semanticHash provenance g₀ g)
    (hx : g.packages[i]? = some x) {l : MaterializationLink} (hl : l ∈ x.rows.links) :
    ∃ r ∈ x.rows.revisions, r.id = l.planRevisionId ∧
      (∃ item ∈ r.body.items, item.itemId = l.workItemDraftId ∧ item.ordinal = l.ordinal) ∧
      (r.approvedByUserId ≠ none ∨ ApprovedByLead digest semanticHash provenance g₀ g i r) := by
  have hsound := GoalSound.reach h0 h
  obtain ⟨r, hr, hid, happ, item, hitem, hitemId, hord⟩ := (hsound.plans i x hx).bound l hl
  rw [(hsound.plans i x hx).listed r hr] at hitem
  obtain ⟨b, hb, rfl⟩ := List.mem_map.mp hitem
  refine ⟨r, hr, hid, ⟨b, hb, hitemId, hord⟩, ?_⟩
  by_cases huser : r.approvedByUserId = none
  · exact Or.inr (hsound.lead i x hx r hr happ huser)
  · exact Or.inl huser

end

namespace Sample

def mediumPlan (name : String) : PlanDraft where
  title := name
  items := [{ localId := some name, contract := { summary := name, suggestedRisk := .medium } }]
  nonempty := by simp
  localIds := by simp
  itemIds := by simp
  ordered := by simp [dependenciesPrecede]

def newGoal : GoalState where
  goal := { ownerUserId := 1, delegationId := some 0 }
  delegations := [{ id := 0, ownerUserId := 1 }]

/-- The owner approves the first plan and its item is completed; the lead then proposes a second package at the
    same risk and starts it on its own. -/
def secondPackage : List GoalOp := [
  .proposePlan { plan := mediumPlan "a", sourceCommit := some "c" },
  .package 0 (.approve {
    fence := { revisionNumber := 1, h8 := "a", generation := 1 }
    userId := 1
    contentHash := some { h8 := "a" }
    scopeRevision := some 1 }) 7,
  .executeBatch { delegationId := 0, repeatLimit := 2 },
  .package 0 (.taskMoves 0 .executing) 0,
  .package 0 (.taskMoves 0 .completed) 0,
  .package 0 (.processSequenceItem 0 4 0) 0,
  .proposePlan { plan := mediumPlan "b", sourceCommit := some "c" },
  .executeBatch { delegationId := 0, repeatLimit := 2 }]

end Sample

theorem lead_stays_within_approval_second : ∃ g x l r, g.packages[1]? = some x ∧ l ∈ x.rows.links ∧
    r ∈ x.rows.revisions ∧ r.id = l.planRevisionId ∧
      ApprovedByLead Sample.digest Sample.digest (fun _ _ _ => {}) Sample.newGoal g 1 r := by
  have hrun : ends (fun g : GoalState => g.packages[1]?.any fun x =>
      !x.rows.links.isEmpty && x.rows.revisions.all (·.approvedByUserId.isNone))
      (runOps (GoalState.perform Sample.digest Sample.digest fun _ _ _ => {}) Sample.newGoal Sample.secondPackage) =
      true := by decide +kernel
  obtain ⟨g, hg, hends⟩ := exists_of_ends hrun
  have hreach : Runs Sample.digest Sample.digest (fun _ _ _ => {}) Sample.newGoal g :=
    reach_of_runOps (fun _ _ _ => trivial) hg
  cases hx : g.packages[1]? with
  | none => simp [hx] at hends
  | some x =>
    simp only [hx, Option.any_some, Bool.and_eq_true, Bool.not_eq_true', List.isEmpty_eq_false_iff, List.all_eq_true,
      Option.isNone_iff_eq_none] at hends
    obtain ⟨l, hl⟩ := List.exists_mem_of_ne_nil x.rows.links hends.1
    obtain ⟨r, hr, hid, -, happ⟩ := lead_stays_within_approval ⟨rfl, rfl⟩ hreach hx hl
    exact ⟨g, x, l, r, hx, hl, hr, hid, happ.resolve_left fun h => h (hends.2 r hr)⟩

end Vuzol.Discussion
