import Mathlib.Logic.Relation
import Vuzol.Theorems.Discussion.Commands

/-! The moves of a package. A transaction on a package is a sequence of moves, each of which keeps the
    package well formed: one task changes its status, one revision replaces the head, the cursor passes one
    item. Rows that only other subsystems read may change beside them. -/

namespace Vuzol.Discussion

open Vuzol.Lib

variable {digest : PlanBody → Digest} {s t u : State}
variable {c : Cancellation} {fence : Fence} {now : Nat} {result : SequenceResult}

/-- The rows and pointers that decide what a package runs are the same. -/
structure SameCore (s t : State) : Prop where
  status : t.package.status = s.package.status
  head : t.package.headRevisionId = s.package.headRevisionId
  approved : t.package.approvedRevisionId = s.package.approvedRevisionId
  running : t.package.runningRevisionId = s.package.runningRevisionId
  cursor : t.package.cursorOrdinal = s.package.cursorOrdinal
  revisions : t.revisions = s.revisions
  drafts : t.drafts = s.drafts
  links : t.links = s.links
  tasks : t.tasks = s.tasks
  events : t.events = s.events
  managed : t.isManaged = s.isManaged

theorem SameCore.refl : SameCore s s := by constructor <;> rfl

structure SamePlan (r r' : PlanRevision) : Prop where
  id : r'.id = r.id
  number : r'.number = r.number
  contentHash : r'.contentHash = r.contentHash
  body : r'.body = r.body
  items : r'.items = r.items

theorem SamePlan.refl {r : PlanRevision} : SamePlan r r := by constructor <;> rfl

theorem SamePlan.trans {r₁ r₂ r₃ : PlanRevision} (h1 : SamePlan r₁ r₂) (h2 : SamePlan r₂ r₃) : SamePlan r₁ r₃ where
  id := h2.id.trans h1.id
  number := h2.number.trans h1.number
  contentHash := h2.contentHash.trans h1.contentHash
  body := h2.body.trans h1.body
  items := h2.items.trans h1.items

def State.withStatus (s : State) (status : WorkPackageStatus) : State :=
  { s with package := { s.package with status := status } }

def State.pausedAt (s : State) (ordinal : Nat) : State :=
  { s with package := { s.package with status := .paused, cursorOrdinal := some ordinal } }

inductive Move (digest : PlanBody → Digest) (s : State) : State → Prop
  | side {t : State} (h : SameCore s t) : Move digest s t
  | task {x y : Task} (hx : x ∈ s.tasks) (hid : y.id = x.id) (hs : y.status = x.status ∨ Follows x.status y.status) :
      Move digest s (s.putTask y)
  -- The identities of the plan may be resolved twice: for the check of the history, and for the revision.
  | revise {previous revision : PlanRevision} {plan : PlanDraft} {ids : List Nat} {resolved drafts : List WorkItemDraft}
      (hprev : previous ∈ s.revisions) (hhead : s.package.headRevisionId = some previous.id)
      (hstatus : s.package.status ≠ .completed ∧ s.package.status ≠ .discarded)
      (hresolved : resolved = s.drafts ∨ ∃ ids₀, resolveItemIdentities s.drafts plan.items = .ok (ids₀, resolved))
      (hnew : NewRevision digest { s with drafts := resolved } plan ids drafts revision)
      (hkept : s.isManaged = true → s.package.status ≠ .running ∧ ∀ cursor, s.package.cursorOrdinal = some cursor →
        ∃ ids₀, resolveItemIdentities s.drafts plan.items = .ok (ids₀, resolved) ∧
          ∀ item ∈ previous.items, isHistory s cursor item = true → keepsItem plan ids₀ item = true) :
      Move digest s (addRevision (supersede s previous) drafts revision)
  | approve {revision r' : PlanRevision} {now : Nat} (h : AwaitsApproval s revision) (hsame : SamePlan revision r') :
      Move digest s (bindApproval s r' now)
  | close {revision : PlanRevision} (hmem : revision ∈ s.revisions)
      (hhead : s.package.headRevisionId = some revision.id) : Move digest s (closePackage s revision)
  | stop (hlive : s.package.status.isLive = true) : Move digest s (s.withStatus .stopped)
  | pause {ordinal : Nat} (hst : s.package.status = .running)
      (hcursor : ∀ c, s.package.cursorOrdinal = some c → c = ordinal) : Move digest s (s.pausedAt ordinal)
  | advance {l : MaterializationLink} {x : Task} (hl : l ∈ s.links) (hx : s.task? l.taskId = some x)
      (hdone : x.status = .completed) (hcur : isCurrent s l = true) : Move digest s (advanceCursor s l.ordinal)
  | skip {revision : PlanRevision} {ordinal : Nat} {item : PlanRevisionItem} (h : StandsOn s revision ordinal item) :
      Move digest s (passItem s revision ordinal item)
  | complete {revision : PlanRevision} {ordinal : Nat} (hst : s.package.status = .running)
      (hrun : s.package.runningRevisionId = some revision.id) (hmem : revision ∈ s.revisions)
      (hcursor : s.package.cursorOrdinal = some ordinal) (hnone : revision.itemAt ordinal = none) :
      Move digest s (completePackage s)
  | materialize {revision : PlanRevision} {item : PlanRevisionItem} {ordinal : Nat}
      (hst : s.package.status = .running) (hrun : s.package.runningRevisionId = some revision.id)
      (hmem : revision ∈ s.revisions) (h : Materializes s revision item ordinal) :
      Move digest s (addMaterialization s revision item ordinal)

abbrev Moves (digest : PlanBody → Digest) : State → State → Prop := Relation.ReflTransGen (Move digest)

namespace Moves

theorem single (h : Move digest s t) : Moves digest s t := Relation.ReflTransGen.single h

theorem side (h : SameCore s t) : Moves digest s t := single (.side h)

end Moves

theorem SameCore.expire : SameCore s (expirePendingApprovals s now) := by constructor <;> rfl

theorem SameCore.goal {goal : Option ManagedGoal} (h : goal.isSome = s.goal.isSome) :
    SameCore s { s with goal := goal } := by
  constructor <;> first | rfl | exact h

theorem SameCore.publish {x : Task} : SameCore s (publishTaskEvent s x) := by
  unfold publishTaskEvent
  split
  · constructor <;> rfl
  · exact .refl

theorem SameCore.consumed {taskId version : Nat} : SameCore s (markConsumed s taskId version) := by
  constructor <;> rfl

theorem SameCore.settleGoal : SameCore s (settleGoal s) := by
  unfold Discussion.settleGoal
  split
  · constructor <;> rfl
  · rename_i hg
    constructor <;> first | rfl | simp [State.isManaged, hg]

theorem Move.managed (h : Move digest s t) : t.isManaged = s.isManaged := by
  cases h with
  | side h => exact h.managed
  | _ => rfl

theorem Moves.managed (h : Moves digest s t) : t.isManaged = s.isManaged := by
  induction h with
  | refl => rfl
  | tail _ hmove ih => exact hmove.managed.trans ih

theorem transitionTask_moves {x : Task} {target : Workflow.TaskStatus} (hx : x ∈ s.tasks) (hne : target ≠ .rolledBack)
    (h : transitionTask s x target = .ok t) : Moves digest s t := by
  obtain ⟨hmem, rfl⟩ := transitionTask_ok.mp h
  let y : Task := { x with status := target, version := x.version + 1 }
  have hmove : Move digest s (s.putTask y) := .task hx rfl (Or.inr ⟨hmem, hne⟩)
  exact .tail (.single hmove) (.side .publish)

theorem cancelLive_moves (h : cancelLive s s.currentTask c = .ok t) : Moves digest s t := by
  rcases cancelLive_ok h with rfl | ⟨x, hx, -, hcancel⟩
  · exact .refl
  · obtain ⟨l, -, hmem, -⟩ := currentTask_ok hx
    exact transitionTask_moves hmem (by decide) hcancel

theorem cancelTask_not_completed {x y : Task} {c : Cancellation} (hx : s.currentTask = some x)
    (hopen : isUserTerminal x.status = false) (h : cancelTask s x c = .ok t) (hy : t.task? x.id = some y) :
    y.status ≠ .completed := by
  cases c with
  | settles =>
    obtain ⟨-, rfl⟩ := transitionTask_ok.mp h
    obtain ⟨hmem, hid⟩ := mem_of_task? hy
    rw [SameCore.publish.tasks] at hmem
    rcases mem_put.mp hmem with ⟨rfl, -⟩ | ⟨-, hne⟩
    · simp
    · exact absurd hid hne
  | alreadyCancelled =>
    cases h
    obtain ⟨l, -, hfind⟩ := Option.bind_eq_some_iff.mp hx
    rw [(mem_of_task? hfind).2, hfind] at hy
    cases hy
    rintro hdone
    simp [hdone, isUserTerminal] at hopen
  | refused => cases h

theorem cancelLive_frame {x : Option Task} (h : cancelLive s x c = .ok t) :
    ∃ tasks outbox, t = { s with tasks := tasks, outbox := outbox } := by
  rcases cancelLive_ok h with rfl | ⟨y, -, -, hcancel⟩
  · exact ⟨_, _, rfl⟩
  · obtain ⟨-, rfl⟩ := transitionTask_ok.mp hcancel
    unfold publishTaskEvent
    split <;> exact ⟨_, _, rfl⟩

theorem reviseDraft_moves {r : ReviseRequest} (h : reviseDraft digest s r = .ok t) : Moves digest s t := by
  obtain ⟨previous, u, v, hp, hu, hv, rfl⟩ := reviseDraft_ok h
  obtain ⟨hstatus, -, hhead, hprev⟩ := revisable_ok hp
  obtain ⟨⟨resolved, rfl, hres⟩, hkept⟩ := requireManagedChange_ok hu
  obtain ⟨ids, drafts, revision, hnew, -, rfl⟩ := createRevision_ok hv
  have hnew' : NewRevision digest { s with drafts := resolved } r.plan ids drafts revision :=
    { hnew with id := by simpa [supersede, State.putRevision] using hnew.id }
  refine .tail (.single (.revise hprev hhead ?_ hres hnew' hkept)) (.side .expire)
  rcases hstatus with hlive | ⟨-, hstop⟩
  · constructor <;> intro hst <;> rw [hst] at hlive <;> cases hlive
  · simp [hstop]

theorem restartPlan_moves (h : restartPlan digest s fence now = .ok t) : Moves digest s t := by
  obtain ⟨-, -, plan, u, hu, rfl⟩ := restartPlan_ok h
  exact .tail (reviseDraft_moves hu) (.side (by constructor <;> rfl))

theorem approve_moves {r : ApproveRequest} (h : approve digest s r = .ok t) : Moves digest s t := by
  obtain ⟨-, revision, goal, -, hparked, hcase⟩ := approve_ok h
  have hgoal : goal.isSome = s.goal.isSome := by simpa using congrArg Option.isSome hparked
  rcases hcase with ⟨rfl, -, -⟩ | ⟨hwait, rfl⟩
  · exact Moves.side (.goal hgoal)
  · refine .tail (.tail (Moves.side (.goal hgoal)) ?_) (.side .settleGoal)
    exact .approve ⟨hwait.status, hwait.mem, hwait.head, hwait.state⟩ (by constructor <;> rfl)

theorem bindDelegatedApproval_moves {r : BindRequest} (h : bindDelegatedApproval digest s r = .ok t) :
    Moves digest s t := by
  obtain ⟨-, revision, -, hwait, rfl⟩ := bindDelegatedApproval_ok h
  exact .single (.approve hwait (by constructor <;> rfl))

theorem discard_moves (h : discard s fence = .ok t) : Moves digest s t := by
  obtain ⟨-, -, revision, hrev, hhead, rfl⟩ := discard_ok h
  refine .tail (.single (.close (mem_of_fencedRevision hrev) hhead)) (.side (.goal ?_))
  simp [closePackage, State.putRevision]

theorem finishPackage_moves (h : finishPackage s fence c = .ok t) : Moves digest s t := by
  obtain ⟨revision, u, hrev, hhead, hu, rfl⟩ := finishPackage_ok h
  have hmoves : Moves digest s u := cancelLive_moves hu
  obtain ⟨tasks, outbox, rfl⟩ := cancelLive_frame hu
  refine .tail (.tail hmoves (.close (mem_of_fencedRevision hrev) hhead)) (.side ?_)
  constructor <;> rfl

theorem stopPackage_moves (h : stopPackage s fence c = .ok t) : Moves digest s t := by
  obtain ⟨-, hlive, revision, u, -, -, hu, rfl⟩ := stopPackage_ok h
  have hmoves : Moves digest s u := cancelLive_moves hu
  obtain ⟨tasks, outbox, rfl⟩ := cancelLive_frame hu
  exact .tail (.tail hmoves (.stop hlive)) (.side (by constructor <;> rfl))

theorem materializeCurrent_moves {revision : PlanRevision} (hst : s.package.status = .running)
    (hrun : s.package.runningRevisionId = some revision.id) (hmem : revision ∈ s.revisions)
    (h : materializeCurrent s revision now = .ok (t, result)) : Moves digest s t := by
  rcases materializeCurrent_ok h with ⟨rfl, -⟩ | ⟨rfl, ordinal, hc, hnone⟩ | ⟨item, ordinal, hm, rfl, -⟩
  · exact .refl
  · exact .single (.complete hst hrun hmem hc hnone)
  · exact .single (.materialize hst hrun hmem hm)

theorem start_moves {r : StartRequest} {revision : PlanRevision} (h : startable digest s r = .ok revision)
    (hm : materializeCurrent (startRevision s revision) revision now = .ok (t, result)) :
    Startable s revision ∧ Moves digest (startRevision s revision) t := by
  obtain ⟨-, -, hs⟩ := startable_ok h
  exact ⟨hs, materializeCurrent_moves rfl rfl hs.mem hm⟩

theorem observeTerminal_moves {taskId : Nat} {result : Option SequenceResult}
    (h : observeTerminal s taskId now = .ok (t, result)) : Moves digest s t := by
  rcases observeTerminal_ok h with ⟨rfl, -⟩ | ⟨l, x, hl, hx, hcur, -, hcase⟩
  · exact .refl
  · obtain ⟨hst, hrun, hc⟩ := isCurrent_iff.mp hcur
    obtain ⟨hmem, hid⟩ := mem_of_linkOf hl
    rcases hcase with ⟨-, rfl⟩ | ⟨hdone, r, hobs⟩
    · have hcursor : ∀ c, s.package.cursorOrdinal = some c → c = l.ordinal := fun c hc' => by
        rw [hc] at hc'
        exact (Option.some.inj hc').symm
      refine .tail (.single (.pause hst hcursor)) (.side ?_)
      constructor <;> first | rfl | exact hc
    · have hadvance : Move digest s (advanceCursor s l.ordinal) := .advance hmem (hid ▸ hx) hdone hcur
      obtain ⟨revision, hrev, rfl | hmat⟩ := observeCompleted_ok hobs
      · exact .single hadvance
      · obtain ⟨hrevmem, hrevid⟩ := mem_of_revision? hrev
        refine .head hadvance (materializeCurrent_moves hst ?_ hrevmem hmat)
        exact hrevid ▸ hrun

theorem processSequenceItem_moves {taskId version : Nat} (h : processSequenceItem s taskId version now = .ok t) :
    Moves digest s t := by
  obtain ⟨-, u, rfl, ⟨result, hu⟩ | ⟨rfl, -⟩⟩ := processSequenceItem_ok h
  · exact .tail (observeTerminal_moves hu) (.side .consumed)
  · exact Moves.side .consumed

theorem skipCurrent_moves (h : skipCurrent s c now = .ok (t, result)) : Moves digest s t := by
  obtain ⟨revision, ordinal, item, u, hon, hu, hcase⟩ := skipCurrent_ok h
  have hmoves : Moves digest s u := cancelLive_moves hu
  obtain ⟨tasks, outbox, rfl⟩ := cancelLive_frame hu
  have hskip : Moves digest s (passItem { s with tasks := tasks, outbox := outbox } revision ordinal item) :=
    .tail hmoves (.skip ⟨hon.status, hon.cursor, hon.running, hon.mem, hon.found⟩)
  rcases hcase with rfl | ⟨hmat, -⟩
  · exact hskip
  · exact hskip.trans (materializeCurrent_moves rfl hon.running hon.mem hmat)

theorem materializeRunning_moves (h : materializeRunning s now = .ok (t, result)) : Moves digest s t := by
  obtain ⟨revision, hrev, hmat⟩ := bind_eq_ok.mp h
  obtain ⟨hst, hrun, hmem⟩ := runningRevision_ok hrev
  exact materializeCurrent_moves hst hrun hmem hmat

theorem retryItem_moves (h : retryItem s fence = .ok t) :
    ∃ u, Moves digest s u ∧ u.package.status = .paused ∧ SameCore (u.withStatus .running) t := by
  obtain ⟨hst, -, run, x, u, hu, rfl⟩ := retryItem_ok h
  refine ⟨u, ?_, ?_, by constructor <;> first | rfl | simp [State.isManaged, State.withStatus]⟩
  · obtain ⟨runs, rfl | ⟨y, hy, htask⟩⟩ := retryBlockedStep_ok hu
    · exact Moves.side (by constructor <;> rfl)
    · exact .head (.side (by constructor <;> rfl)) (transitionTask_moves (mem_of_task? hy).1 (by decide) htask)
  · obtain ⟨runs, rfl | ⟨y, -, htask⟩⟩ := retryBlockedStep_ok hu
    · exact hst
    · obtain ⟨-, rfl⟩ := transitionTask_ok.mp htask
      rw [SameCore.publish.status]
      exact hst

theorem pauseForItemOutcome_moves {r : PauseRequest} (h : pauseForItemOutcome s r = .ok t) : Moves digest s t := by
  obtain ⟨hst, hcursor, rfl⟩ := pauseForItemOutcome_ok h
  exact .tail (.single (.pause hst hcursor)) (.side (by constructor <;> rfl))

theorem interrupt_moves {interrupted : Option Nat} (h : interrupt s c now = .ok (t, interrupted)) : Moves digest s t := by
  rcases interrupt_ok h with rfl | ⟨x, u, result, hx, hlive, hu, hobs⟩
  · exact .refl
  · have hcancel : cancelLive s s.currentTask c = .ok u := by simpa [hx, cancelLive, hlive] using hu
    exact (cancelLive_moves hcancel).trans (observeTerminal_moves hobs)

theorem interrupt_live {interrupted : Option Nat} (h : interrupt s c now = .ok (t, interrupted))
    (hlive : s.package.status.isLive = true) : t.package.status.isLive = true := by
  rcases interrupt_ok h with rfl | ⟨x, u, result, hx, hopen, hu, hobs⟩
  · exact hlive
  · have hcancel : cancelLive s s.currentTask c = .ok u := by simpa [hx, cancelLive, hopen] using hu
    obtain ⟨tasks, outbox, rfl⟩ := cancelLive_frame hcancel
    rcases observeTerminal_ok hobs with ⟨rfl, -⟩ | ⟨l, y, -, hy, -, -, ⟨-, rfl⟩ | ⟨hdone, -⟩⟩
    · exact hlive
    · rfl
    · exact absurd hdone (cancelTask_not_completed hx hopen hu hy)

theorem parkGoal_moves (h : parkGoal s c now = .ok t) : Moves digest s t := by
  obtain ⟨goal, goal', hg, ⟨rfl, -⟩ | ⟨u, interrupted, hu, hlive, -, rfl⟩⟩ := parkGoal_ok h
  · exact Moves.side (.goal (by simp [hg]))
  · have hmoves : Moves digest s u := interrupt_moves hu
    refine .tail (.tail hmoves (.stop (interrupt_live hu hlive))) (.side ?_)
    have hsome : u.goal.isSome = true := by
      have hm := Moves.managed hmoves
      simpa [State.isManaged, hg] using hm
    constructor <;> first | rfl | simp [State.isManaged, State.withStatus, hsome]

/-- The state after `skip_item`: its event names no item. -/
def passUnnamed (s : State) (revisionId ordinal : Nat) : State :=
  { s with
    package := { s.package with cursorOrdinal := some (ordinal + 1), status := .running }
    events := s.events ++ [.itemSkipped revisionId ordinal none] }

/-- A transaction is a sequence of moves, but for a start, the retry of a failed or blocked item, an owner's
    skip of one and the return of a parked package, which are told apart. -/
inductive Effect (digest : PlanBody → Digest) (s : State) : Op → State → Prop
  | moves {op : Op} {t : State} (h : Moves digest s t) : Effect digest s op t
  | start {r : StartRequest} {revision : PlanRevision} {t : State} {result : SequenceResult}
      (h : startable digest s r = .ok revision)
      (hm : materializeCurrent (startRevision s revision) revision r.now = .ok (t, result)) :
      Effect digest s (.start r) t
  | retryFailedItem {fence : Fence} {l : MaterializationLink} (hst : s.package.status = .paused)
      (hl : s.currentLink = some l) : Effect digest s (.retryFailedItem fence) (replaceTask s l)
  | retryItem {fence : Fence} {u t : State} (hu : Moves digest s u) (hst : u.package.status = .paused)
      (h : SameCore (u.withStatus .running) t) : Effect digest s (.retryItem fence) t
  | skipItem {fence : Fence} {revision : PlanRevision} {ordinal : Nat} {t : State}
      (hst : s.package.status = .paused) (hc : s.package.cursorOrdinal = some ordinal)
      (hhead : s.package.headRevisionId = some revision.id) (hmem : revision ∈ s.revisions)
      (h : SameCore (passUnnamed s revision.id ordinal) t) : Effect digest s (.skipItem fence) t
  | unparkGoal {a b c : Bool} {t : State} (h : unparkGoal s a b c = .ok t) : Effect digest s (.unparkGoal a b c) t

theorem perform_effect {op : Op} (h : perform digest s op = .ok t) : Effect digest s op t := by
  cases op with
  | reviseDraft r => exact .moves (reviseDraft_moves h)
  | restartPlan fence now => exact .moves (restartPlan_moves h)
  | approve r => exact .moves (approve_moves h)
  | bindDelegatedApproval r => exact .moves (bindDelegatedApproval_moves h)
  | start r =>
    obtain ⟨⟨u, result⟩, hu, rfl⟩ := map_eq_ok.mp h
    obtain ⟨revision, hstart, hm⟩ := start_ok hu
    exact .start hstart hm
  | discard fence => exact .moves (discard_moves h)
  | stopPackage fence c => exact .moves (stopPackage_moves h)
  | finishPackage fence c => exact .moves (finishPackage_moves h)
  | observeTerminal taskId now =>
    obtain ⟨⟨u, result⟩, hu, rfl⟩ := map_eq_ok.mp h
    exact .moves (observeTerminal_moves hu)
  | processSequenceItem taskId version now => exact .moves (processSequenceItem_moves h)
  | skipCurrent c now =>
    obtain ⟨⟨u, result⟩, hu, rfl⟩ := map_eq_ok.mp h
    exact .moves (skipCurrent_moves hu)
  | materializeRunning now =>
    obtain ⟨⟨u, result⟩, hu, rfl⟩ := map_eq_ok.mp h
    exact .moves (materializeRunning_moves hu)
  | retryFailedItem fence =>
    obtain ⟨⟨u, result⟩, hu, rfl⟩ := map_eq_ok.mp h
    obtain ⟨l, hst, hl, rfl⟩ := retryFailedItem_ok hu
    exact .retryFailedItem hst hl
  | retryItem fence =>
    obtain ⟨u, hu, hst, hsame⟩ := retryItem_moves h
    exact .retryItem hu hst hsame
  | skipItem fence =>
    obtain ⟨hst, revision, ordinal, hc, hhead, hmem, rfl⟩ := skipItem_ok h
    exact .skipItem hst hc hhead hmem (by constructor <;> rfl)
  | pauseForItemOutcome r => exact .moves (pauseForItemOutcome_moves h)
  | parkGoal c now => exact .moves (parkGoal_moves h)
  | unparkGoal a b c => exact .unparkGoal h
  | taskMoves taskId target =>
    obtain ⟨x, hx, hne, h⟩ := taskMoves_ok h
    exact .moves (transitionTask_moves hx hne h)
  | taskProgresses taskId =>
    obtain ⟨x, hx, rfl⟩ := taskProgresses_ok h
    exact .moves (.single (.task hx rfl (Or.inl rfl)))
  | republish taskId =>
    obtain ⟨x, -, rfl⟩ := republish_ok h
    exact .moves (Moves.side .publish)
  | workflowWrites runs commit =>
    cases h
    exact .moves (Moves.side (by constructor <;> rfl))
  | leadWrites goal delegations =>
    cases h
    exact .moves (Moves.side (by constructor <;> first | rfl | simp [State.isManaged, leadWrites]))

theorem perform_managed {op : Op} (h : perform digest s op = .ok t) : t.isManaged = s.isManaged := by
  cases perform_effect h with
  | moves hm => exact Moves.managed hm
  | start hstart hm =>
    have hmoved := Moves.managed (start_moves hstart hm).2
    exact hmoved
  | retryFailedItem => rfl
  | retryItem hu hst hsame =>
    have hmoved := Moves.managed hu
    exact hsame.managed.trans hmoved
  | skipItem hst hc hhead hmem hsame => exact hsame.managed
  | unparkGoal hu =>
    obtain ⟨goal, goal', hg, -, rfl | ⟨_, _, _, -, -, rfl⟩⟩ := unparkGoal_ok hu <;> simp [State.isManaged, hg]

end Vuzol.Discussion
