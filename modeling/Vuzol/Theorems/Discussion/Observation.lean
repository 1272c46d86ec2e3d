import Vuzol.Theorems.Discussion.Sequencing

/-! Completed items. The end of a task is published to the outbox, and the observation of it moves the cursor;
    a row that is consumed while its package does not run moves nothing. -/

namespace Vuzol.Discussion

open Vuzol.Lib

variable {digest : PlanBody → Digest} {s t : State}
variable {l : MaterializationLink} {now : Nat} {revision : PlanRevision} {result : SequenceResult}

/-! ### Parked packages -/

def State.parked (s : State) : Option Parked := s.goal.bind (·.parked)

def State.saved (s : State) : Option WorkPackageStatus := (s.parked.bind (·.package)).map Prod.fst

theorem State.parked_congr (h : t.goal.map (·.parked) = s.goal.map (·.parked)) : t.parked = s.parked := by
  have hbind : ∀ goal : Option ManagedGoal, goal.bind (·.parked) = (goal.map (·.parked)).join := fun goal => by
    cases goal <;> rfl
  simp only [State.parked, hbind, h]

theorem State.parked_of_goal (h : t.goal = s.goal) : t.parked = s.parked := by simp only [State.parked, h]

theorem transitionTask_goal {x : Task} {target : Workflow.TaskStatus} (h : transitionTask s x target = .ok t) :
    t.goal = s.goal := by
  obtain ⟨-, rfl⟩ := transitionTask_ok.mp h
  unfold publishTaskEvent
  split <;> rfl

theorem materializeCurrent_goal (h : materializeCurrent s revision now = .ok (t, result)) : t.goal = s.goal := by
  rcases materializeCurrent_ok h with ⟨rfl, -⟩ | ⟨rfl, -⟩ | ⟨item, ordinal, -, rfl, -⟩ <;> rfl

variable {taskId : Nat}

theorem observeTerminal_goal {result : Option SequenceResult}
    (h : observeTerminal s taskId now = .ok (t, result)) : t.goal = s.goal := by
  rcases observeTerminal_ok h with ⟨rfl, -⟩ | ⟨l, x, -, -, -, -, ⟨-, rfl⟩ | ⟨-, r, hobs⟩⟩
  · rfl
  · rfl
  · obtain ⟨revision, -, rfl | hmat⟩ := observeCompleted_ok hobs
    · rfl
    · have hgoal := materializeCurrent_goal hmat
      exact hgoal

theorem settleGoal_parked : (settleGoal s).goal.map (·.parked) = s.goal.map (·.parked) := by
  unfold settleGoal
  cases hg : s.goal with
  | none => simp
  | some goal => rfl

def Op.parks : Op → Bool
  | .parkGoal .. | .unparkGoal .. => true
  | _ => false

variable {op : Op}

theorem perform_parked (hop : op.parks = false) (hp : perform digest s op = .ok t) : t.parked = s.parked := by
  cases op with
  | reviseDraft r =>
    obtain ⟨previous, u, v, -, hu, hv, rfl⟩ := reviseDraft_ok hp
    obtain ⟨⟨drafts, rfl, -⟩, -⟩ := requireManagedChange_ok hu
    obtain ⟨ids, drafts', revision, -, -, rfl⟩ := createRevision_ok hv
    rfl
  | restartPlan fence now =>
    obtain ⟨-, -, plan, w, hw, rfl⟩ := restartPlan_ok hp
    obtain ⟨previous, u, v, -, hu, hv, rfl⟩ := reviseDraft_ok hw
    obtain ⟨⟨drafts, rfl, -⟩, -⟩ := requireManagedChange_ok hu
    obtain ⟨ids, drafts', revision, -, -, rfl⟩ := createRevision_ok hv
    rfl
  | approve r =>
    obtain ⟨-, revision, goal, -, hparked, ⟨rfl, -, -⟩ | ⟨-, rfl⟩⟩ := approve_ok hp
    · exact State.parked_congr hparked
    · exact State.parked_congr (settleGoal_parked.trans hparked)
  | bindDelegatedApproval r =>
    obtain ⟨-, revision, -, -, rfl⟩ := bindDelegatedApproval_ok hp
    rfl
  | start r =>
    obtain ⟨⟨u, result⟩, hu, rfl⟩ := map_eq_ok.mp hp
    obtain ⟨revision, -, hm⟩ := start_ok hu
    have hgoal := materializeCurrent_goal hm
    exact State.parked_of_goal hgoal
  | discard fence =>
    obtain ⟨-, -, revision, -, -, rfl⟩ := discard_ok hp
    refine State.parked_congr ?_
    simp only [Option.map_map]
    congr 1
    funext g
    simp only [Function.comp_apply, ManagedGoal.planDiscarded]
    split <;> rfl
  | stopPackage fence c =>
    obtain ⟨-, -, revision, u, -, -, hu, rfl⟩ := stopPackage_ok hp
    obtain ⟨tasks, outbox, rfl⟩ := cancelLive_frame hu
    rfl
  | finishPackage fence c =>
    obtain ⟨revision, u, -, -, hu, rfl⟩ := finishPackage_ok hp
    obtain ⟨tasks, outbox, rfl⟩ := cancelLive_frame hu
    rfl
  | observeTerminal taskId now =>
    obtain ⟨⟨u, result⟩, hu, rfl⟩ := map_eq_ok.mp hp
    exact State.parked_of_goal (observeTerminal_goal hu)
  | processSequenceItem taskId version now =>
    obtain ⟨-, u, rfl, ⟨result, hu⟩ | ⟨rfl, -⟩⟩ := processSequenceItem_ok hp
    · have hgoal := observeTerminal_goal hu
      exact State.parked_of_goal hgoal
    · rfl
  | skipCurrent c now =>
    obtain ⟨⟨w, result⟩, hw, rfl⟩ := map_eq_ok.mp hp
    obtain ⟨revision, ordinal, item, u, -, hu, hcase⟩ := skipCurrent_ok hw
    obtain ⟨tasks, outbox, rfl⟩ := cancelLive_frame hu
    rcases hcase with rfl | ⟨hmat, -⟩
    · rfl
    · have hgoal := materializeCurrent_goal hmat
      exact State.parked_of_goal hgoal
  | materializeRunning now =>
    obtain ⟨⟨u, result⟩, hu, rfl⟩ := map_eq_ok.mp hp
    obtain ⟨revision, -, hmat⟩ := bind_eq_ok.mp hu
    exact State.parked_of_goal (materializeCurrent_goal hmat)
  | retryFailedItem fence =>
    obtain ⟨⟨u, result⟩, hu, rfl⟩ := map_eq_ok.mp hp
    obtain ⟨l, -, -, rfl⟩ := retryFailedItem_ok hu
    rfl
  | retryItem fence =>
    obtain ⟨-, -, run, x, u, hu, rfl⟩ := retryItem_ok hp
    have hgoal : u.goal = s.goal := by
      obtain ⟨runs, rfl | ⟨y, -, htask⟩⟩ := retryBlockedStep_ok hu
      · rfl
      · have hsame := transitionTask_goal htask
        exact hsame
    refine State.parked_congr ?_
    simp only [hgoal, Option.map_map]
    congr 1
    funext g
    simp only [Function.comp_apply, ManagedGoal.retryAnswered]
    split <;> rfl
  | skipItem fence =>
    obtain ⟨-, revision, ordinal, -, -, -, rfl⟩ := skipItem_ok hp
    rfl
  | pauseForItemOutcome r =>
    obtain ⟨-, -, rfl⟩ := pauseForItemOutcome_ok hp
    rfl
  | taskMoves taskId target =>
    obtain ⟨x, -, -, hp⟩ := taskMoves_ok hp
    exact State.parked_of_goal (transitionTask_goal hp)
  | taskProgresses taskId =>
    obtain ⟨x, -, rfl⟩ := taskProgresses_ok hp
    rfl
  | republish taskId =>
    obtain ⟨x, -, rfl⟩ := republish_ok hp
    unfold publishTaskEvent
    split <;> rfl
  | workflowWrites runs commit =>
    cases hp
    rfl
  | leadWrites goal delegations =>
    cases hp
    refine State.parked_congr ?_
    simp only [leadWrites, Option.map_map]
    rfl
  | parkGoal | unparkGoal => cases hop

/-- The commands of the plan and of its queue, the parking of the goal, the observations and what other
    subsystems write; not the commands that bring a stopped package back or close it. -/
def Op.hears : Op → Bool
  | .restartPlan .. | .finishPackage .. => false
  | _ => true

theorem perform_stopped (hop : op.hears = true) (hpark : op.parks = false)
    (hst : s.package.status = .stopped) (hp : perform digest s op = .ok t) :
    SameCore s t ∨ ∃ x ∈ s.tasks, ∃ y : Task, y.id = x.id ∧ (y.status = x.status ∨ Follows x.status y.status) ∧
      SameCore (s.putTask y) t := by
  have hlive : s.package.status.isLive = false := by rw [hst]; rfl
  cases op with
  | reviseDraft r =>
    obtain ⟨previous, u, v, hrev, -⟩ := reviseDraft_ok hp
    rcases (revisable_ok hrev).1 with hl | ⟨hallow, -⟩
    · rw [hl] at hlive
      cases hlive
    · cases hallow
  | approve r =>
    obtain ⟨-, revision, goal, -, -, ⟨-, hst', -⟩ | ⟨hwait, -⟩⟩ := approve_ok hp
    · cases hst.symm.trans hst'
    · cases hst.symm.trans hwait.status
  | bindDelegatedApproval r =>
    obtain ⟨-, revision, -, hwait, -⟩ := bindDelegatedApproval_ok hp
    cases hst.symm.trans hwait.status
  | start r =>
    obtain ⟨⟨u, result⟩, hu, -⟩ := map_eq_ok.mp hp
    obtain ⟨revision, hstart, -⟩ := start_ok hu
    cases hst.symm.trans (startable_ok hstart).2.2.status
  | discard fence =>
    obtain ⟨-, hl, -⟩ := discard_ok hp
    rw [hl] at hlive
    cases hlive
  | stopPackage fence c =>
    obtain ⟨-, hl, -⟩ := stopPackage_ok hp
    rw [hl] at hlive
    cases hlive
  | observeTerminal taskId now =>
    obtain ⟨⟨u, result⟩, hu, rfl⟩ := map_eq_ok.mp hp
    rcases observeTerminal_ok hu with ⟨rfl, -⟩ | ⟨l, x, -, -, hcur, -⟩
    · exact Or.inl .refl
    · cases hst.symm.trans (isCurrent_iff.mp hcur).1
  | processSequenceItem taskId version now =>
    obtain ⟨-, u, rfl, ⟨result, hu⟩ | ⟨rfl, -⟩⟩ := processSequenceItem_ok hp
    · rcases observeTerminal_ok hu with ⟨rfl, -⟩ | ⟨l, x, -, -, hcur, -⟩
      · exact Or.inl .consumed
      · cases hst.symm.trans (isCurrent_iff.mp hcur).1
    · exact Or.inl .consumed
  | skipCurrent c now =>
    obtain ⟨⟨w, result⟩, hw, rfl⟩ := map_eq_ok.mp hp
    obtain ⟨revision, ordinal, item, u, hon, -⟩ := skipCurrent_ok hw
    rcases hon.status with hst' | hst' <;> cases hst.symm.trans hst'
  | materializeRunning now =>
    obtain ⟨⟨u, result⟩, hu, rfl⟩ := map_eq_ok.mp hp
    obtain ⟨revision, hrev, -⟩ := bind_eq_ok.mp hu
    cases hst.symm.trans (runningRevision_ok hrev).1
  | retryFailedItem fence =>
    obtain ⟨⟨u, result⟩, hu, rfl⟩ := map_eq_ok.mp hp
    obtain ⟨l, hst', -⟩ := retryFailedItem_ok hu
    cases hst.symm.trans hst'
  | retryItem fence => cases hst.symm.trans (retryItem_ok hp).1
  | skipItem fence => cases hst.symm.trans (skipItem_ok hp).1
  | pauseForItemOutcome r => cases hst.symm.trans (pauseForItemOutcome_ok hp).1
  | taskMoves taskId target =>
    obtain ⟨x, hx, hne, hp⟩ := taskMoves_ok hp
    obtain ⟨hmem, rfl⟩ := transitionTask_ok.mp hp
    exact Or.inr ⟨x, hx, { x with status := target, version := x.version + 1 }, rfl, Or.inr ⟨hmem, hne⟩, .publish⟩
  | taskProgresses taskId =>
    obtain ⟨x, hx, rfl⟩ := taskProgresses_ok hp
    exact Or.inr ⟨x, hx, { x with version := x.version + 1 }, rfl, Or.inl rfl, .refl⟩
  | republish taskId =>
    obtain ⟨x, -, rfl⟩ := republish_ok hp
    exact Or.inl .publish
  | workflowWrites runs commit =>
    cases hp
    exact Or.inl (by constructor <;> rfl)
  | leadWrites goal delegations =>
    cases hp
    exact Or.inl (by constructor <;> first | rfl | simp [State.isManaged, leadWrites])
  | restartPlan | finishPackage => cases hop
  | parkGoal | unparkGoal => cases hpark

structure Safe (digest : PlanBody → Digest) (s : State) : Prop where
  sound : Sound digest s
  returns : ∀ status, s.saved = some status → s.package.status = .stopped ∧ Sound digest (s.withStatus status)

theorem SameCore.withStatus (h : SameCore s t) {status : WorkPackageStatus} :
    SameCore (s.withStatus status) (t.withStatus status) :=
  { h with status := rfl }

theorem Safe.perform (h : Safe digest s) (hop : op.hears = true) (hp : perform digest s op = .ok t) :
    Safe digest t := by
  by_cases hpark : op.parks = false
  · have hsaved : t.saved = s.saved := by simp only [State.saved, perform_parked hpark hp]
    have hnot : ∀ a b c, op ≠ .unparkGoal a b c := by
      rintro a b c rfl
      cases hpark
    refine ⟨h.sound.perform hnot hp, fun status hs => ?_⟩
    obtain ⟨hst, hreturned⟩ := h.returns status (hsaved ▸ hs)
    rcases perform_stopped hop hpark hst hp with hsame | ⟨x, hx, y, hid, hy, hsame⟩
    · exact ⟨hsame.status.trans hst, hreturned.sameCore hsame.withStatus⟩
    · have hmoved : Sound digest ((s.withStatus status).putTask y) := hreturned.move (.task hx hid hy)
      exact ⟨hsame.status.trans hst, hmoved.sameCore hsame.withStatus⟩
  · cases op with
    | parkGoal c now =>
      have hsound : Sound digest t := h.sound.perform (by rintro a b c ⟨⟩) hp
      obtain ⟨goal, goal', hg, ⟨rfl, hnone⟩ | ⟨u, interrupted, hu, -, hsaved, rfl⟩⟩ := parkGoal_ok hp
      · refine ⟨hsound, fun status hs => ?_⟩
        simp [State.saved, State.parked, hnone] at hs
      · refine ⟨hsound, fun status hs => ⟨rfl, ?_⟩⟩
        have hst : u.package.status = status := by simpa [State.saved, State.parked, hsaved] using hs
        have hmoves : Moves digest s u := interrupt_moves hu
        refine (h.sound.moves hmoves).sameCore ?_
        have hmanaged : u.isManaged = true := by
          rw [Moves.managed hmoves]
          simp [State.isManaged, hg]
        constructor <;> first | rfl | exact hst.symm | exact hmanaged.symm
    | unparkGoal a b c =>
      obtain ⟨goal, goal', hg, hnone, hcase⟩ := unparkGoal_ok hp
      have hmanaged : s.isManaged = true := by simp [State.isManaged, hg]
      have hunsaved : t.saved = none := by
        rcases hcase with rfl | ⟨_, _, _, -, -, rfl⟩ <;> simp [State.saved, State.parked, hnone]
      refine ⟨?_, fun status hs => by rw [hunsaved] at hs; cases hs⟩
      rcases hcase with rfl | ⟨status, active, topic, hsaved, -, rfl⟩
      · exact h.sound.sameCore (.goal (by simp [hg]))
      · obtain ⟨-, hreturned⟩ := h.returns status (by simp [State.saved, State.parked, hg, hsaved])
        refine hreturned.sameCore ?_
        constructor <;> first | rfl | exact hmanaged.symm
    | _ => exact absurd rfl hpark

/-! ### Published ends -/

def Standing (s : State) : Prop := s.package.status.isLive = true ∨ s.saved ≠ none

structure Heard (s : State) : Prop where
  rows : ∀ row ∈ s.outbox, ∃ x ∈ s.tasks, x.id = row.taskId ∧ row.version ≤ x.version
  pending : Standing s → ∀ l, s.currentLink = some l → ∀ x ∈ s.tasks, x.id = l.taskId → x.status = .completed →
    ∃ row ∈ s.outbox, row.taskId = l.taskId ∧ row.consumed = false

theorem currentLink_congr (hlinks : t.links = s.links)
    (hrun : t.package.runningRevisionId = s.package.runningRevisionId)
    (hcursor : t.package.cursorOrdinal = s.package.cursorOrdinal) : t.currentLink = s.currentLink := by
  simp only [State.currentLink, State.linkAt, hlinks, hrun, hcursor]

theorem currentLink_none (h : ∀ l ∈ s.links, s.package.runningRevisionId = some l.planRevisionId →
    s.package.cursorOrdinal ≠ some l.ordinal) : s.currentLink = none := by
  cases hl : s.currentLink with
  | none => rfl
  | some l =>
    obtain ⟨hmem, hrun, hcursor⟩ := currentLink_ok hl
    exact absurd hcursor (h l hmem hrun)

section Publish
variable {x : Task}

theorem mem_publishTaskEvent {row : SequenceItem} (h : row ∈ (publishTaskEvent s x).outbox) :
    row ∈ s.outbox ∨ row = { taskId := x.id, version := x.version } := by
  unfold publishTaskEvent at h
  split at h
  · simpa using h
  · exact Or.inl h

theorem publishTaskEvent_subset : s.outbox ⊆ (publishTaskEvent s x).outbox := by
  unfold publishTaskEvent
  split
  · exact List.subset_append_left _ _
  · exact fun _ h => h

theorem publishTaskEvent_mem (hlink : ∃ l ∈ s.links, l.taskId = x.id) (hend : publishesTerminal x.status = true)
    (hnew : ∀ row ∈ s.outbox, row.taskId = x.id → row.version ≠ x.version) :
    { taskId := x.id, version := x.version } ∈ (publishTaskEvent s x).outbox := by
  have hlinked : (s.linkOf x.id).isSome = true := by
    obtain ⟨l, hl, hid⟩ := hlink
    simp only [State.linkOf, List.find?_isSome, beq_iff_eq]
    exact ⟨l, hl, hid⟩
  have hfresh : s.outbox.any (fun row => row.taskId == x.id && row.version == x.version) = false := by
    simpa [List.any_eq_false] using hnew
  simp [publishTaskEvent, hlinked, hend, hfresh]

theorem standing_publish : Standing (publishTaskEvent s x) ↔ Standing s := by
  unfold publishTaskEvent
  split <;> rfl

end Publish

namespace Heard

section
variable (h : Heard s)
include h

theorem keep (htasks : t.tasks = s.tasks) (houtbox : t.outbox = s.outbox)
    (hcurrent : t.currentLink = s.currentLink) (hstanding : Standing t → Standing s) : Heard t where
  rows := by rw [htasks, houtbox]; exact h.rows
  pending hs := by rw [htasks, houtbox, hcurrent]; exact h.pending (hstanding hs)

theorem leave (htasks : t.tasks = s.tasks) (houtbox : t.outbox = s.outbox)
    (hcurrent : t.currentLink = none) : Heard t where
  rows := by rw [htasks, houtbox]; exact h.rows
  pending _ l hl := by rw [hcurrent] at hl; cases hl

theorem renew (hrows : Rows digest s) (htasks : t.tasks = s.tasks ++ [interpretedTask s.tasks.length])
    (houtbox : t.outbox = s.outbox) (hcurrent : ∀ l, t.currentLink = some l → l.taskId = s.tasks.length) : Heard t where
  rows row hrow := by
    obtain ⟨x, hx, hrest⟩ := h.rows row (houtbox ▸ hrow)
    exact ⟨x, htasks ▸ List.mem_append_left _ hx, hrest⟩
  pending _ l hl x hx hid hdone := by
    rw [htasks] at hx
    rcases Lib.mem_concat.mp hx with hx | rfl
    · have hlt := hrows.task_lt hx
      rw [hid, hcurrent l hl] at hlt
      exact absurd hlt (lt_irrefl _)
    · cases hdone

theorem publish {x : Task} (hx : x ∈ s.tasks) : Heard (publishTaskEvent s x) := by
  have hsame : SameCore s (publishTaskEvent s x) := .publish
  have hcurrent := currentLink_congr hsame.links hsame.running hsame.cursor
  constructor
  · intro row hrow
    rw [hsame.tasks]
    rcases mem_publishTaskEvent hrow with hrow | rfl
    · exact h.rows row hrow
    · exact ⟨x, hx, rfl, le_rfl⟩
  · intro hs l hl y hy hid hdone
    rw [hsame.tasks] at hy
    rw [hcurrent] at hl
    obtain ⟨row, hrow, hrest⟩ := h.pending (standing_publish.mp hs) l hl y hy hid hdone
    exact ⟨row, publishTaskEvent_subset hrow, hrest⟩

theorem rows_putTask (hs : Rows digest s) {x y : Task} (hx : x ∈ s.tasks) (hid : y.id = x.id)
    (hversion : x.version ≤ y.version) :
    ∀ row ∈ s.outbox, ∃ z ∈ (s.putTask y).tasks, z.id = row.taskId ∧ row.version ≤ z.version := by
  intro row hrow
  obtain ⟨z, hz, hzid, hle⟩ := h.rows row hrow
  by_cases hk : z.key = y.key
  · cases eq_of_key_eq hs.task_nodup hz hx (hk.trans hid)
    exact ⟨y, mem_put_self hz hk, hid.trans hzid, hle.trans hversion⟩
  · exact ⟨z, mem_put_of_ne hz hk, hzid, hle⟩

theorem progress (hs : Rows digest s) {x y : Task} (hx : x ∈ s.tasks) (hid : y.id = x.id)
    (hversion : x.version ≤ y.version) (hstatus : y.status = x.status) : Heard (s.putTask y) := by
  refine ⟨h.rows_putTask hs hx hid hversion, fun hst l hl z hz hzid hzdone => ?_⟩
  rcases mem_put.mp hz with ⟨rfl, -⟩ | ⟨hz, -⟩
  · exact h.pending hst l hl x hx (hid.symm.trans hzid) (hstatus.symm.trans hzdone)
  · exact h.pending hst l hl z hz hzid hzdone

theorem transition (hs : Rows digest s) {x : Task} (hx : x ∈ s.tasks) {target : Workflow.TaskStatus}
    (ht : transitionTask s x target = .ok t) : Heard t := by
  obtain ⟨-, rfl⟩ := transitionTask_ok.mp ht
  set y : Task := { x with status := target, version := x.version + 1 } with hy
  have hsame : SameCore (s.putTask y) (publishTaskEvent (s.putTask y) y) := .publish
  have hcurrent : (publishTaskEvent (s.putTask y) y).currentLink = s.currentLink :=
    currentLink_congr hsame.links hsame.running hsame.cursor
  have hput : y ∈ (s.putTask y).tasks := mem_put_self hx rfl
  constructor
  · intro row hrow
    rw [hsame.tasks]
    rcases mem_publishTaskEvent hrow with hrow | rfl
    · exact h.rows_putTask (y := y) hs hx rfl (Nat.le_succ x.version) row hrow
    · exact ⟨y, hput, rfl, le_rfl⟩
  · intro hst l hl z hz hzid hdone
    rw [hsame.tasks] at hz
    rw [hcurrent] at hl
    rcases mem_put.mp hz with ⟨rfl, -⟩ | ⟨hz, -⟩
    · refine ⟨_, publishTaskEvent_mem ⟨l, (currentLink_ok hl).1, hzid.symm⟩ ?_ ?_, hzid, rfl⟩
      · rw [hdone]
        rfl
      · intro row hrow hid hversion
        obtain ⟨w, hw, hwid, hle⟩ := h.rows row hrow
        cases eq_of_key_eq hs.task_nodup hw hx (hwid.trans hid)
        rw [hversion] at hle
        exact absurd hle (Nat.not_succ_le_self _)
    · have hst' : Standing (s.putTask y) := standing_publish.mp hst
      obtain ⟨row, hrow, hrest⟩ := h.pending hst' l hl z hz hzid hdone
      exact ⟨row, publishTaskEvent_subset hrow, hrest⟩

end

theorem cancelLive (h : Heard s) (hs : Rows digest s) {c : Cancellation}
    (ht : cancelLive s s.currentTask c = .ok t) : Heard t := by
  rcases cancelLive_ok ht with rfl | ⟨x, hx, -, hcancel⟩
  · exact h
  · obtain ⟨l, -, hmem, -⟩ := currentTask_ok hx
    exact h.transition hs hmem hcancel

theorem materialize (h : Heard s) (hs : Rows digest s) (hrun : s.package.runningRevisionId = some revision.id)
    (hm : materializeCurrent s revision now = .ok (t, result)) : Heard t := by
  rcases materializeCurrent_ok hm with ⟨rfl, -⟩ | ⟨rfl, -⟩ | ⟨item, ordinal, hmat, rfl, -⟩
  · exact h
  · exact h.leave rfl rfl (currentLink_none fun l _ _ hc => by cases hc)
  · refine h.renew hs rfl rfl fun l hl => ?_
    obtain ⟨hmem, hrun', hcursor⟩ := currentLink_ok hl
    rcases Lib.mem_concat.mp hmem with hmem | rfl
    · have hkey := List.find?_eq_none.mp hmat.unlinked l hmem
      have hid := Option.some.inj (hrun.symm.trans hrun')
      have hord := Option.some.inj (hmat.cursor.symm.trans hcursor)
      simp [hid, hord] at hkey
    · rfl

end Heard

theorem Queue.next_unlinked (h : Queue s) (hlinks : t.links = s.links)
    (hrun : t.package.runningRevisionId = s.package.runningRevisionId) {c : Nat}
    (hc : s.package.cursorOrdinal = some c) (hc' : t.package.cursorOrdinal = some (c + 1)) : t.currentLink = none := by
  refine currentLink_none fun l hl hrun' hcursor => ?_
  have hle := h.linkPassed l (hlinks ▸ hl) (hrun ▸ hrun') c hc
  have hord := Option.some.inj (hc'.symm.trans hcursor)
  omega

theorem Queue.currentLink_eq (h : Queue s) (hl : l ∈ s.links) (hrun : s.package.runningRevisionId = some l.planRevisionId)
    (hc : s.package.cursorOrdinal = some l.ordinal) : s.currentLink = some l := by
  have hat : s.linkAt l.planRevisionId l.ordinal = some l :=
    find?_unique h.linkKeys hl (by simp) fun k hk hkey => by simpa using hkey
  simp [State.currentLink, hrun, hc, hat]

/-! ### Consumed rows -/

def Deaf (s : State) (taskId : Nat) : Prop :=
  Standing s ∧ s.package.status ≠ .running ∧
    ∃ l, s.currentLink = some l ∧ l.taskId = taskId ∧ ∃ x ∈ s.tasks, x.id = taskId ∧ x.status = .completed

def NotOn (s : State) (taskId : Nat) : Prop :=
  Standing s → ∀ l, s.currentLink = some l → l.taskId = taskId → ∀ x ∈ s.tasks, x.id = taskId → x.status ≠ .completed

theorem Heard.consume (h : Heard s) {taskId version : Nat} (hnot : NotOn s taskId) :
    Heard (markConsumed s taskId version) where
  rows row hrow := by
    obtain ⟨row0, hrow0, rfl⟩ := List.mem_map.mp hrow
    obtain ⟨x, hx, hid, hle⟩ := h.rows row0 hrow0
    refine ⟨x, hx, ?_⟩
    split
    · exact ⟨hid, hle⟩
    · exact ⟨hid, hle⟩
  pending hs l hl x hx hid hdone := by
    obtain ⟨row, hrow, hrid, hopen⟩ := h.pending hs l hl x hx hid hdone
    have hne : row.taskId ≠ taskId := fun heq =>
      hnot hs l hl (hrid.symm.trans heq) x hx (hid.trans (hrid.symm.trans heq)) hdone
    refine ⟨row, List.mem_map.mpr ⟨row, hrow, ?_⟩, hrid, hopen⟩
    rw [if_neg fun hkey => hne hkey.1]

theorem observeTerminal_heard (h : Heard s) (hs : Sound digest s) {result : Option SequenceResult}
    (ho : observeTerminal s taskId now = .ok (t, result)) : Heard t ∧ (¬Deaf s taskId → NotOn t taskId) := by
  rcases observeTerminal_ok ho with ⟨rfl, hcur⟩ | ⟨l, x, hl, hx, hcur, -, ⟨hopen, rfl⟩ | ⟨hdone, r, hobs⟩⟩
  · refine ⟨h, fun hdeaf hst l hl hid x hx hxid hdone => hdeaf ⟨hst, fun hrunning => ?_, l, hl, hid, x, hx, hxid, hdone⟩⟩
    obtain ⟨hmem, hrun, hc⟩ := currentLink_ok hl
    have hnot := hcur l (hid ▸ hs.queue.linkOf_eq hmem)
    rw [isCurrent_iff.mpr ⟨hrunning, hrun, hc⟩] at hnot
    cases hnot
  · obtain ⟨hst, -, -⟩ := isCurrent_iff.mp hcur
    have hstanding : Standing s := Or.inl (by rw [hst]; rfl)
    refine ⟨h.keep rfl rfl rfl fun _ => hstanding, fun _ _ k _ hkid y hy hyid => ?_⟩
    obtain ⟨hmem, hid⟩ := mem_of_task? hx
    cases eq_of_key_eq hs.rows.task_nodup hy hmem (hyid.trans hid.symm)
    exact hopen
  · obtain ⟨-, hrun, hc⟩ := isCurrent_iff.mp hcur
    obtain ⟨hmem, hid⟩ := mem_of_linkOf hl
    have hadvance : Move digest s (advanceCursor s l.ordinal) := .advance hmem (hid ▸ hx) hdone hcur
    have hnone : (advanceCursor s l.ordinal).currentLink = none := hs.queue.next_unlinked rfl rfl hc rfl
    have hleft : Heard (advanceCursor s l.ordinal) := h.leave rfl rfl hnone
    obtain ⟨revision, hrev, rfl | hmat⟩ := observeCompleted_ok hobs
    · exact ⟨hleft, fun _ _ k hk => by rw [hnone] at hk; cases hk⟩
    · have hrun' : (advanceCursor s l.ordinal).package.runningRevisionId = some revision.id := by
        rw [(mem_of_revision? hrev).2]
        exact hrun
      refine ⟨hleft.materialize (hs.move hadvance).rows hrun' hmat, fun _ _ k hk hkid y hy hyid => ?_⟩
      rcases materializeCurrent_ok hmat with ⟨rfl, -⟩ | ⟨rfl, -⟩ | ⟨item, ordinal, hmat', rfl, -⟩
      · rw [hnone] at hk
        cases hk
      · obtain ⟨-, -, hcursor⟩ := currentLink_ok hk
        cases hcursor
      · -- The task is older than the one that was just added.
        obtain ⟨hkmem, hkrun, hkc⟩ := currentLink_ok hk
        rcases List.mem_append.mp hkmem with hkmem | hkmem
        · have hcur' := (hs.move hadvance).queue.currentLink_eq hkmem hkrun hkc
          rw [hnone] at hcur'
          cases hcur'
        · have hlt := hs.rows.task_lt (mem_of_task? hx).1
          rw [List.mem_singleton.mp hkmem] at hkid
          rw [(mem_of_task? hx).2, ← hkid] at hlt
          exact absurd hlt (lt_irrefl _)

/-- The errors for which `process_one` gives a row up. -/
def Error.isDeadLetter : Error → Bool
  | .domain .materializedTaskMissing | .domain .taskNotTerminal => true
  | _ => false

theorem materializeCurrent_errors :
    Meets (fun _ => True) (fun e => e.isDeadLetter = false) (materializeCurrent s revision now) := by
  unfold materializeCurrent
  split
  · trivial
  · split
    · rfl
    · split
      · trivial
      · split
        · trivial
        · refine Meets.bind (P := fun _ => True) ?_ fun _ _ => Meets.bind (P := fun _ => True) ?_ fun _ _ => trivial
          · unfold checkItemDependencies
            split
            · trivial
            · rfl
          · unfold approvalProvenance
            split
            · trivial
            · split
              · rfl
              · split
                · rfl
                · trivial

theorem observeCompleted_errors : Meets (fun _ => True) (fun e => e.isDeadLetter = false) (observeCompleted s l now) := by
  unfold observeCompleted
  split
  · rfl
  · simp only
    split
    · trivial
    · exact materializeCurrent_errors

theorem observeTerminal_deadLetter (hs : Sound digest s) {e : Error}
    (ho : observeTerminal s taskId now = .error e) (he : e.isDeadLetter = true) (hdeaf : ¬Deaf s taskId) :
    NotOn s taskId := by
  rintro hst l hl rfl x hx hid hdone
  refine hdeaf ⟨hst, fun hrunning => ?_, l, hl, rfl, x, hx, hid, hdone⟩
  obtain ⟨hmem, hrun, hc⟩ := currentLink_ok hl
  have hcur : isCurrent s l = true := isCurrent_iff.mpr ⟨hrunning, hrun, hc⟩
  have htask : s.task? l.taskId = some x := hid ▸ hs.rows.task?_eq hx
  have hmeets : Meets (fun _ => True) (fun e => e.isDeadLetter = false) (observeTerminal s l.taskId now) := by
    unfold observeTerminal
    simp only [hs.queue.linkOf_eq hmem, htask, hcur, hdone, Bool.not_true, Bool.false_eq_true, if_false, if_true]
    exact observeCompleted_errors.bind fun _ _ => trivial
  have hnot := hmeets.of_error ho
  simp only [he, Bool.true_eq_false] at hnot

/-! ### Transactions -/

def ListensTo (s : State) (op : Op) : Prop := ∀ taskId version now, op = .processSequenceItem taskId version now → ¬Deaf s taskId

theorem Standing.of_parked (hparked : t.parked = s.parked)
    (hlive : t.package.status.isLive = true → s.package.status.isLive = true) (h : Standing t) : Standing s := by
  have hsaved : t.saved = s.saved := by simp only [State.saved, hparked]
  rcases h with h | h
  · exact Or.inl (hlive h)
  · exact Or.inr (hsaved ▸ h)

theorem Heard.start (h : Heard s) (hs : Sound digest s) {r : StartRequest} (hstart : startable digest s r = .ok revision)
    (hm : materializeCurrent (startRevision s revision) revision r.now = .ok (t, result)) : Heard t := by
  obtain ⟨-, -, hs'⟩ := startable_ok hstart
  have hleft : Heard (startRevision s revision) := by
    refine h.leave rfl rfl (currentLink_none fun l hl hrun _ => ?_)
    have hid : revision.id = l.planRevisionId := Option.some.inj hrun
    exact absurd hid ((hs.head_unstarted hs').2 l hl).ne'
  exact hleft.materialize (hs.start hs').rows rfl hm

theorem Heard.replaceTask (h : Heard s) (hs : Sound digest s) (hl : s.currentLink = some l) : Heard (replaceTask s l) := by
  obtain ⟨hmem, hrun, hc⟩ := currentLink_ok hl
  refine h.renew hs.rows rfl rfl fun k hk => ?_
  obtain ⟨hkmem, hkrun, hkc⟩ := currentLink_ok hk
  rcases mem_put.mp hkmem with ⟨rfl, -⟩ | ⟨-, hne⟩
  · rfl
  · have hid := Option.some.inj (hkrun.symm.trans hrun)
    have hord := Option.some.inj (hkc.symm.trans hc)
    exact absurd (Prod.ext hid hord) hne

theorem Heard.interrupt (h : Heard s) (hs : Sound digest s) {c : Cancellation} {interrupted : Option Nat}
    (hi : interrupt s c now = .ok (t, interrupted)) : Heard t := by
  rcases interrupt_ok hi with rfl | ⟨x, u, result, hx, hopen, hu, hobs⟩
  · exact h
  · have hcancel : Discussion.cancelLive s s.currentTask c = .ok u := by
      simpa [hx, Discussion.cancelLive, hopen] using hu
    exact (observeTerminal_heard (h.cancelLive hs.rows hcancel) (hs.moves (cancelLive_moves hcancel)) hobs).1

theorem Heard.perform (h : Heard s) (hsafe : Safe digest s) (hop : op.hears = true)
    (hlistens : ListensTo s op) (hp : perform digest s op = .ok t) : Heard t := by
  have hs := hsafe.sound
  -- A package that is still live was live, and what a park saved is the same.
  have hstanding : op.parks = false → (t.package.status.isLive = true → s.package.status.isLive = true) →
      Standing t → Standing s := fun hpark => Standing.of_parked (perform_parked hpark hp)
  cases op with
  | reviseDraft r =>
    obtain ⟨previous, u, v, hrev, hu, hv, rfl⟩ := reviseDraft_ok hp
    obtain ⟨⟨drafts, rfl, -⟩, -⟩ := requireManagedChange_ok hu
    obtain ⟨ids, drafts', revision, -, -, rfl⟩ := createRevision_ok hv
    refine h.keep rfl rfl rfl (hstanding rfl fun _ => ?_)
    exact (revisable_ok hrev).1.resolve_right fun hallow => by cases hallow.1
  | approve r =>
    obtain ⟨-, revision, goal, -, -, ⟨rfl, -, -⟩ | ⟨hwait, rfl⟩⟩ := approve_ok hp
    · exact h.keep rfl rfl rfl (hstanding rfl id)
    · refine h.keep ?_ ?_ ?_ (hstanding rfl fun _ => by rw [hwait.status]; rfl)
      · rw [SameCore.settleGoal.tasks]
        rfl
      · unfold settleGoal
        split <;> rfl
      · exact currentLink_congr SameCore.settleGoal.links SameCore.settleGoal.running SameCore.settleGoal.cursor
  | bindDelegatedApproval r =>
    obtain ⟨-, revision, -, hwait, rfl⟩ := bindDelegatedApproval_ok hp
    exact h.keep rfl rfl rfl (hstanding rfl fun _ => by rw [hwait.status]; rfl)
  | start r =>
    obtain ⟨⟨u, result⟩, hu, rfl⟩ := map_eq_ok.mp hp
    obtain ⟨revision, hstart, hm⟩ := start_ok hu
    exact h.start hs hstart hm
  | discard fence =>
    obtain ⟨-, hlive, revision, -, -, rfl⟩ := discard_ok hp
    exact h.keep rfl rfl rfl (hstanding rfl fun _ => hlive)
  | stopPackage fence c =>
    obtain ⟨-, hlive, revision, u, -, -, hu, rfl⟩ := stopPackage_ok hp
    have hcancelled : Heard u := h.cancelLive hs.rows hu
    obtain ⟨tasks, outbox, rfl⟩ := cancelLive_frame hu
    exact hcancelled.keep rfl rfl rfl fun _ => Or.inl hlive
  | observeTerminal taskId now =>
    obtain ⟨⟨u, result⟩, hu, rfl⟩ := map_eq_ok.mp hp
    exact (observeTerminal_heard h hs hu).1
  | processSequenceItem taskId version now =>
    have hdeaf := hlistens taskId version now rfl
    obtain ⟨-, u, rfl, ⟨result, hu⟩ | ⟨rfl, hdead | hdead⟩⟩ := processSequenceItem_ok hp
    · obtain ⟨hheard, hnot⟩ := observeTerminal_heard h hs hu
      exact hheard.consume (hnot hdeaf)
    · exact h.consume (observeTerminal_deadLetter hs hdead rfl hdeaf)
    · exact h.consume (observeTerminal_deadLetter hs hdead rfl hdeaf)
  | skipCurrent c now =>
    obtain ⟨⟨w, result⟩, hw, rfl⟩ := map_eq_ok.mp hp
    obtain ⟨revision, ordinal, item, u, hon, hu, hcase⟩ := skipCurrent_ok hw
    have hcancelled : Heard u := h.cancelLive hs.rows hu
    have hmoved : Sound digest u := hs.moves (cancelLive_moves hu)
    obtain ⟨tasks, outbox, rfl⟩ := cancelLive_frame hu
    have hon' : StandsOn { s with tasks := tasks, outbox := outbox } revision ordinal item :=
      ⟨hon.status, hon.cursor, hon.running, hon.mem, hon.found⟩
    have hleft : Heard (passItem { s with tasks := tasks, outbox := outbox } revision ordinal item) := by
      refine hcancelled.leave rfl rfl ?_
      exact hmoved.queue.next_unlinked rfl rfl hon'.cursor rfl
    rcases hcase with rfl | ⟨hmat, -⟩
    · exact hleft
    · exact hleft.materialize (hmoved.move (.skip hon')).rows hon.running hmat
  | materializeRunning now =>
    obtain ⟨⟨u, result⟩, hu, rfl⟩ := map_eq_ok.mp hp
    obtain ⟨revision, hrev, hmat⟩ := bind_eq_ok.mp hu
    exact h.materialize hs.rows (runningRevision_ok hrev).2.1 hmat
  | retryFailedItem fence =>
    obtain ⟨⟨u, result⟩, hu, rfl⟩ := map_eq_ok.mp hp
    obtain ⟨l, -, hl, rfl⟩ := retryFailedItem_ok hu
    exact h.replaceTask hs hl
  | retryItem fence =>
    obtain ⟨hst, -, run, x, u, hu, rfl⟩ := retryItem_ok hp
    have hlive : s.package.status.isLive = true := by rw [hst]; rfl
    obtain ⟨runs, rfl | ⟨y, hy, htask⟩⟩ := retryBlockedStep_ok hu
    · exact h.keep rfl rfl rfl (hstanding rfl fun _ => hlive)
    · have hruns : Heard { s with runs := runs } := h.keep rfl rfl rfl fun _ => Or.inl hlive
      have hrows : Rows digest { s with runs := runs } := { hs.rows with }
      have hmoved : Heard u := hruns.transition hrows (mem_of_task? hy).1 htask
      refine hmoved.keep rfl rfl rfl fun _ => Or.inl ?_
      rw [transitionTask_package htask]
      exact hlive
  | skipItem fence =>
    obtain ⟨-, revision, ordinal, hc, -, -, rfl⟩ := skipItem_ok hp
    exact h.leave rfl rfl (hs.queue.next_unlinked rfl rfl hc rfl)
  | pauseForItemOutcome r =>
    obtain ⟨hst, hcursor, rfl⟩ := pauseForItemOutcome_ok hp
    obtain ⟨-, c, hc, -⟩ := hs.queue.onHead (by rw [hst]; rfl)
    refine h.keep rfl rfl (currentLink_congr rfl rfl ?_) (hstanding rfl fun _ => by rw [hst]; rfl)
    rw [hc, hcursor c hc]
  | parkGoal c now =>
    obtain ⟨goal, goal', hg, ⟨rfl, hnone⟩ | ⟨u, interrupted, hu, hlive, -, rfl⟩⟩ := parkGoal_ok hp
    · refine h.keep rfl rfl rfl ?_
      rintro (hlive | hsaved)
      · exact Or.inl hlive
      · simp [State.saved, State.parked, hnone] at hsaved
    · exact (h.interrupt hs hu).keep rfl rfl rfl fun _ => Or.inl (interrupt_live hu hlive)
  | unparkGoal a b c =>
    obtain ⟨goal, goal', hg, hnone, rfl | ⟨status, active, topic, hsaved, -, rfl⟩⟩ := unparkGoal_ok hp
    · refine h.keep rfl rfl rfl ?_
      rintro (hlive | hsaved)
      · exact Or.inl hlive
      · simp [State.saved, State.parked, hnone] at hsaved
    · exact h.keep rfl rfl rfl fun _ => Or.inr (by simp [State.saved, State.parked, hg, hsaved])
  | taskMoves taskId target =>
    obtain ⟨x, hx, -, hp⟩ := taskMoves_ok hp
    exact h.transition hs.rows hx hp
  | taskProgresses taskId =>
    obtain ⟨x, hx, rfl⟩ := taskProgresses_ok hp
    exact h.progress hs.rows hx rfl (Nat.le_succ _) rfl
  | republish taskId =>
    obtain ⟨x, hx, rfl⟩ := republish_ok hp
    exact h.publish hx
  | workflowWrites runs commit =>
    cases hp
    exact h.keep rfl rfl rfl (hstanding rfl id)
  | leadWrites goal delegations =>
    cases hp
    exact h.keep rfl rfl rfl (hstanding rfl id)
  | restartPlan | finishPackage => cases hop

/-! ### Completed items -/

theorem Heard.created (h : Created digest s) : Heard s ∧ s.saved = none := by
  obtain ⟨topic, goal, delegations, plan, commit, h⟩ := h
  simp only [createDraft, guard_eq_ok] at h
  obtain ⟨-, -, -, h⟩ := h
  obtain ⟨ids, drafts, revision, -, -, rfl⟩ := createRevision_ok h
  constructor
  · constructor
    · intro row hrow
      cases hrow
    · intro _ l hl
      cases (currentLink_ok hl).1
  · cases goal with
    | none => rfl
    | some goal =>
      cases hparked : goal.parked <;>
        simp [State.saved, State.parked, addRevision, ManagedGoal.forNewPackage, hparked]

/-- In a run whose packages hear the ends that are consumed, a package that stands on the completed task of an
    item, with every published end of the task consumed, is completed, stopped or discarded. -/
theorem completed_item_heard {s₀ : State} (hc : Created digest s₀)
    (h : Reach (perform digest) (fun s op => op.hears = true ∧ ListensTo s op) s₀ s) {l : MaterializationLink}
    {x : Task} (hl : s.currentLink = some l) (hx : s.task? l.taskId = some x) (hdone : x.status = .completed)
    (hconsumed : ∀ row ∈ s.outbox, row.taskId = x.id → row.consumed = true) :
    s.package.status = .completed ∨ s.package.status = .stopped ∨ s.package.status = .discarded := by
  have hinv : Safe digest s ∧ Heard s := by
    refine h.invariant (P := fun s => Safe digest s ∧ Heard s) ?_ ?_
    · obtain ⟨hheard, hsaved⟩ := Heard.created hc
      exact ⟨⟨.created hc, fun status hs => by rw [hsaved] at hs; cases hs⟩, hheard⟩
    · rintro u v op ⟨hsafe, hheard⟩ ⟨hop, hlistens⟩ hp
      exact ⟨hsafe.perform hop hp, hheard.perform hsafe hop hlistens hp⟩
  obtain ⟨hmem, hid⟩ := mem_of_task? hx
  have hdead : s.package.status.isLive = false := by
    by_contra hlive
    obtain ⟨row, hrow, hrid, hopen⟩ := hinv.2.pending (Or.inl (by simpa using hlive)) l hl x hmem hid hdone
    rw [hconsumed row hrow (hrid.trans hid.symm)] at hopen
    cases hopen
  cases hst : s.package.status <;> simp [hst, WorkPackageStatus.isLive] at hdead ⊢

namespace Sample

def stopped : List Op := started ++ [.taskMoves 0 .executing, .taskMoves 0 .completed,
  .stopPackage { revisionNumber := 1, h8 := "plan", generation := 3 } .settles]

def retriedTask : List Op := started ++ [.taskMoves 0 .executing, .taskMoves 0 .blocked, .processSequenceItem 0 4 0,
  .taskMoves 0 .retrying, .taskMoves 0 .executing, .taskMoves 0 .completed, .processSequenceItem 0 7 0]

def allConsumed (s : State) : Bool :=
  s.currentLink.any (fun l => (s.task? l.taskId).any (·.status = .completed)) && s.outbox.all (·.consumed)

theorem allConsumed_iff {s : State} : allConsumed s = true ↔
    (∃ l, s.currentLink = some l ∧ ∃ x, s.task? l.taskId = some x ∧ x.status = .completed) ∧
      ∀ row ∈ s.outbox, row.consumed = true := by
  simp [allConsumed, Option.any_eq_true]

end Sample

theorem completed_item_heard_stopped :
    ∃ s : State, (∃ l, s.currentLink = some l ∧ ∃ x, s.task? l.taskId = some x ∧ x.status = .completed) ∧
      (s.package.status = .completed ∨ s.package.status = .stopped ∨ s.package.status = .discarded) := by
  obtain ⟨s0, u, hs0, hreach, hu⟩ := Sample.reach (fun s op => op.hears = true ∧ ListensTo s op) Sample.stopped
    (fun u => u.package.status = .stopped && u.saved = none &&
      ends Sample.allConsumed (perform Sample.digest u (.processSequenceItem 0 4 0)))
    (by simp [Sample.stopped, Sample.started, Op.hears, ListensTo]) (by decide)
  simp only [Bool.and_eq_true, decide_eq_true_eq] at hu
  obtain ⟨⟨hstopped, hsaved⟩, hend⟩ := hu
  obtain ⟨s, hs, hconsumed⟩ := exists_of_ends hend
  have hlistens : ListensTo u (.processSequenceItem 0 4 0) := by
    rintro taskId version now - ⟨hlive | hparked, -⟩
    · rw [hstopped] at hlive
      cases hlive
    · exact hparked hsaved
  obtain ⟨⟨l, hl, x, hx, hdone⟩, hall⟩ := Sample.allConsumed_iff.mp hconsumed
  refine ⟨s, ⟨l, hl, x, hx, hdone⟩, ?_⟩
  exact completed_item_heard ⟨_, _, _, _, _, hs0⟩ (hreach.step ⟨rfl, hlistens⟩ hs) hl hx hdone fun row hrow _ => hall row hrow

/-- A task that is retried beside its paused package completes unheard: the package stays paused on it. -/
theorem completed_item_lost :
    ∃ s₀ s l x, Created Sample.digest s₀ ∧ Reach (perform Sample.digest) (fun _ op => op.hears = true) s₀ s ∧
      s.currentLink = some l ∧ s.task? l.taskId = some x ∧ x.status = .completed ∧
      (∀ row ∈ s.outbox, row.taskId = x.id → row.consumed = true) ∧ s.package.status = .paused := by
  obtain ⟨s₀, s, hs0, hreach, hs⟩ := Sample.reach (fun _ op => op.hears = true) Sample.retriedTask
    (fun s => s.package.status = .paused && Sample.allConsumed s)
    (by simp [Sample.retriedTask, Sample.started, Op.hears]) (by decide)
  simp only [Bool.and_eq_true, decide_eq_true_eq] at hs
  obtain ⟨hpaused, hconsumed⟩ := hs
  obtain ⟨⟨l, hl, x, hx, hdone⟩, hall⟩ := Sample.allConsumed_iff.mp hconsumed
  exact ⟨s₀, s, l, x, ⟨_, _, _, _, _, hs0⟩, hreach, hl, hx, hdone, fun row hrow _ => hall row hrow, hpaused⟩

end Vuzol.Discussion
