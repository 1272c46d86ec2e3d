import Vuzol.Theorems.Discussion.Invariant

/-! The approval of a plan: what is approved or running is the head that was approved, with the body it was
    created with; a command that has seen something else is rejected; and a new revision takes the time of
    the approvals that were asked for under the old one. -/

namespace Vuzol.Discussion

open Vuzol.Lib

variable {digest : PlanBody → Digest} {s t : State}

section Rejections
variable {α : Type}

/-- The computation raises a `DomainError`. -/
abbrev Rejects (r : Except Error α) : Prop := Meets (fun _ => False) (fun e => e.isDomain = true) r

/-- The computation raises nothing but `DomainError`. -/
abbrev Polite (P : α → Prop) (r : Except Error α) : Prop := Meets P (fun e => e.isDomain = true) r

theorem Rejects.code {r : Except Error α} (h : Rejects r) : ∃ code, r = .error (.domain code) := by
  cases r with
  | ok a => exact h.elim
  | error e =>
    cases e with
    | domain code => exact ⟨code, rfl⟩
    | _ => cases h

theorem Rejects.map {β : Type} {r : Except Error α} {f : α → β} (h : Rejects r) : Rejects (r.map f) := by
  cases r with
  | ok a => exact h.elim
  | error e => exact h

theorem Polite.guard {P : α → Prop} {p : Prop} [Decidable p] {code : Code} {x : Except Error α}
    (h : ¬p → Polite P x) : Polite P (if p then .error (.domain code) else x) := by
  split
  · rfl
  · rename_i hp
    exact h hp

theorem requireGeneration_polite {actual expected : Nat} :
    Polite (fun _ => actual = expected) (requireGeneration actual expected) := by
  refine Polite.guard fun h => ?_
  exact not_not.mp h

theorem controlTransitionTarget_polite {status : WorkPackageStatus} {action : PackageControlAction} :
    Polite (fun _ => True) (controlTransitionTarget status action) := by
  unfold controlTransitionTarget
  split
  · trivial
  · rfl

theorem requireMutable_polite {status : WorkPackageStatus} : Polite (fun _ => True) (requireMutable status) := by
  cases status <;> trivial

theorem fencedRevision_polite {fence : Fence} :
    Polite (fun r => fencedRevision? s fence = some r) (fencedRevision s fence) := by
  unfold fencedRevision
  split
  · rfl
  · rename_i r hr
    exact hr

theorem requireManagedRevision_polite {goal : ManagedGoal} {revision : PlanRevision} :
    Polite (fun _ => True) (requireManagedRevision digest goal revision) :=
  Polite.guard fun _ => trivial

theorem authorizeApproval_polite {r : ApproveRequest} {revision : PlanRevision} :
    Polite (fun u => u.package = s.package) (authorizeApproval digest s r revision) := by
  unfold authorizeApproval
  split
  · rfl
  · refine requireManagedRevision_polite.bind fun _ _ => ?_
    refine Polite.guard fun _ => Polite.guard fun _ => Polite.guard fun _ => ?_
    rfl

end Rejections

/-- The generation that a command of the plan has seen. -/
def Op.generation? : Op → Option Nat
  | .reviseDraft r => some r.generation
  | .restartPlan fence _ => some fence.generation
  | .approve r => some r.fence.generation
  | .bindDelegatedApproval r => some r.fence.generation
  | .start r => some r.fence.generation
  | .discard fence => some fence.generation
  | .stopPackage fence _ => some fence.generation
  | _ => none

/-- The revision that a command of the plan names. -/
def Op.fence? : Op → Option Fence
  | .restartPlan fence _ => some fence
  | .approve r => some r.fence
  | .bindDelegatedApproval r => some r.fence
  | .start r => some r.fence
  | .discard fence => some fence
  | .stopPackage fence _ => some fence
  | _ => none

def OffHead (s : State) (fence : Fence) : Prop :=
  ∀ r, fencedRevision? s fence = some r → s.package.headRevisionId ≠ some r.id

def Stale (s : State) (op : Op) : Prop :=
  (∃ g, op.generation? = some g ∧ s.package.version ≠ g) ∨ ∃ fence, op.fence? = some fence ∧ OffHead s fence

theorem queueControlPackage_stale {fence : Fence} (h : s.package.version = fence.generation → OffHead s fence) :
    Rejects (queueControlPackage s fence) := by
  refine requireMutable_polite.bind fun _ _ => requireGeneration_polite.bind fun _ hgen => ?_
  refine fencedRevision_polite.bind fun r hr => Polite.guard fun hhead => ?_
  exact h hgen r hr (not_not.mp hhead)

section Stale
variable {fence : Fence} (h : s.package.version = fence.generation → OffHead s fence)
include h

theorem restartPlan_stale {now : Nat} : Rejects (restartPlan digest s fence now) := by
  refine requireGeneration_polite.bind fun _ hgen => controlTransitionTarget_polite.bind fun _ _ => ?_
  refine fencedRevision_polite.bind fun r hr => Polite.guard fun hhead => ?_
  simp only [not_or, not_not] at hhead
  exact absurd hhead.1 (h hgen r hr)

theorem approve_stale (hf : Fenced s) {r : ApproveRequest} (hr : r.fence = fence) : Rejects (approve digest s r) := by
  subst hr
  refine requireGeneration_polite.bind fun _ hgen => fencedRevision_polite.bind fun revision hrev => ?_
  have hoff := h hgen revision hrev
  refine authorizeApproval_polite.bind fun u hu => ?_
  rw [hu]
  split
  · rename_i hdone
    have hbound := (hf.bound (Or.inl hdone.1)).1
    exact absurd (hbound.symm.trans hdone.2) hoff
  · refine Polite.guard fun _ => Polite.guard fun hhead => ?_
    simp only [not_or, not_not] at hhead
    exact absurd hhead.1 hoff

theorem bindDelegatedApproval_stale {r : BindRequest} (hr : r.fence = fence) :
    Rejects (bindDelegatedApproval digest s r) := by
  subst hr
  refine requireGeneration_polite.bind fun _ hgen => Polite.guard fun _ => ?_
  refine fencedRevision_polite.bind fun revision hrev => Polite.guard fun hhead => ?_
  simp only [not_or, not_not] at hhead
  exact absurd hhead.1 (h hgen revision hrev)

theorem start_stale {r : StartRequest} (hr : r.fence = fence) : Rejects (start digest s r) := by
  subst hr
  refine Meets.bind (P := fun _ => False) ?_ fun _ hfalse => hfalse.elim
  have hfenced : Polite (fun revision => fencedRevision? s r.fence = some revision)
      (fencedApprovedRevision s r.fence) :=
    fencedRevision_polite.bind fun revision hrev => Polite.guard fun _ => hrev
  refine requireGeneration_polite.bind fun _ hgen => controlTransitionTarget_polite.bind fun _ _ => ?_
  refine hfenced.bind fun revision hrev => Polite.guard fun hhead => ?_
  simp only [not_or, not_not] at hhead
  exact absurd hhead.2 (h hgen revision hrev)

theorem discard_stale : Rejects (discard s fence) := by
  refine requireGeneration_polite.bind fun _ hgen => controlTransitionTarget_polite.bind fun _ _ => ?_
  refine fencedRevision_polite.bind fun r hr => Polite.guard fun hhead => ?_
  exact absurd (not_not.mp hhead) (h hgen r hr)

theorem stopPackage_stale {c : Cancellation} : Rejects (stopPackage s fence c) :=
  (queueControlPackage_stale h).bind fun _ hfalse => hfalse.elim

end Stale

theorem reviseDraft_stale {r : ReviseRequest} (h : s.package.version ≠ r.generation) :
    Rejects (reviseDraft digest s r) := by
  refine Meets.bind (P := fun _ => False) ?_ fun _ hfalse => hfalse.elim
  have hstatus : Polite (fun _ => True) (requireRevisable s.package.status r.allowStopped) := by
    unfold requireRevisable
    split
    · trivial
    · exact requireMutable_polite
  exact hstatus.bind fun _ _ => requireGeneration_polite.bind fun _ hgen => absurd hgen h

variable {op : Op}

theorem perform_stale (hf : Fenced s) (h : Stale s op) : Rejects (perform digest s op) := by
  -- Either the generation is old, or the fence is off the head: the commands that take a fence need one hypothesis.
  have hfence : ∀ fence, op.fence? = some fence → op.generation? = some fence.generation →
      s.package.version = fence.generation → OffHead s fence := fun fence hfence hgen hv => by
    rcases h with ⟨g, hg, hne⟩ | ⟨fence', hfence', hoff⟩
    · rw [hgen] at hg
      cases hg
      exact absurd hv hne
    · rw [hfence] at hfence'
      cases hfence'
      exact hoff
  cases op with
  | reviseDraft r =>
    rcases h with ⟨g, hg, hne⟩ | ⟨fence, hfence', -⟩
    · cases hg
      exact reviseDraft_stale hne
    · cases hfence'
  | restartPlan fence now => exact restartPlan_stale (hfence fence rfl rfl)
  | approve r => exact approve_stale (hfence r.fence rfl rfl) hf rfl
  | bindDelegatedApproval r => exact bindDelegatedApproval_stale (hfence r.fence rfl rfl) rfl
  | start r => exact (start_stale (hfence r.fence rfl rfl) rfl).map
  | discard fence => exact discard_stale (hfence fence rfl rfl)
  | stopPackage fence c => exact stopPackage_stale (hfence fence rfl rfl)
  | _ => rcases h with ⟨g, hg, -⟩ | ⟨fence, hfence', -⟩ <;> contradiction

theorem Move.plans (hrows : Rows digest s) (hm : Move digest s t) :
    ∀ r ∈ s.revisions, ∃ r' ∈ t.revisions, SamePlan r r' := by
  cases hm with
  | side hc => exact fun r hr => ⟨r, hc.revisions ▸ hr, .refl⟩
  | @revise previous revision _ _ _ _ hprev hhead hstatus hresolved hnew hkept =>
    intro r hr
    have hsup : SamePlan previous { previous with state := .superseded } := by constructor <;> rfl
    obtain ⟨r', hr', hsame⟩ := Queue.put_samePlan hsup hrows.revision_nodup hprev r hr
    exact ⟨r', List.mem_append_left _ hr', hsame⟩
  | @approve revision r' _ hwait hsame =>
    exact Queue.put_samePlan (hsame.trans (by constructor <;> rfl)) hrows.revision_nodup hwait.mem
  | close hmem hhead => exact Queue.put_samePlan (by constructor <;> rfl) hrows.revision_nodup hmem
  | _ => exact fun r hr => ⟨r, hr, .refl⟩

theorem Moves.plans (hs : Sound digest s) (hm : Moves digest s t) :
    ∀ r ∈ s.revisions, ∃ r' ∈ t.revisions, SamePlan r r' := by
  induction hm with
  | refl => exact fun r hr => ⟨r, hr, .refl⟩
  | tail hmoves hmove ih =>
    intro r hr
    obtain ⟨r', hr', hsame⟩ := ih r hr
    obtain ⟨r'', hr'', hsame'⟩ := hmove.plans (hs.moves hmoves).rows r' hr'
    exact ⟨r'', hr'', hsame.trans hsame'⟩

theorem perform_plans (hs : Sound digest s) (hp : perform digest s op = .ok t) :
    ∀ r ∈ s.revisions, ∃ r' ∈ t.revisions, SamePlan r r' := by
  cases perform_effect hp with
  | moves hm => exact hm.plans hs
  | start hstart hm =>
    obtain ⟨hs', hmoves⟩ := start_moves hstart hm
    have hkept := Moves.plans (hs.start hs') hmoves
    exact hkept
  | retryFailedItem => exact fun r hr => ⟨r, hr, .refl⟩
  | retryItem hu hst hsame =>
    intro r hr
    obtain ⟨r', hr', hrr'⟩ := hu.plans hs r hr
    exact ⟨r', hsame.revisions ▸ hr', hrr'⟩
  | skipItem hst hc hhead hmem hsame => exact fun r hr => ⟨r, hsame.revisions ▸ hr, .refl⟩
  | unparkGoal hu =>
    obtain ⟨goal, goal', -, -, rfl | ⟨_, _, _, -, -, rfl⟩⟩ := unparkGoal_ok hu <;>
      exact fun r hr => ⟨r, hr, .refl⟩

def Materialized (s : State) (taskId : Nat) : Prop :=
  ∃ revisionId ordinal, WorkPackageEvent.itemMaterialized revisionId ordinal taskId ∈ s.events

def AllLinked (s : State) : Prop := ∀ taskId, Materialized s taskId → ∃ l ∈ s.links, l.taskId = taskId

theorem AllLinked.of_eq (h : AllLinked s) (hlinks : t.links = s.links) (hevents : t.events = s.events) :
    AllLinked t := by
  intro taskId ⟨revisionId, ordinal, hmem⟩
  rw [hlinks]
  exact h taskId ⟨revisionId, ordinal, hevents ▸ hmem⟩

theorem AllLinked.skip (h : AllLinked s) {revisionId ordinal : Nat} {draft : Option Nat} (hlinks : t.links = s.links)
    (hevents : t.events = s.events ++ [.itemSkipped revisionId ordinal draft]) : AllLinked t := by
  intro taskId ⟨r, o, hmem⟩
  rw [hlinks]
  rw [hevents] at hmem
  rcases List.mem_append.mp hmem with hmem | hmem
  · exact h taskId ⟨r, o, hmem⟩
  · cases List.mem_singleton.mp hmem

theorem AllLinked.move (h : AllLinked s) (hm : Move digest s t) : AllLinked t := by
  cases hm with
  | side hc => exact h.of_eq hc.links hc.events
  | skip => exact h.skip rfl rfl
  | materialize =>
    intro taskId ⟨r, o, hmem⟩
    rcases List.mem_append.mp hmem with hmem | hmem
    · obtain ⟨l, hl, hid⟩ := h taskId ⟨r, o, hmem⟩
      exact ⟨l, List.mem_append_left _ hl, hid⟩
    · cases List.mem_singleton.mp hmem
      exact ⟨_, List.mem_append_right _ (List.mem_singleton_self _), rfl⟩
  | _ => exact h.of_eq rfl rfl

theorem AllLinked.moves (h : AllLinked s) (hm : Moves digest s t) : AllLinked t := by
  induction hm with
  | refl => exact h
  | tail _ hmove ih => exact ih.move hmove

/-- The commands of a plan and of its queue, the observations and what other subsystems write; not the retry
    that replaces the task of an item, and not the return of a parked package. -/
def Op.keepsTasks : Op → Bool
  | .retryFailedItem _ | .unparkGoal .. => false
  | _ => true

theorem AllLinked.perform (h : AllLinked s) (hop : op.keepsTasks = true)
    (hp : perform digest s op = .ok t) : AllLinked t := by
  cases perform_effect hp with
  | moves hm => exact h.moves hm
  | @start _ revision _ _ hstart hm =>
    have hstarted : AllLinked (startRevision s revision) := h.of_eq rfl rfl
    exact hstarted.moves (start_moves hstart hm).2
  | retryFailedItem => cases hop
  | retryItem hu hst hsame => exact (h.moves hu).of_eq hsame.links hsame.events
  | skipItem hst hc hhead hmem hsame => exact h.skip hsame.links hsame.events
  | unparkGoal => cases hop

def Op.revisesAt : Op → Option Nat
  | .reviseDraft r => some r.now
  | .restartPlan _ now => some now
  | _ => none

def ApprovalsExpired (s : State) (taskId now : Nat) : Prop :=
  ∀ run ∈ s.runs, run.taskId = taskId → ∀ a ∈ run.approvals, a.status = .pending →
    run.steps.any (·.id == a.stepId) → a.expiresAt = now

theorem expirePendingApprovals_expired {now taskId : Nat} (h : ∃ l ∈ s.links, l.taskId = taskId) :
    ApprovalsExpired (expirePendingApprovals s now) taskId now := by
  intro run hrun hid a ha hpending hstep
  obtain ⟨run0, -, rfl⟩ := List.mem_map.mp hrun
  have hlinked : s.links.any (·.taskId == run0.taskId) = true := by
    obtain ⟨l, hl, hl'⟩ := h
    refine List.any_eq_true.mpr ⟨l, hl, ?_⟩
    split at hid <;> simpa [hl', expirePending] using hid.symm
  rw [if_pos hlinked] at ha hstep
  obtain ⟨a0, -, rfl⟩ := List.mem_map.mp ha
  split
  · rfl
  · rename_i hnot
    rw [if_neg hnot] at hpending hstep
    exact absurd ⟨hpending, hstep⟩ hnot

theorem reviseDraft_expires {r : ReviseRequest} (hl : AllLinked s) (h : reviseDraft digest s r = .ok t) {taskId : Nat}
    (ht : Materialized s taskId) : ApprovalsExpired t taskId r.now := by
  obtain ⟨previous, u, v, -, hu, hv, rfl⟩ := reviseDraft_ok h
  obtain ⟨⟨drafts, rfl, -⟩, -⟩ := requireManagedChange_ok hu
  obtain ⟨ids, drafts', revision, -, -, rfl⟩ := createRevision_ok hv
  exact expirePendingApprovals_expired (hl taskId ht)

theorem perform_expires {now taskId : Nat} (hl : AllLinked s) (hop : op.revisesAt = some now)
    (h : perform digest s op = .ok t) (ht : Materialized s taskId) : ApprovalsExpired t taskId now := by
  cases op with
  | reviseDraft r =>
    cases hop
    exact reviseDraft_expires hl h ht
  | restartPlan fence now' =>
    cases hop
    obtain ⟨-, -, plan, u, hu, rfl⟩ := restartPlan_ok h
    exact reviseDraft_expires hl hu ht
  | _ => cases hop

def PlanRevision.isLive (r : PlanRevision) : Bool := r.state = .draft || r.state = .approved

theorem Sound.approved (h : Sound digest s) (hst : s.package.status = .approved ∨ s.package.status = .running) :
    ∃ r ∈ s.revisions, s.package.approvedRevisionId = some r.id ∧ s.package.headRevisionId = some r.id ∧
      r.state = .approved ∧ r.contentHash = digest r.body := by
  obtain ⟨n, hlen, hhead⟩ := h.fenced.head
  obtain ⟨r, hr, rfl⟩ := h.rows.exists_revision (show n < s.revisions.length by omega)
  obtain ⟨happ, hstate⟩ := h.fenced.bound (hst.imp_right fun hrun => by rw [hrun]; rfl)
  exact ⟨r, hr, happ.trans hhead, hhead, hstate r hr hhead, h.rows.hashes r hr⟩

theorem Sound.live_unique (h : Sound digest s) {r r' : PlanRevision} (hr : r ∈ s.revisions) (hr' : r' ∈ s.revisions)
    (hl : r.isLive = true) (hl' : r'.isLive = true) : r = r' := by
  simp only [PlanRevision.isLive, Bool.or_eq_true, decide_eq_true_eq] at hl hl'
  have hid := (h.fenced.live r hr hl).symm.trans (h.fenced.live r' hr' hl')
  exact h.rows.revision_unique hr hr' (Option.some.inj hid)

variable (digest) in
/-- A plan that is approved or running is the head, in the state `APPROVED` and with the body it was created with; no other
    revision is a draft or approved; a command with an old generation or off the head is rejected; and a revision expires the
    approvals that are still pending. -/
structure PlanFenced (s : State) : Prop where
  approved : (s.package.status = .approved ∨ s.package.status = .running) →
    ∃ r ∈ s.revisions, s.package.approvedRevisionId = some r.id ∧ s.package.headRevisionId = some r.id ∧
      r.state = .approved ∧ r.contentHash = digest r.body
  plans : ∀ t, Reach (perform digest) (fun _ op => op.keepsTasks = true) s t →
    ∀ r ∈ s.revisions, ∃ r' ∈ t.revisions, SamePlan r r'
  oneLive : ∀ r ∈ s.revisions, ∀ r' ∈ s.revisions, r.isLive = true → r'.isLive = true → r = r'
  stale : ∀ op, Stale s op → ∃ code, perform digest s op = .error (.domain code)
  expired : ∀ op now t, op.revisesAt = some now → perform digest s op = .ok t →
    ∀ taskId, Materialized s taskId → ApprovalsExpired t taskId now

/-- In every state of a package. -/
theorem plan_approval_fence {s₀ : State} (hc : Created digest s₀)
    (h : Reach (perform digest) (fun _ op => op.keepsTasks = true) s₀ s) : PlanFenced digest s := by
  have hscope : ∀ (s : State) (op : Op), op.keepsTasks = true → ∀ a b c, op ≠ .unparkGoal a b c := by
    rintro s op hop a b c rfl
    cases hop
  have hsound : Sound digest s := .reach hscope hc h
  have hlinked : AllLinked s := by
    refine h.invariant ?_ fun hl hop hp => hl.perform hop hp
    obtain ⟨topic, goal, delegations, plan, commit, hc⟩ := hc
    simp only [createDraft, guard_eq_ok] at hc
    obtain ⟨-, -, -, hc⟩ := hc
    obtain ⟨ids, drafts, revision, -, -, rfl⟩ := createRevision_ok hc
    rintro taskId ⟨r, o, hmem⟩
    cases hmem
  refine ⟨hsound.approved, ?_, fun r hr r' hr' => hsound.live_unique hr hr', ?_, ?_⟩
  · intro t ht
    have hboth : Sound digest t ∧ ∀ r ∈ s.revisions, ∃ r' ∈ t.revisions, SamePlan r r' := by
      refine ht.invariant (P := fun t => Sound digest t ∧ ∀ r ∈ s.revisions, ∃ r' ∈ t.revisions, SamePlan r r')
        ⟨hsound, fun r hr => ⟨r, hr, .refl⟩⟩ ?_
      rintro u v op ⟨hu, hkept⟩ hop hp
      refine ⟨hu.perform (hscope u op hop) hp, fun r hr => ?_⟩
      obtain ⟨r', hr', hsame⟩ := hkept r hr
      obtain ⟨r'', hr'', hsame'⟩ := perform_plans hu hp r' hr'
      exact ⟨r'', hr'', hsame.trans hsame'⟩
    exact hboth.2
  · exact fun op hop => (perform_stale hsound.fenced hop).code
  · exact fun op now t hop hp taskId ht => perform_expires hlinked hop hp ht

/-- A running package, with a start that comes late, and its revision when the first item has failed. -/
theorem plan_approval_fence_started :
    (∃ s : State, s.package.status = .running ∧ PlanFenced Sample.digest s ∧
      ∃ code, perform Sample.digest s (.start { fence := { revisionNumber := 1, h8 := "plan", generation := 2 } }) =
        .error (.domain code)) ∧
    ∃ s t : State, perform Sample.digest s (.reviseDraft { generation := 4, plan := Sample.longerPlan, now := 9 }) = .ok t ∧
      PlanFenced Sample.digest s ∧ PlanFenced Sample.digest t ∧ s.revisions.length < t.revisions.length ∧
      ApprovalsExpired t 0 9 := by
  constructor
  · obtain ⟨s0, s, hs0, hreach, hp⟩ := Sample.reach (fun _ op => op.keepsTasks = true) Sample.started
      (fun s => s.package.status = .running && s.package.version ≠ 2) (by simp [Sample.started, Op.keepsTasks]) (by decide)
    simp only [Bool.and_eq_true, decide_eq_true_eq] at hp
    have hfence := plan_approval_fence ⟨_, _, _, _, _, hs0⟩ hreach
    exact ⟨s, hp.1, hfence, hfence.stale _ (.inl ⟨2, rfl, hp.2⟩)⟩
  · obtain ⟨s0, s, hs0, hreach, hp⟩ := Sample.reach (fun _ op => op.keepsTasks = true)
      (Sample.started ++ [.taskMoves 0 .executing, .taskMoves 0 .failed, .processSequenceItem 0 4 0])
      (fun s => s.events.any (fun e => e matches .itemMaterialized _ _ 0) && ends
        (fun t => s.revisions.length < t.revisions.length)
        (perform Sample.digest s (.reviseDraft { generation := 4, plan := Sample.longerPlan, now := 9 })))
      (by simp [Sample.started, Op.keepsTasks]) (by decide)
    rw [Bool.and_eq_true, List.any_eq_true] at hp
    obtain ⟨⟨e, he, hmatch⟩, hends⟩ := hp
    obtain ⟨t, ht, hlonger⟩ := exists_of_ends hends
    have hfence := plan_approval_fence ⟨_, _, _, _, _, hs0⟩ hreach
    refine ⟨s, t, ht, hfence, plan_approval_fence ⟨_, _, _, _, _, hs0⟩ (hreach.step rfl ht), of_decide_eq_true hlonger,
      hfence.expired _ 9 t rfl ht 0 ?_⟩
    split at hmatch
    · exact ⟨_, _, he⟩
    · cases hmatch

end Vuzol.Discussion
