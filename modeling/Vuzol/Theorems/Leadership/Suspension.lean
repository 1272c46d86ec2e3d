import Vuzol.Leadership.Suspension

/-! A goal that is suspended for the planner's quota and set aside any number of times keeps what it was, unless it starts
    with a quota condition that it does not wait on. -/

namespace Vuzol.Suspension

open Vuzol.Lib
open Vuzol.Discussion (Lifecycle WorkPackageStatus Cancellation)

structure Columns where
  lifecycle : Lifecycle
  waitingReason : Option String
  wakeupCondition : Option WakeupCondition

def ManagedGoal.columns (g : ManagedGoal) : Columns := ⟨g.lifecycle, g.waitingReason, g.wakeupCondition⟩

def ManagedGoal.standing (g : ManagedGoal) : Columns :=
  match g.lifecycle, g.parked with
  | .parked, some saved => ⟨saved.lifecycle, saved.waitingReason, saved.wakeupCondition⟩
  | _, _ => g.columns

def Columns.origin (c : Columns) : Columns :=
  match c.wakeupCondition with
  | some (.quota q) => ⟨q.resume.lifecycle, q.resume.waitingReason, q.resume.wakeupCondition.map .other⟩
  | _ => c

def ManagedGoal.beforeSuspension (g : ManagedGoal) : Columns := if g.lifecycle = .waiting then g.columns.origin else g.columns

def ManagedGoal.Recognised (g : ManagedGoal) : Prop := ∀ q, g.wakeupCondition = some (.quota q) → g.lifecycle = .waiting

def ManagedGoal.Holds (g : ManagedGoal) (o : QuotaOutcome) : Prop :=
  g.standing.lifecycle = .waiting ∧
    ∃ q, g.standing.wakeupCondition = some (.quota q) ∧ q.request = heldRequest o.payload

section Steps
variable {s t : State} {o : QuotaOutcome} {c : Cancellation} {op : Op} {ops : List Op}

theorem standing_of_live {g : ManagedGoal} (h : live g.lifecycle = true) : g.standing = g.columns := by
  unfold ManagedGoal.standing
  split
  · rename_i hparked _
    rw [hparked] at h
    cases h
  · rfl

theorem parkPlannerForQuota_holds (g : ManagedGoal) (o : QuotaOutcome) : (parkPlannerForQuota g o).Holds o := by
  rw [ManagedGoal.Holds, standing_of_live rfl]
  exact ⟨rfl, _, rfl, rfl⟩

theorem parkPlannerForQuota_origin (g : ManagedGoal) (o : QuotaOutcome) :
    (parkPlannerForQuota g o).columns.origin = g.columns.origin := by
  unfold parkPlannerForQuota resumeOf ManagedGoal.columns Columns.origin
  cases hcondition : g.wakeupCondition with
  | none => rfl
  | some condition => cases condition <;> rfl

theorem parkGoal_goal (h : parkGoal s c = .ok t) : live s.goal.lifecycle = true ∧ t.goal.lifecycle = .parked ∧
    ∃ saved, t.goal.parked = some saved ∧ t.goal.standing = s.goal.columns := by
  unfold parkGoal at h
  obtain ⟨hlive, h⟩ := guard_eq_ok.mp h
  obtain ⟨⟨u, package, interrupted⟩, hu, h⟩ := bind_eq_ok.mp h
  have hgoal : u.goal = s.goal := by
    unfold parkPackage at hu
    split at hu
    · cases hu
      rfl
    · split at hu
      · obtain ⟨⟨p, id⟩, -, hu⟩ := bind_eq_ok.mp hu
        cases hu
        rfl
      · cases hu
        rfl
  cases h
  refine ⟨by simpa using hlive, rfl, _, rfl, ?_⟩
  rw [← hgoal]
  rfl

theorem unparkGoal_goal (h : unparkGoal s = .ok t) : s.goal.lifecycle = .parked ∧
    (s.goal.parked.isSome = true → t.goal.columns = s.goal.standing) := by
  unfold unparkGoal at h
  simp only [guard_eq_ok, not_not] at h
  obtain ⟨hparked, -, h⟩ := h
  obtain ⟨u, hu, h⟩ := bind_eq_ok.mp h
  have hgoal : u.goal = s.goal := by
    unfold returnPackage at hu
    split at hu
    · split at hu
      · cases hu
        rfl
      · split at hu
        · cases hu
        · cases hu
          rfl
    · cases hu
      rfl
  refine ⟨hparked, fun hsaved => ?_⟩
  obtain ⟨saved, hsaved⟩ := Option.isSome_iff_exists.mp hsaved
  have hcolumns : t.goal.columns = ⟨u.goal.parked.elim .active (·.lifecycle), u.goal.parked.bind (·.waitingReason),
      u.goal.parked.bind (·.wakeupCondition)⟩ := by
    cases h
    rfl
  rw [hcolumns, hgoal, ManagedGoal.standing, hparked, hsaved]
  rfl

structure Kept (s : State) : Prop where
  saved : s.goal.lifecycle = .parked → s.goal.parked.isSome = true
  live : live s.goal.standing.lifecycle = true

theorem Kept.of_live (h : Suspension.live s.goal.lifecycle = true) : Kept s where
  saved hparked := by rw [hparked] at h; cases h
  live := by rw [standing_of_live h]; exact h

theorem Kept.live_of_not_parked (h : Kept s) (hback : s.goal.lifecycle ≠ .parked) : Suspension.live s.goal.lifecycle = true := by
  have hlive := h.live
  unfold ManagedGoal.standing at hlive
  split at hlive
  · rename_i hparked _
    exact absurd hparked hback
  · exact hlive

/-- One step keeps what a resume restores; a step that holds no request keeps the columns as well. -/
theorem Kept.step (h : Kept s) (hop : perform s op = .ok t) : Kept t ∧ t.goal.standing.origin = s.goal.standing.origin ∧
    match op with | .quota o => t.goal.Holds o | _ => t.goal.standing = s.goal.standing := by
  cases op with
  | quota o =>
    simp only [perform, applyQuotaOutcome, guard_eq_ok] at hop
    obtain ⟨hback, -, hop⟩ := hop
    cases hop
    refine ⟨.of_live rfl, ?_, parkPlannerForQuota_holds s.goal o⟩
    rw [standing_of_live (g := parkPlannerForQuota s.goal o) rfl, standing_of_live (h.live_of_not_parked hback)]
    exact parkPlannerForQuota_origin s.goal o
  | park c =>
    obtain ⟨hlive, hparked, saved, hsaved, hsame⟩ := parkGoal_goal hop
    rw [← standing_of_live hlive] at hsame
    exact ⟨⟨fun _ => by rw [hsaved]; rfl, by rw [hsame]; exact h.live⟩, by rw [hsame], hsame⟩
  | unpark =>
    obtain ⟨hparked, hcolumns⟩ := unparkGoal_goal hop
    have hsame := hcolumns (h.saved hparked)
    have hlive : Suspension.live t.goal.lifecycle = true := by
      have hl := h.live
      rw [← hsame] at hl
      exact hl
    rw [← standing_of_live hlive] at hsame
    exact ⟨.of_live hlive, by rw [hsame], hsame⟩
  | others goals packages topic =>
    cases hop
    exact ⟨⟨h.saved, h.live⟩, rfl, rfl⟩

theorem Kept.run (h : Kept s) (hrun : runOps perform s ops = .ok t) : Kept t ∧ t.goal.standing.origin = s.goal.standing.origin ∧
    match lastQuota ops with | some o => t.goal.Holds o | none => t.goal.standing = s.goal.standing := by
  induction ops generalizing s with
  | nil =>
    cases hrun
    exact ⟨h, rfl, rfl⟩
  | cons op ops ih =>
    rw [runOps_cons, bind_eq_ok] at hrun
    obtain ⟨u, hu, hrun⟩ := hrun
    obtain ⟨hkept, horigin, hstep⟩ := h.step hu
    obtain ⟨hkept', horigin', hrest⟩ := ih hkept hrun
    refine ⟨hkept', horigin'.trans horigin, ?_⟩
    cases hlast : lastQuota ops with
    | some o =>
      rw [hlast] at hrest
      cases op with
      | quota o' => simpa [lastQuota, hlast] using hrest
      | _ => simpa [lastQuota, hlast] using hrest
    | none =>
      rw [hlast] at hrest
      cases op with
      | quota o' =>
        simp only [lastQuota, hlast, Option.getD_none]
        unfold ManagedGoal.Holds at hstep ⊢
        rw [hrest]
        exact hstep
      | _ =>
        simp only [lastQuota, hlast]
        exact hrest.trans hstep

end Steps

section Resume
variable {s t : State} {o : QuotaOutcome} {c : Cancellation} {ops : List Op} {key : String} {profile : Option String}

theorem resumePlanning_of_holds (profile : Option String) (hlive : live t.goal.lifecycle = true) (hholds : t.goal.Holds o)
    (hkey : ∀ w ∈ t.outbox, w.key ≠ .given key) : ∃ u, resumePlanning t key profile = .ok (u, true) ∧
      u.goal.columns = t.goal.columns.origin ∧
      { linkedEntityId := t.goal.id, key := .given key, kind := "plan_requested", scopeRevision := some t.goal.scopeRevision,
        request := heldRequest o.payload, plannerProfileId := profile } ∈ u.outbox := by
  rw [ManagedGoal.Holds, standing_of_live hlive] at hholds
  obtain ⟨hwaiting, q, hq, hrequest⟩ := hholds
  have hfree : ¬(t.outbox.any (·.key == .given key)) = true := by
    rw [List.any_eq_true]
    rintro ⟨w, hw, heq⟩
    exact hkey w hw (eq_of_beq heq)
  have hcondition : t.goal.wakeupCondition = some (.quota q) := hq
  have hlifecycle : t.goal.lifecycle = .waiting := hwaiting
  unfold resumePlanning
  rw [hcondition]
  simp only [hlifecycle, hfree, ne_eq, not_true_eq_false, if_false, ← hrequest]
  refine ⟨_, rfl, ?_, List.mem_append_right _ List.mem_cons_self⟩
  rw [Columns.origin, hq]
  rfl

theorem origin_eq_iff (g : ManagedGoal) : g.columns.origin = g.beforeSuspension ↔ g.Recognised := by
  unfold ManagedGoal.beforeSuspension ManagedGoal.Recognised
  split
  · rename_i hwaiting
    exact ⟨fun _ _ _ => hwaiting, fun _ => rfl⟩
  · rename_i hother
    refine ⟨fun heq q hq => ?_, fun h => ?_⟩
    · have hcondition := congrArg Columns.wakeupCondition heq
      simp only [Columns.origin, ManagedGoal.columns, hq] at hcondition
      cases hresume : q.resume.wakeupCondition <;> simp [hresume] at hcondition
    · unfold Columns.origin
      split
      · rename_i q hq
        exact absurd (h q hq) hother
      · rfl

theorem interrupt_ok {p p' : WorkPackage} {id : Option Nat} (h : interrupt p c = .ok (p', id)) :
    p'.id = p.id ∧ (id = none → p' = p) := by
  have hobserve : ∀ p : WorkPackage, (observeInterrupted p).id = p.id := fun p => by
    unfold observeInterrupted
    split <;> rfl
  unfold interrupt at h
  split at h
  · cases h
    exact ⟨rfl, fun _ => rfl⟩
  · split at h
    · cases h
      exact ⟨rfl, fun _ => rfl⟩
    · split at h
      · cases h
        exact ⟨hobserve _, fun hnone => by cases hnone⟩
      · split at h
        · cases h
          exact ⟨hobserve _, fun hnone => by cases hnone⟩
        · cases h
      · cases h

theorem parkPackage_ok {u : State} {saved : Option SavedPackage} {id : Option Nat} (h : parkPackage s c = .ok (u, saved, id)) :
    (u = s ∧ saved = none) ∨ ∃ p p', s.package = some p ∧ p'.id = p.id ∧ (id = none → p' = p) ∧
      u = { s with
        package := some { p' with status := .stopped, version := p'.version + 1 }
        topic := if s.topic = some p'.id then none else s.topic } ∧
      saved = some { id := p'.id, status := p'.status, activeInTopic := s.topic = some p'.id } := by
  unfold parkPackage at h
  split at h
  · cases h
    exact Or.inl ⟨rfl, rfl⟩
  · rename_i p hp
    split at h
    · obtain ⟨⟨p', interrupted⟩, hp', h⟩ := bind_eq_ok.mp h
      cases h
      obtain ⟨hid, hsame⟩ := interrupt_ok hp'
      exact Or.inr ⟨p, p', hp, hid, hsame, rfl, rfl⟩
    · cases h
      exact Or.inl ⟨rfl, rfl⟩

theorem unparkGoal_of_return {u : State} (hparked : s.goal.lifecycle = .parked) (hgoals : s.otherGoals.any live = false)
    (hreturn : returnPackage s = .ok u) : ∃ v, unparkGoal s = .ok v ∧ v.package = u.package ∧ v.topic = u.topic := by
  unfold unparkGoal
  rw [if_neg (not_not.mpr hparked), hgoals, if_neg (by decide), hreturn]
  exact ⟨_, rfl, rfl, rfl⟩

theorem returnPackage_of_stopped {stored : SavedPackage} {p : WorkPackage} (hstored : s.goal.parked.bind (·.package) = some stored)
    (hp : s.package = some p) (hid : p.id = stored.id) (hstopped : p.status = .stopped)
    (hothers : s.otherPackages.any (·.isLive) = false) :
    ∃ u, returnPackage s = .ok u ∧ u.package.map (·.status) = some stored.status ∧
      u.topic = if stored.activeInTopic ∧ s.topic = none then some p.id else s.topic := by
  unfold returnPackage
  rw [hstored, hp]
  simp only [hid, ne_eq, not_true_eq_false, if_false, hothers, hstopped]
  exact ⟨_, rfl, rfl, rfl⟩

/-- A goal that was set aside returns to its columns, and to its package and topic when no task was interrupted. -/
theorem park_then_unpark {goals : List Lifecycle} {packages : List WorkPackageStatus} (h : parkGoal s c = .ok t)
    (hgoals : goals.any live = false) (hpackages : packages.any (·.isLive) = false) :
    ∃ v, unparkGoal { t with otherGoals := goals, otherPackages := packages } = .ok v ∧ v.goal.columns = s.goal.columns ∧
      (t.goal.parked.bind (·.interruptedTaskId) = none →
        v.package.map (·.status) = s.package.map (·.status) ∧ v.topic = s.topic) := by
  obtain ⟨-, hparked, saved, hsaved, hstanding⟩ := parkGoal_goal h
  have hcolumns : ∀ v, unparkGoal { t with otherGoals := goals, otherPackages := packages } = .ok v →
      v.goal.columns = s.goal.columns := fun v hv =>
    ((unparkGoal_goal hv).2 (by rw [hsaved]; rfl)).trans hstanding
  unfold parkGoal at h
  obtain ⟨-, h⟩ := guard_eq_ok.mp h
  obtain ⟨⟨u, package, interrupted⟩, hu, h⟩ := bind_eq_ok.mp h
  rcases parkPackage_ok hu with ⟨rfl, rfl⟩ | ⟨p, p', hp, hid, hsame, rfl, rfl⟩
  · cases h
    obtain ⟨v, hv, hpackage, htopic⟩ := unparkGoal_of_return (s := { u with
      goal := { u.goal with
        parked := some ⟨u.goal.lifecycle, u.goal.waitingReason, u.goal.wakeupCondition, none, interrupted⟩
        lifecycle := .parked
        waitingReason := none
        wakeupCondition := none
        version := u.goal.version + 1
        fenceEpoch := u.goal.fenceEpoch + 1 }
      otherGoals := goals
      otherPackages := packages }) rfl hgoals rfl
    exact ⟨v, hv, hcolumns v hv, fun _ => ⟨by rw [hpackage], htopic⟩⟩
  · cases h
    obtain ⟨w, hw, hstatus, htopic⟩ := returnPackage_of_stopped (s := { s with
      goal := { s.goal with
        parked := some ⟨s.goal.lifecycle, s.goal.waitingReason, s.goal.wakeupCondition,
          some ⟨p'.id, p'.status, s.topic = some p'.id⟩, interrupted⟩
        lifecycle := .parked
        waitingReason := none
        wakeupCondition := none
        version := s.goal.version + 1
        fenceEpoch := s.goal.fenceEpoch + 1 }
      package := some { p' with status := .stopped, version := p'.version + 1 }
      topic := if s.topic = some p'.id then none else s.topic
      otherGoals := goals
      otherPackages := packages }) rfl rfl rfl rfl hpackages
    obtain ⟨v, hv, hpackage, hvtopic⟩ := unparkGoal_of_return rfl hgoals hw
    refine ⟨v, hv, hcolumns v hv, fun hnone => ⟨?_, ?_⟩⟩
    · rw [hpackage, hstatus, hp, hsame hnone]
      rfl
    · rw [hvtopic, htopic]
      by_cases hactive : s.topic = some p'.id <;> simp [hactive]

end Resume

/-- A goal that its planner's quota has suspended, and that was set aside any number of times, resumes with its last request;
    it resumes as it was before if and only if it had no quota condition that it did not wait on. And a goal that is set aside
    and returned is as it was. -/
theorem suspension_loses_nothing (s t : State) :
    (∀ (ops : List Op) (o : QuotaOutcome) (key : String) (profile : Option String),
      live s.goal.lifecycle = true → runOps perform s ops = .ok t → lastQuota ops = some o → t.goal.lifecycle ≠ .parked →
      (∀ w ∈ t.outbox, w.key ≠ .given key) →
      ∃ u, resumePlanning t key profile = .ok (u, true) ∧
        (u.goal.columns = s.goal.beforeSuspension ↔ s.goal.Recognised) ∧
        { linkedEntityId := t.goal.id, key := .given key, kind := "plan_requested", scopeRevision := some t.goal.scopeRevision,
          request := heldRequest o.payload, plannerProfileId := profile } ∈ u.outbox) ∧
    ∀ (c : Cancellation) (goals : List Lifecycle) (packages : List WorkPackageStatus),
      parkGoal s c = .ok t → goals.any live = false → packages.any (·.isLive) = false →
      ∃ v, unparkGoal { t with otherGoals := goals, otherPackages := packages } = .ok v ∧ v.goal.columns = s.goal.columns ∧
        (t.goal.parked.bind (·.interruptedTaskId) = none →
          v.package.map (·.status) = s.package.map (·.status) ∧ v.topic = s.topic) := by
  refine ⟨fun ops o key profile hlive hrun hlast hback hkey => ?_, fun c goals packages => park_then_unpark⟩
  obtain ⟨hkept, horigin, hholds⟩ := (Kept.of_live hlive).run hrun
  rw [hlast] at hholds
  have htlive := hkept.live_of_not_parked hback
  obtain ⟨u, hu, hcolumns, hmem⟩ := resumePlanning_of_holds profile htlive hholds hkey
  refine ⟨u, hu, ?_, hmem⟩
  rw [standing_of_live htlive, standing_of_live hlive] at horigin
  rw [hcolumns, horigin]
  exact origin_eq_iff s.goal

def sampleOutcome : QuotaOutcome := { now := 0, payload := [("request", .str ['p'])] }

def sampleState : State where
  goal := { id := 1, lifecycle := .active }
  package := some { id := 3, status := .approved }
  topic := some 3

/-- Two waits for the quota around two parks. -/
theorem suspension_loses_nothing_nested :
    (∃ t u, runOps perform sampleState
        [.park .settles, .unpark, .quota sampleOutcome, .park .settles, .unpark, .quota sampleOutcome] = .ok t ∧
      resumePlanning t "k" none = .ok (u, true) ∧ u.goal.columns = sampleState.goal.columns) ∧
    ∃ t v, parkGoal sampleState .settles = .ok t ∧ unparkGoal { t with otherGoals := [.parked], otherPackages := [.stopped] } =
      .ok v ∧ v.goal.columns = sampleState.goal.columns ∧ v.package.map (·.status) = some .approved ∧ v.topic = some 3 := by
  constructor
  · obtain ⟨t, ht, hp⟩ := exists_of_ends
      (p := fun t : State => t.goal.lifecycle ≠ .parked && t.outbox.all (·.key ≠ .given "k"))
      (by decide +kernel : ends _ (runOps perform sampleState
        [.park .settles, .unpark, .quota sampleOutcome, .park .settles, .unpark, .quota sampleOutcome]) = true)
    simp only [Bool.and_eq_true, decide_eq_true_eq, List.all_eq_true] at hp
    obtain ⟨u, hu, hiff, -⟩ := (suspension_loses_nothing sampleState t).1 _ sampleOutcome "k" none rfl ht rfl hp.1 hp.2
    exact ⟨t, u, ht, hu, hiff.mpr fun q hq => by cases hq⟩
  · obtain ⟨t, ht, hp⟩ := exists_of_ends (p := fun t : State => t.goal.parked.bind (·.interruptedTaskId) = none)
      (by decide +kernel : ends _ (parkGoal sampleState .settles) = true)
    obtain ⟨v, hv, hcolumns, hrest⟩ := (suspension_loses_nothing sampleState t).2 .settles [.parked] [.stopped] ht rfl rfl
    exact ⟨t, v, ht, hv, hcolumns, hrest (of_decide_eq_true hp)⟩

/-- A goal that its owner paused during a wait for the quota: another wait does not see the pause, and ends it. -/
theorem pause_lost_after_quota : ∃ s t u,
    s = { sampleState with goal := pauseGoal (parkPlannerForQuota sampleState.goal sampleOutcome) } ∧
    live s.goal.lifecycle = true ∧ s.goal.lifecycle = .paused ∧ runOps perform s [.quota sampleOutcome] = .ok t ∧
    resumePlanning t "k" none = .ok (u, true) ∧ u.goal.lifecycle = .active := by
  obtain ⟨t, ht, hp⟩ := exists_of_ends (p := fun t => ends (fun (u, resumed) => resumed && u.goal.lifecycle = .active)
      (resumePlanning t "k" none))
    (by decide +kernel : ends _ (runOps perform
      { sampleState with goal := pauseGoal (parkPlannerForQuota sampleState.goal sampleOutcome) } [.quota sampleOutcome]) = true)
  obtain ⟨⟨u, resumed⟩, hu, hp⟩ := exists_of_ends hp
  simp only [Bool.and_eq_true, decide_eq_true_eq] at hp
  exact ⟨_, t, u, rfl, rfl, rfl, ht, hp.1 ▸ hu, hp.2⟩

end Vuzol.Suspension
