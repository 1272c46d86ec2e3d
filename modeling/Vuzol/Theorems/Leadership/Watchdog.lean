import Mathlib.Data.List.Perm.Subperm
import Vuzol.Leadership.Watchdog

/-! One chance for each state: the watchdog compares with the last state that it woke the lead at. -/

namespace Vuzol.Watchdog

open Vuzol.Discussion (Lifecycle WorkPackageStatus)
open Vuzol.Leadership (ManagedGoal Condition WakeupCondition outstandingWakeup)

def stalls (s : State) (now : Nat) : Bool :=
  s.goal.lifecycle = .waiting && !(now < s.updatedAt + grace) && !outstandingWakeup s.outbox s.goal.id &&
    (quotaRetryAt s.goal.wakeupCondition).isNone && (stuckReason s).isSome

abbrev Trace := List (Fingerprint × Verdict)

/-- A sequence of passes and of any other writes between them, from `s₀`: its stalls, and the state after it. Every stall is
    as `allowed` after those before it. -/
inductive Watched (digest : Fingerprint → String) (allowed : Trace → Fingerprint → Prop) (s₀ : State) :
    Trace → State → Prop
  | refl : Watched digest allowed s₀ [] s₀
  | stall {trace : Trace} {s : State} (now : Nat) (stopped : Option String) :
    Watched digest allowed s₀ trace s → stalls s now = true → allowed trace (fingerprint s) →
      Watched digest allowed s₀ (trace ++ [(fingerprint s, (watchWaitingGoal digest s now stopped).1)])
        (watchWaitingGoal digest s now stopped).2
  | quiet {trace : Trace} {s : State} (now : Nat) (stopped : Option String) :
    Watched digest allowed s₀ trace s → stalls s now = false →
      Watched digest allowed s₀ trace (watchWaitingGoal digest s now stopped).2
  | written {trace : Trace} {s : State} (u : State) :
    Watched digest allowed s₀ trace s → Watched digest allowed s₀ trace (s.written u)

def woken (trace : Trace) : List Fingerprint := (trace.filter (·.2 = .woke)).map (·.1)

def wakeups (trace : Trace) (scopeRevision : Nat) (package : Option (Nat × WorkPackageStatus × Nat)) : Nat :=
  (woken trace).countP fun f => f.scopeRevision = scopeRevision ∧ f.package = package

def OneChance (trace : Trace) : Prop := trace.Pairwise fun a b => a.2 = .woke → b.1 = a.1 → b.2 = .escalated

def NoReturn (trace : Trace) (f : Fingerprint) : Prop := f ∈ woken trace → (woken trace).getLast? = some f

instance (trace : Trace) (f : Fingerprint) : Decidable (NoReturn trace f) := inferInstanceAs (Decidable (_ → _))

section Runs
variable {digest : Fingerprint → String} {allowed : Trace → Fingerprint → Prop} {s₀ s t : State} {trace : Trace}
  {now : Nat} {stopped : Option String} {f : Fingerprint} {v : Verdict}

theorem watchWaitingGoal_of_stalls (h : stalls s now = true) : watchWaitingGoal digest s now stopped =
    if s.goal.constraints.watchdog = some (digest (fingerprint s)) ∨ s.goal.hasOwnerMandate = false then
      (.escalated, escalate s now stopped)
    else (.woke, wake digest s now) := by
  simp only [stalls, Bool.and_eq_true, Bool.not_eq_true', decide_eq_true_eq, decide_eq_false_iff_not, Option.isNone_iff_eq_none,
    Option.isSome_iff_exists] at h
  obtain ⟨⟨⟨⟨hwaiting, hgrace⟩, houtstanding⟩, hquota⟩, stuck, hstuck⟩ := h
  rw [watchWaitingGoal, if_neg (not_or.mpr ⟨not_not.mpr hwaiting, hgrace⟩), houtstanding, if_neg Bool.false_ne_true, hquota]
  dsimp only
  rw [hstuck]

theorem wake_watchdog : (wake digest s now).goal.constraints.watchdog = some (digest (fingerprint s)) := by
  rfl

theorem watchWaitingGoal_of_not_stalls (h : stalls s now = false) :
    (watchWaitingGoal digest s now stopped).2.goal.constraints.watchdog = s.goal.constraints.watchdog := by
  rw [watchWaitingGoal]
  split
  · rfl
  rename_i hgrace
  split
  · rfl
  rename_i houtstanding
  split
  · split
    · rfl
    · unfold resumePlanning
      split <;> rfl
  rename_i hquota
  split
  · rfl
  rename_i stuck hstuck
  rw [not_or, not_not] at hgrace
  simp [stalls, hgrace.1, hgrace.2, houtstanding, hquota, hstuck] at h

theorem kind_of_stalls (h : stalls s now = true) :
    (fingerprint s).kind ∈ [none, some Kind.planApproval, some Kind.package] := by
  simp only [stalls, Bool.and_eq_true, Option.isNone_iff_eq_none] at h
  obtain ⟨⟨-, hquota⟩, hstuck⟩ := h
  rw [fingerprint]
  cases hcondition : s.goal.wakeupCondition with
  | none => simp
  | some condition =>
    rw [hcondition] at hquota
    match condition, hcondition, hquota with
    | .plain (.owner ..), hcondition, _ =>
      rw [stuckReason, hcondition] at hstuck
      cases hstuck
    | .plain (.planApproval _), _, _ => simp [kindOf]
    | .plain (.package _), _, _ => simp [kindOf]
    | .quota .., _, hquota => cases hquota

theorem mem_woken : f ∈ woken trace ↔ (f, .woke) ∈ trace := by
  simp only [woken, List.mem_map, List.mem_filter, decide_eq_true_eq]
  constructor
  · rintro ⟨⟨g, v⟩, ⟨hmem, rfl⟩, rfl⟩
    exact hmem
  · intro h
    exact ⟨(f, .woke), ⟨h, rfl⟩, rfl⟩

theorem woken_append_woke : woken (trace ++ [(f, .woke)]) = woken trace ++ [f] := by
  simp [woken]

theorem woken_append_of_ne (h : v ≠ .woke) : woken (trace ++ [(f, v)]) = woken trace := by
  simp [woken, h]

theorem OneChance.nodup_woken (h : OneChance trace) : (woken trace).Nodup := by
  rw [woken, List.Nodup, List.pairwise_map]
  refine (List.Pairwise.filter _ h).imp_of_mem fun {a b} ha hb hab heq => ?_
  rw [List.mem_filter, decide_eq_true_eq] at ha hb
  have hescalated := hab ha.2 heq.symm
  rw [hb.2] at hescalated
  cases hescalated

theorem wakeups_le (hnodup : (woken trace).Nodup)
    (hkind : ∀ f ∈ woken trace, f.kind ∈ [none, some Kind.planApproval, some Kind.package]) (scopeRevision : Nat)
    (package : Option (Nat × WorkPackageStatus × Nat)) : wakeups trace scopeRevision package ≤ 3 := by
  rw [wakeups, List.countP_eq_length_filter, ← List.length_map (f := Fingerprint.kind)]
  refine (List.Subperm.length_le (List.subperm_of_subset ?_ ?_) :
    _ ≤ [none, some Kind.planApproval, some Kind.package].length)
  · rw [List.Nodup, List.pairwise_map]
    refine (hnodup.filter _).imp_of_mem fun {a b} ha hb hne hkinds => hne ?_
    simp only [List.mem_filter, decide_eq_true_eq] at ha hb
    obtain ⟨-, hascope, hapackage⟩ := ha
    obtain ⟨-, hbscope, hbpackage⟩ := hb
    cases a
    cases b
    simp_all
  · intro kind hmem
    obtain ⟨f, hf, rfl⟩ := List.mem_map.mp hmem
    exact hkind f (List.mem_filter.mp hf).1

theorem Watched.remembers (h : Watched digest allowed s₀ trace t) (hf : (woken trace).getLast? = some f) :
    t.goal.constraints.watchdog = some (digest f) := by
  induction h with
  | refl => cases hf
  | @stall trace s now stopped _ hstalls _ ih =>
    rw [watchWaitingGoal_of_stalls hstalls] at hf ⊢
    split at hf
    · rename_i hknown
      rw [woken_append_of_ne (show Verdict.escalated ≠ .woke by decide)] at hf
      rw [if_pos hknown]
      exact ih hf
    · rename_i hunknown
      rw [woken_append_woke, List.getLast?_concat, Option.some.injEq] at hf
      subst hf
      rw [if_neg hunknown]
      exact wake_watchdog
  | quiet now stopped _ hquiet ih => rw [watchWaitingGoal_of_not_stalls hquiet, ih hf]
  | written u _ ih => exact ih hf

theorem Watched.kind (h : Watched digest allowed s₀ trace t) :
    ∀ f ∈ woken trace, f.kind ∈ [none, some Kind.planApproval, some Kind.package] := by
  suffices hall : ∀ e ∈ trace, e.1.kind ∈ [none, some Kind.planApproval, some Kind.package] from
    fun f hf => hall (f, .woke) (mem_woken.mp hf)
  induction h with
  | refl => simp
  | stall now stopped _ hstalls _ ih =>
    intro e he
    rcases Lib.mem_concat.mp he with he | rfl
    · exact ih e he
    · exact kind_of_stalls hstalls
  | quiet now stopped _ _ ih => exact ih
  | written u _ ih => exact ih

theorem Watched.oneChance (h : Watched digest NoReturn s₀ trace t) : OneChance trace := by
  induction h with
  | refl => exact .nil
  | @stall trace s now stopped hrun hstalls hallowed ih =>
    refine List.pairwise_append.mpr ⟨ih, List.pairwise_singleton _ _, ?_⟩
    rintro ⟨g, v⟩ he b hb hwoke heq
    obtain rfl := List.mem_singleton.mp hb
    dsimp only at hwoke heq
    subst hwoke
    subst heq
    rw [watchWaitingGoal_of_stalls hstalls, if_pos (.inl (hrun.remembers (hallowed (mem_woken.mpr he))))]
  | quiet now stopped _ _ ih => exact ih
  | written u _ ih => exact ih

/-- One chance for each state, and three wakeups at most while neither the scope nor the package changes. -/
theorem one_chance_for_each_state (h : Watched digest NoReturn s₀ trace t) :
    OneChance trace ∧ ∀ scopeRevision package, wakeups trace scopeRevision package ≤ 3 :=
  ⟨h.oneChance, wakeups_le h.oneChance.nodup_woken h.kind⟩

end Runs

/-- A goal that waits for a package without a task. -/
def idleGoal : State where
  goal :=
    { id := 1, lifecycle := .waiting
      wakeupCondition := some (.plain (.package 7)), currentPackageId := some 7 }
  updatedAt := 0
  packages := [{ id := 7, managedGoalId := some 1, status := .draft }]

def kindDigest (f : Fingerprint) : String := if f.kind = some .package then "package" else "plan_approval"

def waitAgain (s : State) (condition : Condition) : State :=
  { s with
    goal := { s.goal with lifecycle := .waiting, wakeupCondition := some (.plain condition) }
    outbox := s.outbox.map fun w => { w with status := .delivered } }

/-- The pass that follows a turn which ends in `condition`. -/
def nextPass (condition : Condition) (s : State) : State :=
  (watchWaitingGoal kindDigest (s.written (waitAgain s condition)) (s.updatedAt + grace) none).2

theorem watched_turn {allowed : Trace → Fingerprint → Prop} {s : State} {trace : Trace} (condition : Condition)
    (h : Watched kindDigest allowed idleGoal trace s)
    (hstalls : stalls (s.written (waitAgain s condition)) (s.updatedAt + grace) = true)
    (hallowed : allowed trace (fingerprint (s.written (waitAgain s condition)))) :
    Watched kindDigest allowed idleGoal
      (trace ++ [(fingerprint (s.written (waitAgain s condition)),
        (watchWaitingGoal kindDigest (s.written (waitAgain s condition)) (s.updatedAt + grace) none).1)])
      (nextPass condition s) :=
  (h.written (waitAgain s condition)).stall (s.updatedAt + grace) none hstalls hallowed

/-- The lead is woken once and waits for the package again. -/
theorem one_chance_for_each_state_package :
    OneChance [(fingerprint idleGoal, .woke), (fingerprint idleGoal, .escalated)] ∧
      ∀ scopeRevision package,
        wakeups [(fingerprint idleGoal, .woke), (fingerprint idleGoal, .escalated)] scopeRevision package ≤ 3 :=
  one_chance_for_each_state
    (watched_turn (.package 7) (watched_turn (.package 7) .refl (by decide) (by decide)) (by decide) (by decide))

/-- The wait for a plan's approval in between makes the watchdog forget the wait for the package. -/
theorem woken_twice_at_one_state : ∃ f t,
    Watched kindDigest (fun _ _ => True) idleGoal
      [(fingerprint idleGoal, .woke), (f, .woke), (fingerprint idleGoal, .woke)] t ∧
    ¬OneChance [(fingerprint idleGoal, .woke), (f, .woke), (fingerprint idleGoal, .woke)] := by
  have hfirst : Watched kindDigest (fun _ _ => True) idleGoal _ _ := watched_turn (.package 7) .refl (by decide) trivial
  have hrun := watched_turn (.package 7) (watched_turn (.planApproval 3) hfirst (by decide) trivial) (by decide) trivial
  exact ⟨_, _, hrun, by simp [OneChance]⟩

end Vuzol.Watchdog
