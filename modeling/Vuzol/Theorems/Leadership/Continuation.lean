import Vuzol.Leadership.Continuation

/-! A goal that makes no progress gets `repeat_limit` more turns at most and then waits for its owner. -/

namespace Vuzol.Continuation

open Vuzol.Leadership (GoalWakeup enqueueGoalWakeup)

def created (s : State) (repeatLimit : Nat) (countPending : Bool) (stopped : Option String) : List GoalWakeup :=
  (continueIfIdle s repeatLimit countPending stopped).outbox.drop s.outbox.length

/-- A sequence of calls from `s` that all find the progress `p`, with any other writes between them: the wakeups that the
    calls created, and the state after them. -/
inductive Calls (repeatLimit : Nat) (p : Progress) (s : State) : List GoalWakeup → State → Prop
  | refl : Calls repeatLimit p s [] s
  | call {made : List GoalWakeup} {t : State} (countPending : Bool) (stopped : Option String) :
    Calls repeatLimit p s made t → progress t = p →
      Calls repeatLimit p s (made ++ created t repeatLimit countPending stopped)
        (continueIfIdle t repeatLimit countPending stopped)
  | written {made : List GoalWakeup} {t : State} (u : State) :
    Calls repeatLimit p s made t → Calls repeatLimit p s made (t.written u)

/-- The goal is active and nothing else will give its lead a turn: it has no condition to wait for, no task of its package
    is running, and no wakeup is outstanding, unless the call counts those too. -/
def idle (s : State) (countPending : Bool) : Prop :=
  s.goal.lifecycle = .active ∧ s.goal.wakeupCondition = none ∧ executing s = false ∧
    (outstanding s = true → countPending = true)

def WaitsForOwner (s : State) : Prop :=
  s.goal.lifecycle = .waiting ∧ s.goal.waitingReason = some continuationWithoutProgress ∧
    ∃ question, s.goal.wakeupCondition = some (.owner question s.goal.scopeRevision s.goal.version)

/-- The idle turns that are counted against `p`. -/
def spent (s : State) (p : Progress) : Nat :=
  match s.goal.continuation with
  | some previous => if previous.progress = p then previous.count else 0
  | none => 0

section Turns
variable {repeatLimit : Nat} {p : Progress} {s t : State} {made : List GoalWakeup} {countPending : Bool}
  {stopped : Option String}

theorem count_eq (h : progress s = p) : count s = spent s p + 1 := by
  subst h
  cases hc : s.goal.continuation with
  | none => simp only [count, spent, hc]
  | some previous =>
    simp only [count, spent, hc]
    split <;> rfl

theorem spent_counted (h : progress s = p) : spent s.counted p = spent s p + 1 := by
  rw [← count_eq h]
  exact if_pos h

theorem spent_of_continuation (h : t.goal.continuation = s.goal.continuation) : spent t p = spent s p := by
  unfold spent
  rw [h]

theorem continueIfIdle_of_not_idle (h : ¬idle s countPending) :
    continueIfIdle s repeatLimit countPending stopped = s := by
  unfold continueIfIdle
  split
  · rfl
  · rename_i hgoal
    rw [not_or, not_not, not_not] at hgoal
    split
    · rfl
    · rename_i hexecuting
      split
      · rfl
      · rename_i hout
        refine absurd ⟨hgoal.1, hgoal.2, by simpa using hexecuting, fun h => ?_⟩ h
        simpa [h] using hout

theorem continueIfIdle_of_idle (h : idle s countPending) :
    continueIfIdle s repeatLimit countPending stopped =
      if s.outbox.any (·.key == continuationKey s) || repeatLimit < count s then
        { s.counted with goal := block s.counted.goal stopped }
      else if outstanding s then s.counted
      else { s.counted with outbox := enqueueGoalWakeup s.outbox (continuation s) } := by
  obtain ⟨hactive, hcondition, hexecuting, hout⟩ := h
  unfold continueIfIdle
  rw [if_neg (by simp [hactive, hcondition]), if_neg (by simp [hexecuting]), if_neg]
  intro h
  simp only [Bool.and_eq_true, Bool.not_eq_true'] at h
  rw [hout h.1] at h
  cases h.2

theorem call_counts (repeatLimit : Nat) (countPending : Bool) (stopped : Option String) (h : progress s = p) :
    created s repeatLimit countPending stopped = [] ∧
        spent s p ≤ spent (continueIfIdle s repeatLimit countPending stopped) p ∨
      (created s repeatLimit countPending stopped).length = 1 ∧ spent s p + 1 ≤ repeatLimit ∧
        spent (continueIfIdle s repeatLimit countPending stopped) p = spent s p + 1 := by
  by_cases hidle : idle s countPending
  · rw [created, continueIfIdle_of_idle hidle]
    split
    · left
      exact ⟨List.drop_length, (Nat.le_succ _).trans_eq ((spent_of_continuation rfl).trans (spent_counted h)).symm⟩
    · rename_i hkept
      simp only [Bool.or_eq_true, decide_eq_true_eq, not_or, Nat.not_lt, count_eq h] at hkept
      split
      · left
        exact ⟨List.drop_length, (Nat.le_succ _).trans_eq (spent_counted h).symm⟩
      · right
        have hnew : s.outbox.any (·.key == (continuation s).key) = false := by simpa [continuation] using hkept.1
        rw [enqueueGoalWakeup, hnew, if_neg Bool.false_ne_true]
        refine ⟨?_, hkept.2, (spent_of_continuation rfl).trans (spent_counted h)⟩
        rw [List.length_drop, List.length_append]
        exact Nat.add_sub_cancel_left s.outbox.length 1
  · left
    rw [created, continueIfIdle_of_not_idle hidle]
    exact ⟨List.drop_length, Nat.le_refl _⟩

theorem call_blocks (h : progress s = p) (hidle : idle s countPending) (hspent : repeatLimit ≤ spent s p) :
    continueIfIdle s repeatLimit countPending stopped = { s.counted with goal := block s.counted.goal stopped } := by
  rw [continueIfIdle_of_idle hidle, if_pos]
  rw [Bool.or_eq_true, decide_eq_true_eq, count_eq h]
  exact Or.inr (Nat.lt_succ_of_le hspent)

theorem Calls.bounded (h : Calls repeatLimit p s made t) : made.length ≤ spent t p ∧ made.length ≤ repeatLimit := by
  induction h with
  | refl => exact ⟨Nat.zero_le _, Nat.zero_le _⟩
  | call countPending stopped _ hprogress ih =>
    rw [List.length_append]
    rcases call_counts repeatLimit countPending stopped hprogress with ⟨hnone, hspent⟩ | ⟨hone, hlimit, hspent⟩
    · rw [hnone, List.length_nil]
      exact ⟨ih.1.trans hspent, ih.2⟩
    · rw [hone, hspent]
      exact ⟨Nat.succ_le_succ ih.1, (Nat.succ_le_succ ih.1).trans hlimit⟩
  | written u _ ih => exact ⟨ih.1.trans_eq (spent_of_continuation rfl).symm, ih.2⟩

/-- While the progress stays the same, the calls create `repeat_limit` wakeups at most. After that no call creates another
    one: it makes the goal wait for its owner if it finds the goal idle, and changes nothing otherwise. -/
theorem continuation_bounded (h : Calls repeatLimit p s made t) :
    made.length ≤ repeatLimit ∧
      (made.length = repeatLimit → progress t = p → ∀ countPending stopped,
        created t repeatLimit countPending stopped = [] ∧
          (idle t countPending → WaitsForOwner (continueIfIdle t repeatLimit countPending stopped)) ∧
          (¬idle t countPending → continueIfIdle t repeatLimit countPending stopped = t)) := by
  refine ⟨h.bounded.2, fun hmade hprogress countPending stopped => ⟨?_, fun hidle => ?_, fun hidle => ?_⟩⟩
  · rcases call_counts repeatLimit countPending stopped hprogress with ⟨hnone, _⟩ | ⟨_, hlimit, _⟩
    · exact hnone
    · exact absurd (hmade ▸ h.bounded.1) (Nat.not_le_of_lt hlimit)
  · rw [call_blocks hprogress hidle (hmade ▸ h.bounded.1)]
    exact ⟨rfl, rfl, _, rfl⟩
  · exact continueIfIdle_of_not_idle hidle

end Turns

def accepted : State := { goal := { id := 1, lifecycle := .active } }

def turnTaken (s : State) : State :=
  { s with
    goal := { s.goal with version := s.goal.version + 1 }
    outbox := s.outbox.map fun w => { w with status := .delivered } }

def turn (s : State) : State := turnTaken (continueIfIdle s 2 false none)

theorem turn_calls {p : Progress} {s t : State} {made : List GoalWakeup} (h : Calls 2 p s made t) (hp : progress t = p)
    (hwritten : (continueIfIdle t 2 false none).written (turn t) = turn t) :
    Calls 2 p s (made ++ created t 2 false none) (turn t) :=
  hwritten ▸ (h.call false none hp).written (turn t)

/-- Two turns within a limit of two, and the call that follows them. -/
theorem continuation_bounded_accepted : WaitsForOwner (continueIfIdle (turn (turn accepted)) 2 false none) := by
  have h : Calls 2 (progress accepted) accepted _ (turn (turn accepted)) :=
    turn_calls (turn_calls .refl rfl rfl) (by decide) (by decide)
  have hidle : idle (turn (turn accepted)) false := by
    refine ⟨by decide, by decide, by decide, by decide⟩
  exact ((continuation_bounded h).2 (by decide) (by decide) false none).2.1 hidle

/-- Both wakeups of a limit of two are created and the second one is outstanding: a further call leaves the goal active. -/
theorem active_while_outstanding :
    ∃ (s t : State) (made : List GoalWakeup),
      Calls 2 (progress s) s made t ∧ made.length = 2 ∧ progress t = progress s ∧ t.goal.lifecycle = .active ∧
        (continueIfIdle t 2 false none).goal.lifecycle = .active := by
  refine ⟨accepted, continueIfIdle (turn accepted) 2 false none, _,
    (turn_calls .refl rfl rfl).call false none (by decide), by decide, by decide, by decide, by decide⟩

end Vuzol.Continuation
