import Vuzol.Leadership.Amendments
import Vuzol.Theorems.Plans.Hashes

/-! An amendment is stored once for the message it came from, waits in the only slot, and is applied once and between two
    tasks. -/

namespace Vuzol.Amendments

open Vuzol.Lib
open Vuzol.Discussion (Lifecycle WorkPackageStatus isUserTerminal)
open Vuzol.Leadership (GoalDelegation)
open Vuzol.Plans (Runtime)

structure Log where
  state : State
  stored : List Amendment := []
  applied : List Amendment := []

inductive Op where
  | store (d : GoalDelegation) (payload : Json) (reason : Text) (now : Nat)
  | apply (now : Nat)
  | written (u : State)

def perform (rt : Runtime) (l : Log) : Op → Except Error Log
  | .store d payload reason now =>
    (storeAmendment rt l.state d payload reason now).map fun r =>
      { l with state := r.1, stored := l.stored ++ [r.2] }
  | .apply now =>
    let (t, applied) := applyPendingAmendment l.state now
    .ok { l with
      state := t
      applied := if applied then l.applied ++ t.goal.constraints.lastAmendment.toList else l.applied }
  | .written u => .ok { l with state := l.state.written u }

def Constraints.slot (c : Constraints) : Option Amendment := c.pendingAmendment.or c.queuedAmendment

/-- What an application finds in `s` and leaves in `t`. -/
structure BetweenTasks (s t : State) : Prop where
  finished : ∀ p, currentPackage s = some p → ∀ task ∈ p.tasks, isUserTerminal task.status = true
  effectsKnown : ∀ p, currentPackage s = some p → packageHasUnknownEffects p = false
  scope : t.goal.scopeRevision = s.goal.scopeRevision + 1
  unapproved : ∀ p, currentPackage t = some p → p.approvedRevisionId = none
  paused : s.goal.lifecycle = .paused → t.goal.lifecycle = .paused

section Steps
variable {rt : Runtime} {s t : State} {d : GoalDelegation} {payload : Json} {reason : Text} {now : Nat} {a : Amendment}
variable {source : Uuid}
  {l m : Log} {op : Op}

theorem storeAmendment_ok (h : storeAmendment rt s d payload reason now = .ok (t, a)) :
    t = s.store a ∧ a.sourceEventId ∉ s.goal.constraints.amendmentSources ∧ s.goal.constraints.slot = none ∧
      ∃ e ∈ s.outbox, e.id = a.sourceEventId ∧ isSource s.goal d e = true := by
  unfold storeAmendment at h
  simp only [bind_eq_ok, raiseIf_eq_ok] at h
  obtain ⟨_, -, criteria, -, _, -, policy, -, sourceId, -, _, hsource, _, hnew, _, hfree, _, -, h⟩ := h
  cases h
  refine ⟨rfl, hnew, ?_, ?_⟩
  · rw [not_or, Option.not_isSome_iff_eq_none, Option.not_isSome_iff_eq_none] at hfree
    rw [Constraints.slot, hfree.1, hfree.2, Option.none_or]
  · rw [Bool.not_eq_false, Option.any_eq_true] at hsource
    obtain ⟨e, he, hsource⟩ := hsource
    exact ⟨e, List.mem_of_find?_eq_some he, by simpa using List.find?_some he, hsource⟩

theorem slot_store (h : s.goal.constraints.slot = none) : (s.store a).goal.constraints.slot = some a := by
  rw [Constraints.slot, Option.or_eq_none_iff] at h
  simp only [State.store, Constraints.store, Constraints.slot]
  split
  · rw [h.1, Option.none_or]
  · rfl

theorem store_not_both (h : s.goal.constraints.slot = none) :
    (s.store a).goal.constraints.pendingAmendment = none ∨ (s.store a).goal.constraints.queuedAmendment = none := by
  rw [Constraints.slot, Option.or_eq_none_iff] at h
  simp only [State.store, Constraints.store]
  split
  · exact Or.inl h.1
  · exact Or.inr h.2

theorem sources_store :
    (s.store a).goal.constraints.amendmentSources = s.goal.constraints.amendmentSources ++ [a.sourceEventId] := by
  simp only [State.store, Constraints.store]
  split <;> rfl

theorem applyPendingAmendment_cases (s : State) (now : Nat) :
    applyPendingAmendment s now = (s, false) ∨
      ∃ a d, s.goal.constraints.slot = some a ∧ s.delegations.find? (·.id == s.goal.delegationId) = some d ∧
        admits s.goal d a now = true ∧
        (currentPackage s).any (blocksAmendment s.goal.constraints.pendingAmendment.isSome) = false ∧
        applyPendingAmendment s now = (s.amend d a, true) := by
  unfold applyPendingAmendment
  simp only
  split
  · rename_i a d ha hd
    split
    · exact Or.inl rfl
    · rename_i hadmits
      split
      · exact Or.inl rfl
      · rename_i hfree
        exact Or.inr ⟨a, d, ha, hd, by simpa using hadmits, by simpa using hfree, rfl⟩
  · exact Or.inl rfl

theorem retirePackage_goal : s.retirePackage.goal = s.goal := by
  unfold State.retirePackage
  split <;> rfl

theorem demote_constraints : (s.demote d).goal.constraints = s.goal.constraints := by
  unfold State.demote
  split <;> rfl

theorem demote_scopeRevision : (s.demote d).goal.scopeRevision = s.goal.scopeRevision := by
  unfold State.demote
  split <;> rfl

theorem demote_paused (h : s.goal.lifecycle = .paused) : (s.demote d).goal.lifecycle = .paused := by
  unfold State.demote
  split
  · simp [h]
  · exact h

theorem demote_packages : currentPackage (s.demote d) = currentPackage s := by
  unfold State.demote
  split <;> rfl

theorem preapprove_constraints (source : Uuid) :
    ∃ mandate, (s.preapprove source).goal.constraints = { s.goal.constraints with ownerMandate := mandate } := by
  unfold State.preapprove
  split
  · exact ⟨_, rfl⟩
  · exact ⟨_, rfl⟩

theorem preapprove_scopeRevision : (s.preapprove source).goal.scopeRevision = s.goal.scopeRevision := by
  unfold State.preapprove
  split <;> rfl

theorem preapprove_paused (h : s.goal.lifecycle = .paused) : (s.preapprove source).goal.lifecycle = .paused := by
  unfold State.preapprove
  split
  · simp [grantPreapproval, h]
  · exact h

theorem preapprove_packages : currentPackage (s.preapprove source) = currentPackage s := by
  unfold State.preapprove
  split <;> rfl

theorem amend_constraints :
    (s.amend d a).goal.constraints.slot = none ∧
      (s.amend d a).goal.constraints.amendmentSources = s.goal.constraints.amendmentSources ∧
      (s.amend d a).goal.constraints.lastAmendment = some a := by
  obtain ⟨mandate, hkept⟩ :=
    preapprove_constraints (s := (State.demote { s.retirePackage with goal := s.retirePackage.goal.amended a } d).reviseScope)
      a.sourceEventId
  have hdemoted : (State.demote { s.retirePackage with goal := s.retirePackage.goal.amended a } d).goal.constraints =
      s.goal.constraints.applied a := by
    rw [demote_constraints, retirePackage_goal]
    rfl
  have hamended : (s.amend d a).goal.constraints = { s.goal.constraints.applied a with ownerMandate := mandate } := by
    rw [← hdemoted]
    exact hkept
  rw [hamended]
  exact ⟨rfl, rfl, rfl⟩

theorem endWait_scopeRevision {g : ManagedGoal} : g.endWait.scopeRevision = g.scopeRevision := by
  unfold ManagedGoal.endWait
  split <;> rfl

theorem endWait_currentPackageId {g : ManagedGoal} : g.endWait.currentPackageId = g.currentPackageId := by
  unfold ManagedGoal.endWait
  split <;> rfl

theorem retire_id {p : WorkPackage} : p.retire.id = p.id := by
  unfold WorkPackage.retire
  dsimp only
  split <;> rfl

theorem amend_scopeRevision : (s.amend d a).goal.scopeRevision = s.goal.scopeRevision + 1 := by
  refine preapprove_scopeRevision.trans ?_
  show (State.demote _ d).goal.scopeRevision + 1 = _
  rw [demote_scopeRevision, retirePackage_goal]
  exact congrArg (· + 1) endWait_scopeRevision

theorem amend_paused (h : s.goal.lifecycle = .paused) : (s.amend d a).goal.lifecycle = .paused := by
  refine preapprove_paused (demote_paused ?_)
  show (s.retirePackage.goal.endWait).lifecycle = .paused
  rw [retirePackage_goal, ManagedGoal.endWait, if_neg (by rw [h]; decide)]
  exact h

theorem amend_package : currentPackage (s.amend d a) = (currentPackage s).map WorkPackage.retire := by
  refine preapprove_packages.trans (demote_packages.trans ?_)
  show (s.retirePackage.goal.endWait.currentPackageId.bind fun id => s.retirePackage.packages.find? (·.id == id)) = _
  rw [retirePackage_goal, endWait_currentPackageId]
  unfold State.retirePackage
  split
  · rename_i hnone
    rw [hnone]
    exact hnone
  · rename_i p hp
    rw [hp]
    obtain ⟨id, hid, hfind⟩ := Option.bind_eq_some_iff.mp hp
    have hpid : p.id = id := by simpa using List.find?_some hfind
    rw [hid, Option.bind_some, find?_key_put, hfind]
    simp [retire_id]

theorem amend_between (hfree : (currentPackage s).any (blocksAmendment s.goal.constraints.pendingAmendment.isSome) = false) :
    BetweenTasks s (s.amend d a) where
  finished p hp task htask := by
    rw [hp, Option.any_some, blocksAmendment, Bool.or_eq_false_iff, Bool.or_eq_false_iff] at hfree
    simpa using List.any_eq_false.mp hfree.1.2 task htask
  effectsKnown p hp := by
    rw [hp, Option.any_some, blocksAmendment, Bool.or_eq_false_iff] at hfree
    exact hfree.2
  scope := amend_scopeRevision
  unapproved p hp := by
    rw [amend_package, Option.map_eq_some_iff] at hp
    obtain ⟨q, -, rfl⟩ := hp
    rfl
  paused := amend_paused

structure Inv (l : Log) : Prop where
  sources : l.state.goal.constraints.amendmentSources = l.stored.map (·.sourceEventId)
  distinct : (l.stored.map (·.sourceEventId)).Nodup
  one : l.state.goal.constraints.pendingAmendment = none ∨ l.state.goal.constraints.queuedAmendment = none
  settled : l.stored = l.applied ++ l.state.goal.constraints.slot.toList

theorem Inv.store (h : Inv l) (hs : storeAmendment rt l.state d payload reason now = .ok (t, a)) :
    Inv { l with state := t, stored := l.stored ++ [a] } := by
  obtain ⟨rfl, hnew, hfree, -⟩ := storeAmendment_ok hs
  constructor
  case sources => rw [sources_store, h.sources, List.map_append, List.map_singleton]
  case distinct =>
    rw [List.map_append, List.map_singleton, List.nodup_append_comm, List.singleton_append, List.nodup_cons, ← h.sources]
    exact ⟨hnew, h.sources ▸ h.distinct⟩
  case one => exact store_not_both hfree
  case settled =>
    show l.stored ++ [a] = l.applied ++ (l.state.store a).goal.constraints.slot.toList
    rw [slot_store hfree, h.settled, hfree, Option.toList_none, List.append_nil, Option.toList_some]

theorem Inv.amend (h : Inv l) (hslot : l.state.goal.constraints.slot = some a) :
    Inv { l with state := l.state.amend d a, applied := l.applied ++ [a] } := by
  obtain ⟨hempty, hsources, -⟩ := amend_constraints (s := l.state) (d := d) (a := a)
  constructor
  case sources => exact hsources.trans h.sources
  case distinct => exact h.distinct
  case one =>
    rw [Constraints.slot, Option.or_eq_none_iff] at hempty
    exact Or.inl hempty.1
  case settled =>
    show l.stored = (l.applied ++ [a]) ++ (l.state.amend d a).goal.constraints.slot.toList
    rw [hempty, Option.toList_none, List.append_nil, h.settled, hslot, Option.toList_some]

theorem Inv.perform (h : Inv l) (hm : perform rt l op = .ok m) : Inv m := by
  cases op with
  | store d payload reason now =>
    obtain ⟨⟨t, a⟩, hs, rfl⟩ := map_eq_ok.mp hm
    exact h.store hs
  | apply now =>
    rcases applyPendingAmendment_cases l.state now with hwait | ⟨a, d, hslot, -, -, -, happlied⟩
    · rw [Amendments.perform, hwait] at hm
      cases hm
      exact h
    · rw [Amendments.perform, happlied] at hm
      cases hm
      rw [if_pos rfl, amend_constraints.2.2, Option.toList_some]
      exact h.amend hslot
  | written u =>
    cases hm
    exact ⟨h.sources, h.distinct, h.one, h.settled⟩

/-- For a goal that starts without amendments, after any sequence of calls: no message was consumed by two amendments; all
    stored amendments but the one that waits were applied, each of them once; and one slot at most is taken. A call that
    stores an amendment consumes a message of the goal's owner and leaves the lifecycle alone. A call that applies one does
    so between two tasks, and any other call changes nothing. -/
theorem amendments_apply_once {s₀ : State} (h : Reach (perform rt) (fun _ _ => True) { state := s₀ } l)
    (hpending : s₀.goal.constraints.pendingAmendment = none) (hqueued : s₀.goal.constraints.queuedAmendment = none)
    (hsources : s₀.goal.constraints.amendmentSources = []) :
    (l.stored.map (·.sourceEventId)).Nodup ∧ (l.applied.map (·.sourceEventId)).Nodup ∧
      l.stored = l.applied ++ l.state.goal.constraints.slot.toList ∧
      (l.state.goal.constraints.pendingAmendment = none ∨ l.state.goal.constraints.queuedAmendment = none) ∧
      (∀ d payload reason now t a, storeAmendment rt l.state d payload reason now = .ok (t, a) →
        (∃ e ∈ l.state.outbox, e.id = a.sourceEventId ∧ isSource l.state.goal d e = true) ∧
          t.goal.lifecycle = l.state.goal.lifecycle) ∧
      ∀ now, applyPendingAmendment l.state now = (l.state, false) ∨
        ∃ t, applyPendingAmendment l.state now = (t, true) ∧ BetweenTasks l.state t := by
  have hinv : Inv l := by
    refine h.invariant ⟨hsources, List.nodup_nil, Or.inl hpending, ?_⟩ fun hl _ hm => hl.perform hm
    rw [Constraints.slot, hpending, hqueued]
    rfl
  refine ⟨hinv.distinct, ?_, hinv.settled, hinv.one, ?_, ?_⟩
  · have hdistinct := hinv.distinct
    rw [hinv.settled, List.map_append] at hdistinct
    exact hdistinct.of_append_left
  · intro d payload reason now t a hs
    obtain ⟨rfl, -, -, hsource⟩ := storeAmendment_ok hs
    exact ⟨hsource, rfl⟩
  · intro now
    rcases applyPendingAmendment_cases l.state now with hwait | ⟨a, d, -, -, -, hfree, happlied⟩
    · exact Or.inl hwait
    · exact Or.inr ⟨_, happlied, amend_between hfree⟩

end Steps

def messageId : Uuid := ⟨0x1b, by decide⟩

/-- A goal whose package runs one task. -/
def busy (status : Workflow.TaskStatus) : State where
  goal := { id := 1, ownerUserId := 7, delegationId := 2, scopeText := ['s'], currentPackageId := some 3 }
  delegations := [{ id := 2, projectId := "p", ownerUserId := 7, agentPrincipalId := "lead", allowedActions := [] }]
  outbox :=
    [{ id := messageId, destination := "project_lead", linkedEntityId := 1, wakeupKind := "owner_message"
       ownerUserId := some 7, delegationId := some 2, scopeRevision := some 1 }]
  packages := [{ id := 3, sessionId := 4, status := .running, approvedRevisionId := some 5, tasks := [{ status := status }] }]
  sessions := [{ id := 4, activeWorkPackageId := some 3 }]

def requested : Json :=
  .obj
    [("scope", .str ['n', 'e', 'w']),
      ("criteria", .arr [.obj [("id", .str ['a']), ("description", .str ['d'])]]),
      ("inflight_policy", .str "finish_current".toList),
      ("source_event_id", .str messageId.str)]

def amendmentRun : List Op :=
  [.store { id := 2, projectId := "p", ownerUserId := 7, agentPrincipalId := "lead", allowedActions := [] } requested ['r'] 0,
    .apply 0, .written (busy .completed), .apply 0]

theorem amendments_apply_once_sample :
    ∃ l : Log, runOps (perform Plans.asciiRuntime) { state := busy .executing } amendmentRun = .ok l ∧
      l.applied.length = 1 ∧ l.stored = l.applied ++ l.state.goal.constraints.slot.toList := by
  obtain ⟨l, hl, hlen⟩ := exists_of_ends (p := fun l : Log => l.applied.length = 1)
    (by decide +kernel : ends _ (runOps (perform Plans.asciiRuntime) { state := busy .executing } amendmentRun) = true)
  exact ⟨l, hl, of_decide_eq_true hlen, (amendments_apply_once (reach_of_runOps (fun _ _ _ => trivial) hl) rfl rfl rfl).2.2.1⟩

end Vuzol.Amendments
