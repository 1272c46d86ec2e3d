import Vuzol.Theorems.Discussion.Sequencing

/-! The two commands that leave the current item undone. Both pass the item; the dependency check reads the identity in
    the event of a skip, which only `skip_current` writes. -/

namespace Vuzol.Discussion

open Vuzol.Lib

def OthersFinished (s : State) (revision : PlanRevision) (skipped later : PlanRevisionItem) : Prop :=
  ∀ localId ∈ later.contract.dependencies,
    (dependency? s revision localId).map (·.itemId) ≠ some skipped.itemId → dependencyMet s revision localId = true

def Unblocks (s : State) (revision : PlanRevision) (skipped : PlanRevisionItem) : Prop :=
  ∀ later ∈ revision.items, skipped.ordinal < later.ordinal → OthersFinished s revision skipped later →
    checkItemDependencies s revision later = .ok ()

def SkippedAlike (t t' : State) : Prop :=
  t.package.cursorOrdinal = t'.package.cursorOrdinal ∧ t.package.status = t'.package.status ∧
    ∀ id, itemWasSkipped t id = itemWasSkipped t' id

section
variable {s t : State} {revision : PlanRevision} {ordinal now : Nat} {item : PlanRevisionItem} {fence : Fence} {c : Cancellation}
  {result : SequenceResult}

theorem unblocks_of_skipped (h : itemWasSkipped s item.itemId = true) : Unblocks s revision item := by
  intro later _ _ hothers
  refine checkItemDependencies_ok.mpr fun localId hdep => ?_
  by_cases hid : (dependency? s revision localId).map (·.itemId) = some item.itemId
  · obtain ⟨i, hi, hsame⟩ := Option.map_eq_some_iff.mp hid
    rw [dependencyMet, hi, Option.any_some, hsame, h, Bool.or_true]
  · exact hothers localId hdep hid

theorem passItem_skipped (u : State) (revision : PlanRevision) (ordinal : Nat) (item : PlanRevisionItem) (id : Nat) :
    itemWasSkipped (passItem u revision ordinal item) id = (itemWasSkipped u id || item.itemId == id) := by
  simp [itemWasSkipped, passItem]

def Continues (s : State) (revision : PlanRevision) (ordinal : Nat) : Prop :=
  (revision.itemAt (ordinal + 1)).isSome = true ∨ s.goal.any (·.pendingAmendment) = true

section
variable (hskip : skippable s = .ok (revision, ordinal, item))
include hskip

theorem skipCurrent_cases (h : skipCurrent s c now = .ok (t, result)) :
    (Continues s revision ordinal → t.package.cursorOrdinal = some (ordinal + 1) ∧ t.package.status = .running) ∧
      (¬Continues s revision ordinal → t.package.status = .completed) ∧
      ∀ id, itemWasSkipped t id = (itemWasSkipped s id || item.itemId == id) := by
  simp only [skipCurrent, hskip, bind_eq_ok, Except.ok.injEq, exists_eq_left'] at h
  obtain ⟨u, hu, h⟩ := h
  obtain ⟨tasks, outbox, rfl⟩ := cancelLive_frame hu
  split at h
  · rename_i hnext
    cases h
    exact ⟨fun _ => ⟨rfl, rfl⟩, fun hlast => absurd (Or.inl hnext) hlast, passItem_skipped _ revision ordinal item⟩
  · rename_i hnext
    unfold materializeCurrent at h
    split at h
    · rename_i hpending
      cases h
      exact ⟨fun _ => ⟨rfl, rfl⟩, fun hlast => absurd (Or.inr hpending) hlast, passItem_skipped _ revision ordinal item⟩
    · rename_i hpending
      have hnone : revision.itemAt (ordinal + 1) = none := by simpa using hnext
      simp only [passItem, hnone] at h
      cases h
      exact ⟨fun hgo => absurd hgo (not_or.mpr ⟨hnext, hpending⟩), fun _ => rfl,
        passItem_skipped _ revision ordinal item⟩

theorem skipCurrent_alreadyCancelled (now : Nat) :
    ∃ t result, skipCurrent s .alreadyCancelled now = .ok (t, result) := by
  have hcancel : cancelLive s s.currentTask .alreadyCancelled = .ok s := by
    cases s.currentTask with
    | none => rfl
    | some x => exact ite_self _
  simp only [skipCurrent, hskip, hcancel, bind_eq_ok, Except.ok.injEq, exists_eq_left']
  split
  · exact ⟨_, _, rfl⟩
  · rename_i hnext
    have hnone : revision.itemAt (ordinal + 1) = none := by simpa using hnext
    unfold materializeCurrent
    split
    · exact ⟨_, _, rfl⟩
    · simp only [passItem, hnone]
      exact ⟨_, _, rfl⟩

theorem skipItem_cases (h : skipItem s fence = .ok t) :
    t.package.cursorOrdinal = some (ordinal + 1) ∧ t.package.status = .running ∧
      ∀ id, itemWasSkipped t id = itemWasSkipped s id := by
  obtain ⟨-, fenced, cursor, hcursor, -, -, rfl⟩ := skipItem_ok h
  have hord : cursor = ordinal := Option.some.inj (hcursor.symm.trans (skippable_ok hskip).cursor)
  exact ⟨congrArg (fun n => some (n + 1)) hord, rfl, fun id => by simp [itemWasSkipped]⟩

end

end

/-- A skip through the sequencer unblocks what depends on the item. A skip through the service does so, and leaves what the
    sequencer would leave, exactly when the item is recorded as skipped already and the package goes on after it. -/
theorem skip_unblocks_dependents (s t : State) :
    (∀ (c : Cancellation) (now : Nat) (result : SequenceResult), skipCurrent s c now = .ok (t, result) →
      ∃ revision ordinal item, skippable s = .ok (revision, ordinal, item) ∧ itemWasSkipped t item.itemId = true ∧
        Unblocks t revision item) ∧
    ∀ (fence : Fence) (revision : PlanRevision) (ordinal : Nat) (item : PlanRevisionItem),
      skipItem s fence = .ok t → skippable s = .ok (revision, ordinal, item) →
      ((Unblocks t revision item ∧
          ∀ c now t' result, skipCurrent s c now = .ok (t', result) → SkippedAlike t t') ↔
        itemWasSkipped s item.itemId = true ∧ Continues s revision ordinal) := by
  constructor
  · intro c now result h
    obtain ⟨⟨revision, ordinal, item⟩, hskip, -⟩ := bind_eq_ok.mp h
    obtain ⟨-, -, hrecorded⟩ := skipCurrent_cases hskip h
    have hself : itemWasSkipped t item.itemId = true := by simp [hrecorded]
    exact ⟨revision, ordinal, item, hskip, hself, unblocks_of_skipped hself⟩
  · intro fence revision ordinal item h hskip
    obtain ⟨hcursor, hstatus, hsame⟩ := skipItem_cases hskip h
    constructor
    · rintro ⟨-, halike⟩
      obtain ⟨t', result, h'⟩ := skipCurrent_alreadyCancelled hskip 0
      obtain ⟨-, hlast, hrecorded⟩ := skipCurrent_cases hskip h'
      obtain ⟨-, hstatus', hskips⟩ := halike _ _ _ _ h'
      refine ⟨?_, by_contra fun hgo => ?_⟩
      · rw [← hsame, hskips, hrecorded]
        simp
      · rw [hstatus, hlast hgo] at hstatus'
        cases hstatus'
    · rintro ⟨hold, hgo⟩
      refine ⟨unblocks_of_skipped ((hsame _).trans hold), fun c now t' result h' => ?_⟩
      obtain ⟨hon, -, hrecorded⟩ := skipCurrent_cases hskip h'
      obtain ⟨hcursor', hstatus'⟩ := hon hgo
      refine ⟨hcursor.trans hcursor'.symm, hstatus.trans hstatus'.symm, fun id => ?_⟩
      rw [hsame, hrecorded]
      by_cases hid : item.itemId = id
      · rw [← hid, hold, Bool.true_or]
      · simp [hid]

namespace Sample

/-- The first item failed. -/
def firstFailed : Except Error State := do
  let s ← createDraft digest {} none [] plan none
  runOps (perform digest) s [
    .approve { fence := { revisionNumber := 1, h8 := "plan", generation := 1 }, userId := 1 },
    .start { fence := { revisionNumber := 1, h8 := "plan", generation := 2 } },
    .taskMoves 0 .failed, .observeTerminal 0 0]

end Sample

/-- The second item of the chain passes the check after a skip through the sequencer; a skip through the service, of an item
    that was not skipped before, does not leave what the sequencer would leave. -/
theorem skip_unblocks_dependents_sample : ∃ s t result revision ordinal item, Sample.firstFailed = .ok s ∧
    skipCurrent s .settles 0 = .ok (t, result) ∧ skippable s = .ok (revision, ordinal, item) ∧ Unblocks t revision item ∧
    ∃ u, skipItem s { revisionNumber := 1, h8 := "plan", generation := 4 } = .ok u ∧ ¬(Unblocks u revision item ∧
      ∀ c now t' result, skipCurrent s c now = .ok (t', result) → SkippedAlike u t') := by
  obtain ⟨s, hs, hp⟩ := exists_of_ends (p := fun s => ends (fun _ => true) (skipCurrent s .settles 0) &&
      ends (fun _ => true) (skipItem s { revisionNumber := 1, h8 := "plan", generation := 4 }) &&
        ends (fun r => !itemWasSkipped s r.2.2.itemId) (skippable s))
    (by decide +kernel : ends _ Sample.firstFailed = true)
  rw [Bool.and_eq_true, Bool.and_eq_true] at hp
  obtain ⟨⟨hcurrent, hservice⟩, hnot⟩ := hp
  obtain ⟨⟨t, result⟩, h, -⟩ := exists_of_ends hcurrent
  obtain ⟨u, hu, -⟩ := exists_of_ends hservice
  obtain ⟨⟨revision, ordinal, item⟩, hskip, hnot⟩ := exists_of_ends hnot
  obtain ⟨revision', ordinal', item', hskip', -, hunblocks⟩ := (skip_unblocks_dependents s t).1 .settles 0 result h
  rw [hskip] at hskip'
  cases hskip'
  refine ⟨s, t, result, revision, ordinal, item, hs, h, hskip, hunblocks, u, hu, fun halike => ?_⟩
  have hold := (((skip_unblocks_dependents s u).2 _ _ _ _ hu hskip).mp halike).1
  simp [hold] at hnot

/-- After a skip through the service the second item of the chain still waits for the first. -/
theorem service_skip_blocks_dependents : ∃ s t revision item later, Sample.firstFailed = .ok s ∧
    skipItem s { revisionNumber := 1, h8 := "plan", generation := 4 } = .ok t ∧ skippable s = .ok (revision, 1, item) ∧
    later ∈ revision.items ∧ item.ordinal < later.ordinal ∧ OthersFinished t revision item later ∧
    checkItemDependencies t revision later = .error (.domain .dependenciesUnfinished) := by
  obtain ⟨s, hs, hp⟩ := exists_of_ends (p := fun s =>
      ends (fun t => ends (fun r => r.2.1 = 1 && r.1.items.any fun later => r.2.2.ordinal < later.ordinal &&
        (later.contract.dependencies.all fun d =>
          (dependency? t r.1 d).map (·.itemId) = some r.2.2.itemId || dependencyMet t r.1 d) &&
        checkItemDependencies t r.1 later = .error (.domain .dependenciesUnfinished)) (skippable s))
        (skipItem s { revisionNumber := 1, h8 := "plan", generation := 4 }))
    (by decide +kernel : ends _ Sample.firstFailed = true)
  obtain ⟨t, ht, hp⟩ := exists_of_ends hp
  obtain ⟨⟨revision, ordinal, item⟩, hskip, hp⟩ := exists_of_ends hp
  simp only [Bool.and_eq_true, decide_eq_true_eq, List.any_eq_true, List.all_eq_true, Bool.or_eq_true] at hp
  obtain ⟨rfl, later, hlater, ⟨hlt, hothers⟩, hcheck⟩ := hp
  exact ⟨s, t, revision, item, later, hs, ht, hskip, hlater, hlt, fun d hd hne => (hothers d hd).resolve_left hne, hcheck⟩

end Vuzol.Discussion
