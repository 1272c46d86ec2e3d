import Vuzol.Theorems.Providers.Ledger

/-! A receipt that races with a conservative close. A step-less reservation ends with the measured cost in
    either order; a step-bound one keeps the estimate when the close came first. -/

namespace Vuzol.Providers

open Vuzol.Lib

/-- The closes that charge a call whose receipt is missing: lease recovery and cancellation close the
    reservations of a step, and the sweep closes orphans. -/
inductive ConservativeClose where
  | step (stepId : Nat) (outcome : String)
  | sweep (olderThanSeconds batchSize : Nat)

def ConservativeClose.perform (f : Surroundings) (l : Ledger) : ConservativeClose → Except LedgerError Ledger
  | .step stepId outcome => closeStepReservations l f.now stepId outcome false none
  | .sweep olderThanSeconds batchSize => releaseOrphanReservations f l olderThanSeconds batchSize

/-- The close charges the open reservation: it neither passes it over nor takes it for a call that never
    started. -/
def ConservativeClose.covers (f : Surroundings) (l : Ledger) (r : ProviderBudgetReservation) :
    ConservativeClose → Prop
  | .step stepId _ => r.stepId = some stepId
  | .sweep olderThanSeconds batchSize => r ∈ orphans f l olderThanSeconds batchSize ∧
      (leadTurnLive f r || stepLive f r) = false ∧ neverStarted f r = false

/-- The receipt of a reservation: `settle_invocation_budget` without a step, `record_late_receipt` with one. -/
def receive (now : Nat) (l : Ledger) (r : ProviderBudgetReservation) (profile : ProviderProfile) (receipt : Receipt) :
    Except LedgerError Ledger :=
  match r.stepId with
  | none => settleInvocationBudget l now r.id profile receipt
  | some _ => recordLateReceipt l now r.id receipt

def measured (r : ProviderBudgetReservation) (profile : ProviderProfile) (receipt : Receipt) : Option Nat :=
  match r.stepId with
  | none => (receipt.usage.map (accountUsage profile)).bind (·.costUnits)
  | some _ => receipt.usage.bind (·.costUnits)

def EndsWith (r : ProviderBudgetReservation) (cost : Nat) (l : Ledger) : Prop :=
  ∃ u, l.recordsOf r.id = [u] ∧ u.amounts.costUnits = cost ∧ u.costKnown = true

def ReceiptWins (f : Surroundings) (now : Nat) (l : Ledger) (r : ProviderBudgetReservation) (close : ConservativeClose)
    (profile : ProviderProfile) (receipt : Receipt) (cost : Nat) : Prop :=
  (∃ l₁ l₂, close.perform f l = .ok l₁ ∧ receive now l₁ r profile receipt = .ok l₂ ∧ EndsWith r cost l₂) ∧
  (∃ l₁ l₂, receive now l r profile receipt = .ok l₁ ∧ close.perform f l₁ = .ok l₂ ∧ EndsWith r cost l₂)

section
variable {f : Surroundings} {now : Nat} {l l' : Ledger} {r : ProviderBudgetReservation} {close : ConservativeClose}
  {profile : ProviderProfile} {receipt : Receipt} {cost : Nat}

def ConservativeClose.rows (f : Surroundings) (l : Ledger) : ConservativeClose → List ProviderBudgetReservation
  | .step stepId _ => openOfStep l stepId
  | .sweep olderThanSeconds batchSize => orphans f l olderThanSeconds batchSize

def ConservativeClose.round (f : Surroundings) : ConservativeClose →
    Ledger → ProviderBudgetReservation → Except LedgerError Ledger
  | .step _ outcome => closeOne f.now outcome false none
  | .sweep _ _ => sweepOne f

theorem ConservativeClose.perform_eq : close.perform f l = (close.rows f l).foldlM (close.round f) l := by
  cases close <;> rfl

theorem ConservativeClose.closes (close : ConservativeClose) (f : Surroundings) (hopen : r.status = .reserved) :
    Closes (fun _ _ _ => True) (close.round f) r := by
  cases close with
  | step stepId outcome => exact closeOne_closes trivial hopen
  | sweep olderThanSeconds batchSize => exact sweepOne_closes trivial hopen

theorem ConservativeClose.mem_rows (h : r ∈ close.rows f l) : r ∈ l.reservations ∧ r.status = .reserved := by
  cases close with
  | step stepId outcome =>
    have hsel := mem_openOfStep.mp h
    exact ⟨hsel.1, hsel.2.2⟩
  | sweep olderThanSeconds batchSize => exact mem_orphans h

theorem ConservativeClose.nodup_rows (hs : l.Sound) : ((close.rows f l).map (·.id)).Nodup := by
  cases close with
  | step stepId outcome => exact hs.nodup_openOfStep
  | sweep olderThanSeconds batchSize => exact hs.nodup_orphans

theorem ConservativeClose.covers_mem (hr : r ∈ l.reservations) (hopen : r.status = .reserved)
    (h : close.covers f l r) : r ∈ close.rows f l := by
  cases close with
  | step stepId outcome => exact mem_openOfStep.mpr ⟨hr, h, hopen⟩
  | sweep olderThanSeconds batchSize => exact h.1

theorem ConservativeClose.perform_closed (close : ConservativeClose) (f : Surroundings) (hs : l.Sound)
    (hr : r ∈ l.reservations) (hclosed : r.status ≠ .reserved) :
    ∃ l', close.perform f l = .ok l' ∧ l'.recordsOf r.id = l.recordsOf r.id := by
  obtain ⟨l', h, -, -, hframe⟩ := Closes.foldlM (fun x hx => close.closes f (mem_rows hx).2) hs (close.nodup_rows hs)
    fun x hx => (mem_rows hx).1
  have hnot : r.id ∉ (close.rows f l).map (·.id) := by
    intro hmem
    obtain ⟨x, hx, hid⟩ := List.mem_map.mp hmem
    obtain ⟨hxl, hopen⟩ := mem_rows hx
    have hxr : x = r := eq_of_key_eq hs.ids hxl hr hid
    exact hclosed (hxr ▸ hopen)
  exact ⟨l', by rw [perform_eq, h], (hframe r hr hnot).2⟩

theorem ConservativeClose.round_charges (hs : l.Sound) (hr : r ∈ l.reservations) (hopen : r.status = .reserved)
    {l₀ : Ledger} (h : close.covers f l₀ r) :
    ∃ l', close.round f l r = .ok l' ∧ l'.Sound ∧ ∃ r' ∈ l'.reservations, r'.id = r.id ∧ r'.status = .conservative ∧
      ∃ u, l'.recordsOf r.id = [u] ∧ u.costKnown = false := by
  have hnone : l.usageOf? r.id = none := recordsOf_eq_nil.mp ((hs.kept r hr).of_reserved hopen)
  have hcharge : ∀ outcome, ∃ l', chargeFloor f.now l r outcome = .ok l' ∧ l'.Sound ∧ ∃ r' ∈ l'.reservations,
      r'.id = r.id ∧ r'.status = .conservative ∧ ∃ u, l'.recordsOf r.id = [u] ∧ u.costKnown = false := by
    intro outcome
    obtain ⟨l', h⟩ := chargeFloor_of_nil f.now outcome hnone
    have hmoved : Moved l r (settleReservation f.now r none outcome true true).1 l' := by
      rw [← applyAccounting_none (r := r)] at h ⊢
      exact Moved.of_settle hs h
    refine ⟨l', h, hmoved.sound hs hr, (settleReservation f.now r none outcome true true).1, ?_, rfl, rfl, _,
      (recordsOf_settle h rfl).1, rfl⟩
    rw [hmoved.reservations]
    exact mem_put_self hr hmoved.id.symm
  cases close with
  | step stepId outcome =>
    have hround : ConservativeClose.round f (.step stepId outcome) l r = chargeFloor f.now l r outcome := by
      simp [ConservativeClose.round, closeOne, hnone, applyAccounting]
    rw [hround]
    exact hcharge outcome
  | sweep olderThanSeconds batchSize =>
    have hround : ConservativeClose.round f (.sweep olderThanSeconds batchSize) l r =
        chargeFloor f.now l r "orphan_recovered" := by
      simp [ConservativeClose.round, sweepOne, hnone, h.2.1, h.2.2]
    rw [hround]
    exact hcharge "orphan_recovered"

theorem ConservativeClose.perform_charges (hs : l.Sound) (hr : r ∈ l.reservations) (hopen : r.status = .reserved)
    (hcovers : close.covers f l r) :
    ∃ l', close.perform f l = .ok l' ∧ l'.Sound ∧ ∃ r' ∈ l'.reservations, r'.id = r.id ∧ r'.status = .conservative ∧
      ∃ u, l'.recordsOf r.id = [u] ∧ u.costKnown = false := by
  obtain ⟨before, after, hsplit⟩ := List.append_of_mem (covers_mem hr hopen hcovers)
  have hids := close.nodup_rows (f := f) hs
  have hrows : ∀ x ∈ close.rows f l, x ∈ l.reservations ∧ x.status = .reserved := fun x hx => mem_rows hx
  rw [hsplit] at hids hrows
  simp only [List.map_append, List.map_cons, List.nodup_append, List.nodup_cons] at hids
  obtain ⟨hbefore, ⟨hrafter, hafter⟩, hdisjoint⟩ := hids
  -- The rounds before and after the one of `r` are about other reservations.
  obtain ⟨l1, h1, -, hs1, hframe1⟩ := Closes.foldlM
    (fun x hx => close.closes f (hrows x (by simp [hx])).2) hs hbefore fun x hx => (hrows x (by simp [hx])).1
  have hr1 : r ∈ l1.reservations := by
    refine (hframe1 r hr fun hmem => ?_).1
    exact hdisjoint r.id hmem r.id List.mem_cons_self rfl
  obtain ⟨l2, h2, hs2, r', hr', hid, hstatus, u, hrec, hunknown⟩ := round_charges hs1 hr1 hopen hcovers
  have hafter2 : ∀ x ∈ after, x ∈ l2.reservations := by
    intro x hx
    have hxid : x.id ∈ after.map (·.id) := List.mem_map_of_mem hx
    have hx1 : x ∈ l1.reservations := by
      refine (hframe1 x (hrows x (by simp [hx])).1 fun hmem => ?_).1
      exact hdisjoint x.id hmem x.id (List.mem_cons_of_mem _ hxid) rfl
    obtain ⟨l₂', h₂', hround⟩ := (close.closes f hopen).2 l1 hs1 hr1
    cases h2.symm.trans h₂'
    rcases hround with rfl | hmove
    · exact hx1
    · obtain ⟨y, hmoved⟩ := hmove.moved hs1 hr1
      exact hmoved.mem_of_ne hx1 fun hk => hrafter (hk ▸ hxid)
  obtain ⟨l3, h3, -, hs3, hframe3⟩ := Closes.foldlM
    (fun x hx => close.closes f (hrows x (by simp [hx])).2) hs2 hafter hafter2
  obtain ⟨hr3, hrec3⟩ := hframe3 r' hr' (by rw [hid]; exact hrafter)
  refine ⟨l3, ?_, hs3, r', hr3, hid, hstatus, u, ?_, hunknown⟩
  · rw [perform_eq, hsplit, List.foldlM_append, h1, ok_bind, List.foldlM_cons, h2, ok_bind, h3]
  · rw [← hrec, ← hid, hrec3]

theorem settle_measured (now : Nat) (accounting : Option AccountingContext) (outcome : String) (c late : Bool)
    {usage : Option NormalizedUsage} (hs : l.Sound) (hr : r ∈ l.reservations) (hopen : r.status = .reserved)
    (hm : usage.bind (·.costUnits) = some cost) :
    ∃ l', l.settle (settleReservation now (applyAccounting r accounting) usage outcome c late) = .ok l' ∧ l'.Sound ∧
      EndsWith r cost l' ∧ ∃ r' ∈ l'.reservations, r'.id = r.id ∧ r'.status ≠ .reserved := by
  have hnone : l.usageOf? r.id = none := recordsOf_eq_nil.mp ((hs.kept r hr).of_reserved hopen)
  have hres : (settleReservation now (applyAccounting r accounting) usage outcome c late).2.reservationId = some r.id := by
    simp [settleReservation]
  obtain ⟨l', h⟩ := settle_of_nil hres hnone
  have hmoved := Moved.of_settle hs h
  refine ⟨l', h, hmoved.sound hs hr, ⟨_, (recordsOf_settle h hres).1, ?_, ?_⟩, _, ?_, hmoved.id, ?_⟩
  · obtain ⟨x, rfl, hx⟩ := Option.bind_eq_some_iff.mp hm
    simp [settleReservation, NormalizedUsage.fillFrom, hx]
  · simp [settleReservation, hm]
  · rw [hmoved.reservations]
    exact mem_put_self hr hmoved.id.symm
  · simp only [settleReservation]
    split <;> simp

theorem receive_open (now : Nat) (hs : l.Sound) (hr : r ∈ l.reservations) (hopen : r.status = .reserved)
    (hm : measured r profile receipt = some cost) :
    ∃ l', receive now l r profile receipt = .ok l' ∧ l'.Sound ∧ EndsWith r cost l' ∧
      ∃ r' ∈ l'.reservations, r'.id = r.id ∧ r'.status ≠ .reserved := by
  have hnone : l.usageOf? r.id = none := recordsOf_eq_nil.mp ((hs.kept r hr).of_reserved hopen)
  have hrow := hs.reservation? hr
  unfold receive
  unfold measured at hm
  cases hstep : r.stepId with
  | none =>
    simp only [hstep] at hm
    have hsettle := settle_measured now none receipt.outcome
      (receipt.conservative || (receipt.usage.map (accountUsage profile)).isNone) false hs hr hopen hm
    simpa [settleInvocationBudget, hrow, hopen] using hsettle
  | some stepId =>
    simp only [hstep] at hm
    have hsettle := settle_measured now receipt.accounting receipt.outcome receipt.conservative true hs hr hopen hm
    simpa [recordLateReceipt, hrow, hnone, hopen] using hsettle

theorem receive_estimate (now : Nat) {r' : ProviderBudgetReservation} {u : UsageRecord} (hs : l.Sound) (hstep : r.stepId = none)
    (hr' : r' ∈ l.reservations) (hid : r'.id = r.id) (hclosed : r'.status ≠ .reserved)
    (hrec : l.recordsOf r.id = [u]) (hunknown : u.costKnown = false) (hm : measured r profile receipt = some cost) :
    ∃ l', receive now l r profile receipt = .ok l' ∧ EndsWith r cost l' := by
  have hrow : l.reservation? r.id = some r' := hid ▸ hs.reservation? hr'
  have hu : l.usageOf? r.id = some u := by rw [usageOf?_eq_head, hrec]; rfl
  simp only [measured, hstep] at hm
  obtain ⟨usage, haccounted, hcost⟩ := Option.bind_eq_some_iff.mp hm
  have hcost : usage.costUnits = some cost := hcost
  obtain ⟨v, hv⟩ : ∃ v, v = { u with
      amounts := usage.fillFrom u.amounts
      costKnown := true
      outcome := receipt.outcome
      lateReceipt := true
      invocationId := r'.invocationId } := ⟨_, rfl⟩
  refine ⟨(l.putUsage v).putReservation { r' with status := .reconciled }, ?_, v, ?_, ?_, ?_⟩
  · simp [receive, hstep, settleInvocationBudget, hrow, hclosed, hu, haccounted, hunknown, hcost, hv]
  · obtain ⟨hmem, -⟩ := usageOf?_eq_some hu
    rw [recordsOf_putReservation, hs.recordsOf_putUsage hmem (by rw [hv]) (by rw [hv]), hrec]
    simp [hv]
  · simp [hv, NormalizedUsage.fillFrom, hcost]
  · rw [hv]

theorem receive_recorded {r' : ProviderBudgetReservation} {u : UsageRecord} {stepId : Nat} (hs : l.Sound)
    (hstep : r.stepId = some stepId) (hr' : r' ∈ l.reservations) (hid : r'.id = r.id) (hrec : l.recordsOf r.id = [u]) :
    receive now l r profile receipt = .ok l := by
  have hrow : l.reservation? r.id = some r' := hid ▸ hs.reservation? hr'
  have hu : l.usageOf? r.id = some u := by rw [usageOf?_eq_head, hrec]; rfl
  simp [receive, hstep, recordLateReceipt, hrow, hu]

theorem receipt_wins_iff_stepless (hs : l.Sound) (hr : r ∈ l.reservations) (hopen : r.status = .reserved)
    (hcovers : close.covers f l r) (hm : measured r profile receipt = some cost) :
    ReceiptWins f now l r close profile receipt cost ↔ r.stepId = none := by
  obtain ⟨l1, hclose, hs1, r', hr', hid, hstatus, u, hrec, hunknown⟩ :=
    ConservativeClose.perform_charges hs hr hopen hcovers
  constructor
  · rintro ⟨⟨l₁', l2, hclose', hreceive, v, hv, -, hknown⟩, -⟩
    cases hclose.symm.trans hclose'
    by_contra hstep
    obtain ⟨stepId, hstep⟩ := Option.ne_none_iff_exists'.mp hstep
    -- The estimate is the record that the late receipt finds.
    rw [receive_recorded hs1 hstep hr' hid hrec] at hreceive
    cases hreceive
    rw [hrec] at hv
    cases hv
    rw [hunknown] at hknown
    cases hknown
  · intro hstep
    have hclosed : r'.status ≠ .reserved := by simp [hstatus]
    obtain ⟨l2, hreceive, hends⟩ := receive_estimate now hs1 hstep hr' hid hclosed hrec hunknown hm
    obtain ⟨l3, hfirst, hs3, ⟨v, hv, hends3⟩, r3, hr3, hid3, hclosed3⟩ := receive_open now hs hr hopen hm
    obtain ⟨l4, hclose4, hrec4⟩ := close.perform_closed f hs3 hr3 hclosed3
    refine ⟨⟨l1, l2, hclose, hreceive, hends⟩, l3, l4, hfirst, hclose4, v, ?_, hends3⟩
    rw [← hid3, hrec4, hid3, hv]

end

/-- The receipt of a step-less call that was swept before it came, and the same in the other order. -/
theorem receipt_wins_iff_stepless_swept :
    ReceiptWins { now := 1000 } 1001 { reservations := [{ id := 0, invocationId := some 7, reserved := { costUnits := 10 } }] }
      { id := 0, invocationId := some 7, reserved := { costUnits := 10 } } (.sweep 900 100) {}
      { usage := some { costUnits := some 4 }, outcome := "succeeded" } 4 := by
  refine (receipt_wins_iff_stepless ?_ (List.mem_singleton_self _) rfl ?_ rfl).mpr rfl
  · exact Ledger.sound_empty.addReservation (r := { id := 0, invocationId := some 7, reserved := { costUnits := 10 } })
      rfl rfl
  · exact ⟨by simp [orphans], rfl, rfl⟩

/-- The lease of a step is recovered, and then the receipt of its call comes: the estimate stays. -/
theorem late_receipt_keeps_estimate : ¬∀ (f : Surroundings) (now : Nat) (l : Ledger) (r : ProviderBudgetReservation)
    (close : ConservativeClose) (profile : ProviderProfile) (receipt : Receipt) (cost : Nat), l.Sound →
    r ∈ l.reservations → r.status = .reserved → close.covers f l r → measured r profile receipt = some cost →
    ReceiptWins f now l r close profile receipt cost := by
  intro hwins
  obtain ⟨⟨l1, l2, hclose, hreceive, u, hu, -, hknown⟩, -⟩ := hwins { now := 1000 } 1001
    { reservations := [{ id := 0, taskId := some 1, stepId := some 7, reserved := { costUnits := 10 } }] }
    { id := 0, taskId := some 1, stepId := some 7, reserved := { costUnits := 10 } } (.step 7 "lease_expired") {}
    { usage := some { costUnits := some 4 }, outcome := "succeeded", conservative := true } 4
    (Ledger.sound_empty.addReservation
      (r := { id := 0, taskId := some 1, stepId := some 7, reserved := { costUnits := 10 } }) rfl rfl)
    (List.mem_singleton_self _) rfl rfl rfl
  cases hclose
  cases hreceive
  cases hu
  cases hknown

end Vuzol.Providers
