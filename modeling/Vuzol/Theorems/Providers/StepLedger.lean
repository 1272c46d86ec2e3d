import Vuzol.Providers.StepLedger
import Vuzol.Theorems.Providers.Ledger
import Vuzol.Theorems.Workflow.Agreement

/-! What becomes of a reservation that its step was started with. The settlements that no lease guards tell from
    the status of the step whether the call was made, so that the reservation is charged as long as no step goes
    back to its queue before it. -/

namespace Vuzol.Providers

open Vuzol.Lib

def Ledger.Charged (l : Ledger) (r : ProviderBudgetReservation) : Prop :=
  (∃ r' ∈ l.reservations, r'.id = r.id ∧ r'.status = .conservative) ∧
    ∃ u, l.recordsOf r.id = [u] ∧ u.amounts = r.reserved ∧ u.costKnown = false

structure Ledger.Shrinks (l l' : Ledger) : Prop where
  length : l'.reservations.length = l.reservations.length
  opens : ∀ r ∈ l'.reservations, r.status = .reserved → r ∈ l.reservations

section Rounds
variable {l l' : Ledger} {r x : ProviderBudgetReservation} {rows : List ProviderBudgetReservation}
variable {may : ProviderBudgetReservation → Option NormalizedUsage → Option AccountingContext → Prop}
variable {step : Ledger → ProviderBudgetReservation → Except LedgerError Ledger}

theorem Ledger.Shrinks.refl : l.Shrinks l := ⟨rfl, fun _ hr _ => hr⟩

theorem Ledger.Shrinks.trans {l'' : Ledger} (h1 : l.Shrinks l') (h2 : l'.Shrinks l'') : l.Shrinks l'' where
  length := h2.length.trans h1.length
  opens r hr hopen := h1.opens r (h2.opens r hr hopen) hopen

theorem Move.shrinks (h : Move may l r l') : l.Shrinks l' := by
  obtain ⟨r', hrows, -, -, hclosed⟩ := h.closes
  refine ⟨by rw [hrows, length_put], fun x hx hopen => ?_⟩
  rw [hrows] at hx
  rcases mem_put.mp hx with ⟨rfl, -⟩ | ⟨hx, -⟩
  · exact absurd hopen hclosed
  · exact hx

theorem Moves.shrinks (h : Moves may l l') : l.Shrinks l' := by
  induction h with
  | refl => exact .refl
  | tail _ hstep ih =>
    obtain ⟨r, -, hmove⟩ := hstep
    exact ih.trans hmove.shrinks

section
variable (hstep : ∀ r ∈ rows, Closes may step r) (hs : l.Sound) (hids : (rows.map (·.id)).Nodup)
    (hrows : ∀ r ∈ rows, r ∈ l.reservations) (h : rows.foldlM step l = .ok l')
include hstep hs hids hrows h

theorem Closes.foldlM_others (hr : r ∈ l.reservations) (hnot : r ∉ rows) : r ∈ l'.reservations := by
  obtain ⟨l1, h1, -, -, hframe⟩ := Closes.foldlM hstep hs hids hrows
  obtain rfl : l' = l1 := Except.ok.inj (h.symm.trans h1)
  refine (hframe r hr fun hmem => ?_).1
  obtain ⟨x, hx, hk⟩ := List.mem_map.mp hmem
  obtain rfl : x = r := eq_of_key_eq hs.ids (hrows x hx) hr hk
  exact hnot hx

theorem Closes.foldlM_round (hr : r ∈ rows) :
    ∃ l₁ l₂, l₁.Sound ∧ r ∈ l₁.reservations ∧ step l₁ r = .ok l₂ ∧
      (∀ x ∈ l₂.reservations, x.id = r.id → x ∈ l'.reservations) ∧ l'.recordsOf r.id = l₂.recordsOf r.id := by
  obtain ⟨before, after, rfl⟩ := List.append_of_mem hr
  rw [List.map_append, List.map_cons] at hids
  have hsplit := List.nodup_append.mp hids
  have hnot : r.id ∉ after.map (·.id) := (List.nodup_cons.mp hsplit.2.1).1
  have hnot' : ∀ x ∈ r :: after, x.id ∉ before.map (·.id) := fun x hx hb =>
    hsplit.2.2 x.id hb x.id (by simpa using List.mem_map_of_mem (f := (·.id)) hx) rfl
  obtain ⟨l₁, h1, -, hs1, hframe1⟩ := Closes.foldlM (fun x hx => hstep x (List.mem_append_left _ hx)) hs hsplit.1
    fun x hx => hrows x (List.mem_append_left _ hx)
  have hmem1 : ∀ x ∈ r :: after, x ∈ l₁.reservations := fun x hx =>
    (hframe1 x (hrows x (List.mem_append_right _ hx)) (hnot' x hx)).1
  rw [List.foldlM_append, h1, ok_bind, List.foldlM_cons] at h
  obtain ⟨l₂, h2, h⟩ := bind_eq_ok.mp h
  have hr1 := hmem1 r List.mem_cons_self
  have hkeep : l₂.Sound ∧ ∀ x ∈ l₁.reservations, x.id ≠ r.id → x ∈ l₂.reservations := by
    obtain ⟨l3, h3, hround⟩ := (hstep r hr).2 l₁ hs1 hr1
    obtain rfl : l₂ = l3 := Except.ok.inj (h2.symm.trans h3)
    rcases hround with rfl | hmove
    · exact ⟨hs1, fun x hx _ => hx⟩
    · obtain ⟨r', hmoved⟩ := hmove.moved hs1 hr1
      exact ⟨hmoved.sound hs1 hr1, fun x hx hne => hmoved.mem_of_ne hx hne⟩
  have hafter : ∀ x ∈ after, Closes may step x := fun x hx =>
    hstep x (List.mem_append_right _ (List.mem_cons_of_mem _ hx))
  obtain ⟨l3, h3, -, -, hframe⟩ := Closes.foldlM hafter hkeep.1
    (List.nodup_cons.mp hsplit.2.1).2 (fun x hx => hkeep.2 x (hmem1 x (List.mem_cons_of_mem _ hx)) fun hk =>
      hnot (hk ▸ List.mem_map_of_mem hx))
  obtain rfl : l' = l3 := Except.ok.inj (h.symm.trans h3)
  refine ⟨l₁, l₂, hs1, hr1, h2, fun x hx hk => (hframe x hx (by rw [hk]; exact hnot)).1, ?_⟩
  have hrow : ∃ x ∈ l₂.reservations, x.id = r.id := by
    have hlen : l₂.reservations.length = l₁.reservations.length := by
      obtain ⟨l3, h3, hround⟩ := (hstep r hr).2 l₁ hs1 hr1
      obtain rfl : l₂ = l3 := Except.ok.inj (h2.symm.trans h3)
      rcases hround with rfl | hmove
      · rfl
      · exact hmove.shrinks.length
    have hid : r.id ∈ l₂.reservations.map (·.id) := by
      rw [hkeep.1.numbered, hlen, ← hs1.numbered]
      exact List.mem_map_of_mem hr1
    obtain ⟨x, hx, hk⟩ := List.mem_map.mp hid
    exact ⟨x, hx, hk⟩
  obtain ⟨x, hx, hk⟩ := hrow
  rw [← hk]
  exact (hframe x hx (by rw [hk]; exact hnot)).2

end

theorem chargeFloor_charged {now : Nat} {outcome : String} (hr : r ∈ l.reservations)
    (h : chargeFloor now l r outcome = .ok l') : l'.Charged r := by
  have hrecords := recordsOf_settle (i := r.id) h rfl
  obtain ⟨rfl, -⟩ := settle_eq_ok h
  refine ⟨⟨_, mem_put_self hr rfl, rfl, ?_⟩, _, hrecords.1, rfl, rfl⟩
  simp [settleReservation]

theorem Ledger.Charged.of_round {l₂ : Ledger} (h : l₂.Charged r)
    (hrows : ∀ x ∈ l₂.reservations, x.id = r.id → x ∈ l'.reservations) (hrecords : l'.recordsOf r.id = l₂.recordsOf r.id) :
    l'.Charged r := by
  obtain ⟨⟨r', hr', hid, hst⟩, hu⟩ := h
  refine ⟨⟨r', hrows r' hr' hid, hid, hst⟩, ?_⟩
  rw [hrecords]
  exact hu

theorem Ledger.Charged.not_mem (h : l.Charged r) (hs : l.Sound) (hopen : r.status = .reserved) : r ∉ l.reservations := by
  intro hr
  obtain ⟨⟨r', hr', hid, hst⟩, -⟩ := h
  obtain rfl : r' = r := eq_of_key_eq hs.ids hr' hr hid
  rw [hst] at hopen
  cases hopen

/-! ### The two settlements that no lease guards -/

section Step
variable {now stepId : Nat} {outcome : String} {release : Bool}

private theorem openOfStep_closes : ∀ r ∈ openOfStep l stepId,
    Closes (fun _ _ _ => True) (closeOne now outcome release none) r := fun _ hr =>
  closeOne_closes trivial (mem_openOfStep.mp hr).2.2

theorem closeStepReservations_others (hs : l.Sound) (h : closeStepReservations l now stepId outcome release none = .ok l')
    (hr : r ∈ l.reservations) (hnot : r ∉ openOfStep l stepId) : r ∈ l'.reservations := by
  exact Closes.foldlM_others openOfStep_closes hs hs.nodup_openOfStep (fun x hx => (mem_openOfStep.mp hx).1) h hr hnot

theorem closeStepReservations_charges (hs : l.Sound) (h : closeStepReservations l now stepId outcome false none = .ok l')
    (hr : r ∈ openOfStep l stepId) : l'.Charged r := by
  obtain ⟨l1, l2, hs1, hr1, hround, hrows, hrecords⟩ :=
    Closes.foldlM_round openOfStep_closes hs hs.nodup_openOfStep
    (fun x hx => (mem_openOfStep.mp hx).1) h hr
  have hnone : l1.usageOf? r.id = none := recordsOf_eq_nil.mp ((hs1.kept r hr1).of_reserved (mem_openOfStep.mp hr).2.2)
  rw [closeOne, hnone] at hround
  exact (chargeFloor_charged hr1 hround).of_round hrows hrecords

end Step

section Sweep
variable {f : Surroundings} {olderThanSeconds batchSize : Nat}

private theorem orphans_close : ∀ r ∈ orphans f l olderThanSeconds batchSize,
    Closes (fun _ _ _ => True) (sweepOne f) r := fun _ hr => sweepOne_closes trivial (mem_orphans hr).2

section
variable (hs : l.Sound) (h : releaseOrphanReservations f l olderThanSeconds batchSize = .ok l')
include hs h

theorem releaseOrphanReservations_others (hr : r ∈ l.reservations)
    (hnot : r ∉ orphans f l olderThanSeconds batchSize) : r ∈ l'.reservations := by
  exact Closes.foldlM_others orphans_close hs hs.nodup_orphans (fun x hx => (mem_orphans hx).1) h hr hnot

theorem releaseOrphanReservations_round (hr : r ∈ orphans f l olderThanSeconds batchSize) :
    if leadTurnLive f r || stepLive f r then r ∈ l'.reservations
    else if neverStarted f r then { r with status := .released } ∈ l'.reservations else l'.Charged r := by
  obtain ⟨l1, l2, hs1, hr1, hround, hrows, hrecords⟩ :=
    Closes.foldlM_round orphans_close hs hs.nodup_orphans (fun x hx => (mem_orphans hx).1) h hr
  have hnone : l1.usageOf? r.id = none := recordsOf_eq_nil.mp ((hs1.kept r hr1).of_reserved (mem_orphans hr).2)
  rw [sweepOne, hnone] at hround
  split
  · rename_i hlive
    rw [if_pos hlive] at hround
    cases hround
    exact hrows r hr1 rfl
  · rename_i hlive
    rw [if_neg hlive, if_neg (by simp)] at hround
    split
    · rename_i hnever
      rw [if_pos hnever] at hround
      cases hround
      exact hrows _ (mem_put_self hr1 rfl) rfl
    · rename_i hnever
      rw [if_neg hnever] at hround
      exact (chargeFloor_charged hr1 hround).of_round hrows hrecords

end

end Sweep

end Rounds

/-! ### The run with its reservations -/

namespace StepLedger

section Run
variable {s t : StepLedger} {op : StepLedgerOp} {r : ProviderBudgetReservation} {l' : Ledger}

theorem mem_openOf {stepId : Nat} :
    r ∈ s.openOf stepId ↔ r ∈ s.ledger.reservations ∧ r.stepId = some stepId ∧ r.status = .reserved := by
  simp [openOf]

theorem hanging_iff : s.hanging r = true ↔ r.status = .reserved ∧ r.id ∈ s.begun := by simp [hanging]

structure Inv (s : StepLedger) : Prop where
  sound : s.ledger.Sound
  keyed : Workflow.Keyed s.run
  numbered : ∀ id ∈ s.begun, id < s.ledger.reservations.length
  underway : ∀ r ∈ s.ledger.reservations, s.hanging r = true →
    ∃ id x, r.stepId = some id ∧ s.run.step? id = some x ∧ waits x = false

theorem perform_engine {op : Workflow.Op} (h : s.perform (.engine op) = .ok t) :
    Workflow.perform s.run op = .ok t.run ∧ s.settledBy op = .ok t.ledger ∧ t.begun = s.begun ++ s.startedWith op := by
  obtain ⟨run, hrun, h⟩ := bind_eq_ok.mp h
  obtain ⟨ledger, hledger, h⟩ := bind_eq_ok.mp h
  cases h
  exact ⟨mapError_eq_ok.mp hrun, mapError_eq_ok.mp hledger, rfl⟩

variable {id : Nat}

theorem step?_of_perform {u v : Workflow.State} {op : Workflow.Op} {x : Workflow.Step} (hk : Workflow.Keyed u)
    (h : Workflow.perform u op = .ok v) (hx : u.step? id = some x) : ∃ y, v.step? id = some y := by
  obtain ⟨hmem, hid⟩ := Workflow.State.mem_of_step? hx
  have hrow : ∃ y ∈ v.steps, y.id = id := by
    by_cases hop : ∃ c, op = .claimStep c
    · obtain ⟨c, rfl⟩ := hop
      rcases Workflow.perform_claim_cases h with rfl | ⟨z, -, -, rfl⟩
      · exact ⟨x, hmem, hid⟩
      · have hkey : x.key ∈ (put Workflow.Step.key (Workflow.leaseStep c z) u.steps).map Workflow.Step.key := by
          rw [map_put fun _ _ hk => hk]
          exact List.mem_map_of_mem hmem
        obtain ⟨y, hy, hyk⟩ := List.mem_map.mp hkey
        exact ⟨y, hy, hyk.trans hid⟩
    · obtain ⟨y, hy, hxy⟩ := (Workflow.perform_writes hk (fun c hc => hop ⟨c, hc⟩) h).rows.kept x hmem
      exact ⟨y, hy, hxy.id_eq.trans hid⟩
  obtain ⟨y, hy, hyid⟩ := hrow
  cases hfind : v.step? id with
  | some z => exact ⟨z, rfl⟩
  | none => simpa [hyid] using List.find?_eq_none.mp hfind y hy

/-! ### The settlements of the engine -/

private theorem releaseUnfenced_closes (hopen : r.status = .reserved) :
    Closes (fun _ _ _ => True) (fun l r => releaseReservationUnfenced l r.id) r := by
  refine ⟨hopen, fun l hs hr => ⟨l.putReservation { r with status := .released }, ?_, Or.inr (.release (Or.inl hopen))⟩⟩
  simp only [releaseReservationUnfenced, hs.reservation? hr, releaseOpen, hopen, if_pos]

theorem mem_unsent {stepId : Nat} (hr : r ∈ (s.openOf stepId).filter fun r => r.budgetEpoch == s.run.task.budgetEpoch) :
    r ∈ s.ledger.reservations ∧ r.status = .reserved :=
  ⟨(mem_openOf.mp (List.mem_filter.mp hr).1).1, (mem_openOf.mp (List.mem_filter.mp hr).1).2.2⟩

theorem nodup_unsent {stepId : Nat} (hs : s.ledger.Sound) :
    (((s.openOf stepId).filter fun r => r.budgetEpoch == s.run.task.budgetEpoch).map (·.id)).Nodup :=
  hs.ids.sublist ((List.filter_sublist.trans List.filter_sublist).map _)

theorem releaseUnsent_moves {stepId : Nat} (hs : s.ledger.Sound) (h : s.releaseUnsent stepId = .ok l') :
    Moves (fun _ _ _ => True) s.ledger l' ∧ ∀ x ∈ s.ledger.reservations,
      (x.stepId ≠ some stepId ∨ x.budgetEpoch ≠ s.run.task.budgetEpoch) → x ∈ l'.reservations := by
  obtain ⟨l1, h1, hmoves, -, hframe⟩ := Closes.foldlM (fun x hx => releaseUnfenced_closes (mem_unsent hx).2) hs
    (nodup_unsent hs) fun x hx => (mem_unsent hx).1
  obtain rfl : l' = l1 := Except.ok.inj (h.symm.trans h1)
  refine ⟨hmoves, fun x hx hnot => (hframe x hx fun hmem => ?_).1⟩
  obtain ⟨y, hy, hk⟩ := List.mem_map.mp hmem
  obtain rfl : y = x := eq_of_key_eq hs.ids (mem_unsent hy).1 hx hk
  obtain ⟨hopen, hepoch⟩ := List.mem_filter.mp hy
  rcases hnot with hne | hne
  · exact hne (mem_openOf.mp hopen).2.1
  · exact hne (beq_iff_eq.mp hepoch)

theorem releaseUnsent_not_mem {stepId : Nat} (hs : s.ledger.Sound) (h : s.releaseUnsent stepId = .ok l')
    (hr : r ∈ s.openOf stepId) (hepoch : r.budgetEpoch = s.run.task.budgetEpoch) : r ∉ l'.reservations := by
  have hmem : r ∈ (s.openOf stepId).filter fun r => r.budgetEpoch == s.run.task.budgetEpoch :=
    List.mem_filter.mpr ⟨hr, beq_iff_eq.mpr hepoch⟩
  obtain ⟨l1, l2, hs1, hr1, hround, hrows, -⟩ := Closes.foldlM_round
    (fun x hx => releaseUnfenced_closes (mem_unsent hx).2) hs (nodup_unsent hs) (fun x hx => (mem_unsent hx).1) h hmem
  have hopen := (mem_unsent hmem).2
  simp only [releaseReservationUnfenced, hs1.reservation? hr1, releaseOpen, hopen, if_pos, Except.ok.injEq] at hround
  subst hround
  have hreleased : { r with status := .released } ∈ l'.reservations := hrows _ (mem_put_self hr1 rfl) rfl
  intro hr'
  have hs' : l'.Sound := (releaseUnsent_moves hs h).1.sound hs
  have heq : r = { r with status := .released } := eq_of_key_eq hs'.ids hr' hreleased rfl
  rw [heq] at hopen
  cases hopen

theorem closeStepReservations_moves {l : Ledger} {now stepId : Nat} {outcome : String} {release : Bool} (hs : l.Sound)
    (h : closeStepReservations l now stepId outcome release none = .ok l') : l'.Sound ∧ l.Shrinks l' := by
  let op : Settlement := .closeStepReservations stepId outcome release none
  have hop : op.perform { now := now } l = .ok l' := h
  have hmoves := Settlement.perform_moves hs hop
  exact ⟨hmoves.sound hs, hmoves.shrinks⟩

theorem settledBy_moves {op : Workflow.Op} (hs : s.ledger.Sound) (h : s.settledBy op = .ok l') :
    l'.Sound ∧ s.ledger.Shrinks l' := by
  cases op with
  | recoverExpiredStep id now =>
    simp only [settledBy] at h
    split at h
    · cases h; exact ⟨hs, .refl⟩
    · split_ifs at h
      · exact closeStepReservations_moves hs h
      · exact closeStepReservations_moves hs h
  | recoverUnsentCliReview request pinned unsent retained accounted =>
    obtain ⟨hmoves, -⟩ := releaseUnsent_moves hs h
    exact ⟨hmoves.sound hs, hmoves.shrinks⟩
  | _ => cases h; exact ⟨hs, .refl⟩

theorem settledBy_recover {id now : Nat} {x : Workflow.Step} (hfind : s.run.step? id = some x)
    (hx : waits x = false) (h : s.settledBy (.recoverExpiredStep id now) = .ok l') :
    if Workflow.leaseExpired now x then closeStepReservations s.ledger now id "lease_expired" false none = .ok l'
    else l' = s.ledger := by
  simp only [settledBy, hfind, Option.filter_some] at h
  split
  · rename_i hexpired
    have hst : ¬x.status = .leased := by
      intro hst
      simp [waits, hst] at hx
    rw [if_pos hexpired] at h
    simpa only [if_neg hst] using h
  · rename_i hexpired
    rw [if_neg hexpired] at h
    cases h
    rfl

theorem not_mem_of_closes (hinv : s.Inv) {op : Workflow.Op} {run : Workflow.State}
    (hrun : Workflow.perform s.run op = .ok run) (hledger : s.settledBy op = .ok l') (hr : r ∈ s.ledger.reservations)
    (hhang : s.hanging r = true) (hrequeue : s.requeues (.engine op) r = true) (hcloses : s.closes (.engine op) r = true) :
    r ∉ l'.reservations := by
  have hopen := (hanging_iff.mp hhang).1
  obtain ⟨id, x, hstep, hfind, hx⟩ := hinv.underway r hr hhang
  cases op with
  | recoverExpiredStep id' now =>
    obtain rfl : id = id' := Option.some.inj (hstep.symm.trans (beq_iff_eq.mp hcloses))
    have hsettled := settledBy_recover hfind hx hledger
    by_cases hexpired : Workflow.leaseExpired now x = true
    · rw [if_pos hexpired] at hsettled
      exact (closeStepReservations_charges hinv.sound hsettled (mem_openOfStep.mpr ⟨hr, hstep, hopen⟩)).not_mem
        (closeStepReservations_moves hinv.sound hsettled).1 hopen
    · simp [requeues, hstep, hfind, hx, Workflow.perform, Workflow.recoverExpiredStep, hexpired, ends] at hrequeue
  | recoverUnsentCliReview request pinned unsent retained accounted =>
    simp only [closes, Bool.and_eq_true, beq_iff_eq] at hcloses
    exact releaseUnsent_not_mem hinv.sound hledger (mem_openOf.mpr ⟨hr, hcloses.1, hopen⟩) hcloses.2
  | _ => cases hcloses

theorem mem_of_not_closes (hinv : s.Inv) {op : Workflow.Op} (hledger : s.settledBy op = .ok l')
    (hr : r ∈ s.ledger.reservations) (hcloses : s.closes (.engine op) r = false) : r ∈ l'.reservations := by
  cases op with
  | recoverExpiredStep id now =>
    have hne : r ∉ openOfStep s.ledger id := by
      intro hmem
      simp [closes, (mem_openOfStep.mp hmem).2.1] at hcloses
    simp only [settledBy] at hledger
    split at hledger
    · cases hledger; exact hr
    · split_ifs at hledger
      · exact closeStepReservations_others hinv.sound hledger hr hne
      · exact closeStepReservations_others hinv.sound hledger hr hne
  | recoverUnsentCliReview request pinned unsent retained accounted =>
    refine (releaseUnsent_moves hinv.sound hledger).2 r hr ?_
    by_cases hstep : r.stepId = some request.stepId
    · exact Or.inr fun hepoch => by simp [closes, hstep, hepoch] at hcloses
    · exact Or.inl hstep
  | _ => cases hledger; exact hr

/-! ### Steps -/

theorem startStep_running {u v : Workflow.State} {token : Workflow.LeaseToken} (hk : Workflow.Keyed u)
    (h : Workflow.startStep u token = .ok v) : ∃ y, v.step? token.stepId = some y ∧ waits y = false := by
  obtain ⟨u1, h1, h⟩ := bind_eq_ok.mp h
  obtain ⟨x, hfind, -, -, rfl⟩ := Workflow.updateLeased_eq_ok h1
  cases h
  obtain ⟨hmem, hid⟩ := Workflow.State.mem_of_step? hfind
  refine ⟨{ x with status := .running }, ?_, rfl⟩
  rw [← hid]
  exact find?_put (x := { x with status := .running }) hmem rfl hk.nodup

theorem Inv.engine (hinv : s.Inv) {op : Workflow.Op} (hop : s.SettledFirst (.engine op))
    (h : s.perform (.engine op) = .ok t) : t.Inv := by
  obtain ⟨hrun, hledger, hbegun⟩ := perform_engine h
  obtain ⟨hsound, hshrinks⟩ := settledBy_moves hinv.sound hledger
  refine ⟨hsound, Workflow.perform_keyed hinv.keyed hrun, fun id hid => ?_, fun r hr hhang => ?_⟩
  · rw [hbegun, List.mem_append] at hid
    rw [hshrinks.length]
    rcases hid with hid | hid
    · exact hinv.numbered id hid
    · cases op with
      | startStep token =>
        obtain ⟨r, hr, rfl⟩ := List.mem_map.mp hid
        have hmem : r.id ∈ s.ledger.reservations.map (·.id) := List.mem_map_of_mem (mem_openOf.mp hr).1
        rw [hinv.sound.numbered] at hmem
        exact List.mem_range.mp hmem
      | _ => cases hid
  · obtain ⟨hopen, hid⟩ := hanging_iff.mp hhang
    have hr0 := hshrinks.opens r hr hopen
    rw [hbegun, List.mem_append] at hid
    rcases hid with hid | hid
    · have hhang0 : s.hanging r = true := hanging_iff.mpr ⟨hopen, hid⟩
      obtain ⟨id, x, hstep, hfind, hx⟩ := hinv.underway r hr0 hhang0
      obtain ⟨y, hy⟩ := step?_of_perform hinv.keyed hrun hfind
      refine ⟨id, y, hstep, hy, ?_⟩
      by_contra hwait
      have hrequeue : s.requeues (.engine op) r = true := by
        simp only [requeues, hstep, hfind, hrun, ends, hy, Option.any_some, hx]
        simpa using hwait
      exact not_mem_of_closes hinv hrun hledger hr0 hhang0 hrequeue (hop r hr0 hhang0 hrequeue) hr
    · -- The start itself: its step is running now.
      cases op with
      | startStep token =>
        obtain ⟨r', hr', hk⟩ := List.mem_map.mp hid
        obtain ⟨hmem, hstep, -⟩ := mem_openOf.mp hr'
        obtain rfl : r' = r := eq_of_key_eq hinv.sound.ids hmem hr0 hk
        obtain ⟨y, hy, hwait⟩ := startStep_running hinv.keyed hrun
        exact ⟨token.stepId, y, hstep, hy, hwait⟩
      | _ => cases hid

theorem Inv.ledger (hinv : s.Inv) (hs : l'.Sound) (hlen : s.ledger.reservations.length ≤ l'.reservations.length)
    (hopens : ∀ r ∈ l'.reservations, r.status = .reserved → r ∈ s.ledger.reservations ∨
      s.ledger.reservations.length ≤ r.id) : Inv { s with ledger := l' } where
  sound := hs
  keyed := hinv.keyed
  numbered id hid := Nat.lt_of_lt_of_le (hinv.numbered id hid) hlen
  underway r hr hhang := by
    obtain ⟨hopen, hid⟩ := hanging_iff.mp hhang
    rcases hopens r hr hopen with hr0 | hnew
    · exact hinv.underway r hr0 (hanging_iff.mpr ⟨hopen, hid⟩)
    · exact absurd (hinv.numbered r.id hid) (Nat.not_lt.mpr hnew)

theorem Inv.settle (hinv : s.Inv) (hs : l'.Sound) (hshrinks : s.ledger.Shrinks l') : Inv { s with ledger := l' } :=
  hinv.ledger hs (Nat.le_of_eq hshrinks.length.symm) fun r hr hopen => Or.inl (hshrinks.opens r hr hopen)

theorem Inv.reserve (hinv : s.Inv) {g : Registry} {q : ReserveRequest} (h : Providers.reserve g s.ledger q = .ok l') :
    Inv { s with ledger := l' } := by
  have hs : l'.Sound := conclude_sound hinv.sound h
  unfold Providers.reserve conclude at h
  split at h
  · cases h
    exact hinv.settle hs .refl
  · obtain ⟨-, -, h⟩ := bind_eq_ok.mp h
    obtain ⟨-, -, rfl⟩ := addReservation_eq_ok h
    refine hinv.ledger hs (by simp) fun r hr _ => ?_
    rcases List.mem_append.mp hr with hr | hr
    · exact Or.inl hr
    · rw [List.mem_singleton] at hr
      subst hr
      exact Or.inr (Nat.le_refl _)

theorem Inv.perform (hinv : s.Inv) (hop : s.SettledFirst op) (h : s.perform op = .ok t) : t.Inv := by
  cases op with
  | engine op => exact hinv.engine hop h
  | reserve g q =>
    obtain ⟨-, -, h⟩ := bind_eq_ok.mp h
    obtain ⟨l', hl, h⟩ := bind_eq_ok.mp h
    cases h
    exact hinv.reserve (mapError_eq_ok.mp hl)
  | settle f op =>
    obtain ⟨l', hl, h⟩ := bind_eq_ok.mp h
    cases h
    have hmoves := Settlement.perform_moves hinv.sound (mapError_eq_ok.mp hl)
    exact hinv.settle (hmoves.sound hinv.sound) hmoves.shrinks
  | cancelled f stepId =>
    obtain ⟨l', hl, h⟩ := bind_eq_ok.mp h
    cases h
    obtain ⟨hs, hshrinks⟩ := closeStepReservations_moves hinv.sound (mapError_eq_ok.mp hl)
    exact hinv.settle hs hshrinks
  | sweep f olderThanSeconds batchSize =>
    obtain ⟨l', hl, h⟩ := bind_eq_ok.mp h
    cases h
    let op : Settlement := .releaseOrphanReservations olderThanSeconds batchSize
    have hop : op.perform (s.around f) s.ledger = .ok l' := mapError_eq_ok.mp hl
    have hmoves := Settlement.perform_moves hinv.sound hop
    exact hinv.settle (hmoves.sound hinv.sound) hmoves.shrinks

theorem Reached.inv {m : Workflow.Materialization} (h : Reached SettledFirst m s) : s.Inv := by
  obtain ⟨s0, hm, h⟩ := h
  refine h.invariant ⟨Ledger.sound_empty, Workflow.Materialization.keyed hm, ?_, ?_⟩ Inv.perform
  · exact fun id hid => by cases hid
  · exact fun r hr => by cases hr

/-! ### What closes a reservation that its step was started with -/

/-- The operations that run `close_step_reservations` or `release_orphan_reservations`. -/
def isClosing : StepLedgerOp → Bool
  | .engine (.recoverExpiredStep ..) | .cancelled .. | .sweep .. => true
  | _ => false

/-- The operation takes the reservation up: it is one of the step whose lease has expired or whose attempt is
    cancelled, or one that the sweep selects and finds no live lease for. -/
def takesUp (s : StepLedger) (op : StepLedgerOp) (r : ProviderBudgetReservation) : Bool :=
  match op with
  | .engine (.recoverExpiredStep id now) => r.stepId == some id && (s.run.step? id).any (Workflow.leaseExpired now)
  | .cancelled _ stepId => r.stepId == some stepId
  | .sweep f olderThanSeconds batchSize =>
    (orphans (s.around f) s.ledger olderThanSeconds batchSize).contains r &&
      !(leadTurnLive (s.around f) r || stepLive (s.around f) r)
  | _ => false

theorem neverStarted_eq {f : Surroundings} {x : Workflow.Step} (hstep : r.stepId = some id)
    (hfind : s.run.step? id = some x) : neverStarted (s.around f) r = (r.invocationId.isNone && waits x) := by
  have hread : r.stepId.bind (s.around f).step? = some x := by rw [hstep]; exact hfind
  simp only [neverStarted, hread, waits]

theorem stepLive_eq {f : Surroundings} {x : Workflow.Step} (hstep : r.stepId = some id)
    (hfind : s.run.step? id = some x) :
    stepLive (s.around f) r = (x.status.isHeld && x.leaseExpiresAt.any (f.now < ·)) := by
  have hread : r.stepId.bind (s.around f).step? = some x := by rw [hstep]; exact hfind
  simp only [stepLive, hread]
  rfl

theorem Inv.closing (hinv : s.Inv) (h : s.perform op = .ok t) (hop : isClosing op = true)
    (hr : r ∈ s.ledger.reservations) (hhang : s.hanging r = true) :
    if s.takesUp op r then t.ledger.Charged r else r ∈ t.ledger.reservations := by
  have hopen := (hanging_iff.mp hhang).1
  obtain ⟨id, x, hstep, hfind, hx⟩ := hinv.underway r hr hhang
  -- The settlement of one step, by the recovery or by the worker.
  have hclose : ∀ {l' : Ledger} {now stepId : Nat} {outcome : String},
      closeStepReservations s.ledger now stepId outcome false none = .ok l' →
      if r.stepId = some stepId then l'.Charged r else r ∈ l'.reservations := by
    intro l' now stepId outcome hl
    split
    · rename_i heq
      exact closeStepReservations_charges hinv.sound hl (mem_openOfStep.mpr ⟨hr, heq, hopen⟩)
    · rename_i hne
      exact closeStepReservations_others hinv.sound hl hr fun hmem => hne (mem_openOfStep.mp hmem).2.1
  cases op with
  | engine op =>
    cases op with
    | recoverExpiredStep id' now =>
      obtain ⟨-, hledger, -⟩ := perform_engine h
      by_cases hid : id = id'
      · subst hid
        have hsettled := settledBy_recover hfind hx hledger
        by_cases hexpired : Workflow.leaseExpired now x = true
        · rw [if_pos hexpired] at hsettled
          have hcharged := hclose hsettled
          rw [if_pos hstep] at hcharged
          simpa [takesUp, hstep, hfind, hexpired] using hcharged
        · rw [if_neg hexpired] at hsettled
          simpa [takesUp, hstep, hfind, hexpired, hsettled] using hr
      · have hne : ¬r.stepId = some id' := fun heq => hid (Option.some.inj (hstep.symm.trans heq))
        have hmem : r ∈ t.ledger.reservations :=
          mem_of_not_closes hinv hledger hr (by simpa [closes] using hne)
        simpa [takesUp, hne] using hmem
    | _ => cases hop
  | cancelled f stepId =>
    obtain ⟨l', hl, h⟩ := bind_eq_ok.mp h
    cases h
    simpa [takesUp] using hclose (mapError_eq_ok.mp hl)
  | sweep f olderThanSeconds batchSize =>
    obtain ⟨l', hl, h⟩ := bind_eq_ok.mp h
    cases h
    rw [mapError_eq_ok] at hl
    by_cases hmem : r ∈ orphans (s.around f) s.ledger olderThanSeconds batchSize
    · have hround := releaseOrphanReservations_round hinv.sound hl hmem
      have hnever : neverStarted (s.around f) r = false := by rw [neverStarted_eq hstep hfind, hx, Bool.and_false]
      rw [hnever, if_neg Bool.false_ne_true] at hround
      cases hlive : leadTurnLive (s.around f) r || stepLive (s.around f) r with
      | false => simpa [takesUp, hmem, hlive] using hround
      | true => simpa [takesUp, hlive] using hround
    · have hkept := releaseOrphanReservations_others hinv.sound hl hr hmem
      simpa [takesUp, hmem] using hkept
  | _ => cases hop

/-- A reservation whose step has gone back to its queue is released by the next sweep that finds no lease. -/
theorem swept_of_requeued (hs : s.ledger.Sound) (hr : r ∈ s.ledger.reservations) (hopen : r.status = .reserved)
    (hinv : r.invocationId = none) {x : Workflow.Step} (hstep : r.stepId = some id)
    (hfind : s.run.step? id = some x) (hx : waits x = true) :
    ∃ f u, s.perform (.sweep f 0 s.ledger.reservations.length) = .ok u ∧
      { r with status := .released } ∈ u.ledger.reservations := by
  let f : Surroundings := { now := max r.createdAt (x.leaseExpiresAt.getD 0) + 1 }
  obtain ⟨l', hl, -⟩ := Closes.foldlM (orphans_close (f := s.around f)) hs
    (hs.nodup_orphans (f := s.around f) (o := 0) (b := s.ledger.reservations.length)) fun y hy => (mem_orphans hy).1
  have hsweep : releaseOrphanReservations (s.around f) s.ledger 0 s.ledger.reservations.length = .ok l' := hl
  refine ⟨f, { s with ledger := l' }, ?_, ?_⟩
  · simp only [StepLedger.perform, hsweep, Except.mapError, ok_bind]
  have hmem : r ∈ orphans (s.around f) s.ledger 0 s.ledger.reservations.length := by
    unfold orphans
    rw [List.take_of_length_le]
    · rw [List.mem_mergeSort, List.mem_filter]
      refine ⟨hr, ?_⟩
      have hold : r.createdAt < max r.createdAt (x.leaseExpiresAt.getD 0) + 1 := by omega
      simp [hopen, around, f, hold]
    · rw [List.length_mergeSort]
      exact List.length_filter_le _ _
  have hround := releaseOrphanReservations_round hs hsweep hmem
  have hlead : leadTurnLive (s.around f) r = false := by simp [leadTurnLive, hinv]
  have hlive : stepLive (s.around f) r = false := by
    rw [stepLive_eq hstep hfind]
    cases hexp : x.leaseExpiresAt with
    | none => simp
    | some expiry =>
      have hpast : ¬f.now < expiry := by
        change ¬max r.createdAt (x.leaseExpiresAt.getD 0) + 1 < expiry
        rw [hexp, Option.getD_some]
        omega
      simp [hpast]
  have hnever : neverStarted (s.around f) r = true := by rw [neverStarted_eq hstep hfind, hinv, hx]; rfl
  rw [hlead, hlive, hnever] at hround
  simpa using hround

/-- A reservation that its step was started with is charged at what it had reserved by whichever of the two
    settlements takes it up, and is left open by the others, in every run in which no step goes back to its queue
    before the reservations that it was started with are closed. After an operation that puts a step back too
    early, a sweep releases the reservation. -/
theorem started_work_charged {m : Workflow.Materialization} (h : Reached SettledFirst m s) :
    (∀ op t, s.perform op = .ok t → isClosing op = true → ∀ r ∈ s.ledger.reservations, s.hanging r = true →
      if s.takesUp op r then t.ledger.Charged r else r ∈ t.ledger.reservations) ∧
    ∀ op t, s.perform op = .ok t → ¬s.SettledFirst op → ∃ r ∈ t.ledger.reservations, t.hanging r = true ∧
      (r.invocationId = none → ∃ f u, t.perform (.sweep f 0 t.ledger.reservations.length) = .ok u ∧
        { r with status := .released } ∈ u.ledger.reservations) := by
  have hinv := h.inv
  refine ⟨fun op t ht hop r hr hhang => hinv.closing ht hop hr hhang, fun op t ht hnot => ?_⟩
  simp only [SettledFirst, not_forall, Bool.not_eq_true] at hnot
  obtain ⟨r, hr, hhang, hrequeue, hcloses⟩ := hnot
  obtain ⟨id, x, hstep, hfind, hx⟩ := hinv.underway r hr hhang
  cases op with
  | engine op =>
    obtain ⟨hrun, hledger, hbegun⟩ := perform_engine ht
    obtain ⟨y, hy⟩ := step?_of_perform hinv.keyed hrun hfind
    have hwait : waits y = true := by
      simpa [requeues, hstep, hfind, hx, hrun, ends, hy] using hrequeue
    have hr' := mem_of_not_closes hinv hledger hr hcloses
    obtain ⟨hopen, hid⟩ := hanging_iff.mp hhang
    refine ⟨r, hr', hanging_iff.mpr ⟨hopen, ?_⟩, fun hnone => ?_⟩
    · rw [hbegun]
      exact List.mem_append_left _ hid
    · exact swept_of_requeued (settledBy_moves hinv.sound hledger).1 hr' hopen hnone hstep hy hwait
  | _ => cases hrequeue

end Run

section Check
open Workflow (sampleRun sampleClaim finishSteps)

def reviewStarted : List StepLedgerOp :=
  ((Workflow.Op.startRun {} :: finishSteps [1, 2, 3, 4, 5, 6]).map .engine) ++
    [.reserve { tasks := [{ id := 0 }] } { entry := .workflow (some 7) none 1 true, taskId := some 0,
                                           estimate := { inputTokens := 10, costUnits := 5 }, limits := {} },
      .engine (.claimStep (sampleClaim 7)), .engine (.startStep ⟨7, "worker", 1⟩)]

theorem started_work_charged_expired : ∃ s t : StepLedger, ∃ r ∈ s.ledger.reservations, s.hanging r = true ∧
    s.perform (.engine (.recoverExpiredStep 7 100)) = .ok t ∧ t.ledger.Charged r := by
  obtain ⟨s0, hm, h0⟩ := exists_of_ends (r := Workflow.materializeRun sampleRun) (p := fun s =>
    ends (fun s : StepLedger => ends (fun _ => s.ledger.reservations.any fun r => s.hanging r &&
        s.takesUp (.engine (.recoverExpiredStep 7 100)) r) (s.perform (.engine (.recoverExpiredStep 7 100))))
      (runOps (fun s op => if s.SettledFirst op then s.perform op else .error (.engine (.leaseLost 0)))
        { run := s } reviewStarted)) (by decide +kernel)
  obtain ⟨s, hs, hp⟩ := exists_of_ends h0
  obtain ⟨t, ht, hp⟩ := exists_of_ends hp
  obtain ⟨r, hr, hp⟩ := List.any_eq_true.mp hp
  obtain ⟨hhang, htakes⟩ := (Bool.and_eq_true _ _).mp hp
  have hcharged := (started_work_charged ⟨s0, hm, reach_of_guarded hs⟩).1 _ t ht rfl r hr hhang
  rw [if_pos htakes] at hcharged
  exact ⟨s, t, r, hr, hhang, ht, hcharged⟩

/-- The worker is shut down while the review runs: the step waits for its next attempt, and the sweep gives the
    reservation of the call back. -/
theorem interrupted_review_released : ∃ s t : StepLedger, Reached (fun _ _ => True) sampleRun s ∧
    ∃ r ∈ s.ledger.reservations, s.hanging r = true ∧ s.perform (.sweep { now := 2000 } 900 100) = .ok t ∧
      { r with status := .released } ∈ t.ledger.reservations ∧ t.ledger.usageRecords = [] := by
  obtain ⟨s0, hm, h0⟩ := exists_of_ends (r := Workflow.materializeRun sampleRun) (p := fun s =>
    ends (fun s : StepLedger => ends (fun t : StepLedger => s.ledger.reservations.any (fun r => s.hanging r &&
        t.ledger.reservations.contains { r with status := .released }) && t.ledger.usageRecords == [])
          (s.perform (.sweep { now := 2000 } 900 100)))
      (runOps perform { run := s } (reviewStarted ++ [.engine (.commitStepOutcome { now := 10 } ⟨7, "worker", 1⟩
        { kind := .transientFailure, category := some "shutdown_cancelled" })]))) (by decide +kernel)
  obtain ⟨s, hs, hp⟩ := exists_of_ends h0
  obtain ⟨t, ht, hp⟩ := exists_of_ends hp
  obtain ⟨hany, husage⟩ := (Bool.and_eq_true _ _).mp hp
  obtain ⟨r, hr, hrel⟩ := List.any_eq_true.mp hany
  obtain ⟨hhang, hmem⟩ := (Bool.and_eq_true _ _).mp hrel
  exact ⟨s, t, ⟨s0, hm, reach_of_runOps (fun _ _ _ => trivial) hs⟩, r, hr, hhang, ht, List.contains_iff_mem.mp hmem,
    beq_iff_eq.mp husage⟩

end Check

end StepLedger

end Vuzol.Providers
