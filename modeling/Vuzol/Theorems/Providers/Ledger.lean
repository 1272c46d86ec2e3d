import Mathlib.Logic.Relation
import Vuzol.Providers.Transactions

/-! The ledger invariant: a reservation and its usage record are kept in step by every transaction. What a
    transaction can do is said once, as a chain of moves of single reservations. -/

namespace Vuzol.Providers

open Vuzol.Lib

def Ledger.recordsOf (l : Ledger) (reservationId : Nat) : List UsageRecord :=
  l.usageRecords.filter (·.reservationId == some reservationId)

/-- The column of `uq_budget_step_attempt`. -/
def ProviderBudgetReservation.stepAttempt (r : ProviderBudgetReservation) : Option (Nat × Nat) :=
  r.stepId.map (·, r.providerAttempt)

inductive Kept (r : ProviderBudgetReservation) : List UsageRecord → Prop
  | unsettled (open? : r.status = .reserved ∨ r.status = .released) : Kept r []
  | settled {u : UsageRecord} (closed : r.status = .reconciled ∨ r.status = .conservative)
      (floor : u.costKnown = false → u.amounts.costUnits = r.reserved.costUnits) : Kept r [u]
  | notSent {u : UsageRecord} (released : r.status = .released) (free : u.amounts.costUnits = 0)
      (outcome : u.outcome = "not_sent") (known : u.costKnown = true) : Kept r [u]

section
variable {r : ProviderBudgetReservation} {us : List UsageRecord} {u : UsageRecord}

theorem Kept.length_le (h : Kept r us) : us.length ≤ 1 := by
  cases h <;> simp

theorem Kept.of_reserved (h : Kept r us) (hr : r.status = .reserved) : us = [] := by
  cases h with
  | unsettled _ => rfl
  | settled closed _ => simp [hr] at closed
  | notSent released _ _ _ => simp [hr] at released

theorem Kept.of_closed (h : Kept r us) (hr : r.status = .reconciled ∨ r.status = .conservative) : ∃ u, us = [u] := by
  cases h with
  | unsettled open? => rcases hr with hr | hr <;> simp [hr] at open?
  | @settled u _ _ => exact ⟨u, rfl⟩
  | @notSent u _ _ _ _ => exact ⟨u, rfl⟩

theorem Kept.of_released (h : Kept r us) (hr : r.status = .released) :
    us = [] ∨ ∃ u, us = [u] ∧ u.amounts.costUnits = 0 ∧ u.outcome = "not_sent" := by
  cases h with
  | unsettled _ => exact Or.inl rfl
  | settled closed _ => simp [hr] at closed
  | @notSent u _ free outcome _ => exact Or.inr ⟨u, rfl, free, outcome⟩

theorem Kept.of_unknown (h : Kept r [u]) (hu : u.costKnown = false) :
    (r.status = .reconciled ∨ r.status = .conservative) ∧ u.amounts.costUnits = r.reserved.costUnits := by
  cases h with
  | settled closed floor => exact ⟨closed, floor hu⟩
  | notSent _ _ _ known => simp [hu] at known

theorem Kept.floor (h : Kept r us) : ∀ u ∈ us, u.costKnown = false → u.amounts.costUnits = r.reserved.costUnits := by
  intro u hu hunknown
  have hone := h.length_le
  match us with
  | [v] =>
    obtain rfl := List.mem_singleton.mp hu
    exact (h.of_unknown hunknown).2

end

structure Ledger.Sound (l : Ledger) : Prop where
  numbered : l.reservations.map (·.id) = List.range l.reservations.length
  usageNumbered : l.usageRecords.map (·.id) = List.range l.usageRecords.length
  referenced : ∀ u ∈ l.usageRecords, ∀ id, u.reservationId = some id → id < l.reservations.length
  kept : ∀ r ∈ l.reservations, Kept r (l.recordsOf r.id)
  stepAttempts : (l.reservations.filterMap (·.stepAttempt)).Nodup
  invocations : (l.reservations.filterMap (·.invocationId)).Nodup

/-! ### Moves -/

/-- One transaction changes one reservation and its record. `may` says which charges the transaction can
    make: for a row, the usage it is settled with, and the attribution. -/
inductive Move (may : ProviderBudgetReservation → Option NormalizedUsage → Option AccountingContext → Prop)
    (l : Ledger) (r : ProviderBudgetReservation) : Ledger → Prop
  | release (unsettled : r.status = .reserved ∨ l.usageOf? r.id = none) :
      Move may l r (l.putReservation { r with status := .released })
  | charge (accounting : Option AccountingContext) {l' : Ledger} {now : Nat} {usage : Option NormalizedUsage}
      {outcome : String} {conservative lateReceipt : Bool} (allowed : may r usage accounting)
      (settles : l.settle (settleReservation now (applyAccounting r accounting) usage outcome conservative lateReceipt)
        = .ok l') : Move may l r l'
  | replace {u : UsageRecord} {usage : NormalizedUsage} {outcome : String} (allowed : may r (some usage) none)
      (closed : r.status ≠ .reserved) (record : l.usageOf? r.id = some u) (unknown : u.costKnown = false) :
      Move may l r ((l.putUsage { u with
          amounts := usage.fillFrom u.amounts
          costKnown := usage.costUnits.isSome
          outcome := outcome
          lateReceipt := true
          invocationId := r.invocationId }).putReservation
        (if usage.costUnits.isSome then { r with status := .reconciled } else r))
  | unsend {u : UsageRecord} (record : l.usageOf? r.id = some u)
      (unmeasured : u.costKnown = true → u.outcome = "not_sent") :
      Move may l r ((l.putUsage { u with
          amounts := {}
          costKnown := true
          lateReceipt := true
          outcome := "not_sent"
          invocationId := r.invocationId }).putReservation { r with status := .released })

def Moves (may : ProviderBudgetReservation → Option NormalizedUsage → Option AccountingContext → Prop) :
    Ledger → Ledger → Prop :=
  Relation.ReflTransGen fun l l' => ∃ r ∈ l.reservations, Move may l r l'

/-- The charges that a settlement can make of the rows it finds. -/
def Settlement.charges (op : Settlement) (l : Ledger) (r : ProviderBudgetReservation) (usage : Option NormalizedUsage)
    (accounting : Option AccountingContext) : Prop :=
  r ∈ l.reservations ∧
  match op with
  | .settleInvocationBudget id profile receipt =>
    r.id = id ∧ r.status ≠ .released ∧ usage = receipt.usage.map (accountUsage profile) ∧ accounting = none
  | .reconcileUsage id _ receipt => r.id = id ∧ usage = receipt.usage ∧ accounting = receipt.accounting
  | .recordLateReceipt id receipt =>
    r.id = id ∧ r.status ≠ .released ∧ usage = receipt.usage ∧ accounting = receipt.accounting
  | .closeStepReservations _ _ _ given => r.status = .reserved ∧ usage = none ∧ accounting = given
  | .releaseOrphanReservations .. => r.status = .reserved ∧ usage = none ∧ accounting = none
  | .releaseUnsentInvocation _ | .releaseReservation .. | .releaseReservationUnfenced _ => False

section
variable {l l' : Ledger} {r x : ProviderBudgetReservation} {u : UsageRecord} {id : Nat}
variable {may : ProviderBudgetReservation → Option NormalizedUsage → Option AccountingContext → Prop}
variable {now : Nat} {a : Option AccountingContext} {r' : ProviderBudgetReservation}
    {p : ProviderBudgetReservation × UsageRecord} {outcome : String} {f : Surroundings} {v : UsageRecord}

/-! ### Rows and records -/

theorem Ledger.Sound.ids (hs : l.Sound) : (l.reservations.map ProviderBudgetReservation.key).Nodup := by
  have h := hs.numbered
  unfold ProviderBudgetReservation.key
  rw [h]
  exact List.nodup_range

theorem Ledger.Sound.usageIds (hs : l.Sound) : (l.usageRecords.map UsageRecord.key).Nodup := by
  have h := hs.usageNumbered
  unfold UsageRecord.key
  rw [h]
  exact List.nodup_range

theorem reservation?_eq_some (h : l.reservation? id = some r) : r ∈ l.reservations ∧ r.id = id :=
  ⟨List.mem_of_find?_eq_some h, by simpa using List.find?_some h⟩

theorem Ledger.Sound.reservation? (hs : l.Sound) (hr : r ∈ l.reservations) : l.reservation? r.id = some r :=
  find?_key hs.ids hr

theorem usageOf?_eq_some (h : l.usageOf? id = some u) : u ∈ l.usageRecords ∧ u.reservationId = some id :=
  ⟨List.mem_of_find?_eq_some h, by simpa using List.find?_some h⟩

theorem usageOf?_eq_head : l.usageOf? id = (l.recordsOf id).head? := by
  simp only [Ledger.usageOf?, Ledger.recordsOf, List.head?_filter]

theorem recordsOf_eq_nil : l.recordsOf id = [] ↔ l.usageOf? id = none := by
  rw [usageOf?_eq_head, List.head?_eq_none_iff]

theorem Ledger.Sound.recordsOf_eq (hs : l.Sound) (hr : r ∈ l.reservations) (h : l.usageOf? r.id = some u) :
    l.recordsOf r.id = [u] := by
  rw [usageOf?_eq_head] at h
  have hk := hs.kept r hr
  cases hrec : l.recordsOf r.id with
  | nil => simp [hrec] at h
  | cons v rest =>
    rw [hrec] at h hk
    obtain rfl : v = u := by simpa using h
    cases hk with
    | settled _ _ => rfl
    | notSent _ _ _ _ => rfl

@[simp] theorem usageRecords_putReservation : (l.putReservation r).usageRecords = l.usageRecords := rfl

@[simp] theorem reservations_putUsage : (l.putUsage u).reservations = l.reservations := rfl

@[simp] theorem recordsOf_putReservation : (l.putReservation r).recordsOf id = l.recordsOf id := rfl

@[simp] theorem usageOf?_putReservation : (l.putReservation r).usageOf? id = l.usageOf? id := rfl

theorem Ledger.Sound.recordsOf_putUsage (hs : l.Sound) (hu : u ∈ l.usageRecords) (hid : v.id = u.id)
    (hres : v.reservationId = u.reservationId) : (l.putUsage v).recordsOf id = put UsageRecord.key v (l.recordsOf id) := by
  apply filter_put_of_eq
  intro y hy hk
  have hyu : y = u := eq_of_key_eq hs.usageIds hy hu (hk.trans hid)
  rw [hyu, hres]

theorem put_recordsOf_of_ne (hs : l.Sound) (hu : u ∈ l.usageRecords) (hid : v.id = u.id) (hne : u.reservationId ≠ some id) :
    put UsageRecord.key v (l.recordsOf id) = l.recordsOf id := by
  apply put_of_not_mem
  intro y hy hk
  obtain ⟨hmem, hres⟩ := List.mem_filter.mp hy
  have hyu : y = u := eq_of_key_eq hs.usageIds hmem hu (hk.trans hid)
  exact hne (hyu ▸ by simpa using hres)

theorem settle_eq_ok (h : l.settle p = .ok l') :
    l' = { reservations := put ProviderBudgetReservation.key p.1 l.reservations
           usageRecords := l.usageRecords ++ [{ p.2 with id := l.usageRecords.length }] } ∧
      ∀ i, p.2.reservationId = some i → l.recordsOf i = [] := by
  obtain ⟨l1, h1, h2⟩ := bind_eq_ok.mp h
  unfold Ledger.addUsage at h1
  split at h1
  · cases h1
  · rename_i hfresh
    cases h1
    cases h2
    refine ⟨rfl, fun i hi => ?_⟩
    rw [Ledger.recordsOf, List.filter_eq_nil_iff]
    intro u hu hres
    apply hfresh
    rw [hi]
    simp only [Option.isSome_some, Bool.true_and, List.any_eq_true]
    exact ⟨u, hu, hres⟩

theorem settle_of_nil {i : Nat} (hi : p.2.reservationId = some i) (h : l.usageOf? i = none) : ∃ l', l.settle p = .ok l' := by
  have hfresh : (l.usageRecords.any fun u => u.reservationId == some i) = false := by
    rw [List.any_eq_false]
    intro u hu
    exact List.find?_eq_none.mp h u hu
  unfold Ledger.settle Ledger.addUsage
  rw [hi, hfresh]
  exact ⟨_, rfl⟩

@[simp] theorem applyAccounting_none : applyAccounting r none = r := rfl

@[simp] theorem applyAccounting_id : (applyAccounting r a).id = r.id := by
  unfold applyAccounting
  split <;> rfl

@[simp] theorem applyAccounting_reserved : (applyAccounting r a).reserved = r.reserved := by
  unfold applyAccounting
  split <;> rfl

@[simp] theorem applyAccounting_stepAttempt : (applyAccounting r a).stepAttempt = r.stepAttempt := by
  unfold applyAccounting
  split <;> rfl

@[simp] theorem applyAccounting_invocationId : (applyAccounting r a).invocationId = r.invocationId := by
  unfold applyAccounting
  split <;> rfl

/-! ### What a move writes -/

/-- The move stores `r'` over `r`, keeps it in step with its record, and leaves every other record alone. -/
structure Moved (l : Ledger) (r r' : ProviderBudgetReservation) (l' : Ledger) : Prop where
  reservations : l'.reservations = put ProviderBudgetReservation.key r' l.reservations
  id : r'.id = r.id
  stepAttempt : r'.stepAttempt = r.stepAttempt
  invocationId : r'.invocationId = r.invocationId
  usageNumbered : l'.usageRecords.map (·.id) = List.range l'.usageRecords.length
  others : ∀ i ≠ r.id, l'.recordsOf i = l.recordsOf i
  kept : Kept r' (l'.recordsOf r.id)
  records : ∀ u ∈ l'.usageRecords, ∀ i, u.reservationId = some i →
    i = r.id ∨ ∃ v ∈ l.usageRecords, v.reservationId = some i

theorem Moved.of_putReservation (hs : l.Sound) (hid : r'.id = r.id) (hstep : r'.stepAttempt = r.stepAttempt)
    (hinv : r'.invocationId = r.invocationId) (hkept : Kept r' (l.recordsOf r.id)) : Moved l r r' (l.putReservation r') where
  reservations := rfl
  id := hid
  stepAttempt := hstep
  invocationId := hinv
  usageNumbered := hs.usageNumbered
  others _ _ := rfl
  kept := hkept
  records u hu _ hi := Or.inr ⟨u, hu, hi⟩

theorem Moved.of_putUsage (hs : l.Sound) (hr : r ∈ l.reservations) (hu : l.usageOf? r.id = some u) (hvid : v.id = u.id)
    (hvres : v.reservationId = u.reservationId) (hid : r'.id = r.id) (hstep : r'.stepAttempt = r.stepAttempt)
    (hinv : r'.invocationId = r.invocationId) (hkept : Kept r' [v]) : Moved l r r' ((l.putUsage v).putReservation r') := by
  obtain ⟨hmem, hres⟩ := usageOf?_eq_some hu
  have hrec := hs.recordsOf_eq hr hu
  exact
    { reservations := rfl
      id := hid
      stepAttempt := hstep
      invocationId := hinv
      usageNumbered := by
        show (put UsageRecord.key v l.usageRecords).map UsageRecord.key = _
        rw [map_put fun _ _ h => h]
        simpa [Ledger.putReservation, Ledger.putUsage] using hs.usageNumbered
      others := fun i hi => by
        rw [recordsOf_putReservation, hs.recordsOf_putUsage hmem hvid hvres]
        exact put_recordsOf_of_ne hs hmem hvid (by rw [hres]; simpa using hi.symm)
      kept := by
        rw [recordsOf_putReservation, hs.recordsOf_putUsage hmem hvid hvres, hrec]
        simpa [hvid] using hkept
      records := fun w hw i hi => by
        rcases mem_or_of_mem_put hw with rfl | hw
        · rw [hvres, hres] at hi
          exact Or.inl (Option.some.inj hi).symm
        · exact Or.inr ⟨w, hw, hi⟩ }

theorem settleReservation_kept {usage : Option NormalizedUsage} {c late : Bool} {k : Nat} :
    Kept (settleReservation now r usage outcome c late).1
      [{ (settleReservation now r usage outcome c late).2 with id := k }] := by
  refine .settled ?_ ?_
  · simp only [settleReservation]
    split
    · exact Or.inr rfl
    · exact Or.inl rfl
  · intro hunknown
    have hnone : usage.bind (·.costUnits) = none := by simpa [settleReservation] using hunknown
    cases usage with
    | none => rfl
    | some usage =>
      have hcost : usage.costUnits = none := by simpa using hnone
      simp [settleReservation, NormalizedUsage.fillFrom, hcost]

theorem recordsOf_settle {i : Nat} (h : l.settle p = .ok l') (hi : p.2.reservationId = some i) :
    l'.recordsOf i = [{ p.2 with id := l.usageRecords.length }] ∧ ∀ j, j ≠ i → l'.recordsOf j = l.recordsOf j := by
  obtain ⟨rfl, hnil⟩ := settle_eq_ok h
  have hold := hnil i hi
  unfold Ledger.recordsOf at hold ⊢
  refine ⟨by simp [List.filter_append, hold, hi], fun j hj => ?_⟩
  have hne : ¬i = j := fun h => hj h.symm
  simp [List.filter_append, hi, hne]

theorem Moved.of_settle {usage : Option NormalizedUsage} {accounting : Option AccountingContext} {c late : Bool}
    (hs : l.Sound) (h : l.settle (settleReservation now (applyAccounting r accounting) usage outcome c late) = .ok l') :
    Moved l r (settleReservation now (applyAccounting r accounting) usage outcome c late).1 l' := by
  have hres : (settleReservation now (applyAccounting r accounting) usage outcome c late).2.reservationId = some r.id := by
    simp [settleReservation]
  obtain ⟨hrec, hothers⟩ := recordsOf_settle h hres
  obtain ⟨hl', -⟩ := settle_eq_ok h
  exact
    { reservations := by rw [hl']
      id := by simp [settleReservation]
      stepAttempt := applyAccounting_stepAttempt
      invocationId := applyAccounting_invocationId
      usageNumbered := by simp [hl', List.range_succ, hs.usageNumbered]
      others := hothers
      kept := by
        rw [hrec]
        exact settleReservation_kept
      records := fun w hw i hi => by
        rw [hl'] at hw
        rcases Lib.mem_concat.mp hw with hw | rfl
        · exact Or.inr ⟨w, hw, hi⟩
        · exact Or.inl (Option.some.inj (hi.symm.trans hres)) }

theorem Move.moved (hs : l.Sound) (hr : r ∈ l.reservations) (h : Move may l r l') : ∃ r', Moved l r r' l' := by
  have hkept := hs.kept r hr
  cases h with
  | release unsettled =>
    refine ⟨_, Moved.of_putReservation hs rfl rfl rfl ?_⟩
    have hnil : l.recordsOf r.id = [] := by
      rcases unsettled with hopen | hnone
      · exact hkept.of_reserved hopen
      · exact recordsOf_eq_nil.mpr hnone
    rw [hnil]
    exact .unsettled (Or.inr rfl)
  | charge _ _ settles => exact ⟨_, Moved.of_settle hs settles⟩
  | @replace u usage outcome _ closed record unknown =>
    rw [hs.recordsOf_eq hr record] at hkept
    -- Only an estimate is replaced, so the row is not the one of a call that was not sent.
    have hsettled := hkept.of_unknown unknown
    refine ⟨_, Moved.of_putUsage hs hr record rfl rfl ?_ ?_ ?_ ?_⟩
    · split <;> rfl
    · split <;> rfl
    · split <;> rfl
    · cases hcost : usage.costUnits with
      | some c => exact .settled (Or.inl rfl) fun h => by cases h
      | none => exact .settled hsettled.1 fun _ => by simp [NormalizedUsage.fillFrom, hcost, hsettled.2]
  | unsend record _ => exact ⟨_, Moved.of_putUsage hs hr record rfl rfl rfl rfl rfl (.notSent rfl rfl rfl rfl)⟩

theorem Moved.sound (hs : l.Sound) (hr : r ∈ l.reservations) (h : Moved l r r' l') : l'.Sound := by
  have hlen : l'.reservations.length = l.reservations.length := by rw [h.reservations, length_put]
  have hrow : ∀ y ∈ l.reservations, y.id = r'.id → y = r := fun y hy hk =>
    eq_of_key_eq hs.ids hy hr (show y.key = r.key from hk.trans h.id)
  exact
    { numbered := by
        rw [hlen, h.reservations]
        rw [map_put fun _ _ hk => hk]
        exact hs.numbered
      usageNumbered := h.usageNumbered
      referenced := fun u hu i hi => by
        rw [hlen]
        rcases h.records u hu i hi with rfl | ⟨v, hv, hres⟩
        · have hmem : r.id ∈ l.reservations.map (·.id) := List.mem_map_of_mem hr
          rw [hs.numbered] at hmem
          exact List.mem_range.mp hmem
        · exact hs.referenced v hv i hres
      kept := fun y hy => by
        rw [h.reservations] at hy
        rcases mem_put.mp hy with ⟨rfl, -⟩ | ⟨hy, hne⟩
        · rw [h.id]
          exact h.kept
        · rw [h.others y.id fun hk => hne (hk.trans h.id.symm)]
          exact hs.kept y hy
      stepAttempts := by
        rw [h.reservations, filterMap_put fun y hy hk => by rw [hrow y hy hk, h.stepAttempt]]
        exact hs.stepAttempts
      invocations := by
        rw [h.reservations, filterMap_put fun y hy hk => by rw [hrow y hy hk, h.invocationId]]
        exact hs.invocations }

theorem Moves.sound (hs : l.Sound) (h : Moves may l l') : l'.Sound := by
  induction h with
  | refl => exact hs
  | tail _ hstep ih =>
    obtain ⟨r, hr, hmove⟩ := hstep
    obtain ⟨r', hmoved⟩ := hmove.moved ih hr
    exact hmoved.sound ih hr

theorem Move.closes (h : Move may l r l') : ∃ r', l'.reservations = put ProviderBudgetReservation.key r' l.reservations ∧
    r'.id = r.id ∧ r'.invocationId = r.invocationId ∧ r'.status ≠ .reserved := by
  cases h with
  | release _ => exact ⟨_, rfl, rfl, rfl, by simp⟩
  | charge accounting _ settles =>
    obtain ⟨rfl, -⟩ := settle_eq_ok settles
    refine ⟨_, rfl, applyAccounting_id, applyAccounting_invocationId, ?_⟩
    simp only [settleReservation]
    split <;> simp
  | @replace u usage outcome _ closed _ _ =>
    refine ⟨_, rfl, ?_, ?_, ?_⟩
    · split <;> rfl
    · split <;> rfl
    · split
      · simp
      · exact closed
  | unsend _ _ => exact ⟨_, rfl, rfl, rfl, by simp⟩

def Ledger.Follows (l l' : Ledger) : Prop :=
  ∀ r ∈ l.reservations, ∃ r' ∈ l'.reservations,
    r'.id = r.id ∧ r'.invocationId = r.invocationId ∧ (r.status ≠ .reserved → r'.status ≠ .reserved)

theorem Ledger.Follows.refl : l.Follows l := fun r hr => ⟨r, hr, rfl, rfl, id⟩

theorem Ledger.Follows.trans {l'' : Ledger} (h1 : l.Follows l') (h2 : l'.Follows l'') : l.Follows l'' := by
  intro r hr
  obtain ⟨r', hr', hid, hinv, hst⟩ := h1 r hr
  obtain ⟨r'', hr'', hid', hinv', hst'⟩ := h2 r' hr'
  exact ⟨r'', hr'', hid'.trans hid, hinv'.trans hinv, fun h => hst' (hst h)⟩

theorem Move.follows (hs : l.Sound) (hr : r ∈ l.reservations) (h : Move may l r l') : l.Follows l' := by
  obtain ⟨r', hrows, hid, hinv, hclosed⟩ := h.closes
  intro x hx
  by_cases hk : x.id = r.id
  · have hxr : x = r := eq_of_key_eq hs.ids hx hr hk
    subst hxr
    refine ⟨r', ?_, hid, hinv, fun _ => hclosed⟩
    rw [hrows]
    exact mem_put_self hx hid.symm
  · refine ⟨x, ?_, rfl, rfl, id⟩
    rw [hrows]
    exact mem_put_of_ne hx fun h => hk (h.trans hid)

theorem Moves.follows (hs : l.Sound) (h : Moves may l l') : l.Follows l' := by
  induction h with
  | refl => exact .refl
  | tail hmoves hstep ih =>
    obtain ⟨r, hr, hmove⟩ := hstep
    exact ih.trans (hmove.follows (Moves.sound hs hmoves) hr)

/-! ### Rounds -/

theorem Moved.mem_of_ne (h : Moved l r r' l') (hx : x ∈ l.reservations) (hne : x.id ≠ r.id) : x ∈ l'.reservations := by
  rw [h.reservations]
  exact mem_put_of_ne hx fun hk => hne (hk.trans h.id)

def Closes (may : ProviderBudgetReservation → Option NormalizedUsage → Option AccountingContext → Prop)
    (step : Ledger → ProviderBudgetReservation → Except LedgerError Ledger) (r : ProviderBudgetReservation) : Prop :=
  r.status = .reserved ∧ ∀ l : Ledger, l.Sound → r ∈ l.reservations →
    ∃ l', step l r = .ok l' ∧ (l' = l ∨ Move may l r l')

/-- A loop over open reservations: a reservation that has no round keeps its row and its records. -/
theorem Closes.foldlM {step : Ledger → ProviderBudgetReservation → Except LedgerError Ledger}
    {rows : List ProviderBudgetReservation} (hstep : ∀ r ∈ rows, Closes may step r) (hs : l.Sound)
    (hids : (rows.map (·.id)).Nodup) (hrows : ∀ r ∈ rows, r ∈ l.reservations) :
    ∃ l', rows.foldlM step l = .ok l' ∧ Moves may l l' ∧ l'.Sound ∧ ∀ x ∈ l.reservations, x.id ∉ rows.map (·.id) →
      x ∈ l'.reservations ∧ l'.recordsOf x.id = l.recordsOf x.id := by
  induction rows generalizing l with
  | nil => exact ⟨l, rfl, .refl, hs, fun x hx _ => ⟨hx, rfl⟩⟩
  | cons r rows ih =>
    simp only [List.map_cons, List.nodup_cons] at hids
    have hr := hrows r List.mem_cons_self
    have hrest : ∀ x ∈ rows, x ∈ l.reservations := fun x hx => hrows x (List.mem_cons_of_mem _ hx)
    have hstep' : ∀ x ∈ rows, Closes may step x := fun x hx => hstep x (List.mem_cons_of_mem _ hx)
    obtain ⟨l1, h1, hround⟩ := (hstep r List.mem_cons_self).2 l hs hr
    have hl1 : Moves may l l1 ∧ l1.Sound ∧ ∀ x ∈ l.reservations, x.id ≠ r.id →
        x ∈ l1.reservations ∧ l1.recordsOf x.id = l.recordsOf x.id := by
      rcases hround with rfl | hmove
      · exact ⟨.refl, hs, fun x hx _ => ⟨hx, rfl⟩⟩
      · obtain ⟨r', hmoved⟩ := hmove.moved hs hr
        exact ⟨.single ⟨r, hr, hmove⟩, hmoved.sound hs hr, fun x hx hne =>
          ⟨hmoved.mem_of_ne hx hne, hmoved.others x.id hne⟩⟩
    obtain ⟨hmoves, hs1, hframe⟩ := hl1
    have hmem : ∀ x ∈ rows, x ∈ l1.reservations := fun x hx =>
      (hframe x (hrest x hx) fun hk => hids.1 (hk ▸ List.mem_map_of_mem hx)).1
    obtain ⟨l2, h2, hmoves2, hs2, hframe2⟩ := ih hstep' hs1 hids.2 hmem
    refine ⟨l2, ?_, hmoves.trans hmoves2, hs2, fun x hx hnot => ?_⟩
    · rw [List.foldlM_cons, h1, ok_bind, h2]
    · simp only [List.map_cons, List.mem_cons, not_or] at hnot
      obtain ⟨hx1, hrec1⟩ := hframe x hx hnot.1
      obtain ⟨hx2, hrec2⟩ := hframe2 x hx1 hnot.2
      exact ⟨hx2, hrec2.trans hrec1⟩

theorem chargeFloor_of_nil (now : Nat) (outcome : String) (hnone : l.usageOf? r.id = none) :
    ∃ l', chargeFloor now l r outcome = .ok l' :=
  settle_of_nil (i := r.id) rfl hnone

theorem closeOne_closes {release : Bool} {accounting : Option AccountingContext} (hmay : may r none accounting)
    (hopen : r.status = .reserved) : Closes may (closeOne now outcome release accounting) r := by
  refine ⟨hopen, fun l hs hr => ?_⟩
  have hnone : l.usageOf? r.id = none := recordsOf_eq_nil.mp ((hs.kept r hr).of_reserved hopen)
  unfold closeOne
  rw [hnone]
  split
  · exact ⟨l, rfl, Or.inl rfl⟩
  · split
    · exact ⟨_, rfl, Or.inr (.release (Or.inl hopen))⟩
    · have hnone' : l.usageOf? (applyAccounting r accounting).id = none := by rw [applyAccounting_id, hnone]
      obtain ⟨l', h⟩ := chargeFloor_of_nil now outcome hnone'
      exact ⟨l', h, Or.inr (.charge accounting hmay h)⟩

theorem sweepOne_closes (hmay : may r none none) (hopen : r.status = .reserved) : Closes may (sweepOne f) r := by
  refine ⟨hopen, fun l hs hr => ?_⟩
  have hnone : l.usageOf? r.id = none := recordsOf_eq_nil.mp ((hs.kept r hr).of_reserved hopen)
  unfold sweepOne
  rw [hnone]
  split
  · exact ⟨l, rfl, Or.inl rfl⟩
  · split
    · exact ⟨l, rfl, Or.inl rfl⟩
    · split
      · exact ⟨_, rfl, Or.inr (.release (Or.inl hopen))⟩
      · obtain ⟨l', h⟩ := chargeFloor_of_nil f.now "orphan_recovered" hnone
        exact ⟨l', h, Or.inr (.charge none hmay h)⟩

theorem mem_orphans {o b : Nat} (h : r ∈ orphans f l o b) : r ∈ l.reservations ∧ r.status = .reserved := by
  have hsorted := List.mem_of_mem_take h
  rw [List.mem_mergeSort] at hsorted
  obtain ⟨hmem, hsel⟩ := List.mem_filter.mp hsorted
  simp only [Bool.and_eq_true, decide_eq_true_eq] at hsel
  exact ⟨hmem, hsel.1.1⟩

theorem Ledger.Sound.nodup_orphans (hs : l.Sound) {o b : Nat} : ((orphans f l o b).map (·.id)).Nodup := by
  refine List.Nodup.sublist ((List.take_sublist _ _).map _) ?_
  refine ((List.mergeSort_perm _ _).map _).nodup_iff.mpr ?_
  exact hs.ids.sublist (List.filter_sublist.map _)

/-- The reservations that `close_step_reservations` selects. -/
def openOfStep (l : Ledger) (stepId : Nat) : List ProviderBudgetReservation :=
  l.reservations.filter fun r => r.stepId == some stepId && r.status = .reserved

theorem mem_openOfStep {stepId : Nat} :
    r ∈ openOfStep l stepId ↔ r ∈ l.reservations ∧ r.stepId = some stepId ∧ r.status = .reserved := by
  simp [openOfStep]

theorem Ledger.Sound.nodup_openOfStep (hs : l.Sound) {stepId : Nat} : ((openOfStep l stepId).map (·.id)).Nodup :=
  hs.ids.sublist (List.filter_sublist.map _)

/-! ### Transactions -/

variable {receipt : Receipt}

theorem settleInvocationBudget_moves {now : Nat} {profile : ProviderProfile} (hs : l.Sound)
    (h : settleInvocationBudget l now id profile receipt = .ok l') :
    Moves ((Settlement.settleInvocationBudget id profile receipt).charges l) l l' := by
  unfold settleInvocationBudget at h
  cases hrow : l.reservation? id with
  | none => simp [hrow] at h
  | some r =>
    obtain ⟨hr, rfl⟩ := reservation?_eq_some hrow
    simp only [hrow] at h
    split at h
    · rename_i hclosed
      cases hrec : l.usageOf? r.id with
      | none => simp [hrec] at h
      | some u =>
        simp only [hrec] at h
        split at h
        · cases h; exact .refl
        · rename_i usage haccounted
          split at h
          · cases h; exact .refl
          · rename_i hunknown
            have hunknown : u.costKnown = false := by simpa using hunknown
            -- The record of a call that was not sent has a known cost, so this row is not released.
            have hstatus : r.status ≠ .released := by
              intro hreleased
              have hkept := hs.kept r hr
              rw [hs.recordsOf_eq hr hrec] at hkept
              simpa [hreleased] using (hkept.of_unknown hunknown).1
            cases h
            exact .single ⟨r, hr, .replace ⟨hr, rfl, hstatus, haccounted.symm, rfl⟩ hclosed hrec hunknown⟩
    · rename_i hopen
      have hopen : r.status = .reserved := not_not.mp hopen
      exact .single ⟨r, hr, .charge none ⟨hr, rfl, by simp [hopen], rfl, rfl⟩ h⟩

theorem releaseUnsentInvocation_moves (h : releaseUnsentInvocation l id = .ok l') : Moves may l l' := by
  unfold releaseUnsentInvocation at h
  cases hrow : l.reservation? id with
  | none => simp [hrow] at h
  | some r =>
    obtain ⟨hr, rfl⟩ := reservation?_eq_some hrow
    simp only [hrow] at h
    cases hrec : l.usageOf? r.id with
    | none =>
      simp only [hrec] at h
      cases h
      exact .single ⟨r, hr, .release (Or.inr hrec)⟩
    | some u =>
      simp only [hrec] at h
      split at h
      · cases h
      · rename_i hmeasured
        cases h
        exact .single ⟨r, hr, .unsend hrec fun hknown => by simpa [hknown] using hmeasured⟩

theorem reconcileUsage_moves {f : Surroundings} {token : Workflow.LeaseToken}
    (h : reconcileUsage f l id token receipt = .ok l') :
    Moves ((Settlement.reconcileUsage id token receipt).charges l) l l' := by
  unfold reconcileUsage at h
  cases hrow : l.reservation? id with
  | none => simp [hrow] at h
  | some r =>
    obtain ⟨hr, rfl⟩ := reservation?_eq_some hrow
    simp only [hrow] at h
    split at h
    · cases h; exact .refl
    · split at h
      · cases h
      · exact .single ⟨r, hr, .charge _ ⟨hr, rfl, rfl, rfl⟩ h⟩

theorem recordLateReceipt_moves {now : Nat} (h : recordLateReceipt l now id receipt = .ok l') :
    Moves ((Settlement.recordLateReceipt id receipt).charges l) l l' := by
  unfold recordLateReceipt at h
  cases hrow : l.reservation? id with
  | none => simp [hrow] at h
  | some r =>
    obtain ⟨hr, rfl⟩ := reservation?_eq_some hrow
    simp only [hrow] at h
    split at h
    · cases h; exact .refl
    · split at h
      · cases h; exact .refl
      · rename_i hstatus
        exact .single ⟨r, hr, .charge _ ⟨hr, rfl, hstatus, rfl, rfl⟩ h⟩

theorem releaseOpen_moves (hr : r ∈ l.reservations) : Moves may l (releaseOpen l r) := by
  unfold releaseOpen
  split
  · rename_i hopen
    exact .single ⟨r, hr, .release (Or.inl hopen)⟩
  · exact .refl

theorem Settlement.perform_moves {f : Surroundings} {op : Settlement} (hs : l.Sound) (h : op.perform f l = .ok l') :
    Moves (op.charges l) l l' := by
  cases op with
  | settleInvocationBudget id profile receipt => exact settleInvocationBudget_moves hs h
  | releaseUnsentInvocation id => exact releaseUnsentInvocation_moves h
  | reconcileUsage id token receipt => exact reconcileUsage_moves h
  | recordLateReceipt id receipt => exact recordLateReceipt_moves h
  | releaseReservation id token =>
    simp only [Settlement.perform, Providers.releaseReservation] at h
    split at h
    · cases h
    · rename_i r hrow
      split at h
      · cases h
      · cases h
        exact releaseOpen_moves (reservation?_eq_some hrow).1
  | releaseReservationUnfenced id =>
    simp only [Settlement.perform, Providers.releaseReservationUnfenced] at h
    split at h
    · cases h
    · rename_i r hrow
      cases h
      exact releaseOpen_moves (reservation?_eq_some hrow).1
  | closeStepReservations stepId outcome release accounting =>
    have hcloses : ∀ r ∈ openOfStep l stepId,
        Closes ((Settlement.closeStepReservations stepId outcome release accounting).charges l)
          (closeOne f.now outcome release accounting) r := fun r hr => by
      obtain ⟨hmem, -, hopen⟩ := mem_openOfStep.mp hr
      exact closeOne_closes ⟨hmem, hopen, rfl, rfl⟩ hopen
    obtain ⟨l'', h', hmoves, -, -⟩ := Closes.foldlM hcloses hs hs.nodup_openOfStep fun r hr => (mem_openOfStep.mp hr).1
    cases h.symm.trans h'
    exact hmoves
  | releaseOrphanReservations olderThanSeconds batchSize =>
    have hcloses : ∀ r ∈ orphans f l olderThanSeconds batchSize,
        Closes ((Settlement.releaseOrphanReservations olderThanSeconds batchSize).charges l) (sweepOne f) r :=
      fun r hr => by
        obtain ⟨hmem, hopen⟩ := mem_orphans hr
        exact sweepOne_closes ⟨hmem, hopen, rfl, rfl⟩ hopen
    obtain ⟨l'', h', hmoves, -, -⟩ := Closes.foldlM hcloses hs hs.nodup_orphans fun r hr => (mem_orphans hr).1
    cases h.symm.trans h'
    exact hmoves

/-! ### Reservations -/

theorem addReservation_eq_ok (h : l.addReservation r = .ok l') :
    (∀ x ∈ l.reservations, ∀ k, r.stepAttempt = some k → x.stepAttempt ≠ some k) ∧
    (∀ x ∈ l.reservations, ∀ k, r.invocationId = some k → x.invocationId ≠ some k) ∧
    l' = { l with reservations := l.reservations ++ [{ r with id := l.reservations.length }] } := by
  unfold Ledger.addReservation at h
  split at h
  · cases h
  · rename_i hstep
    split at h
    · cases h
    · rename_i hinv
      cases h
      simp only [List.any_eq_true, not_exists, not_and] at hstep hinv
      refine ⟨fun x hx k hr hk => hstep x hx ?_, fun x hx k hr hk => hinv x hx ?_, rfl⟩
      · cases hxs : x.stepId <;> cases hrs : r.stepId <;>
          simp_all [ProviderBudgetReservation.stepAttempt, Ledger.sameStepAttempt]
        rw [← hk] at hr
        exact ⟨(Prod.mk.inj hr).1.symm, (Prod.mk.inj hr).2.symm⟩
      · simp [Ledger.sameInvocation, hr, hk]

theorem Ledger.Sound.addReservation (hs : l.Sound) (hopen : r.status = .reserved) (h : l.addReservation r = .ok l') :
    l'.Sound := by
  obtain ⟨hstep, hinv, rfl⟩ := addReservation_eq_ok h
  -- The number of the new row is not one that a record refers to.
  have hnew : l.recordsOf l.reservations.length = [] := by
    rw [Ledger.recordsOf, List.filter_eq_nil_iff]
    intro u hu hres
    have hlt := hs.referenced u hu l.reservations.length (by simpa using hres)
    omega
  exact
    { numbered := by simp [List.range_succ, hs.numbered]
      usageNumbered := hs.usageNumbered
      referenced := fun u hu i hi => by
        have hlt := hs.referenced u hu i hi
        simp only [List.length_append, List.length_cons, List.length_nil]
        omega
      kept := fun x hx => by
        rcases Lib.mem_concat.mp hx with hx | rfl
        · exact hs.kept x hx
        · show Kept _ (l.recordsOf l.reservations.length)
          rw [hnew]
          exact .unsettled (Or.inl hopen)
      stepAttempts := nodup_filterMap_append hs.stepAttempts hstep
      invocations := nodup_filterMap_append hs.invocations hinv }

theorem conclude_sound {g : Registry} {q : ReserveRequest} {a : Answers} (hs : l.Sound)
    (h : conclude g l q a = .ok l') : l'.Sound := by
  unfold conclude at h
  split at h
  · cases h; exact hs
  · obtain ⟨-, -, h⟩ := bind_eq_ok.mp h
    exact hs.addReservation rfl h

theorem Ledger.Sound.after (hs : l.Sound) (op : LedgerOp) : (l.after op).Sound := by
  unfold Ledger.after
  split
  · rename_i l' h
    cases op with
    | reserve g q => exact conclude_sound hs h
    | settle f op => exact (Settlement.perform_moves hs h).sound hs
  · exact hs

theorem addReservation_follows (h : l.addReservation r = .ok l') : l.Follows l' := by
  obtain ⟨-, -, rfl⟩ := addReservation_eq_ok h
  exact fun x hx => ⟨x, List.mem_append_left _ hx, rfl, rfl, id⟩

theorem conclude_follows {g : Registry} {q : ReserveRequest} {a : Answers} (h : conclude g l q a = .ok l') :
    l.Follows l' := by
  unfold conclude at h
  split at h
  · cases h
    exact .refl
  · obtain ⟨-, -, h⟩ := bind_eq_ok.mp h
    exact addReservation_follows h

theorem Ledger.Sound.after_follows (hs : l.Sound) (op : LedgerOp) : l.Follows (l.after op) := by
  unfold Ledger.after
  split
  · rename_i l' h
    cases op with
    | reserve g q => exact conclude_follows h
    | settle f op => exact (Settlement.perform_moves hs h).follows hs
  · exact .refl

theorem settleInvocationBudget_closes {profile : ProviderProfile} (hs : l.Sound) (hr : r ∈ l.reservations)
    (h : settleInvocationBudget l now r.id profile receipt = .ok l') :
    ∃ r' ∈ l'.reservations, r'.id = r.id ∧ r'.status ≠ .reserved := by
  by_cases hopen : r.status = .reserved
  · unfold settleInvocationBudget at h
    simp only [hs.reservation? hr, hopen, ne_eq, not_true_eq_false, if_false] at h
    have hmove : Move (fun _ _ _ => True) l r l' := .charge none trivial h
    obtain ⟨r', hrows, hid, -, hclosed⟩ := hmove.closes
    refine ⟨r', ?_, hid, hclosed⟩
    rw [hrows]
    exact mem_put_self hr hid.symm
  · obtain ⟨r', hr', hid, -, hst⟩ := (settleInvocationBudget_moves hs h).follows hs r hr
    exact ⟨r', hr', hid, hst hopen⟩

theorem releaseUnsentInvocation_closes (hs : l.Sound) (hr : r ∈ l.reservations)
    (h : releaseUnsentInvocation l r.id = .ok l') : ∃ r' ∈ l'.reservations, r'.id = r.id ∧ r'.status ≠ .reserved := by
  unfold releaseUnsentInvocation at h
  simp only [hs.reservation? hr] at h
  have hmem : ∀ l0 : Ledger, l0.reservations = l.reservations →
      { r with status := BudgetReservationStatus.released } ∈ (l0.putReservation { r with status := .released }).reservations := by
    intro l0 hl0
    rw [Ledger.putReservation, hl0]
    exact mem_put_self hr rfl
  split at h
  · cases h
    exact ⟨_, hmem l rfl, rfl, by simp⟩
  · split at h
    · cases h
    · cases h
      exact ⟨_, hmem _ rfl, rfl, by simp⟩

theorem Ledger.sound_empty : ({} : Ledger).Sound where
  numbered := rfl
  usageNumbered := rfl
  referenced _ hu := by cases hu
  kept _ hr := by cases hr
  stepAttempts := List.nodup_nil
  invocations := List.nodup_nil

end

/-! ### Every call is charged once -/

/-- A reservation and its usage records, as an auditor reads them. -/
structure Ledger.ChargedOnce (l : Ledger) : Prop where
  atMostOne : ∀ r ∈ l.reservations, (l.recordsOf r.id).length ≤ 1
  reserved : ∀ r ∈ l.reservations, r.status = .reserved → l.recordsOf r.id = []
  settled : ∀ r ∈ l.reservations, r.status = .reconciled ∨ r.status = .conservative →
    ∃ u, l.recordsOf r.id = [u]
  released : ∀ r ∈ l.reservations, r.status = .released → l.recordsOf r.id = [] ∨
    ∃ u, l.recordsOf r.id = [u] ∧ u.amounts.costUnits = 0 ∧ u.outcome = "not_sent"
  floor : ∀ r ∈ l.reservations, ∀ u ∈ l.recordsOf r.id, u.costKnown = false →
    u.amounts.costUnits = r.reserved.costUnits
  stepAttempts : (l.reservations.filterMap (·.stepAttempt)).Nodup
  invocations : (l.reservations.filterMap (·.invocationId)).Nodup

theorem Ledger.Sound.chargedOnce {l : Ledger} (hs : l.Sound) : l.ChargedOnce where
  atMostOne r hr := (hs.kept r hr).length_le
  reserved r hr := (hs.kept r hr).of_reserved
  settled r hr := (hs.kept r hr).of_closed
  released r hr := (hs.kept r hr).of_released
  floor r hr := (hs.kept r hr).floor
  stepAttempts := hs.stepAttempts
  invocations := hs.invocations

/-- Whatever operations the ledger has seen, in whatever order, each call that it admitted is charged once. -/
theorem ledger_charged_once (ops : List LedgerOp) : (ops.foldl Ledger.after {}).ChargedOnce := by
  suffices h : ∀ l : Ledger, l.Sound → (ops.foldl Ledger.after l).Sound from (h {} Ledger.sound_empty).chargedOnce
  induction ops with
  | nil => exact fun l hs => hs
  | cons op ops ih => exact fun l hs => ih _ (hs.after op)

end Vuzol.Providers
