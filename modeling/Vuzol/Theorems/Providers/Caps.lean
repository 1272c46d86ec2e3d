import Mathlib.Data.List.Infix
import Vuzol.Theorems.Providers.Ledger

/-! Money caps while settlements commit between the statements of a reservation. The settled total is read
    before the outstanding one, so a cap holds in every run where no settlement falls between the two. -/

namespace Vuzol.Providers

open Vuzol.Lib

/-! ### Tallies -/

/-- A total of settled and outstanding cost: the records it counts, by owner and time, and the open
    reservations it counts, by owner. What a counted record settles was counted while it was open. -/
structure Tally where
  settled : Option Nat → Nat → Bool
  outstanding : Option Nat → Bool
  owed : ∀ owner time, settled owner time = true → outstanding owner = true

namespace Tally

def weight (t : Tally) (u : UsageRecord) : Nat := if t.settled u.horizonId u.createdAt then u.amounts.costUnits else 0

def hold (t : Tally) (r : ProviderBudgetReservation) : Nat :=
  if r.status = .reserved && t.outstanding r.horizonId then r.reserved.costUnits else 0

def spent (t : Tally) (l : Ledger) : Nat := (l.usageRecords.map t.weight).sum

def held (t : Tally) (l : Ledger) : Nat := (l.reservations.map t.hold).sum

def total (t : Tally) (l : Ledger) : Nat := t.spent l + t.held l

def daily (day : Nat) : Tally where
  settled _ time := day ≤ time
  outstanding _ := true
  owed _ _ _ := rfl

def lifetime (scopes : List Nat) : Tally where
  settled owner _ := owner.any scopes.contains
  outstanding owner := owner.any scopes.contains
  owed _ _ h := h

end Tally

theorem costUnits_totalOf (amounts : List Amounts) : (totalOf amounts).costUnits = (amounts.map (·.costUnits)).sum := by
  induction amounts with
  | nil => rfl
  | cons a amounts ih =>
    rw [List.map_cons, List.sum_cons, ← ih]
    rfl

section
variable {l l' : Ledger} {r : ProviderBudgetReservation} {t : Tally} {day : Nat} {scopes : List Nat}
variable {may : ProviderBudgetReservation → Option NormalizedUsage → Option AccountingContext → Prop}
variable {accounting : Option AccountingContext}

theorem dailyUsage_eq : (l.dailyUsageTotals day).costUnits = (Tally.daily day).spent l := by
  rw [Ledger.dailyUsageTotals, costUnits_totalOf, List.map_map, Function.comp_def, sum_filter]
  rfl

theorem dailyReserved_eq (day : Nat) : (l.reservedTotals none none none).costUnits = (Tally.daily day).held l := by
  rw [Ledger.reservedTotals, costUnits_totalOf, List.map_map, Function.comp_def, sum_filter]
  refine congrArg List.sum (List.map_congr_left fun r _ => ?_)
  simp [Tally.hold, Tally.daily]

theorem goalSpent_eq : l.goalSpent scopes = (Tally.lifetime scopes).spent l := by
  rw [Ledger.goalSpent, costUnits_totalOf, List.map_map, Function.comp_def, sum_filter]
  rfl

theorem goalReserved_eq : l.goalReserved scopes = (Tally.lifetime scopes).held l := by
  rw [Ledger.goalReserved, costUnits_totalOf, List.map_map, Function.comp_def, sum_filter]
  rfl

/-! ### What a move does to a tally -/

/-- A charge that no tally grows by: the cost is at most what was reserved, the owner stays, and the
    reservation was still open. -/
structure FairCharge (r : ProviderBudgetReservation) (usage : Option NormalizedUsage)
    (accounting : Option AccountingContext) : Prop where
  cost : ∀ c, usage.bind (·.costUnits) = some c → c ≤ r.reserved.costUnits
  owner : accounting.bind (·.horizonId) = none
  opened : r.status ≠ .released

theorem applyAccounting_of_none (h : accounting.bind (·.horizonId) = none) : applyAccounting r accounting = r := by
  unfold applyAccounting
  split
  · rename_i owner
    cases h
  · rfl

variable {usage : Option NormalizedUsage}

theorem settle_cost_le {reserved : Amounts} (h : ∀ c, usage.bind (·.costUnits) = some c → c ≤ reserved.costUnits) :
    ((usage.getD {}).fillFrom reserved).costUnits ≤ reserved.costUnits := by
  cases usage with
  | none => exact Nat.le_refl _
  | some usage =>
    cases hc : usage.costUnits with
    | none => simp [NormalizedUsage.fillFrom, hc]
    | some c => simpa [NormalizedUsage.fillFrom, hc] using h c (by simpa using hc)

theorem Tally.held_putReservation (t : Tally) (r' : ProviderBudgetReservation) (hs : l.Sound) (hr : r ∈ l.reservations)
    (hid : r.id = r'.id) : t.held (l.putReservation r') + t.hold r = t.held l + t.hold r' :=
  sum_put t.hold hs.ids hr hid

variable {u v : UsageRecord}

theorem Tally.spent_putUsage (t : Tally) (hs : l.Sound) (hu : u ∈ l.usageRecords) (hid : u.id = v.id) :
    t.spent (l.putUsage v) + t.weight u = t.spent l + t.weight v :=
  sum_put t.weight hs.usageIds hu hid

theorem Tally.hold_released : t.hold { r with status := .released } = 0 := rfl

theorem Tally.hold_of_closed (h : r.status ≠ .reserved) : t.hold r = 0 := by
  simp [Tally.hold, h]

theorem FairCharge.weight_le (h : FairCharge r usage accounting) (t : Tally) (now : Nat)
    (outcome : String) (c late : Bool) (k : Nat) (hopen : r.status = .reserved) :
    t.weight { (settleReservation now r usage outcome c late).2 with id := k } ≤ t.hold r := by
  simp only [Tally.weight, Tally.hold, settleReservation, hopen, decide_true, Bool.true_and]
  by_cases hsettled : t.settled r.horizonId now
  · simp only [hsettled, t.owed _ _ hsettled, if_true]
    exact settle_cost_le h.cost
  · simp [hsettled]

theorem FairCharge.replaced_le {usage : NormalizedUsage} (h : FairCharge r (some usage) none)
    (hu : u.amounts.costUnits = r.reserved.costUnits) (howner : v.horizonId = u.horizonId)
    (htime : v.createdAt = u.createdAt) (hv : v.amounts = usage.fillFrom u.amounts) : t.weight v ≤ t.weight u := by
  unfold Tally.weight
  rw [howner, htime, hv]
  split
  · have hcost : ∀ c, (some usage).bind (·.costUnits) = some c → c ≤ u.amounts.costUnits := fun c hc => by
      rw [hu]
      exact h.cost c hc
    exact settle_cost_le hcost
  · exact Nat.le_refl _

/-- What a change does to the two halves of a tally: together they do not grow, and the settled half grows
    only with a new record. -/
structure Tally.Kept (t : Tally) (l l' : Ledger) : Prop where
  total : t.total l' ≤ t.total l
  length : l.usageRecords.length ≤ l'.usageRecords.length
  spent : l'.usageRecords.length = l.usageRecords.length → t.spent l' ≤ t.spent l

theorem Tally.Kept.of_put {r' : ProviderBudgetReservation} (hs : l.Sound) (hr : r ∈ l.reservations)
    (hid : r.id = r'.id) (hhold : t.hold r' ≤ t.hold r) (hu : u ∈ l.usageRecords) (huid : u.id = v.id)
    (hweight : t.weight v ≤ t.weight u) : t.Kept l ((l.putUsage v).putReservation r') := by
  have hheld := t.held_putReservation r' hs hr hid
  have hspent := t.spent_putUsage hs hu huid
  have hspent' : t.spent ((l.putUsage v).putReservation r') ≤ t.spent l := by
    show t.spent (l.putUsage v) ≤ _
    omega
  refine ⟨?_, ?_, fun _ => hspent'⟩
  · have hheld' : t.held ((l.putUsage v).putReservation r') ≤ t.held l := by
      show t.held (l.putReservation r') ≤ _
      omega
    unfold Tally.total
    omega
  · simp [Ledger.putUsage]

theorem Tally.Kept.of_settle {now : Nat} {outcome : String} {c late : Bool} (hs : l.Sound)
    (hr : r ∈ l.reservations) (hfair : FairCharge r usage accounting)
    (h : l.settle (settleReservation now r usage outcome c late) = .ok l') : t.Kept l l' := by
  obtain ⟨hl', hnil⟩ := settle_eq_ok h
  have hopen : r.status = .reserved := by
    have hkept := hs.kept r hr
    rw [hnil r.id rfl] at hkept
    cases hkept with
    | unsettled open? => exact open?.resolve_right hfair.opened
  have hclosed : t.hold (settleReservation now r usage outcome c late).1 = 0 := by
    apply Tally.hold_of_closed
    simp only [settleReservation]
    split <;> simp
  have hheld : t.held l' + t.hold r = t.held l + 0 := by
    rw [← hclosed, ← t.held_putReservation (settleReservation now r usage outcome c late).1 hs hr rfl, hl']
    rfl
  have hspent : t.spent l' = t.spent l +
      t.weight { (settleReservation now r usage outcome c late).2 with id := l.usageRecords.length } := by
    simp [Tally.spent, hl']
  have hweight := hfair.weight_le t now outcome c late l.usageRecords.length hopen
  have hlen : l'.usageRecords.length = l.usageRecords.length + 1 := by simp [hl']
  refine ⟨?_, by omega, by omega⟩
  unfold Tally.total
  omega

theorem Move.tally (t : Tally) (hs : l.Sound) (hr : r ∈ l.reservations)
    (hfair : ∀ usage a, may r usage a → FairCharge r usage a) (h : Move may l r l') : t.Kept l l' := by
  cases h with
  | release _ =>
    have hheld := t.held_putReservation { r with status := .released } hs hr rfl
    rw [Tally.hold_released] at hheld
    refine ⟨?_, Nat.le_refl _, fun _ => Nat.le_refl _⟩
    show t.spent l + t.held (l.putReservation { r with status := .released }) ≤ t.spent l + t.held l
    omega
  | @charge accounting _ now usage outcome c late allowed settles =>
    have hcharge := hfair usage accounting allowed
    rw [applyAccounting_of_none hcharge.owner] at settles
    exact .of_settle hs hr hcharge settles
  | @replace u usage outcome allowed closed record unknown =>
    have hcharge := hfair (some usage) none allowed
    have hkept := hs.kept r hr
    rw [hs.recordsOf_eq hr record] at hkept
    refine .of_put hs hr ?_ ?_ (usageOf?_eq_some record).1 rfl
      (hcharge.replaced_le (hkept.of_unknown unknown).2 rfl rfl rfl)
    · split <;> rfl
    · split
      · exact Nat.zero_le _
      · exact Nat.le_refl _
  | unsend record _ =>
    refine .of_put hs hr rfl (Nat.zero_le _) (usageOf?_eq_some record).1 rfl ?_
    unfold Tally.weight
    split <;> simp

theorem Moves.tally (t : Tally) (hs : l.Sound) (hfair : ∀ r usage a, may r usage a → FairCharge r usage a)
    (h : Moves may l l') : t.Kept l l' := by
  induction h with
  | refl => exact ⟨Nat.le_refl _, Nat.le_refl _, fun _ => Nat.le_refl _⟩
  | @tail l1 l2 hmoves hstep ih =>
    obtain ⟨r, hr, hmove⟩ := hstep
    have hlast := hmove.tally t (Moves.sound hs hmoves) hr (hfair r)
    refine ⟨hlast.total.trans ih.total, ih.length.trans hlast.length, fun hlen => ?_⟩
    have h1 := ih.length
    have h2 := hlast.length
    exact (hlast.spent (by omega)).trans (ih.spent (by omega))

end

/-! ### The gates -/

section
variable {g : Registry} {q : ReserveRequest} {a : Answers}

theorem require_eq_ok {ok : Bool} {e : LedgerError} {u : Unit} : require ok e = .ok u ↔ ok = true := by
  cases ok <;> simp [require]

theorem enforceDaily_ok (h : enforceDaily q a = .ok ()) :
    (a.dailyUsage.getD {}).costUnits + (a.dailyReserved.getD {}).costUnits + q.estimate.costUnits ≤
      q.limits.dailyCostUnits := by
  obtain ⟨_, hcost, -⟩ := bind_eq_ok.mp h
  exact of_decide_eq_true (require_eq_ok.mp hcost)

theorem enforceLifetime_ok {cap : Nat} (h : enforceLifetime g q a = .ok ()) (hcap : q.maxCost g = some cap) :
    a.goalSpent.getD 0 + a.goalReserved.getD 0 + q.estimate.costUnits ≤ cap := by
  simp only [enforceLifetime, hcap] at h
  obtain ⟨_, hcost, -⟩ := bind_eq_ok.mp h
  exact of_decide_eq_true (require_eq_ok.mp hcost)

theorem gates_ok (h : gates g q a = .ok ()) : enforceDaily q a = .ok () ∧ enforceLifetime g q a = .ok () := by
  unfold gates at h
  split at h
  · simp only [workflowGates, bind_eq_ok] at h
    obtain ⟨-, -, -, -, -, -, -, -, -, -, -, -, -, -, -, -, _, hdaily, _, hlifetime, -⟩ := h
    exact ⟨hdaily, hlifetime⟩
  · simp only [invocationGates, bind_eq_ok] at h
    obtain ⟨-, -, _, hdaily, -, -, _, hlifetime, -⟩ := h
    exact ⟨hdaily, hlifetime⟩

end

/-! ### Runs -/

def Settlement.WithinReserve (op : Settlement) (l : Ledger) : Prop :=
  ∀ r usage a c, op.charges l r usage a → usage.bind (·.costUnits) = some c → c ≤ r.reserved.costUnits

def Settlement.accounting : Settlement → Option AccountingContext
  | .reconcileUsage _ _ receipt | .recordLateReceipt _ receipt => receipt.accounting
  | .closeStepReservations _ _ _ accounting => accounting
  | _ => none

def Settlement.Reopens (op : Settlement) (l : Ledger) : Prop :=
  match op with
  | .reconcileUsage id _ _ => ∃ r ∈ l.reservations, r.id = id ∧ r.status = .released
  | _ => False

def Settlement.WritesUsage (op : Settlement) (f : Surroundings) (l : Ledger) : Prop :=
  ∃ l', op.perform f l = .ok l' ∧ l.usageRecords.length < l'.usageRecords.length

def Reserving.hasRead (r : Reserving) : Bool := r.answers.dailyUsage.isSome || r.answers.goalSpent.isSome

def Reserving.betweenReads (r : Reserving) : Bool :=
  (r.answers.dailyUsage.isSome && r.answers.dailyReserved.isNone) ||
    (r.answers.goalSpent.isSome && r.answers.goalReserved.isNone)

def Statement.Fair (db : Database) : Statement → Prop
  | .settle _ op => op.WithinReserve db.ledger
  | _ => True

/-- No usage record is committed between the two reads of a total, and no released reservation is charged
    between a read and the commit. The owner of a reservation stays the one it was reserved for. -/
def Statement.Undisturbed (db : Database) (x : Statement) : Prop :=
  x.Fair db ∧ match x with
  | .settle f op => op.accounting.bind (·.horizonId) = none ∧ ∀ r, db.reserving = some r →
      (r.hasRead = true → ¬op.Reopens db.ledger) ∧ (r.betweenReads = true → ¬op.WritesUsage f db.ledger)
  | _ => True

structure WithinCaps (g : Registry) (q : ReserveRequest) (l : Ledger) : Prop where
  daily : (l.dailyUsageTotals (dayStart q.now)).costUnits + (l.reservedTotals none none none).costUnits ≤
    q.limits.dailyCostUnits
  lifetime : ∀ cap, q.maxCost g = some cap → l.goalSpent (q.scopes g) + l.goalReserved (q.scopes g) ≤ cap

def Track (t : Tally) (l : Ledger) : Option Nat → Option Nat → Prop
  | none, _ => True
  | some spent, none => t.spent l ≤ spent
  | some spent, some held => t.total l ≤ spent + held

def Ordered (ahead : List Query) : Prop :=
  ahead.Nodup ∧ ∀ tail ∈ ahead.tails,
    (Query.dailyUsage ∈ tail → Query.dailyReserved ∈ tail) ∧ (Query.goalSpent ∈ tail → Query.goalReserved ∈ tail)

structure Reading (g : Registry) (l : Ledger) (r : Reserving) : Prop where
  ordered : Ordered r.ahead
  dailyPending : .dailyReserved ∈ r.ahead → r.answers.dailyReserved = none
  goalPending : .goalReserved ∈ r.ahead → r.answers.goalReserved = none
  dailyUsage : r.answers.dailyUsage = none → .dailyUsage ∈ r.ahead
  dailyReserved : r.answers.dailyReserved = none → .dailyReserved ∈ r.ahead
  goalSpent : r.answers.goalSpent = none → (r.request.maxCost g).isSome → .goalSpent ∈ r.ahead
  goalReserved : r.answers.goalReserved = none → (r.request.maxCost g).isSome → .goalReserved ∈ r.ahead
  daily : Track (Tally.daily (dayStart r.request.now)) l (r.answers.dailyUsage.map (·.costUnits))
    (r.answers.dailyReserved.map (·.costUnits))
  lifetime : Track (Tally.lifetime (r.request.scopes g)) l r.answers.goalSpent r.answers.goalReserved

structure Database.Tracked (g : Registry) (db : Database) : Prop where
  sound : db.ledger.Sound
  reading : ∀ r, db.reserving = some r → Reading g db.ledger r

section
variable {g : Registry} {db db' : Database} {l l' : Ledger} {r : Reserving} {q : ReserveRequest} {t : Tally}
  {s o : Option Nat} {ahead : List Query}

theorem Ordered.tail {x : Query} (h : Ordered (x :: ahead)) : Ordered ahead := by
  refine ⟨(List.nodup_cons.mp h.1).2, fun tail htail => h.2 tail ?_⟩
  rw [List.mem_tails] at htail ⊢
  exact htail.trans (List.suffix_cons x ahead)

theorem ordered_queries : Ordered (q.queries g) := by
  unfold ReserveRequest.queries ReserveRequest.lifetimeQueries ReserveRequest.explicitQueries
  split <;> (repeat' split) <;> (unfold Ordered; decide)

theorem Ordered.head_daily (h : Ordered (.dailyUsage :: ahead)) : Query.dailyReserved ∈ ahead := by
  have hmem := (h.2 _ ((List.mem_tails _ _).mpr List.suffix_rfl)).1 List.mem_cons_self
  simpa using hmem

theorem Ordered.head_goal (h : Ordered (.goalSpent :: ahead)) : Query.goalReserved ∈ ahead := by
  have hmem := (h.2 _ ((List.mem_tails _ _).mpr List.suffix_rfl)).2 List.mem_cons_self
  simpa using hmem

/-! ### The statements of a reservation -/

theorem ask_dailyUsage {a : Answers} (x : Query) : (q.ask g l a x).dailyUsage =
    if x = .dailyUsage then some (l.dailyUsageTotals (dayStart q.now)) else a.dailyUsage := by
  cases x <;> rfl

theorem ask_dailyReserved {a : Answers} (x : Query) : (q.ask g l a x).dailyReserved =
    if x = .dailyReserved then some (l.reservedTotals none none none) else a.dailyReserved := by
  cases x <;> rfl

theorem ask_goalSpent {a : Answers} (x : Query) : (q.ask g l a x).goalSpent =
    if x = .goalSpent then some (l.goalSpent (q.scopes g)) else a.goalSpent := by
  cases x <;> rfl

theorem ask_goalReserved {a : Answers} (x : Query) : (q.ask g l a x).goalReserved =
    if x = .goalReserved then some (l.goalReserved (q.scopes g)) else a.goalReserved := by
  cases x <;> rfl

theorem Track.complete (h : Track t l s none) : Track t l s (some (t.held l)) := by
  cases s with
  | none => trivial
  | some s =>
    show t.total l ≤ s + t.held l
    have hspent : t.spent l ≤ s := h
    unfold Tally.total
    omega

theorem reading_locked : Reading g l { request := q, ahead := q.queries g } where
  ordered := ordered_queries
  dailyPending _ := rfl
  goalPending _ := rfl
  dailyUsage _ := by
    unfold ReserveRequest.queries
    split <;> simp
  dailyReserved _ := by
    unfold ReserveRequest.queries
    split <;> simp
  goalSpent _ hcap := by
    have hlifetime : Query.goalSpent ∈ q.lifetimeQueries g := by simp [ReserveRequest.lifetimeQueries, hcap]
    unfold ReserveRequest.queries
    split <;> simp [hlifetime]
  goalReserved _ hcap := by
    have hlifetime : Query.goalReserved ∈ q.lifetimeQueries g := by simp [ReserveRequest.lifetimeQueries, hcap]
    unfold ReserveRequest.queries
    split <;> simp [hlifetime]
  daily := trivial
  lifetime := trivial

theorem Reading.query {x : Query} {a : Answers} (h : Reading g l { request := q, ahead := x :: ahead, answers := a }) :
    Reading g l { request := q, ahead, answers := q.ask g l a x } := by
  have hnot := (List.nodup_cons.mp h.ordered.1).1
  have hne : ∀ y ∈ ahead, x ≠ y := fun y hy hxy => hnot (hxy ▸ hy)
  have hleft : ∀ {y : Query}, y ∈ x :: ahead → x ≠ y → y ∈ ahead := fun hy hxy =>
    (List.mem_cons.mp hy).resolve_left fun heq => hxy heq.symm
  exact
    { ordered := h.ordered.tail
      dailyPending := fun hy => by
        simp only [ask_dailyReserved, hne _ hy, if_false]
        exact h.dailyPending (List.mem_cons_of_mem _ hy)
      goalPending := fun hy => by
        simp only [ask_goalReserved, hne _ hy, if_false]
        exact h.goalPending (List.mem_cons_of_mem _ hy)
      dailyUsage := fun hnone => by
        simp only [ask_dailyUsage] at hnone
        split at hnone
        · cases hnone
        · exact hleft (h.dailyUsage hnone) ‹_›
      dailyReserved := fun hnone => by
        simp only [ask_dailyReserved] at hnone
        split at hnone
        · cases hnone
        · exact hleft (h.dailyReserved hnone) ‹_›
      goalSpent := fun hnone hcap => by
        simp only [ask_goalSpent] at hnone
        split at hnone
        · cases hnone
        · exact hleft (h.goalSpent hnone hcap) ‹_›
      goalReserved := fun hnone hcap => by
        simp only [ask_goalReserved] at hnone
        split at hnone
        · cases hnone
        · exact hleft (h.goalReserved hnone hcap) ‹_›
      daily := by
        have hdaily := h.daily
        simp only [ask_dailyUsage, ask_dailyReserved] at hdaily ⊢
        by_cases hu : x = .dailyUsage
        · subst hu
          -- The outstanding total is still ahead.
          have hpending := h.dailyPending (List.mem_cons_of_mem _ h.ordered.head_daily)
          simp only at hpending
          simp [hpending, Track, dailyUsage_eq]
        · by_cases ho : x = .dailyReserved
          · subst ho
            have hpending := h.dailyPending List.mem_cons_self
            simp only at hpending
            simp only [hpending, Option.map_none] at hdaily
            simpa [dailyReserved_eq (dayStart q.now)] using hdaily.complete
          · simpa [hu, ho] using hdaily
      lifetime := by
        have hlifetime := h.lifetime
        simp only [ask_goalSpent, ask_goalReserved] at hlifetime ⊢
        by_cases hu : x = .goalSpent
        · subst hu
          have hpending := h.goalPending (List.mem_cons_of_mem _ h.ordered.head_goal)
          simp only at hpending
          simp [hpending, Track, goalSpent_eq]
        · by_cases ho : x = .goalReserved
          · subst ho
            have hpending := h.goalPending List.mem_cons_self
            simp only at hpending
            simp only [hpending] at hlifetime
            simpa [goalReserved_eq] using hlifetime.complete
          · simpa [hu, ho] using hlifetime }

/-! ### What else commits -/

theorem Settlement.fair {op : Settlement} (hreserve : op.WithinReserve l)
    (howner : op.accounting.bind (·.horizonId) = none) (hreopens : ¬op.Reopens l) :
    ∀ r usage a, op.charges l r usage a → FairCharge r usage a := by
  intro r usage a hcharges
  refine ⟨fun c => hreserve r usage a c hcharges, ?_, ?_⟩
  · cases op with
    | settleInvocationBudget id profile receipt => rw [hcharges.2.2.2.2]; rfl
    | reconcileUsage id token receipt => rw [hcharges.2.2.2]; exact howner
    | recordLateReceipt id receipt => rw [hcharges.2.2.2.2]; exact howner
    | closeStepReservations stepId outcome release accounting => rw [hcharges.2.2.2]; exact howner
    | releaseOrphanReservations olderThanSeconds batchSize => rw [hcharges.2.2.2]; rfl
    | releaseUnsentInvocation id => exact hcharges.2.elim
    | releaseReservation id token => exact hcharges.2.elim
    | releaseReservationUnfenced id => exact hcharges.2.elim
  · intro hreleased
    cases op with
    | settleInvocationBudget id profile receipt => exact hcharges.2.2.1 hreleased
    | reconcileUsage id token receipt => exact hreopens ⟨r, hcharges.1, hcharges.2.1, hreleased⟩
    | recordLateReceipt id receipt => exact hcharges.2.2.1 hreleased
    | closeStepReservations stepId outcome release accounting => rw [hcharges.2.1] at hreleased; cases hreleased
    | releaseOrphanReservations olderThanSeconds batchSize => rw [hcharges.2.1] at hreleased; cases hreleased
    | releaseUnsentInvocation id => exact hcharges.2
    | releaseReservation id token => exact hcharges.2
    | releaseReservationUnfenced id => exact hcharges.2

theorem Track.kept (hkept : s.isSome → t.Kept l l')
    (hlen : s.isSome → o.isNone → l'.usageRecords.length = l.usageRecords.length) (h : Track t l s o) :
    Track t l' s o := by
  match s, o with
  | none, _ => trivial
  | some spent, none => exact ((hkept rfl).spent (hlen rfl rfl)).trans h
  | some spent, some held => exact (hkept rfl).total.trans h

theorem Reading.settle {f : Surroundings} {op : Settlement} (hs : l.Sound) (h : Reading g l r)
    (hreserve : op.WithinReserve l) (howner : op.accounting.bind (·.horizonId) = none)
    (hreopens : r.hasRead = true → ¬op.Reopens l) (hwrites : r.betweenReads = true → ¬op.WritesUsage f l)
    (hop : op.perform f l = .ok l') : Reading g l' r := by
  have hkept : ∀ t : Tally, r.hasRead = true → t.Kept l l' := fun t hread =>
    (Settlement.perform_moves hs hop).tally t hs (Settlement.fair hreserve howner (hreopens hread))
  have hlen : r.betweenReads = true → l'.usageRecords.length = l.usageRecords.length := by
    intro hbetween
    have hread : r.hasRead = true := by
      simp only [Reserving.betweenReads, Reserving.hasRead, Bool.or_eq_true, Bool.and_eq_true] at hbetween ⊢
      exact hbetween.imp And.left And.left
    have hle := (hkept (Tally.daily 0) hread).length
    by_contra hne
    exact hwrites hbetween ⟨l', hop, by omega⟩
  refine { h with daily := h.daily.kept ?_ ?_, lifetime := h.lifetime.kept ?_ ?_ }
  · intro hsome
    exact hkept _ (by simp_all [Reserving.hasRead])
  · intro hsome hnone
    exact hlen (by simp_all [Reserving.betweenReads])
  · intro hsome
    exact hkept _ (by simp_all [Reserving.hasRead])
  · intro hsome hnone
    exact hlen (by simp_all [Reserving.betweenReads])

theorem Database.Tracked.perform {x : Statement} (h : db.Tracked g) (hx : x.Undisturbed db)
    (hstep : db.perform g x = .ok db') : db'.Tracked g := by
  cases x with
  | lock q =>
    simp only [Database.perform] at hstep
    split at hstep
    · cases hstep
      refine ⟨h.sound, fun r hr => ?_⟩
      cases hr
      exact reading_locked
    · cases hstep
  | query =>
    simp only [Database.perform] at hstep
    split at hstep
    · rename_i request x ahead answers hreserving
      cases hstep
      refine ⟨h.sound, fun r hr => ?_⟩
      cases hr
      exact (h.reading _ hreserving).query
    · cases hstep
  | commit =>
    simp only [Database.perform] at hstep
    split at hstep
    · obtain ⟨l, hl, hdb⟩ := bind_eq_ok.mp hstep
      cases hdb
      exact ⟨conclude_sound h.sound hl, fun r hr => by cases hr⟩
    · cases hstep
  | rollback =>
    cases hstep
    exact ⟨h.sound, fun r hr => by cases hr⟩
  | settle f op =>
    obtain ⟨l, hl, hdb⟩ := bind_eq_ok.mp hstep
    cases hdb
    obtain ⟨hreserve, howner, hquiet⟩ := hx
    refine ⟨(Settlement.perform_moves h.sound hl).sound h.sound, fun r hr => ?_⟩
    exact (h.reading r hr).settle h.sound hreserve howner (hquiet r hr).1 (hquiet r hr).2 hl

/-! ### Admission -/

theorem Tally.total_addReservation {x : ProviderBudgetReservation} (t : Tally) (h : l.addReservation x = .ok l') :
    t.total l' ≤ t.total l + x.reserved.costUnits := by
  obtain ⟨-, -, rfl⟩ := addReservation_eq_ok h
  have hhold : t.hold { x with id := l.reservations.length } ≤ x.reserved.costUnits := by
    unfold Tally.hold
    split <;> simp
  simp only [Tally.total, Tally.spent, Tally.held, List.map_append, List.map_cons, List.map_nil, List.sum_append,
    List.sum_cons, List.sum_nil]
  omega

theorem Reading.withinCaps {a : Answers} (h : Reading g l { request := q, ahead := [], answers := a })
    (hnew : l.reservations.length < l'.reservations.length) (hok : conclude g l q a = .ok l') : WithinCaps g q l' := by
  unfold conclude at hok
  split at hok
  · cases hok
    omega
  · obtain ⟨_, hgates, hadd⟩ := bind_eq_ok.mp hok
    obtain ⟨hdaily, hlifetime⟩ := gates_ok hgates
    refine ⟨?_, fun cap hcap => ?_⟩
    · obtain ⟨u, hu⟩ := Option.ne_none_iff_exists'.mp fun hnone => List.not_mem_nil (h.dailyUsage hnone)
      obtain ⟨o, ho⟩ := Option.ne_none_iff_exists'.mp fun hnone => List.not_mem_nil (h.dailyReserved hnone)
      have htrack := h.daily
      have hcost := enforceDaily_ok hdaily
      have htotal := (Tally.daily (dayStart q.now)).total_addReservation hadd
      simp only at hu ho
      simp only [hu, ho, Option.map_some, Track, Option.getD_some] at htrack hcost
      rw [dailyUsage_eq, dailyReserved_eq (dayStart q.now)]
      unfold Tally.total at *
      have hest : (q.row g a).reserved.costUnits = q.estimate.costUnits := rfl
      omega
    · have hsome : (q.maxCost g).isSome := by rw [hcap]; rfl
      obtain ⟨u, hu⟩ := Option.ne_none_iff_exists'.mp fun hnone => List.not_mem_nil (h.goalSpent hnone hsome)
      obtain ⟨o, ho⟩ := Option.ne_none_iff_exists'.mp fun hnone => List.not_mem_nil (h.goalReserved hnone hsome)
      have htrack := h.lifetime
      have hcost := enforceLifetime_ok hlifetime hcap
      have htotal := (Tally.lifetime (q.scopes g)).total_addReservation hadd
      simp only at hu ho
      simp only [hu, ho, Track, Option.getD_some] at htrack hcost
      rw [goalSpent_eq, goalReserved_eq]
      unfold Tally.total at *
      have hest : (q.row g a).reserved.costUnits = q.estimate.costUnits := rfl
      omega

/-- In a run that nothing disturbs, an admitted call keeps the daily and the lifetime cap at its commit. -/
theorem admitted_within_caps (hs : l.Sound)
    (hrun : Reach (Database.perform g) (fun db x => x.Undisturbed db) { ledger := l } db)
    (hr : db.reserving = some r) (hcommit : db.perform g .commit = .ok db')
    (hnew : db.ledger.reservations.length < db'.ledger.reservations.length) : WithinCaps g r.request db'.ledger := by
  have htracked : db.Tracked g := hrun.invariant ⟨hs, fun _ hr => by cases hr⟩ Database.Tracked.perform
  have hreading := htracked.reading r hr
  obtain ⟨request, ahead, answers⟩ := r
  simp only [Database.perform, hr] at hcommit
  cases ahead with
  | cons x ahead => cases hcommit
  | nil =>
    obtain ⟨l', hok, hdb⟩ := bind_eq_ok.mp hcommit
    cases hdb
    exact hreading.withinCaps hnew hok

end

/-! ### Two calls of two tasks -/

def twoTasks : Registry := { tasks := [{ id := 1 }, { id := 2 }] }

def firstCall : Ledger :=
  { reservations := [{ id := 0, taskId := some 1, stepId := some 7, reserved := { costUnits := 10 } }] }

/-- The second call asks for as much, under a daily cap. -/
def secondCall (cap : Nat) : ReserveRequest where
  entry := .workflow (some 8) none 1 false
  taskId := some 2
  estimate := { costUnits := 10 }
  limits := { dailyCostUnits := cap }

theorem firstCall_sound : firstCall.Sound :=
  Ledger.sound_empty.addReservation
    (r := { id := 0, taskId := some 1, stepId := some 7, reserved := { costUnits := 10 } }) rfl rfl

def Database.admits (g : Registry) (q : ReserveRequest) (db : Database) : Bool :=
  db.reserving.any (·.request == q) &&
    ends (fun db' => db.ledger.reservations.length < db'.ledger.reservations.length) (db.perform g .commit)

theorem Database.exists_of_admits {g : Registry} {q : ReserveRequest} {db : Database} (h : db.admits g q = true) :
    ∃ r db', db.reserving = some r ∧ r.request = q ∧ db.perform g .commit = .ok db' ∧
      db.ledger.reservations.length < db'.ledger.reservations.length := by
  unfold Database.admits at h
  rw [Bool.and_eq_true, Option.any_eq_true] at h
  obtain ⟨⟨r, hr, hq⟩, hends⟩ := h
  obtain ⟨db', hcommit, hnew⟩ := exists_of_ends hends
  exact ⟨r, db', hr, by simpa using hq, hcommit, of_decide_eq_true hnew⟩

/-- A cap that fits both calls admits the second one. -/
theorem admitted_within_caps_second : ∃ db db',
    runOps (Database.perform twoTasks) { ledger := firstCall } (.lock (secondCall 20) :: List.replicate 9 .query) =
      .ok db ∧ db.perform twoTasks .commit = .ok db' ∧ WithinCaps twoTasks (secondCall 20) db'.ledger := by
  obtain ⟨db, hrun, hadmits⟩ := exists_of_ends (p := Database.admits twoTasks (secondCall 20))
    (r := runOps (Database.perform twoTasks) { ledger := firstCall } (.lock (secondCall 20) :: List.replicate 9 .query))
    (by decide)
  obtain ⟨r, db', hr, hq, hcommit, hnew⟩ := Database.exists_of_admits hadmits
  refine ⟨db, db', hrun, hcommit, hq ▸ admitted_within_caps firstCall_sound (reach_of_runOps ?_ hrun) hr hcommit hnew⟩
  intro x hx db
  rcases List.mem_cons.mp hx with rfl | hx
  · exact ⟨trivial, trivial⟩
  · rw [List.eq_of_mem_replicate hx]
    exact ⟨trivial, trivial⟩

/-- The first call is cancelled after the second one has read what is settled and before it reads what is
    outstanding: its cost is in neither total, and twice the cap is admitted. -/
theorem settled_between_reads_exceeds_cap : ∃ db db' r,
    Reach (Database.perform twoTasks) (fun db x => x.Fair db) { ledger := firstCall } db ∧ db.reserving = some r ∧
    db.perform twoTasks .commit = .ok db' ∧ db.ledger.reservations.length < db'.ledger.reservations.length ∧
    ¬WithinCaps twoTasks r.request db'.ledger := by
  obtain ⟨db, hrun, hcheck⟩ := exists_of_ends
    (p := fun db => db.admits twoTasks (secondCall 10) &&
      !ends (fun db' => ((db'.ledger.dailyUsageTotals 0).costUnits + (db'.ledger.reservedTotals none none none).costUnits ≤ 10))
        (db.perform twoTasks .commit))
    (r := runOps (Database.perform twoTasks) { ledger := firstCall }
      ([.lock (secondCall 10), .query, .query, .query, .query,
        .settle {} (.closeStepReservations 7 "cancelled" false none)] ++ List.replicate 5 .query)) (by decide)
  rw [Bool.and_eq_true] at hcheck
  obtain ⟨r, db', hr, hq, hcommit, hnew⟩ := Database.exists_of_admits hcheck.1
  refine ⟨db, db', r, reach_of_runOps ?_ hrun, hr, hcommit, hnew, fun hcaps => ?_⟩
  · intro x hx db
    simp only [List.cons_append, List.nil_append, List.mem_cons] at hx
    rcases hx with rfl | rfl | rfl | rfl | rfl | rfl | hx
    · trivial
    · trivial
    · trivial
    · trivial
    · trivial
    · -- The charge of a cancelled call measures nothing.
      intro r usage a c hcharges hcost
      rw [hcharges.2.2.1] at hcost
      cases hcost
    · rw [List.eq_of_mem_replicate hx]
      trivial
  · have hdaily := hcaps.daily
    rw [hq] at hdaily
    have hexceeds := hcheck.2
    rw [hcommit] at hexceeds
    have hle : (db'.ledger.dailyUsageTotals 0).costUnits + (db'.ledger.reservedTotals none none none).costUnits ≤ 10 :=
      hdaily
    simp [ends, hle] at hexceeds

end Vuzol.Providers
