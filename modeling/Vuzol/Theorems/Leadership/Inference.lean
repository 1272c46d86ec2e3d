import Vuzol.Leadership.Inference
import Vuzol.Theorems.Providers.Ledger

/-! A paid model call is sent at most once: the reservation of its invocation, which no transaction takes back, is
    made before the send and at most once, and the row of its slot is made with it. A result is returned after
    the reservation is settled only. -/

namespace Vuzol.Leadership

open Vuzol.Providers (Ledger LedgerError LedgerOp NormalizedUsage ProviderBudgetReservation ProviderProfile Registry
  ReserveRequest)

variable {s t : Lead} {q : InvokeRequest} {c : Call} {l l' : Ledger} {more rows rows' : List LeadershipInference}
  {x : LeadershipInference} {r : Receipted} {id reservationId : Nat}

/-! ### Calls -/

def Call.active (id : Nat) (c : Call) : Bool :=
  c.request.taskId = id &&
    match c.stage with
    | .reserved _ | .answered _ _ => true
    | _ => false

def Call.unsent (id : Nat) (c : Call) : Bool :=
  c.request.taskId = id &&
    match c.stage with
    | .reserved _ => true
    | _ => false

def Call.reservation? (c : Call) : Option Nat :=
  match c.stage with
  | .reserved reservationId | .answered reservationId _ => some reservationId
  | _ => none

theorem Call.active_iff : c.active id = true ↔ c.request.taskId = id ∧ c.reservation?.isSome = true := by
  cases hs : c.stage <;> simp [Call.active, Call.reservation?, hs]

theorem countP_erase {calls : List Call} {p : Call → Bool} (hc : c ∈ calls) :
    calls.countP p = (calls.erase c).countP p + if p c then 1 else 0 := by
  rw [(List.perm_cons_erase hc).countP_eq, List.countP_cons]

theorem countP_leave_le {p : Call → Bool} : (s.leave c).calls.countP p ≤ s.calls.countP p :=
  List.Sublist.countP_le List.erase_sublist

/-! ### The second transaction -/

theorem settleCall_ok {now : Nat} {stored : ProviderBudgetReservation} (hs : l.Sound) (hr : stored ∈ l.reservations)
    (h : settleCall l now stored.id q r = .ok l') :
    l'.Sound ∧ l.Follows l' ∧ ∃ r' ∈ l'.reservations, r'.id = stored.id ∧ r'.status ≠ .reserved := by
  unfold settleCall at h
  simp only [hs.reservation? hr] at h
  split at h
  · have hm : Providers.Moves (fun _ _ _ => True) l l' := Providers.releaseUnsentInvocation_moves h
    exact ⟨hm.sound hs, hm.follows hs, Providers.releaseUnsentInvocation_closes hs hr h⟩
  · split at h
    · have hm := Providers.settleInvocationBudget_moves hs h
      exact ⟨hm.sound hs, hm.follows hs, Providers.settleInvocationBudget_closes hs hr h⟩
    · rename_i hclosed
      split at h
      · cases h
        exact ⟨hs, .refl, stored, hr, rfl, hclosed⟩
      · have hm := Providers.settleInvocationBudget_moves hs h
        exact ⟨hm.sound hs, hm.follows hs, Providers.settleInvocationBudget_closes hs hr h⟩

theorem finishCall_ok {now : Nat} (h : finishCall l rows now reservationId q r = .ok (l', rows')) :
    settleCall l now reservationId q r = .ok l' ∧
      (rows' = rows ∨ q.slot ≠ none ∧
        ∃ x, rows.find? (·.id = q.taskId) = some x ∧ rows' = Lib.put (·.id) (x.receive r) rows) := by
  obtain ⟨l1, hl, h⟩ := Lib.bind_eq_ok.mp h
  split at h
  · cases h
    exact ⟨hl, .inl rfl⟩
  · rename_i hsome
    split at h
    · cases h
    · rename_i x hx
      cases h
      refine ⟨hl, .inr ⟨?_, x, hx, rfl⟩⟩
      simpa [InvokeRequest.slot] using hsome

variable {g : Registry}

theorem answers_existing {p : ReserveRequest} {queries : List Providers.Query} {a : Providers.Answers}
    (hp : p.existing? l = none) (ha : a.existing = none) : (queries.foldl (p.ask g l) a).existing = none := by
  induction queries generalizing a with
  | nil => exact ha
  | cons query queries ih =>
    refine ih ?_
    cases query <;> first | exact hp | exact ha

theorem reserve_invocation_ok {p : ReserveRequest} {enforce : Bool} (hp : p.entry = .invocation id enforce)
    (hfresh : ∀ y ∈ l.reservations, y.invocationId ≠ some id) (h : Providers.reserve g l p = .ok l') :
    ∃ y ∈ l'.reservations, y.id = l.reservations.length ∧ y.invocationId = some id := by
  have hexisting : p.existing? l = none := by
    simp only [ReserveRequest.existing?, ReserveRequest.stepId, ReserveRequest.invocationId, hp]
    rw [List.find?_eq_none]
    intro y hy hfound
    simp only [Bool.and_eq_true, beq_iff_eq] at hfound
    exact hfresh y hy hfound.2
  unfold Providers.reserve Providers.conclude at h
  rw [if_neg (by rw [answers_existing hexisting rfl]; decide)] at h
  obtain ⟨-, -, hadd⟩ := Lib.bind_eq_ok.mp h
  obtain ⟨-, -, rfl⟩ := Providers.addReservation_eq_ok hadd
  refine ⟨_, List.mem_append_right _ (List.mem_singleton_self _), rfl, ?_⟩
  simp only [ReserveRequest.row, ReserveRequest.invocationId, hp]

theorem addInference_ok (h : addInference rows x = .ok rows') :
    rows' = rows ++ [x] ∧ ∀ y ∈ rows, y.id ≠ x.id ∧ y.slot ≠ x.slot := by
  unfold addInference at h
  obtain ⟨hid, h⟩ := Lib.guard_eq_ok.mp h
  obtain ⟨hslot, h⟩ := Lib.guard_eq_ok.mp h
  cases h
  simp only [List.any_eq_true, decide_eq_true_eq, not_exists, not_and] at hid hslot
  exact ⟨rfl, fun y hy => ⟨hid y hy, hslot y hy⟩⟩

structure Intends (q : InvokeRequest) (reservationId : Nat) (x : LeadershipInference) : Prop where
  id : x.id = q.taskId
  slot : q.slot = some x.slot
  reservationId : x.reservationId = reservationId
  state : x.state = .sending

/-- The first transaction: the invocation has no reservation, and gets one together with its row. -/
theorem reserveCall_ok {slotsFree : Bool} (hs : l.Sound)
    (h : reserveCall g l rows q slotsFree = .ok (l', rows', reservationId)) :
    (∀ y ∈ l.reservations, y.invocationId ≠ some q.taskId) ∧ l'.Sound ∧ l.Follows l' ∧
      (∃ y ∈ l'.reservations, y.id = reservationId ∧ y.invocationId = some q.taskId) ∧
      (q.slot = none ∧ rows' = rows ∨ ∃ x, Intends q reservationId x ∧ rows' = rows ++ [x] ∧
        ∀ y ∈ rows, y.id ≠ x.id ∧ y.slot ≠ x.slot) := by
  unfold reserveCall at h
  obtain ⟨hfresh, h⟩ := Lib.guard_eq_ok.mp h
  simp only [List.any_eq_true, decide_eq_true_eq, not_exists, not_and] at hfresh
  obtain ⟨-, h⟩ := Lib.guard_eq_ok.mp h
  split at h
  · cases h
  · rename_i l1 hreserve
    have hnew := reserve_invocation_ok rfl hfresh hreserve
    have hsound := Providers.conclude_sound hs hreserve
    have hfollows := Providers.conclude_follows hreserve
    split at h
    · rename_i hturn
      cases h
      exact ⟨hfresh, hsound, hfollows, hnew, .inl ⟨by simp [InvokeRequest.slot, hturn], rfl⟩⟩
    · rename_i turnId hturn
      obtain ⟨rows1, hrows, h⟩ := Lib.bind_eq_ok.mp h
      cases h
      obtain ⟨hrows, hunique⟩ := addInference_ok hrows
      refine ⟨hfresh, hsound, hfollows, hnew, .inr ⟨_, ⟨rfl, ?_, rfl, rfl⟩, hrows, hunique⟩⟩
      simp [InvokeRequest.slot, hturn, LeadershipInference.slot]

/-! ### The invariant -/

def Reserved (l : Ledger) (id : Nat) : Prop := ∃ y ∈ l.reservations, y.invocationId = some id

def Backed (l : Ledger) (rows : List LeadershipInference) (c : Call) : Prop :=
  ∀ reservationId, c.reservation? = some reservationId →
    (∃ y ∈ l.reservations, y.id = reservationId ∧ y.invocationId = some c.request.taskId) ∧
      (c.request.slot ≠ none → ∃ x ∈ rows, Intends c.request reservationId x)

def Placed (l : Ledger) (rows : List LeadershipInference) (q : InvokeRequest) : Prop :=
  Reserved l q.taskId ∧ (q.slot ≠ none → ∃ x ∈ rows, x.id = q.taskId ∧ q.slot = some x.slot)

/-- A row is of its reservation, which is closed when its receipt has come, and a request that was not sent has no
    result but a failure. -/
structure RowSettled (l : Ledger) (x : LeadershipInference) : Prop where
  reservation : ∃ y ∈ l.reservations, y.id = x.reservationId ∧ y.invocationId = some x.id ∧
    (x.state ≠ .sending → y.status ≠ .reserved)
  notSent : x.state = .notSent → ∀ result, x.result = some result → result.status = .failed

structure ReturnSound (l : Ledger) (rows : List LeadershipInference) (e : Returned) : Prop where
  settled : ∃ y ∈ l.reservations, y.invocationId = some e.request.taskId ∧ y.status ≠ .reserved
  replayed : e.replayed = true → ∃ x ∈ rows, x.id = e.request.taskId ∧ x.inputHash = e.request.inputHash ∧
    x.profileId = e.request.profileId ∧ x.profileRevision = e.request.profileRevision ∧ x.state = .received ∧
    x.result = some e.result

structure Lead.Sound (s : Lead) : Prop where
  ledger : s.ledger.Sound
  active : ∀ id, s.calls.countP (Call.active id) ≤ 1
  once : ∀ id, s.calls.countP (Call.unsent id) + s.sent.countP (·.taskId = id) ≤ 1
  backed : ∀ c ∈ s.calls, Backed s.ledger s.inferences c
  sent : ∀ q ∈ s.sent, Placed s.ledger s.inferences q
  ids : (s.inferences.map (·.id)).Nodup
  slots : (s.inferences.map (·.slot)).Nodup
  rows : ∀ x ∈ s.inferences, RowSettled s.ledger x
  returned : ∀ e ∈ s.returned, ReturnSound s.ledger s.inferences e

/-! ### Other transactions on the ledger -/

theorem Reserved.follows (h : l.Follows l') (hr : Reserved l id) : Reserved l' id := by
  obtain ⟨y, hy, hinv⟩ := hr
  obtain ⟨y', hy', -, hinv', -⟩ := h y hy
  exact ⟨y', hy', hinv'.trans hinv⟩

theorem Backed.follows (h : l.Follows l') (hc : Backed l rows c) : Backed l' rows c := by
  intro reservationId hres
  obtain ⟨⟨y, hy, hid, hinv⟩, hrow⟩ := hc reservationId hres
  obtain ⟨y', hy', hid', hinv', -⟩ := h y hy
  exact ⟨⟨y', hy', hid'.trans hid, hinv'.trans hinv⟩, hrow⟩

theorem RowSettled.follows (h : l.Follows l') (hx : RowSettled l x) : RowSettled l' x := by
  obtain ⟨⟨y, hy, hid, hinv, hst⟩, hns⟩ := hx
  obtain ⟨y', hy', hid', hinv', hst'⟩ := h y hy
  exact ⟨⟨y', hy', hid'.trans hid, hinv'.trans hinv, fun hr => hst' (hst hr)⟩, hns⟩

variable {e : Returned}

theorem ReturnSound.follows (h : l.Follows l') (he : ReturnSound l rows e) : ReturnSound l' rows e := by
  obtain ⟨⟨y, hy, hinv, hst⟩, hrep⟩ := he
  obtain ⟨y', hy', -, hinv', hst'⟩ := h y hy
  exact ⟨⟨y', hy', hinv'.trans hinv, hst' hst⟩, hrep⟩

theorem Lead.Sound.follows (hs : s.Sound) (hl : l'.Sound) (h : s.ledger.Follows l') :
    Lead.Sound { s with ledger := l' } where
  ledger := hl
  active := hs.active
  once := hs.once
  backed c hc := (hs.backed c hc).follows h
  sent q hq := ⟨(hs.sent q hq).1.follows h, (hs.sent q hq).2⟩
  ids := hs.ids
  slots := hs.slots
  rows x hx := (hs.rows x hx).follows h
  returned e he := (hs.returned e he).follows h

/-! ### Steps of a call -/

theorem Lead.Sound.leave (hs : s.Sound) (c : Call) : (s.leave c).Sound where
  ledger := hs.ledger
  active id := le_trans countP_leave_le (hs.active id)
  once id := le_trans (Nat.add_le_add_right countP_leave_le _) (hs.once id)
  backed c' hc' := hs.backed c' (List.mem_of_mem_erase hc')
  sent := hs.sent
  ids := hs.ids
  slots := hs.slots
  rows := hs.rows
  returned := hs.returned

theorem Lead.Sound.return (hs : s.Sound) (he : ReturnSound s.ledger s.inferences e) :
    Lead.Sound { s with returned := s.returned ++ [e] } where
  ledger := hs.ledger
  active := hs.active
  once := hs.once
  backed := hs.backed
  sent := hs.sent
  ids := hs.ids
  slots := hs.slots
  rows := hs.rows
  returned e' he' := by
    rcases Lib.mem_concat.mp he' with he' | rfl
    · exact hs.returned e' he'
    · exact he

theorem Lead.Sound.goOn {stage : Stage} (hs : s.Sound) (hc : c ∈ s.calls)
    (hres : ({ c with stage := stage } : Call).reservation? = c.reservation?)
    (hunsent : ∀ id, Call.unsent id { c with stage := stage } = true → c.unsent id = true) : (s.goOn c stage).Sound where
  ledger := hs.ledger
  active id := by
    have h := hs.active id
    rw [countP_erase hc] at h
    have heq : Call.active id { c with stage := stage } = c.active id := by
      rw [Bool.eq_iff_iff, Call.active_iff, Call.active_iff, hres]
    rw [Lead.goOn, List.countP_cons, heq]
    exact h
  once id := by
    have h := hs.once id
    rw [countP_erase hc] at h
    rw [Lead.goOn, List.countP_cons]
    have hle : (if Call.unsent id { c with stage := stage } then 1 else 0) ≤ if c.unsent id then 1 else 0 := by
      by_cases hu : Call.unsent id { c with stage := stage } = true
      · rw [if_pos hu, if_pos (hunsent id hu)]
      · rw [if_neg hu]
        exact Nat.zero_le _
    simp only
    omega
  backed c' hc' := by
    rcases List.mem_cons.mp hc' with rfl | hc'
    · have h := hs.backed c hc
      intro reservationId hr
      rw [hres] at hr
      exact h reservationId hr
    · exact hs.backed c' (List.mem_of_mem_erase hc')
  sent := hs.sent
  ids := hs.ids
  slots := hs.slots
  rows := hs.rows
  returned := hs.returned

theorem Lead.Sound.look {current : Bool} {result : ProviderResult} (hs : s.Sound)
    (h : Leadership.look s.inferences q current = .replay result) :
    ReturnSound s.ledger s.inferences ⟨q, result, true⟩ := by
  unfold Leadership.look at h
  split at h
  · cases h
  split at h
  · cases h
  rename_i x hprior
  have hx : x ∈ s.inferences := by
    unfold prior? at hprior
    split at hprior
    · cases hprior
    · split at hprior <;> exact List.mem_of_find?_eq_some hprior
  have hrow := hs.rows x hx
  unfold lookAt at h
  split at h
  · cases h
  rename_i hsame
  simp only [not_or, not_not] at hsame
  obtain ⟨hid, hhash, hprofile, hrevision⟩ := hsame
  have hreturn : x.state = .received → x.result = some result → ReturnSound s.ledger s.inferences ⟨q, result, true⟩ := by
    intro hst hres
    obtain ⟨y, hy, -, hinv, hclosed⟩ := hrow.reservation
    exact ⟨⟨y, hy, hid ▸ hinv, hclosed (by rw [hst]; decide)⟩, fun _ => ⟨x, hx, hid, hhash, hprofile, hrevision, hst, hres⟩⟩
  split at h
  · rename_i res hst hres
    split at h
    · cases h
    · cases h
      exact hreturn hst hres
  · rename_i res hst hres
    split at h
    · cases h
    · rename_i hok
      rw [hrow.notSent hst res hres] at hok
      exact absurd (by decide) hok
  · cases h
  · cases h

theorem Call.active_of_unsent (h : c.unsent id = true) : c.active id = true := by
  cases hs : c.stage <;> simp [Call.unsent, Call.active, hs] at h ⊢
  exact h

theorem Lead.Sound.countP_active (hs : s.Sound) (hfree : ¬ Reserved s.ledger id) : s.calls.countP (Call.active id) = 0 := by
  rw [List.countP_eq_zero]
  intro c hc hact
  obtain ⟨hid, hsome⟩ := Call.active_iff.mp hact
  obtain ⟨reservationId, hres⟩ := Option.isSome_iff_exists.mp hsome
  obtain ⟨⟨y, hy, -, hinv⟩, -⟩ := hs.backed c hc reservationId hres
  exact hfree ⟨y, hy, hid ▸ hinv⟩

theorem Backed.append (h : Backed l rows c) : Backed l (rows ++ more) c := by
  intro reservationId hres
  obtain ⟨hy, hrow⟩ := h reservationId hres
  refine ⟨hy, fun hslot => ?_⟩
  obtain ⟨x, hx, hi⟩ := hrow hslot
  exact ⟨x, List.mem_append_left _ hx, hi⟩

theorem Placed.append (h : Placed l rows q) : Placed l (rows ++ more) q := by
  refine ⟨h.1, fun hslot => ?_⟩
  obtain ⟨x, hx, hi⟩ := h.2 hslot
  exact ⟨x, List.mem_append_left _ hx, hi⟩

theorem ReturnSound.append (h : ReturnSound l rows e) : ReturnSound l (rows ++ more) e := by
  refine ⟨h.settled, fun hrep => ?_⟩
  obtain ⟨x, hx, hi⟩ := h.replayed hrep
  exact ⟨x, List.mem_append_left _ hx, hi⟩

theorem Lead.Sound.append (hs : s.Sound) (hx : RowSettled s.ledger x) (hfresh : ∀ y ∈ s.inferences, y.id ≠ x.id ∧ y.slot ≠ x.slot) :
    Lead.Sound { s with inferences := s.inferences ++ [x] } where
  ledger := hs.ledger
  active := hs.active
  once := hs.once
  backed c hc := (hs.backed c hc).append
  sent q hq := (hs.sent q hq).append
  ids := Lib.nodup_map_append hs.ids fun y hy => (hfresh y hy).1
  slots := Lib.nodup_map_append hs.slots fun y hy => (hfresh y hy).2
  rows y hy := by
    rcases Lib.mem_concat.mp hy with hy | rfl
    · exact hs.rows y hy
    · exact hx
  returned e he := (hs.returned e he).append

theorem Lead.Sound.goOn_reserved (hs : s.Sound) (hfree : ∀ c' ∈ s.calls, Call.active c.request.taskId c' = false)
    (hunsent : s.sent.countP (·.taskId = c.request.taskId) = 0)
    (hbacked : Backed s.ledger s.inferences { c with stage := .reserved reservationId }) :
    (s.goOn c (.reserved reservationId)).Sound := by
  have hother : ∀ {p : Call → Bool}, (s.calls.erase c).countP p ≤ s.calls.countP p :=
    List.Sublist.countP_le List.erase_sublist
  have hnone : s.calls.countP (Call.active c.request.taskId) = 0 := by
    rw [List.countP_eq_zero]
    intro c' hc'
    rw [hfree c' hc']
    decide
  have hle : s.calls.countP (Call.unsent c.request.taskId) ≤ s.calls.countP (Call.active c.request.taskId) :=
    List.countP_mono_left fun c' _ => Call.active_of_unsent
  refine ⟨hs.ledger, ?_, ?_, ?_, hs.sent, hs.ids, hs.slots, hs.rows, hs.returned⟩
  · intro id
    have h := hs.active id
    have he := hother (p := Call.active id)
    rw [Lead.goOn, List.countP_cons]
    by_cases hid : c.request.taskId = id
    · subst hid
      split <;> omega
    · have hno : Call.active id { c with stage := .reserved reservationId } = false := by simp [Call.active, hid]
      rw [hno]
      simp only [Bool.false_eq_true, if_false]
      omega
  · intro id
    have h := hs.once id
    have he := hother (p := Call.unsent id)
    rw [Lead.goOn, List.countP_cons]
    by_cases hid : c.request.taskId = id
    · subst hid
      simp only
      split <;> omega
    · have hno : Call.unsent id { c with stage := .reserved reservationId } = false := by simp [Call.unsent, hid]
      rw [hno]
      simp only [Bool.false_eq_true, if_false]
      omega
  · intro c' hc'
    rcases List.mem_cons.mp hc' with rfl | hc'
    · exact hbacked
    · exact hs.backed c' (List.mem_of_mem_erase hc')

theorem Lead.Sound.reserve {slotsFree : Bool} (hs : s.Sound)
    (h : reserveCall g s.ledger s.inferences c.request slotsFree = .ok (l', rows', reservationId)) :
    Lead.Sound { s.goOn c (.reserved reservationId) with ledger := l', inferences := rows' } := by
  obtain ⟨hfresh, hsound, hfollows, ⟨y, hy, hyid, hyinv⟩, hrows⟩ := reserveCall_ok hs.ledger h
  have hfree : ¬ Reserved s.ledger c.request.taskId := fun ⟨y, hy, hinv⟩ => hfresh y hy hinv
  have hactive : ∀ c' ∈ s.calls, Call.active c.request.taskId c' = false := by
    intro c' hc'
    have := List.countP_eq_zero.mp (hs.countP_active hfree) c' hc'
    simpa using this
  have hunsent : s.sent.countP (·.taskId = c.request.taskId) = 0 := by
    rw [List.countP_eq_zero]
    intro q hq heq
    exact hfree (of_decide_eq_true heq ▸ (hs.sent q hq).1)
  have hfs := hs.follows hsound hfollows
  rcases hrows with ⟨hslot, rfl⟩ | ⟨x, hi, rfl, hunique⟩
  · refine hfs.goOn_reserved hactive hunsent ?_
    intro rid hrid
    cases hrid
    exact ⟨⟨y, hy, hyid, hyinv⟩, fun hne => absurd hslot hne⟩
  · have hrow : RowSettled l' x := by
      refine ⟨⟨y, hy, hyid.trans hi.reservationId.symm, by rw [hi.id]; exact hyinv, ?_⟩, ?_⟩
      · intro hst
        exact absurd hi.state hst
      · intro hst
        rw [hi.state] at hst
        cases hst
    refine (hfs.append hrow hunique).goOn_reserved hactive hunsent ?_
    intro rid hrid
    cases hrid
    exact ⟨⟨y, hy, hyid, hyinv⟩, fun _ => ⟨x, List.mem_append_right _ (List.mem_singleton_self _), hi⟩⟩

variable {answer : Answer}

theorem Lead.Sound.send (hs : s.Sound) (hc : c ∈ s.calls) (hstage : c.stage = .reserved reservationId) :
    Lead.Sound { s.goOn c (.answered reservationId answer) with sent := s.sent ++ [c.request] } := by
  have hgo : (s.goOn c (.answered reservationId answer)).Sound := by
    refine hs.goOn hc (by simp [Call.reservation?, hstage]) ?_
    intro id hu
    simp [Call.unsent] at hu
  obtain ⟨hreserved, hrow⟩ := hs.backed c hc reservationId (by simp [Call.reservation?, hstage])
  refine ⟨hgo.ledger, hgo.active, ?_, hgo.backed, ?_, hgo.ids, hgo.slots, hgo.rows, hgo.returned⟩
  · intro id
    have h := hs.once id
    rw [countP_erase hc] at h
    have hcu : c.unsent id = decide (c.request.taskId = id) := by simp [Call.unsent, hstage]
    have hno : Call.unsent id { c with stage := .answered reservationId answer } = false := by simp [Call.unsent]
    rw [hcu] at h
    rw [Lead.goOn, List.countP_cons, hno, List.countP_append, List.countP_singleton]
    simp only [Bool.false_eq_true, if_false]
    omega
  · intro q hq
    rcases Lib.mem_concat.mp hq with hq | rfl
    · exact hs.sent q hq
    · obtain ⟨y, hy, -, hinv⟩ := hreserved
      refine ⟨⟨y, hy, hinv⟩, fun hslot => ?_⟩
      obtain ⟨x, hx, hi⟩ := hrow hslot
      exact ⟨x, hx, hi.id, hi.slot⟩

theorem receipted_notSent (h : (receipted q answer).notSent = true) :
    ∀ result, (receipted q answer).kept = some result → result.status = .failed := by
  have hfailed : ∀ details usage result, (failed q details usage).kept = some result → result.status = .failed := by
    intro details usage result hkept
    simp only [failed] at hkept
    cases usage <;> split at hkept <;> simp at hkept <;> rw [← hkept]
  cases answer with
  | result r =>
    intro result hkept
    simp only [receipted] at h hkept
    split at hkept
    · exact hfailed _ _ result hkept
    · rename_i hno
      split at h
      · rename_i details hst hf
        exact absurd hf (hno details hst)
      · cases h
  | failure details usage => exact hfailed details usage
  | noReceipt => cases h

theorem receive_id : (x.receive r).id = x.id := rfl

theorem Lead.Sound.receive (hs : s.Sound) (hx : x ∈ s.inferences) (hst : x.state = .sending)
    (hrow : RowSettled s.ledger (x.receive r)) (hfree : ∀ c ∈ s.calls, Call.active x.id c = false) :
    Lead.Sound { s with inferences := Lib.put (·.id) (x.receive r) s.inferences } where
  ledger := hs.ledger
  active := hs.active
  once := hs.once
  backed c hc := by
    intro reservationId hres
    obtain ⟨hy, hrow⟩ := hs.backed c hc reservationId hres
    refine ⟨hy, fun hslot => ?_⟩
    obtain ⟨y, hy, hi⟩ := hrow hslot
    refine ⟨y, Lib.mem_put_of_ne hy ?_, hi⟩
    intro hk
    have hact : Call.active x.id c = true := Call.active_iff.mpr ⟨hi.id.symm.trans hk, by rw [hres]; rfl⟩
    rw [hfree c hc] at hact
    cases hact
  sent q hq := by
    refine ⟨(hs.sent q hq).1, fun hslot => ?_⟩
    obtain ⟨y, hy, hid, hys⟩ := (hs.sent q hq).2 hslot
    by_cases hk : y.id = x.id
    · rw [Lib.eq_of_key_eq hs.ids hy hx hk] at hid hys
      exact ⟨x.receive r, Lib.mem_put_self hx rfl, hid, hys⟩
    · exact ⟨y, Lib.mem_put_of_ne hy hk, hid, hys⟩
  ids := by
    rw [Lib.map_put fun _ _ hk => hk]
    exact hs.ids
  slots := by
    rw [Lib.map_put fun y hy hk => by rw [Lib.eq_of_key_eq hs.ids hy hx hk]; rfl]
    exact hs.slots
  rows y hy := by
    rcases Lib.mem_or_of_mem_put hy with rfl | hy
    · exact hrow
    · exact hs.rows y hy
  returned e he := by
    refine ⟨(hs.returned e he).settled, fun hrep => ?_⟩
    obtain ⟨y, hy, hid, hhash, hprofile, hrevision, hyst, hres⟩ := (hs.returned e he).replayed hrep
    refine ⟨y, Lib.mem_put_of_ne hy ?_, hid, hhash, hprofile, hrevision, hyst, hres⟩
    intro hk
    rw [Lib.eq_of_key_eq hs.ids hy hx hk, hst] at hyst
    cases hyst

theorem closed_of_settled {stored y' : ProviderBudgetReservation} {id : Nat} (hs : l'.Sound) (h : l.Follows l')
    (hr : stored ∈ l.reservations) (hinv : stored.invocationId = some id) (hy' : y' ∈ l'.reservations)
    (hid : y'.id = stored.id) : y'.invocationId = some id := by
  obtain ⟨z, hz, hzid, hzinv, -⟩ := h stored hr
  rw [Lib.eq_of_key_eq hs.ids hy' hz (hid.trans hzid.symm), hzinv, hinv]

theorem Lead.Sound.finish {now : Nat} (hs : s.Sound) (hc : c ∈ s.calls)
    (hstage : c.stage = .answered reservationId answer)
    (h : finishCall s.ledger s.inferences now reservationId c.request (receipted c.request answer) = .ok (l', rows')) :
    Lead.Sound { s.leave c with ledger := l', inferences := rows' } ∧
      ∃ y ∈ l'.reservations, y.invocationId = some c.request.taskId ∧ y.status ≠ .reserved := by
  have hres : c.reservation? = some reservationId := by simp [Call.reservation?, hstage]
  obtain ⟨⟨stored, hstored, rfl, hinv⟩, hrow⟩ := hs.backed c hc reservationId hres
  obtain ⟨hsettle, hrows⟩ := finishCall_ok h
  obtain ⟨hsound, hfollows, y, hy, hyid, hclosed⟩ := settleCall_ok hs.ledger hstored hsettle
  have hyinv := closed_of_settled hsound hfollows hstored hinv hy hyid
  have hleft := (hs.leave c).follows hsound hfollows
  refine ⟨?_, y, hy, hyinv, hclosed⟩
  rcases hrows with rfl | ⟨hslot, x, hfound, rfl⟩
  · exact hleft
  · obtain ⟨z, hz, hi⟩ := hrow hslot
    have hx := List.mem_of_find?_eq_some hfound
    have hxid : x.id = c.request.taskId := by simpa using List.find?_some hfound
    have hxz : x = z := Lib.eq_of_key_eq hs.ids hx hz (hxid.trans hi.id.symm)
    subst hxz
    refine hleft.receive hx hi.state ⟨⟨y, hy, hyid.trans hi.reservationId.symm, by rw [receive_id, hxid]; exact hyinv,
      fun _ => hclosed⟩, ?_⟩ ?_
    · intro hns result hres
      refine receipted_notSent ?_ result hres
      by_contra hno
      simp only [LeadershipInference.receive, hno, if_false] at hns
      split at hns <;> cases hns
    · -- this call was the only one on its invocation
      have hcount := hs.active x.id
      rw [countP_erase hc, if_pos (Call.active_iff.mpr ⟨hxid.symm, by rw [hres]; rfl⟩)] at hcount
      have hzero : (s.calls.erase c).countP (Call.active x.id) = 0 := by omega
      intro c' hc'
      simpa using List.countP_eq_zero.mp hzero c' hc'

/-! ### Every run -/

theorem Lead.Sound.perform {op : LeadOp} (hs : s.Sound) (h : s.perform op = .ok t) : t.Sound := by
  cases op with
  | start q =>
    cases h
    refine ⟨hs.ledger, fun id => ?_, fun id => ?_, ?_, hs.sent, hs.ids, hs.slots, hs.rows, hs.returned⟩
    · simpa [List.countP_cons, Call.active] using hs.active id
    · simpa [List.countP_cons, Call.unsent] using hs.once id
    · intro c hc
      rcases List.mem_cons.mp hc with rfl | hc
      · exact fun reservationId hr => nomatch hr
      · exact hs.backed c hc
  | look c current =>
    obtain ⟨⟨hc, hstage⟩, h⟩ := Lib.check_eq_ok.mp h
    split at h
    · rename_i result hlook
      cases h
      exact (hs.leave c).return (hs.look hlook)
    · cases h
      exact hs.leave c
    · cases h
      refine hs.goOn hc (by simp [Call.reservation?, hstage]) ?_
      intro id hu
      simp [Call.unsent] at hu
  | reserve c g slotsFree =>
    obtain ⟨⟨hc, hstage⟩, h⟩ := Lib.check_eq_ok.mp h
    split at h
    · cases h
      exact hs.leave c
    · rename_i l rows reservationId hreserve
      cases h
      exact hs.reserve hreserve
  | send c permitted answer =>
    simp only [Lead.perform] at h
    split at h
    · rename_i reservationId hstage
      obtain ⟨hc, h⟩ := Lib.check_eq_ok.mp h
      split at h
      · cases h
        refine hs.goOn hc (by simp [Call.reservation?, hstage]) ?_
        intro id hu
        simp [Call.unsent] at hu
      · cases h
        exact hs.send hc hstage
    · cases h
  | finish c now =>
    simp only [Lead.perform] at h
    split at h
    · rename_i reservationId answer hstage
      obtain ⟨hc, h⟩ := Lib.check_eq_ok.mp h
      split at h
      · cases h
        exact hs.leave c
      · rename_i l rows hfinish
        obtain ⟨hsound, hsettled⟩ := hs.finish hc hstage hfinish
        split at h
        · cases h
          exact hsound
        · cases h
          exact hsound.return ⟨hsettled, fun hr => nomatch hr⟩
    · cases h
  | crash c =>
    cases h
    exact hs.leave c
  | ledger op =>
    cases h
    exact hs.follows (hs.ledger.after op) (hs.ledger.after_follows op)

/-- No request is handed to the provider twice, neither of one invocation nor of one place in a turn; a replay is
    the receipt of the same input under the same profile; and the reservation of a result that was returned is
    closed. -/
structure SentOnce (s : Lead) : Prop where
  sent : s.sent.Pairwise fun p q => p.taskId ≠ q.taskId ∧ ∀ slot, p.slot = some slot → q.slot ≠ some slot
  replayed : ∀ e ∈ s.returned, e.replayed = true → ∃ x ∈ s.inferences, x.id = e.request.taskId ∧
    x.inputHash = e.request.inputHash ∧ x.profileId = e.request.profileId ∧
    x.profileRevision = e.request.profileRevision ∧ x.state = .received ∧ x.result = some e.result
  settled : ∀ e ∈ s.returned, (∃ y ∈ s.ledger.reservations, y.invocationId = some e.request.taskId) ∧
    ∀ y ∈ s.ledger.reservations, y.invocationId = some e.request.taskId → y.status ≠ .reserved

theorem eq_of_invocationId {y z : ProviderBudgetReservation} (hs : l.Sound) (hy : y ∈ l.reservations)
    (hz : z ∈ l.reservations) (hyi : y.invocationId = some id) (hzi : z.invocationId = some id) : y = z := by
  have hpair := List.pairwise_filterMap.mp hs.invocations
  by_contra hne
  refine List.Pairwise.forall_of_forall_of_flip (R := fun a b => a = b ∨ ∀ i, a.invocationId = some i →
    ∀ j, b.invocationId = some j → i ≠ j) ?_ ?_ ?_ hy hz |>.elim hne fun h => h id hyi id hzi rfl
  · exact fun _ _ => .inl rfl
  · exact hpair.imp fun h => .inr h
  · exact hpair.imp fun h => .inr fun i hi j hj hij => h j hj i hi hij.symm

theorem Lead.Sound.sentOnce (hs : s.Sound) : SentOnce s where
  sent := by
    have hids : s.sent.Pairwise fun p q => p.taskId ≠ q.taskId := by
      have hn : (s.sent.map (·.taskId)).Nodup := by
        rw [List.nodup_iff_count_le_one]
        intro id
        have h := hs.once id
        rw [List.count, List.countP_map]
        exact le_trans (Nat.le_add_left _ _) (by simpa [Function.comp_def, beq_eq_decide] using h)
      exact List.pairwise_map.mp hn
    refine hids.imp_of_mem ?_
    intro p q hp hq hne
    refine ⟨hne, fun slot hps hqs => ?_⟩
    obtain ⟨x, hx, hxid, hxs⟩ := (hs.sent p hp).2 (by rw [hps]; exact Option.some_ne_none _)
    obtain ⟨y, hy, hyid, hys⟩ := (hs.sent q hq).2 (by rw [hqs]; exact Option.some_ne_none _)
    have hslot : x.slot = y.slot := by
      rw [hps] at hxs
      rw [hqs] at hys
      exact (Option.some.inj hxs).symm.trans (Option.some.inj hys)
    rw [Lib.eq_of_key_eq hs.slots hx hy hslot, hyid] at hxid
    exact hne hxid.symm
  replayed e he := (hs.returned e he).replayed
  settled e he := by
    obtain ⟨y, hy, hinv, hclosed⟩ := (hs.returned e he).settled
    refine ⟨⟨y, hy, hinv⟩, fun z hz hzi => ?_⟩
    rw [eq_of_invocationId hs.ledger hz hy hzi hinv]
    exact hclosed

theorem Lead.sound_empty : ({} : Lead).Sound where
  ledger := Providers.Ledger.sound_empty
  active _ := Nat.zero_le 1
  once _ := Nat.zero_le 1
  backed := by simp
  sent := by simp
  ids := List.nodup_nil
  slots := List.nodup_nil
  rows := by simp
  returned := by simp

/-- For every interleaving of calls, crashes and other transactions on the budget. -/
theorem lead_inference_sent_once (t : Lead) (ht : ({} : Lead).Reaches t) : SentOnce t :=
  (ht.invariant Lead.sound_empty fun hu _ hop => hu.perform hop).sentOnce

def leadCall : InvokeRequest where
  taskId := 7
  turnId := some 1
  purpose := .projectLead
  inputHash := "h"
  profileId := "p"
  profileRevision := "r"
  prices := {}
  reservation := { entry := .invocation 7 false, estimate := {}, limits := {} }

def leadAnswer : ProviderResult := { status := .succeeded, usage := {}, output := "answer" }

/-- A worker crashes after its call was sent; the next one finds the request and does not send it again. Another
    call of the turn is made to its end, and replayed. -/
def crashAndReplay : List LeadOp :=
  let next : InvokeRequest := { leadCall with taskId := 8, round := 1 }
  [.start leadCall, .look ⟨leadCall, .started⟩ true, .reserve ⟨leadCall, .looked⟩ {} true,
    .send ⟨leadCall, .reserved 0⟩ true (.result leadAnswer), .crash ⟨leadCall, .answered 0 (.result leadAnswer)⟩,
    .start leadCall, .look ⟨leadCall, .started⟩ true,
    .start next, .look ⟨next, .started⟩ true, .reserve ⟨next, .looked⟩ {} true,
    .send ⟨next, .reserved 1⟩ true (.result leadAnswer), .finish ⟨next, .answered 1 (.result leadAnswer)⟩ 5,
    .start next, .look ⟨next, .started⟩ true]

theorem lead_inference_sent_once_replayed :
    ∃ t, ({} : Lead).Reaches t ∧ t.sent.map (·.taskId) = [7, 8] ∧ t.returned.map (·.replayed) = [false, true] ∧
      SentOnce t := by
  have hrun : Lib.ends (fun t : Lead => t.sent.map (·.taskId) = [7, 8] && t.returned.map (·.replayed) = [false, true])
      (Lib.runOps Lead.perform {} crashAndReplay) = true := by decide
  obtain ⟨t, ht, hp⟩ := Lib.exists_of_ends hrun
  simp only [Bool.and_eq_true, decide_eq_true_eq] at hp
  have hr : ({} : Lead).Reaches t := Lib.reach_of_runOps (fun _ _ _ => trivial) ht
  exact ⟨t, hr, hp.1, hp.2, lead_inference_sent_once t hr⟩

end Vuzol.Leadership
