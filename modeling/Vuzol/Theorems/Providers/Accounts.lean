import Vuzol.Providers.Accounts

/-! Admission to an account: whatever is lost, a call that was launched keeps its ticket until its end is confirmed. The
    tickets alone exclude the calls from each other, by their primary key; the advisory locks only keep them from waiting
    on rows. -/

namespace Vuzol.Accounts
open Lib Account

variable {b : AccountBinding} {s t : Account}
variable {e : AccountExecution} {phase : CallPhase} {processes : List SupervisedProcess} {r slot : Nat}
    {p : SupervisedProcess}

/-! ### Bindings -/

theorem mem_slots_lt {r : ProviderRequest} (h : slot ∈ b.slots r) : slot < b.concurrencyLimit := by
  have hlt := b.leavesWorkerSlot
  unfold AccountBinding.slots at h
  split at h
  · rcases List.mem_append.mp h with h | h
    · rw [List.mem_range'_1] at h
      omega
    · rw [List.mem_range] at h
      omega
  · rw [List.mem_range] at h
    omega

theorem mem_slots_worker {r : ProviderRequest} (hr : r.control = false) (h : slot ∈ b.slots r) :
    slot < b.concurrencyLimit - b.controlReservedSlots := by
  unfold AccountBinding.slots at h
  rw [hr] at h
  simpa using h

/-! ### The invariant -/

def Attested (processes : List SupervisedProcess) (c : CallId) : Prop :=
  ∃ p ∈ processes, p.call = some c ∧ p.attested = true

theorem attestedCall_iff {c : CallId} : s.attestedCall c = true ↔ Attested s.processes c := by
  simp [attestedCall, Attested]

def Confirmed (processes : List SupervisedProcess) (c : CallId) (x : AccountCall) : Prop :=
  (∃ o, x.outcome = some o ∧ o.completed = true) ∨ Attested processes c

/-- What holds of one call. -/
structure CallSound (b : AccountBinding) (tickets : List Ticket) (processes : List SupervisedProcess) (nextToken : Nat)
    (c : CallId) (x : AccountCall) : Prop where
  idle : x.phase = .idle → x.execution = none
  claiming : x.phase.isClaiming = true → x.launched = false ∧ x.outcome = none ∧ ∀ p ∈ processes, p.call ≠ some c
  unticketed : x.phase.isClaiming = true → ∀ e, x.execution = some e → ∀ y ∈ tickets, y.token ≠ e.token
  rest : ∀ rest, x.phase = .claiming rest ∨ x.phase = .checking rest ∨ x.phase = .inserting rest ∨ x.phase = .skipping rest →
    ∀ slot ∈ rest, slot ∈ b.slots x.request
  execution : ∀ e, x.execution = some e → e.slot ∈ b.slots x.request ∧ e.token < nextToken
  executing : x.phase.isExecuting = true → ∃ e, x.execution = some e ∧ (e ∈ tickets ∨ Attested processes c)
  pending : x.phase.isExecuting = true → x.outcome = none
  releasing : x.phase.isReleasing = true → x.launched = true → Confirmed processes c x
  launched : x.launched = true → ∃ e, x.execution = some e ∧ (e ∈ tickets ∨ Confirmed processes c x)
  settled : x.launched = true → Confirmed processes c x → x.ended = true

structure Sound (b : AccountBinding) (s : Account) : Prop where
  call : ∀ c, CallSound b s.tickets s.processes s.nextToken c (s.calls c)
  tokens : ∀ c c' e e', (s.calls c).execution = some e → (s.calls c').execution = some e' → e.token = e'.token → c = c'
  ticketSlots : (s.tickets.map Ticket.slot).Nodup
  owner : ∀ x ∈ s.tickets, ∃ c, (s.calls c).execution = some x
  processIds : (s.processes.map SupervisedProcess.id).Nodup
  process : ∀ p ∈ s.processes, ∀ c, p.call = some c → ∃ e, (s.calls c).execution = some e ∧
    p.accountLeaseToken = some e.token ∧ p.accountSlot = some (e.slot : Int)
  untracked : ∀ p ∈ s.processes, p.call = none → p.accountLeaseToken = none
  reaper : ∀ r x, (s.reapers r).ticket? = some x → ∃ c, (s.calls c).execution = some x ∧ Attested s.processes c

theorem Sound.init : Sound b {} where
  call c := by constructor <;> simp [CallPhase.isExecuting, CallPhase.isReleasing]
  tokens := by simp
  ticketSlots := by simp
  owner := by simp
  processIds := by simp
  process := by simp
  untracked := by simp
  reaper := by simp [ReaperPhase.ticket?]

/-! ### Steps of one call -/

section
variable {c : CallId} {x : AccountCall}

theorem Sound.update (inv : Sound b s) (hexec : x.execution = (s.calls c).execution) (hprocesses : t.processes = s.processes)
    (hreapers : t.reapers = s.reapers) (htoken : t.nextToken = s.nextToken) (hcalls : t.calls = Function.update s.calls c x)
    (hx : CallSound b t.tickets s.processes s.nextToken c x)
    (hothers : ∀ c', c' ≠ c → CallSound b t.tickets s.processes s.nextToken c' (s.calls c'))
    (hslots : (t.tickets.map Ticket.slot).Nodup) (howner : ∀ y ∈ t.tickets, ∃ c', (s.calls c').execution = some y) :
    Sound b t := by
  have hsame : ∀ c', (t.calls c').execution = (s.calls c').execution := by
    intro c'
    rw [hcalls]
    by_cases hc : c' = c
    · rw [hc, Function.update_self, hexec]
    · rw [Function.update_of_ne hc]
  exact {
    call := by
      intro c'
      rw [hprocesses, htoken, hcalls]
      by_cases hc : c' = c
      · rw [hc, Function.update_self]
        exact hx
      · rw [Function.update_of_ne hc]
        exact hothers c' hc
    tokens := by
      intro c1 c2 e1 e2 h1 h2
      exact inv.tokens c1 c2 e1 e2 (hsame c1 ▸ h1) (hsame c2 ▸ h2)
    ticketSlots := hslots
    owner := by
      intro y hy
      obtain ⟨c', hc'⟩ := howner y hy
      exact ⟨c', (hsame c').trans hc'⟩
    processIds := hprocesses ▸ inv.processIds
    process := by
      intro p hp c' hc'
      obtain ⟨e, he, h⟩ := inv.process p (hprocesses ▸ hp) c' hc'
      exact ⟨e, (hsame c').trans he, h⟩
    untracked := hprocesses ▸ inv.untracked
    reaper := by
      intro r y hy
      obtain ⟨c', hc', hatt⟩ := inv.reaper r y (hreapers ▸ hy)
      exact ⟨c', (hsame c').trans hc', hprocesses ▸ hatt⟩ }

theorem Sound.goOn (inv : Sound b s) (hexec : x.execution = (s.calls c).execution)
    (hx : CallSound b s.tickets s.processes s.nextToken c x) (htickets : t.tickets = s.tickets)
    (hprocesses : t.processes = s.processes) (hreapers : t.reapers = s.reapers) (htoken : t.nextToken = s.nextToken)
    (hcalls : t.calls = Function.update s.calls c x) : Sound b t := by
  refine inv.update hexec hprocesses hreapers htoken hcalls ?_ ?_ ?_ ?_ <;> rw [htickets]
  exacts [hx, fun c' _ => inv.call c', inv.ticketSlots, inv.owner]

theorem CallSound.touch {tickets : List Ticket} {n : Nat} (h : CallSound b tickets processes n c x)
    (connected cancelled : Bool) :
    CallSound b tickets processes n c { x with connected := connected, cancellationRequested := cancelled } :=
  ⟨h.idle, h.claiming, h.unticketed, h.rest, h.execution, h.executing, h.pending, h.releasing, h.launched, h.settled⟩

theorem CallSound.move {tickets : List Ticket} {n : Nat} (h : CallSound b tickets processes n c x) (hidle : phase ≠ .idle)
    (hclaim : phase.isClaiming = true → x.phase.isClaiming = true)
    (hrest : ∀ rest, phase = .claiming rest ∨ phase = .checking rest ∨ phase = .inserting rest ∨ phase = .skipping rest →
      ∀ slot ∈ rest, slot ∈ b.slots x.request) (hexec : phase.isExecuting = true → x.phase.isExecuting = true)
    (hrel : phase.isReleasing = true → x.phase.isReleasing = true) (connected cancelled : Bool) :
    CallSound b tickets processes n c
      { x with phase := phase, connected := connected, cancellationRequested := cancelled } where
  idle hp := absurd hp hidle
  claiming hp := h.claiming (hclaim hp)
  unticketed hp := h.unticketed (hclaim hp)
  rest := hrest
  execution := h.execution
  executing hp := h.executing (hexec hp)
  pending hp := h.pending (hexec hp)
  releasing hp := h.releasing (hrel hp)
  launched := h.launched
  settled := h.settled

/-- A call takes the lock of the next slot, and draws the token of the ticket it is going to ask for. -/
theorem Sound.lock {rest : List Nat} (inv : Sound b s) (hphase : (s.calls c).phase = .claiming (slot :: rest))
    (locks : Nat → Option Holder) :
    Sound b { s.setCall c { s.calls c with phase := .checking rest, execution := some ⟨slot, s.nextToken⟩ } with
      locks := locks
      nextToken := s.nextToken + 1 } := by
  have hc := inv.call c
  have hclaim : (s.calls c).phase.isClaiming = true := by rw [hphase]; rfl
  obtain ⟨hlaunched, houtcome, hrows⟩ := hc.claiming hclaim
  have hfresh : ∀ y ∈ s.tickets, y.token < s.nextToken := by
    intro y hy
    obtain ⟨c', hc'⟩ := inv.owner y hy
    exact ((inv.call c').execution y hc').2
  have hother : ∀ c', c' ≠ c → (Function.update s.calls c
      { s.calls c with phase := .checking rest, execution := some ⟨slot, s.nextToken⟩ }) c' = s.calls c' :=
    fun c' hne => Function.update_of_ne hne _ _
  have hnone : ∀ y ∈ s.tickets, (s.calls c).execution ≠ some y := fun y hy he =>
    hc.unticketed hclaim y he y hy rfl
  exact {
    call := by
      intro c'
      by_cases hcc : c' = c
      · subst hcc
        simp only [setCall, Function.update_self]
        exact {
          idle := fun h => nomatch h
          claiming := fun _ => ⟨hlaunched, houtcome, hrows⟩
          unticketed := by
            intro _ e he y hy
            cases he
            exact (hfresh y hy).ne
          rest := by
            intro r hr z hz
            rcases hr with h | h | h | h <;> cases h
            exact hc.rest _ (Or.inl hphase) z (List.mem_cons_of_mem _ hz)
          execution := by
            intro e he
            cases he
            exact ⟨hc.rest _ (Or.inl hphase) slot List.mem_cons_self, Nat.lt_succ_self _⟩
          executing := fun h => nomatch h
          pending := fun h => nomatch h
          releasing := fun h => nomatch h
          launched := fun h => by rw [hlaunched] at h; cases h
          settled := fun h => by rw [hlaunched] at h; cases h }
      · simp only [setCall, hother c' hcc]
        exact { inv.call c' with
          execution := fun e he => ⟨((inv.call c').execution e he).1, Nat.lt_succ_of_lt ((inv.call c').execution e he).2⟩ }
    tokens := by
      intro c1 c2 e1 e2 h1 h2 htok
      simp only [setCall] at h1 h2
      by_cases hc1 : c1 = c
      · by_cases hc2 : c2 = c
        · rw [hc1, hc2]
        · rw [hc1, Function.update_self] at h1
          rw [hother c2 hc2] at h2
          cases h1
          exact absurd htok.symm ((inv.call c2).execution e2 h2).2.ne
      · rw [hother c1 hc1] at h1
        by_cases hc2 : c2 = c
        · rw [hc2, Function.update_self] at h2
          cases h2
          exact absurd htok ((inv.call c1).execution e1 h1).2.ne
        · rw [hother c2 hc2] at h2
          exact inv.tokens c1 c2 e1 e2 h1 h2 htok
    ticketSlots := inv.ticketSlots
    owner := by
      intro y hy
      obtain ⟨c', hc'⟩ := inv.owner y hy
      refine ⟨c', ?_⟩
      have hcc : c' ≠ c := fun h => hnone y hy (h ▸ hc')
      simp only [setCall, hother c' hcc]
      exact hc'
    processIds := inv.processIds
    process := by
      intro p hp c' hc'
      have hcc : c' ≠ c := fun h => hrows p hp (h ▸ hc')
      simp only [setCall, hother c' hcc]
      exact inv.process p hp c' hc'
    untracked := inv.untracked
    reaper := by
      intro r y hy
      obtain ⟨c', hc', hatt⟩ := inv.reaper r y hy
      have hcc : c' ≠ c := by
        rintro rfl
        obtain ⟨p, hp, hpc, -⟩ := hatt
        exact hrows p hp hpc
      exact ⟨c', by simp only [setCall, hother c' hcc]; exact hc', hatt⟩ }

/-- A ticket is inserted in a slot that has none, and the call that asked for it leaves its claim. -/
theorem Sound.insert (inv : Sound b s) (he : (s.calls c).execution = some e) (hfree : s.hasTicket e.slot = false)
    (hx : x.request = (s.calls c).request ∧ x.execution = some e ∧ x.launched = false ∧ x.outcome = none)
    (hgone : x.phase.isClaiming = false ∧ x.phase.isReleasing = false) (ht : t.tickets = s.tickets ++ [e])
    (hprocesses : t.processes = s.processes) (hreapers : t.reapers = s.reapers) (htoken : t.nextToken = s.nextToken)
    (hcalls : t.calls = Function.update s.calls c x) : Sound b t := by
  have hc := inv.call c
  obtain ⟨hreq, hexec, hlaunched, houtcome⟩ := hx
  refine inv.update (hexec.trans he.symm) hprocesses hreapers htoken hcalls ?_ ?_ ?_ ?_ <;> rw [ht]
  · exact {
      idle := by
        intro h
        rw [h] at hgone
        cases hgone.1
      claiming := fun h => by rw [hgone.1] at h; cases h
      unticketed := fun h => by rw [hgone.1] at h; cases h
      rest := by
        rintro r (h | h | h | h) <;> (rw [h] at hgone; cases hgone.1)
      execution := by
        intro e' he'
        rw [hexec] at he'
        cases he'
        exact hreq ▸ hc.execution e he
      executing := fun _ => ⟨e, hexec, Or.inl (List.mem_append_right _ (List.mem_singleton_self _))⟩
      pending := fun _ => houtcome
      releasing := fun h => by rw [hgone.2] at h; cases h
      launched := fun h => by rw [hlaunched] at h; cases h
      settled := fun h => by rw [hlaunched] at h; cases h }
  · intro c' hcc
    have hc' := inv.call c'
    exact { hc' with
      unticketed := by
        intro hp e' he' y hy
        rcases Lib.mem_concat.mp hy with hy | heq
        · exact hc'.unticketed hp e' he' y hy
        · rw [heq]
          exact fun htok => hcc (inv.tokens c' c e' e he' he htok.symm)
      executing := by
        intro hp
        obtain ⟨e', he', h⟩ := hc'.executing hp
        exact ⟨e', he', h.imp (List.mem_append_left _) id⟩
      launched := by
        intro hl
        obtain ⟨e', he', h⟩ := hc'.launched hl
        exact ⟨e', he', h.imp (List.mem_append_left _) id⟩ }
  · refine nodup_map_append inv.ticketSlots fun y hy heq => ?_
    have hany : s.hasTicket e.slot = true := List.any_eq_true.mpr ⟨y, hy, decide_eq_true heq⟩
    rw [hfree] at hany
    cases hany
  · intro y hy
    rcases Lib.mem_concat.mp hy with hy | rfl
    · exact inv.owner y hy
    · exact ⟨c, he⟩

theorem Sound.clear (inv : Sound b s) (he : (s.calls c).execution = some e)
    (hneed : (s.calls c).phase.isExecuting = true → Attested s.processes c)
    (hend : (s.calls c).launched = true → Confirmed s.processes c (s.calls c)) : Sound b (s.clearTicket e) := by
  have hsub : ∀ y ∈ (s.clearTicket e).tickets, y ∈ s.tickets := fun y hy => (List.mem_filter.mp hy).1
  have hkept : ∀ c' e', c' ≠ c → (s.calls c').execution = some e' → e' ∈ s.tickets → e' ∈ (s.clearTicket e).tickets := by
    intro c' e' hcc he' hmem
    refine List.mem_filter.mpr ⟨hmem, decide_eq_true ?_⟩
    rintro ⟨-, htok⟩
    exact hcc (inv.tokens c' c e' e he' he htok)
  exact {
    call := by
      intro c'
      have hc' := inv.call c'
      by_cases hcc : c' = c
      · subst hcc
        exact { hc' with
          unticketed := fun hp e' he' y hy => hc'.unticketed hp e' he' y (hsub y hy)
          executing := fun hp => ⟨e, he, Or.inr (hneed hp)⟩
          launched := fun hl => ⟨e, he, Or.inr (hend hl)⟩ }
      · exact { hc' with
          unticketed := fun hp e' he' y hy => hc'.unticketed hp e' he' y (hsub y hy)
          executing := by
            intro hp
            obtain ⟨e', he', h⟩ := hc'.executing hp
            exact ⟨e', he', h.imp (hkept c' e' hcc he') id⟩
          launched := by
            intro hl
            obtain ⟨e', he', h⟩ := hc'.launched hl
            exact ⟨e', he', h.imp (hkept c' e' hcc he') id⟩ }
    tokens := inv.tokens
    ticketSlots := inv.ticketSlots.sublist (List.filter_sublist.map _)
    owner := fun y hy => inv.owner y (hsub y hy)
    processIds := inv.processIds
    process := inv.process
    untracked := inv.untracked
    reaper := inv.reaper }

end

/-! ### Process rows -/

theorem Sound.rows (inv : Sound b s) (hids : (processes.map SupervisedProcess.id).Nodup)
    (hatt : ∀ c, Attested s.processes c → Attested processes c)
    (hover : ∀ c, Attested processes c → (s.calls c).launched = true → (s.calls c).ended = true)
    (hrow : ∀ p ∈ processes, ∀ c, p.call = some c → ((s.calls c).phase.isClaiming = false) ∧
      ∃ e, (s.calls c).execution = some e ∧ p.accountLeaseToken = some e.token ∧ p.accountSlot = some (e.slot : Int))
    (hun : ∀ p ∈ processes, p.call = none → p.accountLeaseToken = none) : Sound b { s with processes := processes } where
  call c := by
    have hc := inv.call c
    have hconf : Confirmed s.processes c (s.calls c) → Confirmed processes c (s.calls c) := Or.imp id (hatt c)
    exact {
      idle := hc.idle
      claiming := by
        intro hp
        obtain ⟨h1, h2, -⟩ := hc.claiming hp
        refine ⟨h1, h2, fun p hmem hpc => ?_⟩
        rw [(hrow p hmem c hpc).1] at hp
        cases hp
      unticketed := hc.unticketed
      rest := hc.rest
      execution := hc.execution
      executing := by
        intro hp
        obtain ⟨e, he, h⟩ := hc.executing hp
        exact ⟨e, he, h.imp id (hatt c)⟩
      pending := hc.pending
      releasing := fun hp hl => hconf (hc.releasing hp hl)
      launched := by
        intro hl
        obtain ⟨e, he, h⟩ := hc.launched hl
        exact ⟨e, he, h.imp id hconf⟩
      settled := by
        rintro hl (hout | ha)
        · exact hc.settled hl (Or.inl hout)
        · exact hover c ha hl }
  tokens := inv.tokens
  ticketSlots := inv.ticketSlots
  owner := inv.owner
  processIds := hids
  process p hp c hpc := (hrow p hp c hpc).2
  untracked := hun
  reaper r y hy := by
    obtain ⟨c, hc, ha⟩ := inv.reaper r y hy
    exact ⟨c, hc, hatt c ha⟩

theorem Sound.row_phase {c : CallId} (inv : Sound b s) (hp : p ∈ s.processes) (hpc : p.call = some c) :
    (s.calls c).phase.isClaiming = false := by
  by_contra hclaim
  rw [Bool.not_eq_false] at hclaim
  exact ((inv.call c).claiming hclaim).2.2 p hp hpc

theorem Sound.addRow (inv : Sound b s) (hid : ∀ q ∈ s.processes, q.id ≠ p.id)
    (hcall : ∀ c, p.call = some c → p.attested = false ∧ (s.calls c).phase.isClaiming = false ∧
      ∃ e, (s.calls c).execution = some e ∧ p.accountLeaseToken = some e.token ∧ p.accountSlot = some (e.slot : Int))
    (hun : p.call = none → p.accountLeaseToken = none) : Sound b { s with processes := s.processes ++ [p] } := by
  have hatt : ∀ c, Attested (s.processes ++ [p]) c → Attested s.processes c := by
    rintro c ⟨q, hq, hqc, hqa⟩
    rcases Lib.mem_concat.mp hq with hq | rfl
    · exact ⟨q, hq, hqc, hqa⟩
    · rw [(hcall c hqc).1] at hqa
      cases hqa
  refine inv.rows (nodup_map_append inv.processIds hid) ?_ ?_ ?_ ?_
  · rintro c ⟨q, hq, h⟩
    exact ⟨q, List.mem_append_left _ hq, h⟩
  · exact fun c ha hl => (inv.call c).settled hl (Or.inr (hatt c ha))
  · intro q hq c hqc
    rcases List.mem_append.mp hq with hq | hq
    · exact ⟨inv.row_phase hq hqc, inv.process q hq c hqc⟩
    · rw [List.mem_singleton.mp hq] at hqc ⊢
      exact (hcall c hqc).2
  · intro q hq hqc
    rcases List.mem_append.mp hq with hq | hq
    · exact inv.untracked q hq hqc
    · rw [List.mem_singleton.mp hq] at hqc ⊢
      exact hun hqc

theorem Sound.settle {q : SupervisedProcess} (inv : Sound b s) (hp : p ∈ s.processes) (hid : q.id = p.id)
    (hcall : q.call = p.call ∧ q.accountLeaseToken = p.accountLeaseToken ∧ q.accountSlot = p.accountSlot)
    (hmono : p.attested = true → q.attested = true)
    (hover : q.attested = true → ∀ c, p.call = some c → (s.calls c).launched = true → (s.calls c).ended = true) :
    Sound b { s with processes := put SupervisedProcess.id q s.processes } := by
  have hsource : ∀ r ∈ put SupervisedProcess.id q s.processes, r = q ∨ r ∈ s.processes := fun r hr => mem_or_of_mem_put hr
  refine inv.rows ?_ ?_ ?_ ?_ ?_
  · rw [map_put fun _ _ hk => hk]
    exact inv.processIds
  · rintro c ⟨r, hr, hrc, hra⟩
    by_cases hrid : r.id = q.id
    · cases eq_of_key_eq inv.processIds hr hp (hrid.trans hid)
      exact ⟨q, mem_put_self hp hid.symm, hcall.1.trans hrc, hmono hra⟩
    · exact ⟨r, mem_put_of_ne hr hrid, hrc, hra⟩
  · rintro c ⟨r, hr, hrc, hra⟩ hl
    rcases hsource r hr with rfl | hr
    · exact hover hra c (hcall.1.symm.trans hrc) hl
    · exact (inv.call c).settled hl (Or.inr ⟨r, hr, hrc, hra⟩)
  · intro r hr c hrc
    rcases hsource r hr with rfl | hr
    · have hpc : p.call = some c := hcall.1.symm.trans hrc
      obtain ⟨e, he, htok, hslot⟩ := inv.process p hp c hpc
      exact ⟨inv.row_phase hp hpc, e, he, hcall.2.1.trans htok, hcall.2.2.trans hslot⟩
    · exact ⟨inv.row_phase hr hrc, inv.process r hr c hrc⟩
  · intro r hr hrc
    rcases hsource r hr with rfl | hr
    · exact hcall.2.1.trans (inv.untracked p hp (hcall.1.symm.trans hrc))
    · exact inv.untracked r hr hrc

/-! ### The reaper -/

section
variable (inv : Sound b s)
include inv

theorem Sound.setReaper {phase : ReaperPhase}
    (h : ∀ x, phase.ticket? = some x → ∃ c, (s.calls c).execution = some x ∧ Attested s.processes c) :
    Sound b (s.setReaper r phase) :=
  { inv with
    reaper := by
      intro r' x hx
      simp only [Account.setReaper] at hx
      by_cases hr : r' = r
      · rw [hr, Function.update_self] at hx
        exact h x hx
      · rw [Function.update_of_ne hr] at hx
        exact inv.reaper r' x hx }

theorem Sound.dropLocks (h : Holder) : Sound b (s.dropLocks h) := { inv with }

theorem reapable_eq {x : Ticket} (hp : p ∈ s.processes) (h : s.reapable b p = some x) :
    ∃ c, (s.calls c).execution = some x ∧ Attested s.processes c := by
  unfold reapable at h
  split at h
  · rename_i slot token hslot htoken
    split at h
    · rename_i hguard
      cases hc : p.call with
      | none =>
        rw [inv.untracked p hp hc] at htoken
        cases htoken
      | some c =>
        obtain ⟨e, he, htok, hsl⟩ := inv.process p hp c hc
        rw [htok, Option.some.injEq] at htoken
        rw [hsl, Option.some.injEq] at hslot
        subst htoken hslot
        rw [Int.toNat_natCast, Option.some.injEq] at h
        exact ⟨c, h ▸ he, p, hp, hc, hguard.1⟩
    · cases h
  · cases h

theorem Sound.reapClear {x : Ticket} (hr : s.reapers r = .clearing x) : Sound b (s.clearTicket x) := by
  obtain ⟨c, hc, hatt⟩ := inv.reaper r x (by rw [hr]; rfl)
  exact inv.clear hc (fun _ => hatt) fun _ => Or.inr hatt

theorem Sound.reapAdvance {r : Nat} (h : s.reapAdvance b r = .ok t) : Sound b t := by
  unfold Account.reapAdvance at h
  have hticket := inv.reaper r
  cases hr : s.reapers r with
  | idle =>
    rw [hr] at h
    cases h
  | locking x profileId =>
    simp only [hr] at h hticket
    split at h
    · cases h
      have inv' : Sound b { s with locks := Function.update s.locks x.slot (some (.reaper r)) } := { inv with }
      exact inv'.setReaper hticket
    · cases h
      exact inv.setReaper fun x hx => nomatch hx
  | checking x profileId =>
    simp only [hr] at h hticket
    split at h
    · cases h
      exact inv.setReaper hticket
    · cases h
      exact inv.setReaper hticket
  | clearing x =>
    simp only [hr] at h hticket
    cases h
    exact (inv.reapClear hr).setReaper hticket
  | unlocking x =>
    simp only [hr] at h
    cases h
    exact (inv.dropLocks _).setReaper fun x hx => nomatch hx

theorem Sound.reapFails (committed : Bool) : Sound b (s.reapFails r committed) := by
  unfold Account.reapFails
  split
  · rename_i x hr
    refine Sound.setReaper (Sound.dropLocks ?_ _) fun x hx => nomatch hx
    cases committed with
    | true => exact inv.reapClear hr
    | false => exact inv
  · exact (inv.dropLocks _).setReaper fun x hx => nomatch hx

end

/-! ### Statements of a call -/

section
variable {c : CallId}

section
variable (inv : Sound b s)
include inv

theorem Sound.setPhase (hidle : phase ≠ .idle)
    (hclaim : phase.isClaiming = true → (s.calls c).phase.isClaiming = true)
    (hrest : ∀ rest, phase = .claiming rest ∨ phase = .checking rest ∨ phase = .inserting rest ∨ phase = .skipping rest →
      ∀ slot ∈ rest, slot ∈ b.slots (s.calls c).request)
    (hexec : phase.isExecuting = true → (s.calls c).phase.isExecuting = true)
    (hrel : phase.isReleasing = true → (s.calls c).phase.isReleasing = true) : Sound b (s.setPhase c phase) :=
  inv.goOn (x := { s.calls c with phase := phase }) rfl
    ((inv.call c).move hidle hclaim hrest hexec hrel (s.calls c).connected (s.calls c).cancellationRequested) rfl rfl rfl rfl rfl

theorem Sound.leave (h : phase = .unlocking ∨ phase = .finished) : Sound b (s.setPhase c phase) := by
  rcases h with rfl | rfl
  · exact inv.setPhase (by decide) (fun h => nomatch h) (by rintro _ (h | h | h | h) <;> cases h) (fun h => nomatch h)
      fun h => nomatch h
  · exact inv.setPhase (by decide) (fun h => nomatch h) (by rintro _ (h | h | h | h) <;> cases h) (fun h => nomatch h)
      fun h => nomatch h

/-- A call that claims its slots goes on to `rest`. -/
theorem Sound.claims {rest : List Nat} (hclaim : (s.calls c).phase.isClaiming = true)
    (hrest : ∀ slot ∈ rest, slot ∈ b.slots (s.calls c).request)
    (hphase : phase = .claiming rest ∨ phase = .checking rest ∨ phase = .inserting rest ∨ phase = .skipping rest) :
    Sound b (s.setPhase c phase) := by
  rcases hphase with rfl | rfl | rfl | rfl
  all_goals
    refine inv.setPhase (by simp) (fun _ => hclaim) (fun r hr => ?_) (fun h => nomatch h) fun h => nomatch h
    rcases hr with hr | hr | hr | hr <;> cases hr
    exact hrest

theorem Sound.invalidate (c : CallId) : Sound b (s.invalidate c) :=
  inv.goOn (x := { s.calls c with connected := false }) rfl
    ((inv.call c).touch false (s.calls c).cancellationRequested) rfl rfl rfl rfl rfl

theorem Sound.unlock (h : ∀ {u : Account}, Sound b u → (u.calls c).phase = (s.calls c).phase → (u.calls c).request = (s.calls c).request →
      Sound b (u.setPhase c phase)) : Sound b (s.unlockSlot c slot phase) := by
  unfold unlockSlot
  split
  · have inv' : Sound b { s with locks := Function.update s.locks slot none } := { inv with }
    exact h inv' rfl rfl
  · exact (inv.invalidate c).leave (Or.inr rfl)

theorem Sound.insertTicket {rest : List Nat} (phase : CallPhase) (connected : Bool)
    (hphase : (s.calls c).phase = .inserting rest) (he : (s.calls c).execution = some e)
    (hgone : phase.isClaiming = false ∧ phase.isReleasing = false) (hfree : s.hasTicket e.slot = false)
    (ht : t.tickets = (s.insertTicket e).tickets) (hprocesses : t.processes = s.processes) (hreapers : t.reapers = s.reapers)
    (htoken : t.nextToken = s.nextToken)
    (hcalls : t.calls = Function.update s.calls c { s.calls c with phase := phase, connected := connected }) : Sound b t := by
  obtain ⟨hlaunched, houtcome, -⟩ := (inv.call c).claiming (by rw [hphase]; rfl)
  rw [Account.insertTicket, hfree] at ht
  exact inv.insert (x := { s.calls c with phase := phase, connected := connected }) he hfree
    ⟨rfl, he, hlaunched, houtcome⟩ hgone ht hprocesses hreapers htoken hcalls

theorem Sound.advance (h : s.advance b c = .ok t) : Sound b t := by
  have hc := inv.call c
  unfold Account.advance at h
  obtain ⟨-, h⟩ := guard_eq_ok.mp h
  cases hphase : (s.calls c).phase with
  | idle => simp only [hphase] at h; cases h
  | running => simp only [hphase] at h; cases h
  | draining => simp only [hphase] at h; cases h
  | finished => simp only [hphase] at h; cases h
  | claiming slots =>
    cases slots with
    | nil =>
      simp only [hphase] at h
      cases h
      exact inv.leave (Or.inr rfl)
    | cons slot rest =>
      simp only [hphase] at h
      split at h
      · cases h
        exact inv.lock hphase _
      · cases h
        refine inv.claims (by rw [hphase]; rfl) (fun z hz => ?_) (Or.inl rfl)
        exact hc.rest _ (Or.inl hphase) z (List.mem_cons_of_mem _ hz)
  | checking rest =>
    cases he : (s.calls c).execution with
    | none => simp only [hphase, he] at h; cases h
    | some e =>
      simp only [hphase, he] at h
      have hrest := hc.rest rest (Or.inr (Or.inl hphase))
      split at h
      · cases h
        exact inv.claims (by rw [hphase]; rfl) hrest (by simp)
      · cases h
        exact inv.claims (by rw [hphase]; rfl) hrest (by simp)
  | inserting rest =>
    cases he : (s.calls c).execution with
    | none => simp only [hphase, he] at h; cases h
    | some e =>
      simp only [hphase, he] at h
      split at h
      · cases h
        exact inv.claims (by rw [hphase]; rfl) (hc.rest rest (Or.inr (Or.inr (Or.inl hphase)))) (by simp)
      · rename_i hfree
        rw [Bool.not_eq_true] at hfree
        have hins : s.insertTicket e = { s with tickets := s.tickets ++ [e] } := by
          rw [Account.insertTicket, hfree]
          rfl
        cases h
        exact inv.insertTicket .admitted (s.calls c).connected hphase he ⟨rfl, rfl⟩ hfree rfl (by rw [hins]; rfl)
          (by rw [hins]; rfl) (by rw [hins]; rfl)
          (by rw [hins]; rfl)
  | skipping rest =>
    cases he : (s.calls c).execution with
    | none => simp only [hphase, he] at h; cases h
    | some e =>
      simp only [hphase, he] at h
      cases h
      refine inv.unlock fun hu hup hureq => ?_
      exact hu.claims (by rw [hup, hphase]; rfl) (hureq ▸ hc.rest rest (Or.inr (Or.inr (Or.inr hphase)))) (by simp)
  | admitted =>
    simp only [hphase] at h
    split at h
    · cases h
      exact inv.leave (Or.inl rfl)
    · cases h
      exact inv.setPhase (by simp) (fun h => nomatch h) (by rintro _ (h | h | h | h) <;> cases h)
        (fun _ => by rw [hphase]; rfl) fun h => nomatch h
  | releasing settled =>
    cases he : (s.calls c).execution with
    | none => simp only [hphase, he] at h; cases h
    | some e =>
      simp only [hphase, he] at h
      split at h
      · cases h
        exact inv.leave (Or.inl rfl)
      · cases h
        exact inv.setPhase (by simp) (fun h => nomatch h) (by rintro _ (h | h | h | h) <;> cases h) (fun h => nomatch h)
          fun _ => by rw [hphase]; rfl
  | asserting =>
    simp only [hphase] at h
    cases h
    exact inv.setPhase (by simp) (fun h => nomatch h) (by rintro _ (h | h | h | h) <;> cases h) (fun h => nomatch h)
      fun _ => by rw [hphase]; rfl
  | clearing =>
    cases he : (s.calls c).execution with
    | none => simp only [hphase, he] at h; cases h
    | some e =>
      simp only [hphase, he] at h
      cases h
      refine Sound.leave (inv.clear he ?_ (hc.releasing (by rw [hphase]; rfl))) (Or.inl rfl)
      intro hex
      rw [hphase] at hex
      cases hex
  | unlocking =>
    cases he : (s.calls c).execution with
    | none => simp only [hphase, he] at h; cases h
    | some e =>
      simp only [hphase, he] at h
      cases h
      exact inv.unlock fun hu _ _ => hu.leave (Or.inr rfl)

theorem Sound.raises {committed : Bool} (h : s.raises c committed = .ok t) : Sound b t := by
  have hc := inv.call c
  have hdrop : Sound b ((s.invalidate c).setPhase c .finished) := (inv.invalidate c).leave (Or.inr rfl)
  have hunlock : Sound b ((s.invalidate c).setPhase c .unlocking) := (inv.invalidate c).leave (Or.inl rfl)
  unfold Account.raises at h
  cases hphase : (s.calls c).phase with
  | idle => simp only [hphase] at h; cases h
  | running => simp only [hphase] at h; cases h
  | draining => simp only [hphase] at h; cases h
  | finished => simp only [hphase] at h; cases h
  | claiming slots => simp only [hphase] at h; cases h; exact hdrop
  | checking rest => simp only [hphase] at h; cases h; exact hdrop
  | skipping rest => simp only [hphase] at h; cases h; exact hdrop
  | admitted => simp only [hphase] at h; cases h; exact inv.leave (Or.inl rfl)
  | releasing settled => simp only [hphase] at h; cases h; exact hunlock
  | asserting => simp only [hphase] at h; cases h; exact hunlock
  | unlocking => simp only [hphase] at h; cases h; exact hdrop
  | inserting rest =>
    cases he : (s.calls c).execution with
    | none => simp only [hphase, he] at h; cases h
    | some e =>
      simp only [hphase, he] at h
      cases h
      by_cases hins : committed = true ∧ s.hasTicket e.slot = false
      · -- The row was committed, and only its answer was lost.
        obtain ⟨hcom, hfree⟩ := hins
        subst hcom
        have hins : s.insertTicket e = { s with tickets := s.tickets ++ [e] } := by
          rw [Account.insertTicket, hfree]
          rfl
        refine inv.insertTicket .finished false hphase he ⟨rfl, rfl⟩ hfree rfl ?_ ?_ ?_ ?_
        · rw [if_pos rfl, hins]; rfl
        · rw [if_pos rfl, hins]; rfl
        · rw [if_pos rfl, hins]; rfl
        · rw [if_pos rfl, hins]
          simp [Account.setPhase, setCall, Account.invalidate, Account.dropLocks]
      · have hsame : (if committed then s.insertTicket e else s) = s := by
          cases committed with
          | false => rfl
          | true =>
            have hfree : s.hasTicket e.slot = true := by simpa using hins
            rw [if_pos rfl, Account.insertTicket, hfree, if_pos rfl]
        rw [hsame]
        exact hdrop
  | clearing =>
    cases he : (s.calls c).execution with
    | none => simp only [hphase, he] at h; cases h
    | some e =>
      simp only [hphase, he] at h
      cases h
      refine Sound.leave (Sound.invalidate ?_ c) (Or.inl rfl)
      cases committed with
      | false => exact inv
      | true =>
        refine inv.clear he ?_ (hc.releasing (by rw [hphase]; rfl))
        intro hex
        rw [hphase] at hex
        cases hex

end

/-! ### The adapter -/

theorem Sound.start {request : ProviderRequest} (inv : Sound b s) (hphase : (s.calls c).phase = .idle) :
    Sound b (s.setCall c { request := request, phase := .claiming (b.slots request) }) := by
  have hc := inv.call c
  obtain ⟨-, -, hrows⟩ := hc.claiming (by rw [hphase]; rfl)
  refine inv.goOn (x := { request := request, phase := .claiming (b.slots request) }) (hc.idle hphase).symm ?_ rfl rfl rfl
    rfl rfl
  exact {
    idle := fun h => nomatch h
    claiming := fun _ => ⟨rfl, rfl, hrows⟩
    unticketed := fun _ e he => nomatch he
    rest := by
      intro r hr z hz
      rcases hr with h | h | h | h <;> cases h
      exact hz
    execution := fun e he => nomatch he
    executing := fun h => nomatch h
    pending := fun h => nomatch h
    releasing := fun h => nomatch h
    launched := fun h => nomatch h
    settled := fun h => nomatch h }

theorem Sound.launch (inv : Sound b s) (hexec : (s.calls c).phase = .running ∨ (s.calls c).phase = .draining)
    (hatt : s.attestedCall c = false) : Sound b (s.setCall c { s.calls c with launched := true }) := by
  have hc := inv.call c
  have hphase : (s.calls c).phase.isClaiming = false ∧ (s.calls c).phase.isExecuting = true ∧
      (s.calls c).phase.isReleasing = false := by
    rcases hexec with h | h <;> rw [h] <;> exact ⟨rfl, rfl, rfl⟩
  refine inv.goOn (x := { s.calls c with launched := true }) rfl ?_ rfl rfl rfl rfl rfl
  exact { hc with
    claiming := fun h => by rw [hphase.1] at h; cases h
    releasing := fun h => by rw [hphase.2.2] at h; cases h
    launched := by
      intro _
      obtain ⟨e, he, h⟩ := hc.executing hphase.2.1
      exact ⟨e, he, h.imp id Or.inr⟩
    settled := by
      rintro _ (⟨o, ho, -⟩ | ha)
      · rw [hc.pending hphase.2.1] at ho
        cases ho
      · rw [attestedCall_iff.mpr ha] at hatt
        cases hatt }

theorem Sound.ends (inv : Sound b s) : Sound b (s.setCall c { s.calls c with ended := true }) := by
  have hc := inv.call c
  refine inv.goOn (x := { s.calls c with ended := true }) rfl ?_ rfl rfl rfl rfl rfl
  exact { hc with settled := fun _ _ => rfl }

/-- The call releases its ticket where the outcome says that the invocation was not sent, or that it is over. -/
theorem Sound.returns {o : AdapterOutcome} (inv : Sound b s) (hphase : (s.calls c).phase = .running)
    (htrue : (s.calls c).truthful o = true) : Sound b (s.returns c o) := by
  have hc := inv.call c
  have hpending := hc.pending (by rw [hphase]; rfl)
  unfold AccountCall.truthful at htrue
  rw [Bool.and_eq_true, Bool.or_eq_true, Bool.or_eq_true, Bool.or_eq_true, Bool.not_eq_true', Bool.not_eq_true',
    Bool.not_eq_true'] at htrue
  obtain ⟨hunsent, hcompleted⟩ := htrue
  unfold Account.returns
  generalize hp : afterOutcome o = phase
  have hkind : phase = .unlocking ∨ (phase.isReleasing = true ∧ phase.isClaiming = false ∧ phase.isExecuting = false ∧
      (o.unsent = true ∨ o.completed = true)) := by
    subst hp
    cases o with
    | result => exact Or.inr ⟨rfl, rfl, rfl, Or.inr rfl⟩
    | notStarted => exact Or.inr ⟨rfl, rfl, rfl, Or.inl rfl⟩
    | other => exact Or.inl rfl
    | failure requestSent executionCompleted =>
      cases requestSent <;> cases executionCompleted <;> first
        | exact Or.inl rfl
        | exact Or.inr ⟨rfl, rfl, rfl, Or.inl rfl⟩
        | exact Or.inr ⟨rfl, rfl, rfl, Or.inr rfl⟩
  have hnot : phase.isClaiming = false ∧ phase.isExecuting = false := by
    rcases hkind with rfl | ⟨-, h1, h2, -⟩
    · exact ⟨rfl, rfl⟩
    · exact ⟨h1, h2⟩
  refine inv.goOn (x := { s.calls c with phase := phase, outcome := some o }) rfl ?_ rfl rfl rfl rfl rfl
  exact {
    idle := by
      intro (h : phase = .idle)
      rw [h] at hnot
      cases hnot.1
    claiming := fun h => by rw [hnot.1] at h; cases h
    unticketed := fun h => by rw [hnot.1] at h; cases h
    rest := by
      intro r (hr : phase = .claiming r ∨ phase = .checking r ∨ phase = .inserting r ∨ phase = .skipping r)
      rcases hr with h | h | h | h <;> (rw [h] at hnot; cases hnot.1)
    execution := hc.execution
    executing := fun h => by rw [hnot.2] at h; cases h
    pending := fun h => by rw [hnot.2] at h; cases h
    releasing := by
      intro hrel hl
      rcases hkind with rfl | ⟨-, -, -, hun | hcom⟩
      · cases hrel
      · rcases hunsent with h | h
        · rw [hun] at h
          cases h
        · rw [h] at hl
          cases hl
      · exact Or.inl ⟨o, rfl, hcom⟩
    launched := by
      intro hl
      obtain ⟨e, he, h | ⟨o', ho', -⟩ | ha⟩ := hc.launched hl
      · exact ⟨e, he, Or.inl h⟩
      · rw [hpending] at ho'
        cases ho'
      · exact ⟨e, he, Or.inr (Or.inr ha)⟩
    settled := by
      rintro hl (⟨o', ho', hcom⟩ | ha)
      · cases ho'
        rcases hcompleted with (h | h) | h
        · rw [hcom] at h
          cases h
        · rw [h] at hl
          cases hl
        · exact h
      · exact hc.settled hl (Or.inr ha) }

end

/-! ### Runs -/

theorem Sound.step {op : AccountOp} (inv : Sound b s) (h : s.perform b op = .ok t) : Sound b t := by
  cases op with
  | start c request =>
    obtain ⟨hphase, h⟩ := check_eq_ok.mp h
    cases h
    exact inv.start hphase
  | advance c => exact inv.advance h
  | raises c committed => exact inv.raises h
  | cancel c =>
    cases h
    exact inv.goOn (x := { s.calls c with cancellationRequested := true }) rfl
      ((inv.call c).touch (s.calls c).connected true) rfl rfl rfl rfl rfl
  | spawn c id profileId =>
    have hrow : ∀ e, (s.calls c).execution = some e → (s.calls c).phase.isClaiming = false →
        (∀ p ∈ s.processes, p.id ≠ id) → Sound b { s with processes := s.processes ++ [processRow b c e id profileId] } := by
      intro e he hphase hid
      refine inv.addRow hid (fun c' hc' => ?_) fun hnone => nomatch hnone
      cases hc'
      exact ⟨rfl, hphase, e, he, rfl, rfl⟩
    simp only [perform] at h
    split at h
    · rename_i e hphase he
      obtain ⟨⟨-, hall, -⟩, h⟩ := check_eq_ok.mp h
      cases h
      exact hrow e he (by rw [hphase]; rfl) fun p hp => (of_decide_eq_true (List.all_eq_true.mp hall p hp)).1
    · rename_i e hphase he
      obtain ⟨⟨-, hall, -⟩, h⟩ := check_eq_ok.mp h
      cases h
      exact hrow e he (by rw [hphase]; rfl) fun p hp => (of_decide_eq_true (List.all_eq_true.mp hall p hp)).1
    · cases h
  | launch c =>
    obtain ⟨⟨hphase, -, -, hatt⟩, h⟩ := check_eq_ok.mp h
    cases h
    exact inv.launch hphase hatt
  | ends c =>
    obtain ⟨-, h⟩ := check_eq_ok.mp h
    cases h
    exact inv.ends
  | foreign p =>
    obtain ⟨⟨hcall, htoken, hid⟩, h⟩ := check_eq_ok.mp h
    cases h
    refine inv.addRow (fun q hq => of_decide_eq_true (List.all_eq_true.mp hid q hq)) (fun c hc => ?_) fun _ => htoken
    rw [hcall] at hc
    cases hc
  | settle id status reaped cleanupConfirmed launcherDrained =>
    simp only [perform] at h
    split at h
    · cases h
    · rename_i p hp
      obtain ⟨⟨hover, hmono⟩, h⟩ := check_eq_ok.mp h
      cases h
      exact inv.settle (List.mem_of_find?_eq_some hp) rfl ⟨rfl, rfl, rfl⟩ hmono hover
  | returns c o =>
    obtain ⟨⟨hphase, htrue⟩, h⟩ := check_eq_ok.mp h
    cases h
    exact inv.returns hphase htrue
  | interrupt c =>
    obtain ⟨hphase, h⟩ := check_eq_ok.mp h
    cases h
    have hmove : CallSound b s.tickets s.processes s.nextToken c
        { s.calls c with phase := .draining, cancellationRequested := true } :=
      (inv.call c).move (by simp) (by intro h; cases h) (by rintro _ (h | h | h | h) <;> cases h)
        (by intro _; rw [hphase]; rfl) (by intro h; cases h) (s.calls c).connected true
    exact inv.goOn (x := { s.calls c with phase := .draining, cancellationRequested := true }) rfl hmove rfl rfl rfl rfl rfl
  | drained c =>
    obtain ⟨-, h⟩ := check_eq_ok.mp h
    cases h
    exact inv.leave (Or.inl rfl)
  | lose c =>
    cases h
    exact inv.invalidate c
  | crash c =>
    cases h
    exact (inv.invalidate c).leave (Or.inr rfl)
  | reapLook r id =>
    simp only [perform] at h
    split at h
    · rename_i p hr hp
      split at h
      · rename_i x hx
        cases h
        refine inv.setReaper fun y hy => ?_
        cases hy
        exact reapable_eq inv (List.mem_of_find?_eq_some hp) hx
      · cases h
    · cases h
  | reapAdvance r => exact inv.reapAdvance h
  | reapFails r committed =>
    cases h
    exact inv.reapFails committed

theorem Sound.of_reach (h : Reach (perform b) (fun _ _ => True) {} s) : Sound b s :=
  h.invariant Sound.init fun inv _ hstep => inv.step hstep

/-! ### Admission -/

def InFlight (s : Account) (c : CallId) : Prop :=
  (s.calls c).launched = true ∧ ¬Confirmed s.processes c (s.calls c)

/-- The account is used by no more calls than it admits, each on its own ticket. -/
structure AdmissionSafe (b : AccountBinding) (s : Account) : Prop where
  slots : (s.tickets.map Ticket.slot).Nodup ∧ ∀ x ∈ s.tickets, x.slot < b.concurrencyLimit
  covered : ∀ c, InFlight s c → ∃ e, (s.calls c).execution = some e ∧ e ∈ s.tickets
  bounded : ∀ cs : List CallId, cs.Nodup → (∀ c ∈ cs, InFlight s c) → cs.length ≤ b.concurrencyLimit
  reserved : ∀ c e, (s.calls c).request.control = false → (s.calls c).execution = some e →
    e.slot < b.concurrencyLimit - b.controlReservedSlots
  confirmed : ∀ c, (s.calls c).launched = true → Confirmed s.processes c (s.calls c) → (s.calls c).ended = true

theorem Sound.covered (inv : Sound b s) {c : CallId} (h : InFlight s c) :
    ∃ e, (s.calls c).execution = some e ∧ e ∈ s.tickets := by
  obtain ⟨e, he, hmem | hconf⟩ := (inv.call c).launched h.1
  · exact ⟨e, he, hmem⟩
  · exact absurd hconf h.2

theorem Sound.bounded (inv : Sound b s) {cs : List CallId} (hn : cs.Nodup) (h : ∀ c ∈ cs, InFlight s c) :
    cs.length ≤ b.concurrencyLimit := by
  let slot : CallId → Nat := fun c => ((s.calls c).execution.map Ticket.slot).getD 0
  have hslot : ∀ c e, (s.calls c).execution = some e → slot c = e.slot := by
    intro c e he
    simp only [slot, he]
    rfl
  have hinj : (cs.map slot).Nodup := by
    refine hn.map_on fun c hc c' hc' heq => ?_
    obtain ⟨e, he, hmem⟩ := inv.covered (h c hc)
    obtain ⟨e', he', hmem'⟩ := inv.covered (h c' hc')
    rw [hslot c e he, hslot c' e' he'] at heq
    cases eq_of_key_eq inv.ticketSlots hmem hmem' heq
    exact inv.tokens c c' e e he he' rfl
  have hsub : cs.map slot ⊆ List.range b.concurrencyLimit := by
    intro n hmem
    obtain ⟨c, hc, rfl⟩ := List.mem_map.mp hmem
    obtain ⟨e, he, -⟩ := inv.covered (h c hc)
    rw [hslot c e he, List.mem_range]
    exact mem_slots_lt ((inv.call c).execution e he).1
  have hle := (List.subperm_of_subset hinj hsub).length_le
  rwa [List.length_map, List.length_range] at hle

theorem Sound.admissionSafe (inv : Sound b s) : AdmissionSafe b s where
  slots := by
    refine ⟨inv.ticketSlots, fun x hx => ?_⟩
    obtain ⟨c, hc⟩ := inv.owner x hx
    exact mem_slots_lt ((inv.call c).execution x hc).1
  covered _ := inv.covered
  bounded _ := inv.bounded
  reserved c e hr he := mem_slots_worker hr ((inv.call c).execution e he).1
  confirmed c := (inv.call c).settled

/-! ### Deletions -/

/-- The token with which the operation deletes. -/
def deletedToken (s : Account) : AccountOp → Option Nat
  | .advance c => if (s.calls c).phase = .clearing then (s.calls c).execution.map Ticket.token else none
  | .raises c _ => if (s.calls c).phase = .clearing then (s.calls c).execution.map Ticket.token else none
  | .reapAdvance r => (s.reapers r).ticket?.map Ticket.token
  | .reapFails r _ => (s.reapers r).ticket?.map Ticket.token
  | _ => none

section
variable {x y : Ticket} {c : CallId}

@[simp] theorem tickets_unlockSlot : (s.unlockSlot c slot phase).tickets = s.tickets := by
  unfold unlockSlot
  split <;> rfl

theorem mem_insertTicket (h : x ∈ s.tickets) : x ∈ (s.insertTicket y).tickets := by
  unfold Account.insertTicket
  split
  · exact h
  · exact List.mem_append_left _ h

theorem token_of_clearTicket (h : x ∈ s.tickets) (hgone : x ∉ (s.clearTicket y).tickets) : y.token = x.token := by
  by_contra hne
  exact hgone (List.mem_filter.mpr ⟨h, decide_eq_true fun heq => hne heq.2.symm⟩)

section
variable (hx : x ∈ s.tickets) (hgone : x ∉ t.tickets)
include hx hgone

theorem kept {p : Prop} (ht : t.tickets = s.tickets) : p := absurd (ht ▸ hx) hgone

theorem deleted_advance (h : s.advance b c = .ok t) : deletedToken s (.advance c) = some x.token := by
  unfold Account.advance at h
  obtain ⟨-, h⟩ := guard_eq_ok.mp h
  split at h
  · cases h; exact kept hx hgone rfl
  · split at h <;> (cases h; exact kept hx hgone rfl)
  · split at h <;> (cases h; exact kept hx hgone rfl)
  · split at h
    · cases h; exact kept hx hgone rfl
    · cases h
      exact absurd (mem_insertTicket hx) hgone
  · cases h; exact kept hx hgone tickets_unlockSlot
  · split at h <;> (cases h; exact kept hx hgone rfl)
  · split at h <;> (cases h; exact kept hx hgone rfl)
  · cases h; exact kept hx hgone rfl
  · rename_i hphase he
    cases h
    rw [deletedToken, if_pos hphase, he]
    exact congrArg some (token_of_clearTicket hx hgone)
  · cases h; exact kept hx hgone tickets_unlockSlot
  · cases h

theorem deleted_raises {committed : Bool} (h : s.raises c committed = .ok t) :
    deletedToken s (.raises c committed) = some x.token := by
  unfold Account.raises at h
  split at h
  · cases h; exact kept hx hgone rfl
  · cases h; exact kept hx hgone rfl
  · cases h
    cases committed with
    | false => exact kept hx hgone rfl
    | true => exact absurd (mem_insertTicket hx) hgone
  · cases h; exact kept hx hgone rfl
  · cases h; exact kept hx hgone rfl
  · cases h; exact kept hx hgone rfl
  · cases h; exact kept hx hgone rfl
  · rename_i hphase he
    cases h
    cases committed with
    | false => exact kept hx hgone rfl
    | true =>
      rw [deletedToken, if_pos hphase, he]
      exact congrArg some (token_of_clearTicket hx hgone)
  · cases h; exact kept hx hgone rfl
  · cases h

theorem deleted_reapAdvance (h : s.reapAdvance b r = .ok t) : deletedToken s (.reapAdvance r) = some x.token := by
  unfold Account.reapAdvance at h
  split at h
  · cases h
  · split at h <;> (cases h; exact kept hx hgone rfl)
  · split at h <;> (cases h; exact kept hx hgone rfl)
  · rename_i hr
    cases h
    rw [deletedToken, hr]
    exact congrArg some (token_of_clearTicket hx hgone)
  · cases h; exact kept hx hgone rfl

end

theorem deleted_reapFails {committed : Bool} (hx : x ∈ s.tickets) (hgone : x ∉ (s.reapFails r committed).tickets) :
    deletedToken s (.reapFails r committed) = some x.token := by
  unfold Account.reapFails at hgone
  split at hgone
  · rename_i hr
    cases committed with
    | false => exact absurd hx hgone
    | true =>
      rw [deletedToken, hr]
      exact congrArg some (token_of_clearTicket hx hgone)
  · exact absurd hx hgone

end

theorem deleted_own {op : AccountOp} {x : Ticket} (h : s.perform b op = .ok t) (hx : x ∈ s.tickets) (hgone : x ∉ t.tickets) :
    deletedToken s op = some x.token := by
  cases op with
  | start c request => obtain ⟨-, h⟩ := check_eq_ok.mp h; cases h; exact kept hx hgone rfl
  | advance c => exact deleted_advance hx hgone h
  | raises c committed => exact deleted_raises hx hgone h
  | cancel c => cases h; exact kept hx hgone rfl
  | spawn c id profileId =>
    simp only [perform] at h
    split at h
    · obtain ⟨-, h⟩ := check_eq_ok.mp h; cases h; exact kept hx hgone rfl
    · obtain ⟨-, h⟩ := check_eq_ok.mp h; cases h; exact kept hx hgone rfl
    · cases h
  | launch c => obtain ⟨-, h⟩ := check_eq_ok.mp h; cases h; exact kept hx hgone rfl
  | ends c => obtain ⟨-, h⟩ := check_eq_ok.mp h; cases h; exact kept hx hgone rfl
  | foreign p => obtain ⟨-, h⟩ := check_eq_ok.mp h; cases h; exact kept hx hgone rfl
  | settle id status reaped cleanupConfirmed launcherDrained =>
    simp only [perform] at h
    split at h
    · cases h
    · obtain ⟨-, h⟩ := check_eq_ok.mp h; cases h; exact kept hx hgone rfl
  | returns c o => obtain ⟨-, h⟩ := check_eq_ok.mp h; cases h; exact kept hx hgone rfl
  | interrupt c => obtain ⟨-, h⟩ := check_eq_ok.mp h; cases h; exact kept hx hgone rfl
  | drained c => obtain ⟨-, h⟩ := check_eq_ok.mp h; cases h; exact kept hx hgone rfl
  | lose c => cases h; exact kept hx hgone rfl
  | crash c => cases h; exact kept hx hgone rfl
  | reapLook r id =>
    simp only [perform] at h
    split at h
    · split at h
      · cases h; exact kept hx hgone rfl
      · cases h
    · cases h
  | reapAdvance r => exact deleted_reapAdvance hx hgone h
  | reapFails r committed =>
    cases h
    exact deleted_reapFails hx hgone

/-- In every run, whatever connections, workers and responses are lost, the account admits no more than its slots, a call in
    flight has its ticket, and a ticket goes only with its own token. -/
theorem account_admission_safe (h : Reach (perform b) (fun _ _ => True) {} s) : AdmissionSafe b s ∧
    ∀ op t, s.perform b op = .ok t → ∀ x ∈ s.tickets, x ∉ t.tickets → deletedToken s op = some x.token :=
  ⟨(Sound.of_reach h).admissionSafe, fun _ _ hstep _ hx hgone => deleted_own hstep hx hgone⟩

/-- An account with one slot for everybody and one for the lead. -/
def exampleBinding : AccountBinding where
  accountId := "codex-main"
  launchMode := .cli
  concurrencyLimit := 2
  controlReservedSlots := 1
  leavesWorkerSlot := by decide
  accountProfileIds := ["executor"]

/-- A worker that dies with its call in flight, a second call that finds the slot taken, and the reaper. -/
theorem account_admission_safe_crash : ∃ s, Reach (perform exampleBinding) (fun _ _ => True) {} s ∧
    s.tickets = [⟨0, 0⟩] ∧ (s.calls 0).launched = true ∧ (s.calls 1).phase = .finished ∧ AdmissionSafe exampleBinding s := by
  have hrun : ends (fun s => decide (s.tickets = [⟨0, 0⟩]) && decide ((s.calls 0).launched = true) &&
      decide ((s.calls 1).phase = .finished))
      (runOps (perform exampleBinding) {} [.start 0 { role := .other }, .advance 0, .advance 0, .advance 0, .advance 0,
        .spawn 0 0 "executor", .launch 0, .crash 0, .start 1 { role := .other }, .advance 1, .advance 1, .advance 1,
        .advance 1]) = true := by decide
  obtain ⟨s, hs, hok⟩ := exists_of_ends hrun
  rw [Bool.and_eq_true, Bool.and_eq_true, decide_eq_true_eq, decide_eq_true_eq, decide_eq_true_eq] at hok
  have hreach : Reach (perform exampleBinding) (fun _ _ => True) {} s := reach_of_runOps (fun _ _ _ => trivial) hs
  exact ⟨s, hreach, hok.1.1, hok.1.2, hok.2, (account_admission_safe hreach).1⟩

end Vuzol.Accounts
