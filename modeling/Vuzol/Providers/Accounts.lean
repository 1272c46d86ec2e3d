import Mathlib.Logic.Function.Basic
import Vuzol.Lib.Machine
import Vuzol.Lib.Rows

/-! Account-wide admission around the provider call (providers/accounts.py, providers/account_persistence.py): every profile
    of an account takes one of its slots by a session advisory lock and a durable ticket. The statements of every call and of
    the reaper (execution/reconciliation.py) interleave, and a connection, a worker or a response may be lost at any of them. -/

namespace Vuzol.Accounts
open Lib

inductive LaunchMode
  | api
  | cli
  deriving DecidableEq

/-- What the profiles of one account share. -/
structure AccountBinding where
  accountId : String
  launchMode : LaunchMode
  concurrencyLimit : Nat
  controlReservedSlots : Nat
  leavesWorkerSlot : controlReservedSlots < concurrencyLimit
  accountProfileIds : List String

inductive ProviderRole
  | lead
  | other
  deriving DecidableEq

structure ProviderRequest where
  role : ProviderRole
  outputSchemaVersion : Option String := none
  sandboxReference : Option String := none

/-- `control` in `_claim`. -/
def ProviderRequest.control (r : ProviderRequest) : Bool :=
  r.role = .lead || r.outputSchemaVersion = some "discussion-text-reply.v2" ||
    "lead-turn:".toList.isPrefixOf (r.sandboxReference.getD "").toList

/-- `slots` in `_claim`: the reserved slots are the last ones, and only control requests try them, first. -/
def AccountBinding.slots (b : AccountBinding) (r : ProviderRequest) : List Nat :=
  let workers := List.range (b.concurrencyLimit - b.controlReservedSlots)
  if r.control then List.range' (b.concurrencyLimit - b.controlReservedSlots) b.controlReservedSlots ++ workers else workers

inductive ProcessStatus
  | starting
  | running
  | terminating
  | exited
  | unknown
  deriving DecidableEq

/-- A row of `supervised_processes`, with what its metadata say of the account; `call` is the call that launched it. -/
structure SupervisedProcess where
  id : Nat
  profileId : String
  call : Option Nat
  accountId : Option String
  /-- `account_slot`, where it is an integer. -/
  accountSlot : Option Int
  accountLeaseToken : Option Nat
  status : ProcessStatus := .starting
  reaped : Bool := false
  cleanupConfirmed : Bool := false
  launcherDrained : Bool := false

/-- The row proves that the process is over: what `release_reaped_account_tickets` selects. -/
def SupervisedProcess.attested (p : SupervisedProcess) : Bool :=
  p.status = .exited && p.reaped && p.cleanupConfirmed && p.launcherDrained

def accountSlotReserved (processes : List SupervisedProcess) (accountId : String) (slot : Nat)
    (accountProfileIds : List String) (concurrencyLimit : Nat) : Bool :=
  processes.any fun p =>
    (p.profileId ∈ accountProfileIds || p.accountId = some accountId) && (p.status ≠ .exited || !p.reaped) &&
      (p.accountId ≠ some accountId || match p.accountSlot with
        | none => true
        | some reserved => !decide (0 ≤ reserved ∧ reserved < concurrencyLimit) || reserved = slot)

abbrev CallId := Nat

/-- A row of `provider_account_leases` of the account. -/
structure Ticket where
  slot : Nat
  token : Nat
  deriving DecidableEq

/-- `AccountExecution` is the ticket that a call asks for. -/
abbrev AccountExecution := Ticket

/-- What the adapter's `execute` ends in. -/
inductive AdapterOutcome
  | result
  /-- `ProviderFailure`. -/
  | failure (requestSent executionCompleted : Bool)
  /-- `ProviderNotStartedError`. -/
  | notStarted
  | other

def AdapterOutcome.completed : AdapterOutcome → Bool
  | .result => true
  | .failure _ executionCompleted => executionCompleted
  | _ => false

def AdapterOutcome.unsent : AdapterOutcome → Bool
  | .failure requestSent _ => !requestSent
  | .notStarted => true
  | _ => false

/-- Where a call of `AccountBoundAdapter.execute` stands: its next statement. -/
inductive CallPhase
  | idle
  /-- `pg_try_advisory_lock` of the first of the slots. -/
  | claiming (slots : List Nat)
  /-- `account_slot_reserved`. -/
  | checking (rest : List Nat)
  /-- `create_account_ticket`. -/
  | inserting (rest : List Nat)
  /-- `unlock_account_slot` of a slot that is not to be had. -/
  | skipping (rest : List Nat)
  /-- `_check_cancellation` and `pg_backend_pid`. -/
  | admitted
  /-- `_execute_guarded`: the adapter's task runs. -/
  | running
  /-- The adapter's task is being cancelled, and its outcome will be dropped. -/
  | draining
  /-- `_release_if_confirmed`: the cancellation and `_slot_reserved`. -/
  | releasing (settled : Bool)
  /-- `_assert_connection`. -/
  | asserting
  /-- `clear_account_ticket`. -/
  | clearing
  /-- `unlock_account_slot`. -/
  | unlocking
  | finished
  deriving DecidableEq

def CallPhase.isClaiming : CallPhase → Bool
  | .idle => true
  | .claiming _ => true
  | .checking _ => true
  | .inserting _ => true
  | .skipping _ => true
  | _ => false

def CallPhase.isExecuting : CallPhase → Bool
  | .admitted => true
  | .running => true
  | .draining => true
  | _ => false

def CallPhase.isReleasing : CallPhase → Bool
  | .releasing _ => true
  | .asserting => true
  | .clearing => true
  | _ => false

structure AccountCall where
  request : ProviderRequest := { role := .other }
  phase : CallPhase := .idle
  execution : Option AccountExecution := none
  /-- The session of the pinned connection is the one that took the lock. -/
  connected : Bool := true
  cancellationRequested : Bool := false
  /-- The provider's invocation was launched; it is over. -/
  launched : Bool := false
  ended : Bool := false
  outcome : Option AdapterOutcome := none

def AccountCall.truthful (x : AccountCall) (o : AdapterOutcome) : Bool :=
  (!o.unsent || !x.launched) && (!o.completed || !x.launched || x.ended)

/-- Where a pass over a reaped process stands: `release_account_ticket_after_cleanup`. -/
inductive ReaperPhase
  | idle
  | locking (ticket : Ticket) (profileId : String)
  | checking (ticket : Ticket) (profileId : String)
  | clearing (ticket : Ticket)
  | unlocking (ticket : Ticket)

def ReaperPhase.ticket? : ReaperPhase → Option Ticket
  | .idle => none
  | .locking x _ => some x
  | .checking x _ => some x
  | .clearing x => some x
  | .unlocking x => some x

inductive Holder
  | call (c : CallId)
  | reaper (r : Nat)
  deriving DecidableEq

structure Account where
  tickets : List Ticket := []
  processes : List SupervisedProcess := []
  calls : CallId → AccountCall := fun _ => {}
  reapers : Nat → ReaperPhase := fun _ => .idle
  locks : Nat → Option Holder := fun _ => none
  nextToken : Nat := 0

inductive AccountOp
  | start (c : CallId) (request : ProviderRequest)
  | advance (c : CallId)
  /-- It raises; what it wrote may have been committed all the same. -/
  | raises (c : CallId) (committed : Bool)
  | cancel (c : CallId)
  /-- The transport persists the row of the process that it is going to spawn. -/
  | spawn (c : CallId) (id : Nat) (profileId : String)
  | launch (c : CallId)
  | ends (c : CallId)
  /-- A row of a process that was not admitted here, of the account or not. -/
  | foreign (p : SupervisedProcess)
  /-- A transport or a reconciler writes what it knows of a process. -/
  | settle (id : Nat) (status : ProcessStatus) (reaped cleanupConfirmed launcherDrained : Bool)
  | returns (c : CallId) (outcome : AdapterOutcome)
  /-- The monitor finds the connection lost, or the worker's task is cancelled. -/
  | interrupt (c : CallId)
  | drained (c : CallId)
  /-- The connection of the call is lost, and its lock with it. -/
  | lose (c : CallId)
  | crash (c : CallId)
  /-- The reaper selects a reaped process with a ticket. -/
  | reapLook (r : Nat) (id : Nat)
  | reapAdvance (r : Nat)
  | reapFails (r : Nat) (committed : Bool)

namespace Account

variable (b : AccountBinding)

def setCall (s : Account) (c : CallId) (x : AccountCall) : Account := { s with calls := Function.update s.calls c x }

def setReaper (s : Account) (r : Nat) (phase : ReaperPhase) : Account :=
  { s with reapers := Function.update s.reapers r phase }

def setPhase (s : Account) (c : CallId) (phase : CallPhase) : Account := s.setCall c { s.calls c with phase := phase }

def dropLocks (s : Account) (h : Holder) : Account :=
  { s with locks := fun slot => if s.locks slot = some h then none else s.locks slot }

/-- `connection.invalidate()`. -/
def invalidate (s : Account) (c : CallId) : Account := (s.setCall c { s.calls c with connected := false }).dropLocks (.call c)

def hasTicket (s : Account) (slot : Nat) : Bool := s.tickets.any fun x => x.slot = slot

/-- The insert of `create_account_ticket`, on the primary key. -/
def insertTicket (s : Account) (x : Ticket) : Account :=
  if s.hasTicket x.slot then s else { s with tickets := s.tickets ++ [x] }

/-- The delete of `clear_account_ticket`. -/
def clearTicket (s : Account) (x : Ticket) : Account :=
  { s with tickets := s.tickets.filter fun y => ¬(y.slot = x.slot ∧ y.token = x.token) }

def slotReserved (s : Account) (slot : Nat) : Bool :=
  b.launchMode = .cli && accountSlotReserved s.processes b.accountId slot b.accountProfileIds b.concurrencyLimit

/-- `unlock_account_slot`, and what the call goes on with. -/
def unlockSlot (s : Account) (c : CallId) (slot : Nat) (phase : CallPhase) : Account :=
  if s.locks slot = some (.call c) then
    { s with locks := Function.update s.locks slot none }.setPhase c phase
  else (s.invalidate c).setPhase c .finished

/-- The next statement of the call, on its connection. -/
def advance (s : Account) (c : CallId) : Except String Account :=
  let x := s.calls c
  if x.connected = false then .error "connection lost"
  else match x.phase, x.execution with
  | .claiming [], _ => .ok (s.setPhase c .finished)
  | .claiming (slot :: rest), _ =>
    if s.locks slot = none then
      .ok { s.setCall c { x with phase := .checking rest, execution := some ⟨slot, s.nextToken⟩ } with
        locks := Function.update s.locks slot (some (.call c)), nextToken := s.nextToken + 1 }
    else .ok (s.setPhase c (.claiming rest))
  | .checking rest, some e =>
    if s.slotReserved b e.slot then .ok (s.setPhase c (.skipping rest)) else .ok (s.setPhase c (.inserting rest))
  | .inserting rest, some e =>
    if s.hasTicket e.slot then .ok (s.setPhase c (.skipping rest)) else .ok ((s.insertTicket e).setPhase c .admitted)
  | .skipping rest, some e => .ok (s.unlockSlot c e.slot (.claiming rest))
  | .admitted, _ =>
    if x.cancellationRequested then .ok (s.setPhase c .unlocking) else .ok (s.setPhase c .running)
  | .releasing settled, some e =>
    if (x.cancellationRequested && !settled) || s.slotReserved b e.slot then .ok (s.setPhase c .unlocking)
    else .ok (s.setPhase c .asserting)
  | .asserting, _ => .ok (s.setPhase c .clearing)
  | .clearing, some e => .ok ((s.clearTicket e).setPhase c .unlocking)
  | .unlocking, some e => .ok (s.unlockSlot c e.slot .finished)
  | _, _ => .error "no statement"

/-- The statement raises. In `_claim` the connection is thrown away; afterwards the slot is unlocked. -/
def raises (s : Account) (c : CallId) (committed : Bool) : Except String Account :=
  match (s.calls c).phase, (s.calls c).execution with
  | .claiming _, _ => .ok ((s.invalidate c).setPhase c .finished)
  | .checking _, _ => .ok ((s.invalidate c).setPhase c .finished)
  | .inserting _, some e =>
    .ok (((if committed then s.insertTicket e else s).invalidate c).setPhase c .finished)
  | .skipping _, _ => .ok ((s.invalidate c).setPhase c .finished)
  | .admitted, _ => .ok (s.setPhase c .unlocking)
  | .releasing _, _ => .ok ((s.invalidate c).setPhase c .unlocking)
  | .asserting, _ => .ok ((s.invalidate c).setPhase c .unlocking)
  | .clearing, some e => .ok (((if committed then s.clearTicket e else s).invalidate c).setPhase c .unlocking)
  | .unlocking, _ => .ok ((s.invalidate c).setPhase c .finished)
  | _, _ => .error "no statement"

/-- What `execute` does with the outcome of its adapter. -/
def afterOutcome : AdapterOutcome → CallPhase
  | .result => .releasing false
  | .failure requestSent executionCompleted =>
    if !requestSent || executionCompleted then .releasing (!requestSent) else .unlocking
  | .notStarted => .releasing true
  | .other => .unlocking

def returns (s : Account) (c : CallId) (o : AdapterOutcome) : Account :=
  s.setCall c { s.calls c with phase := afterOutcome o, outcome := some o }

def attestedCall (s : Account) (c : CallId) : Bool := s.processes.any fun p => p.call = some c && p.attested

def processRow (c : CallId) (e : AccountExecution) (id : Nat) (profileId : String) : SupervisedProcess where
  id := id
  profileId := profileId
  call := some c
  accountId := some b.accountId
  accountSlot := some e.slot
  accountLeaseToken := some e.token

/-- The query of `release_reaped_account_tickets`, for one row. -/
def reapable (s : Account) (p : SupervisedProcess) : Option Ticket :=
  match p.accountSlot, p.accountLeaseToken with
  | some slot, some token =>
    if p.attested ∧ p.accountId = some b.accountId ∧ (s.tickets.any fun x => x.token = token) ∧ 0 ≤ slot ∧ slot < 100 then
      some ⟨slot.toNat, token⟩
    else none
  | _, _ => none

/-- The next statement of `release_account_ticket_after_cleanup`. -/
def reapAdvance (s : Account) (r : Nat) : Except String Account :=
  match s.reapers r with
  | .idle => .error "no statement"
  | .locking x profileId =>
    if s.locks x.slot = none then
      .ok ({ s with locks := Function.update s.locks x.slot (some (.reaper r)) }.setReaper r (.checking x profileId))
    else .ok (s.setReaper r .idle)
  | .checking x profileId =>
    if accountSlotReserved s.processes b.accountId x.slot [profileId] 100 then .ok (s.setReaper r (.unlocking x))
    else .ok (s.setReaper r (.clearing x))
  | .clearing x => .ok ((s.clearTicket x).setReaper r (.unlocking x))
  | .unlocking _ => .ok ((s.dropLocks (.reaper r)).setReaper r .idle)

def reapFails (s : Account) (r : Nat) (committed : Bool) : Account :=
  match s.reapers r with
  | .clearing x => ((if committed then s.clearTicket x else s).dropLocks (.reaper r)).setReaper r .idle
  | _ => (s.dropLocks (.reaper r)).setReaper r .idle

def perform (s : Account) : AccountOp → Except String Account
  | .start c request =>
    if (s.calls c).phase = .idle then .ok (s.setCall c { request := request, phase := .claiming (b.slots request) })
    else .error "started"
  | .advance c => s.advance b c
  | .raises c committed => s.raises c committed
  | .cancel c => .ok (s.setCall c { s.calls c with cancellationRequested := true })
  | .spawn c id profileId =>
    match (s.calls c).phase, (s.calls c).execution with
    | .running, some e | .draining, some e =>
      if b.launchMode = .cli ∧ (s.processes.all fun p => p.id ≠ id ∧ p.call ≠ some c) ∧ (s.calls c).launched = false then
        .ok { s with processes := s.processes ++ [processRow b c e id profileId] }
      else .error "no process"
    | _, _ => .error "no adapter"
  | .launch c =>
    if ((s.calls c).phase = .running ∨ (s.calls c).phase = .draining) ∧ (s.calls c).launched = false ∧
        (b.launchMode = .cli → s.processes.any fun p => p.call = some c) ∧ s.attestedCall c = false then
      .ok (s.setCall c { s.calls c with launched := true })
    else .error "no launch"
  | .ends c =>
    if (s.calls c).launched then .ok (s.setCall c { s.calls c with ended := true }) else .error "not launched"
  | .foreign p =>
    if p.call = none ∧ p.accountLeaseToken = none ∧ (s.processes.all fun q => q.id ≠ p.id) then
      .ok { s with processes := s.processes ++ [p] }
    else .error "admitted here"
  | .settle id status reaped cleanupConfirmed launcherDrained =>
    match s.processes.find? fun p => p.id == id with
    | none => .error "no process"
    | some p =>
      let q := { p with status, reaped, cleanupConfirmed, launcherDrained }
      -- Only the launcher attests that it is drained, once its invocation is over, and nobody takes this back.
      if (q.attested → ∀ c ∈ p.call, (s.calls c).launched → (s.calls c).ended) ∧ (p.attested → q.attested) then
        .ok { s with processes := put SupervisedProcess.id q s.processes }
      else .error "not over"
  | .returns c o =>
    if (s.calls c).phase = .running ∧ (s.calls c).truthful o then .ok (s.returns c o) else .error "no outcome"
  | .interrupt c =>
    if (s.calls c).phase = .running then
      .ok (s.setCall c { s.calls c with phase := .draining, cancellationRequested := true })
    else .error "no adapter"
  | .drained c => if (s.calls c).phase = .draining then .ok (s.setPhase c .unlocking) else .error "no adapter"
  | .lose c => .ok (s.invalidate c)
  | .crash c => .ok ((s.invalidate c).setPhase c .finished)
  | .reapLook r id =>
    match s.reapers r, s.processes.find? fun p => p.id == id with
    | .idle, some p =>
      match s.reapable b p with
      | some x => .ok (s.setReaper r (.locking x p.profileId))
      | none => .error "nothing to release"
    | _, _ => .error "nothing to release"
  | .reapAdvance r => s.reapAdvance b r
  | .reapFails r committed => .ok (s.reapFails r committed)

end Account

end Vuzol.Accounts
