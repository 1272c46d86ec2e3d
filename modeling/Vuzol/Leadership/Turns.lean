import Vuzol.Leadership.Goals
import Vuzol.Storage.Outbox

/-! The turns of a lead (`leadership/worker.py`): a worker claims a wakeup, creates or takes over its turn, calls the
    model outside a transaction, and saves the decision on the turn. Every transaction locks the goal first, so it
    is one step.

    What a transaction reads of tasks, packages and other wakeups is part of `Observed`; replies, notices and status
    messages are left out. -/

namespace Vuzol.Leadership

open Vuzol.Discussion (Lifecycle)
open Vuzol.Storage (OutboxClaim OutboxItem OutboxLeaseToken claimOutboxItem settle)

structure TurnClaim where
  goalId : Nat
  wakeupId : Nat
  owner : String
  leaseEpoch : Nat
  outboxGeneration : Nat
  deriving DecidableEq

structure OutboxLease where
  owner : String
  generation : Nat
  expiresAt : Nat

/-- `claim_current` without the turn: the goal's lease and the item's lease are still the claim's. `item` is the
    lease of the wakeup's outbox row while it is `LEASED`. -/
def claimCurrent (g : ManagedGoal) (claim : TurnClaim) (item : Option OutboxLease) (now : Nat) : Bool :=
  g.id = claim.goalId && g.leaseOwner = some claim.owner && g.leaseEpoch = claim.leaseEpoch &&
    g.leaseUntil.any (now < ·) &&
    item.any fun i => i.owner = claim.owner && i.generation = claim.outboxGeneration && now < i.expiresAt

inductive TurnStatus where
  | claimed | responded | applied | superseded | lost
  deriving DecidableEq

/-- A frozen decision: what the model answered, and the fence it was made under. -/
structure Decision where
  body : String
  inputVersion : Nat
  inputFence : Nat
  inputScope : Nat
  inputLeaseEpoch : Nat

structure LeadershipTurn where
  goalId : Nat
  wakeupId : Nat
  leaseEpoch : Nat
  goalVersion : Nat
  scopeRevision : Nat
  fenceEpoch : Nat
  /-- `model_assignments` is set. -/
  assigned : Bool := false
  decision : Option Decision := none
  status : TurnStatus := .claimed
  owner : String

/-- The key of `uq_leadership_turn_wakeup`. -/
abbrev LeadershipTurn.key (t : LeadershipTurn) : Nat × Nat := (t.goalId, t.wakeupId)

inductive WakeupKind where
  | ownerMessage | jobFinished | planRequested | planReady | planFailed | planningRequested | ownerRoutingAnswer | other
  deriving DecidableEq

/-- `PLAN_EVENTS` and the legacy request. -/
def WakeupKind.isPlanning : WakeupKind → Bool
  | .planRequested | .planReady | .planFailed | .planningRequested => true
  | _ => false

structure Wakeup where
  item : OutboxItem
  goalId : Nat
  kind : WakeupKind := .other

abbrev Wakeup.key (w : Wakeup) : Nat := w.item.id

/-- The lease of the item while it is `LEASED`. -/
def leaseOf (x : OutboxItem) : Option OutboxLease :=
  if x.status = .leased then
    match x.leaseOwner, x.leaseExpiresAt with
    | some owner, some expiresAt => some ⟨owner, x.leaseGeneration, expiresAt⟩
    | _, _ => none
  else none

structure TurnTables where
  goals : List ManagedGoal
  wakeups : List Wakeup
  turns : List LeadershipTurn := []

namespace TurnTables

def goal? (s : TurnTables) (id : Nat) : Option ManagedGoal := s.goals.find? (·.id = id)

def wakeup? (s : TurnTables) (id : Nat) : Option Wakeup := s.wakeups.find? (·.item.id = id)

def turn? (s : TurnTables) (goalId wakeupId : Nat) : Option LeadershipTurn := s.turns.find? (·.key = (goalId, wakeupId))

def putGoal (s : TurnTables) (g : ManagedGoal) : TurnTables := { s with goals := Lib.put (·.id) g s.goals }

def putTurn (s : TurnTables) (t : LeadershipTurn) : TurnTables := { s with turns := Lib.put LeadershipTurn.key t s.turns }

def putWakeup (s : TurnTables) (w : Wakeup) : TurnTables := { s with wakeups := Lib.put Wakeup.key w s.wakeups }

/-- A settling operation on the item of a token; it raises `LeaseLost` when the token no longer holds it. -/
def settleItem (s : TurnTables) (token : OutboxLeaseToken) (f : Storage.Settlement) : Except String TurnTables :=
  match s.wakeup? token.itemId with
  | none => .error "lease lost"
  | some w =>
    match settle w.item token f with
    | (item, none) => .ok (s.putWakeup { w with item := item })
    | (_, some _) => .error "lease lost"

def complete (s : TurnTables) (token : OutboxLeaseToken) (now : Nat) : Except String TurnTables :=
  s.settleItem token (.complete now)

/-- `_defer_in_session`. -/
def deferItem (s : TurnTables) (token : OutboxLeaseToken) (reason : String) (now : Nat) : Except String TurnTables :=
  s.settleItem token (.defer 0 reason now)

end TurnTables

/-- `claim_current` with the turn. -/
def claimCurrentOn (s : TurnTables) (g : ManagedGoal) (claim : TurnClaim) (turn : LeadershipTurn) (now : Nat) : Bool :=
  claimCurrent g claim ((s.wakeup? claim.wakeupId).bind fun w => leaseOf w.item) now && turn.leaseEpoch = claim.leaseEpoch &&
    turn.owner = claim.owner && turn.wakeupId = claim.wakeupId

structure GoalEdit where
  version : Nat
  fenceEpoch : Nat
  scopeRevision : Nat
  lifecycle : Lifecycle

def ManagedGoal.edit (g : ManagedGoal) : Option GoalEdit → ManagedGoal
  | none => g
  | some e => { g with
      version := e.version, fenceEpoch := e.fenceEpoch, scopeRevision := e.scopeRevision, lifecycle := e.lifecycle }

/-- What `_prepare_turn` finds besides the rows of the goal, the wakeup and the turn. -/
structure Observed where
  leaseSeconds : Nat
  now : Nat
  /-- A committed handoff has taken the owner's message. -/
  restartHandled : Bool := false
  /-- The goal of `live_or_draft` that takes the unanswered message of an ended one. -/
  liveGoalId : Nat := 0
  stale : Bool := false
  /-- An earlier message of the owner is not handled yet. -/
  earlier : Bool := false
  /-- `goal_version` of a plan's outcome. -/
  payloadVersion : Option Nat := none
  /-- `convert_legacy_plan`. -/
  converted : Option GoalEdit := none
  /-- `observe_terminal` and `apply_pending_amendment`. -/
  amended : Option GoalEdit := none
  pendingAmendment : Bool := false
  /-- `_waiting_exit_ready`. -/
  waitingExitReady : Bool := false

structure PreparedTurn where
  claim : TurnClaim
  status : TurnStatus

/-- `prepared`. -/
def preparedTurn (g : ManagedGoal) (token : OutboxLeaseToken) (status : TurnStatus) : PreparedTurn :=
  ⟨⟨g.id, token.itemId, token.owner, g.leaseEpoch, token.generation⟩, status⟩

def ManagedGoal.takeLease (g : ManagedGoal) (owner : String) (o : Observed) : ManagedGoal :=
  { g with leaseEpoch := g.leaseEpoch + 1, leaseOwner := some owner, leaseUntil := some (o.now + o.leaseSeconds) }

def ManagedGoal.isHeld (g : ManagedGoal) (now : Nat) : Bool := g.leaseOwner.isSome && g.leaseUntil.any (now < ·)

def leaseCurrent (g : ManagedGoal) (t : LeadershipTurn) (owner : String) (now : Nat) : Bool :=
  g.leaseOwner = some owner && g.leaseUntil.any (now < ·) && g.leaseEpoch = t.leaseEpoch

/-- The outcome of `_prepare_turn`: the rows after it and the claim, when there is one. -/
abbrev Preparation := Except String (TurnTables × Option PreparedTurn)

def TurnTables.done (s : TurnTables) (token : OutboxLeaseToken) (o : Observed) : Preparation :=
  (s.complete token o.now).map fun s => (s, none)

def TurnTables.later (s : TurnTables) (token : OutboxLeaseToken) (reason : String) (o : Observed) : Preparation :=
  (s.deferItem token reason o.now).map fun s => (s, none)

/-- A turn that is claimed or responded already is continued, taken over, or given up. -/
def TurnTables.resumeTurn (s : TurnTables) (token : OutboxLeaseToken) (o : Observed) (g : ManagedGoal)
    (t : LeadershipTurn) : Preparation :=
  if t.status = .claimed ∧ t.assigned ∧
      (t.goalVersion ≠ g.version ∨ t.scopeRevision ≠ g.scopeRevision ∨ t.fenceEpoch ≠ g.fenceEpoch) then
    (s.putTurn { t with status := .lost }).done token o
  else if leaseCurrent g t token.owner o.now then
    .ok (s.putGoal { g with leaseUntil := some (o.now + o.leaseSeconds) }, some (preparedTurn g token t.status))
  else if g.isHeld o.now then s.later token "lead_lease_held" o
  else
    let g := g.takeLease token.owner o
    let t := { t with leaseEpoch := g.leaseEpoch, owner := token.owner }
    if t.status = .responded then .ok ((s.putGoal g).putTurn t, some (preparedTurn g token .responded))
    else
      let t := { t with
        status := .claimed
        decision := none
        goalVersion := g.version
        scopeRevision := g.scopeRevision
        fenceEpoch := g.fenceEpoch }
      .ok ((s.putGoal g).putTurn t, some (preparedTurn g token .claimed))

/-- The first turn of a wakeup. -/
def TurnTables.createTurn (s : TurnTables) (token : OutboxLeaseToken) (o : Observed) (w : Wakeup) (g : ManagedGoal) :
    Preparation :=
  if g.isHeld o.now then s.later token "lead_lease_held" o
  else
    let g := g.edit o.amended
    let conversational := w.kind = .ownerMessage ∨ w.kind.isPlanning ∨ w.kind = .jobFinished
    if o.pendingAmendment ∧ ¬w.kind = .ownerMessage ∧ ¬w.kind = .jobFinished then (s.putGoal g).done token o
    else if ¬conversational ∧ ¬w.kind = .ownerRoutingAnswer ∧
        (g.lifecycle = .paused ∨ (g.lifecycle = .waiting ∧ o.waitingExitReady = false)) then (s.putGoal g).done token o
    else
      let g := if g.lifecycle = .waiting ∧ ¬conversational then
          { g.bump with lifecycle := g.working, waitingReason := none, wakeupCondition := none }
        else g
      let g := g.takeLease token.owner o
      let t : LeadershipTurn := {
        goalId := g.id
        wakeupId := token.itemId
        leaseEpoch := g.leaseEpoch
        goalVersion := g.version
        scopeRevision := g.scopeRevision
        fenceEpoch := g.fenceEpoch
        owner := token.owner }
      .ok ({ s.putGoal g with turns := s.turns ++ [t] }, some (preparedTurn g token .claimed))

/-- The rest of `_prepare_turn` on the goal that the wakeup is for. -/
def TurnTables.admitTurn (s : TurnTables) (token : OutboxLeaseToken) (o : Observed) (w : Wakeup) (g : ManagedGoal) :
    Preparation :=
  if ¬w.kind = .ownerMessage ∧ o.stale then s.done token o
  else if o.earlier then s.later token "lead_event_order" o
  else
    let g := g.edit o.converted
    let s := s.putGoal g
    match s.turn? g.id token.itemId with
    | none =>
      if (w.kind = .planReady ∨ w.kind = .planFailed) ∧ o.payloadVersion ≠ some g.version then s.done token o
      else if isTerminal g.lifecycle then s.done token o
      else s.createTurn token o w g
    | some t =>
      if isTerminal g.lifecycle then
        if t.status = .claimed ∨ t.status = .responded then (s.putTurn { t with status := .lost }).done token o
        else s.done token o
      else if t.status = .claimed ∨ t.status = .responded then s.resumeTurn token o g t
      else s.done token o

def TurnTables.prepareTurn (s : TurnTables) (token : OutboxLeaseToken) (o : Observed) : Preparation :=
  match s.wakeup? token.itemId with
  | none => .error "lease lost"
  | some w =>
    match s.goal? w.goalId with
    | none => s.done token o
    | some g =>
      if w.kind = .jobFinished ∧ g.lifecycle = .paused then s.done token o
      else if w.kind = .ownerMessage ∧ isTerminal g.lifecycle then
        if o.restartHandled then s.done token o
        else
          let previous := s.turn? g.id token.itemId
          if previous.any (·.decision.isSome) then s.admitTurn token o w g
          else
            -- unanswered input of the owner belongs to the live conversation
            let s := s.putWakeup { w with goalId := o.liveGoalId }
            let s := previous.elim s fun t => s.putTurn { t with status := .superseded }
            match s.goal? o.liveGoalId with
            | none => .error "no live goal"
            | some live => s.admitTurn token o w live
      else s.admitTurn token o w g

def LeadershipTurn.matchesGoal (t : LeadershipTurn) (g : ManagedGoal) : Prop :=
  g.version = t.goalVersion ∧ g.fenceEpoch = t.fenceEpoch ∧ g.scopeRevision = t.scopeRevision

instance (t : LeadershipTurn) (g : ManagedGoal) : Decidable (t.matchesGoal g) := inferInstanceAs (Decidable (_ ∧ _))

def LeadershipTurn.isFenced (t : LeadershipTurn) (g : ManagedGoal) (claim : TurnClaim) : Prop :=
  t.leaseEpoch = claim.leaseEpoch ∧ t.owner = claim.owner ∧ g.fenceEpoch ≠ t.fenceEpoch

instance (t : LeadershipTurn) (g : ManagedGoal) (claim : TurnClaim) : Decidable (t.isFenced g claim) :=
  inferInstanceAs (Decidable (_ ∧ _))

/-- `freeze_decision`. -/
def LeadershipTurn.respond (t : LeadershipTurn) (body : String) : LeadershipTurn :=
  { t with
    status := .responded
    decision := some ⟨body, t.goalVersion, t.fenceEpoch, t.scopeRevision, t.leaseEpoch⟩ }

/-- `_save_decision`: a taken lease cannot save. -/
def TurnTables.saveDecision (s : TurnTables) (claim : TurnClaim) (body : String) (now : Nat) :
    Except String (TurnTables × Bool) :=
  match s.goal? claim.goalId, s.turn? claim.goalId claim.wakeupId with
  | _, none => .error "turn_missing"
  | none, some _ => .ok (s, false)
  | some g, some t =>
    if t.status ≠ .claimed then .ok (s, false)
    else if ¬claimCurrentOn s g claim t now ∨ ¬t.matchesGoal g then
      if t.isFenced g claim then .ok (s.putTurn { t with status := .lost }, false) else .ok (s, false)
    else .ok (s.putTurn (t.respond body), true)

def ManagedGoal.waitFor (g : ManagedGoal) (reason : String) : ManagedGoal :=
  if isTerminal g.lifecycle ∨ g.lifecycle = .paused then g else { g with lifecycle := .waiting, waitingReason := some reason }

/-- `_park_unconfigured`: the model was not available. `retried` tells that the event is retried by a wakeup of its
    own, `unanswered` that the goal has ended and the wakeup is an owner's message. -/
def TurnTables.parkUnconfigured (s : TurnTables) (token : OutboxLeaseToken) (claim : TurnClaim) (reason : String)
    (unanswered retried : Bool) (now : Nat) : Except String TurnTables :=
  match s.turn? claim.goalId claim.wakeupId with
  | none => .error "turn_missing"
  | some t =>
    match s.goal? claim.goalId with
    | none => .ok s
    | some g =>
      if unanswered ∧ isTerminal g.lifecycle ∧ t.decision = none then
        (s.putTurn { t with status := .lost }).deferItem token "lead_goal_finished" now
      else if ¬claimCurrentOn s g claim t now then
        if t.isFenced g claim then (s.putTurn { t with status := .lost }).complete token now else .ok s
      else if g.fenceEpoch ≠ t.fenceEpoch then
        ((s.putTurn { t with status := .lost }).putGoal g.release).complete token now
      else
        let given := s.putTurn { t with status := .lost, decision := none }
        if retried then (given.putGoal g.release).complete token now
        else if isTerminal g.lifecycle then given.complete token now
        else (given.putGoal (g.waitFor reason).release.bump).complete token now

/-- The turn is lost, with the lease of its goal: `_mark_lost`, and `_park` before it settles the item. -/
def TurnTables.markLost (s : TurnTables) (claim : TurnClaim) (now : Nat) : Except String TurnTables :=
  match s.goal? claim.goalId, s.turn? claim.goalId claim.wakeupId with
  | some g, some t =>
    if claimCurrentOn s g claim t now then .ok ((s.putTurn { t with status := .lost }).putGoal g.release)
    else .error "lease lost"
  | _, _ => .error "lease lost"

def TurnTables.park (s : TurnTables) (token : OutboxLeaseToken) (claim : TurnClaim) (reason : Option String) (now : Nat) :
    Except String TurnTables := do
  let s ← s.markLost claim now
  let s := match reason, s.goal? claim.goalId with
    | some reason, some g => s.putGoal (g.waitFor reason).bump
    | _, _ => s
  s.complete token now

/-- `_ack`, less what the goal goes on with. -/
def TurnTables.ack (s : TurnTables) (token : OutboxLeaseToken) (claim : TurnClaim) (now : Nat) : Except String TurnTables := do
  let s ← s.complete token now
  match s.turn? claim.goalId claim.wakeupId with
  | none => .error "turn_missing"
  | some t =>
    let s := if t.status = .lost then s else s.putTurn { t with status := .applied }
    match s.goal? claim.goalId with
    | some g =>
      if g.leaseOwner = some claim.owner ∧ g.leaseEpoch = claim.leaseEpoch then .ok (s.putGoal g.release) else .ok s
    | none => .ok s

def TurnTables.renewClaim (s : TurnTables) (claim : TurnClaim) (leaseSeconds now : Nat) : TurnTables :=
  match s.goal? claim.goalId, s.wakeup? claim.wakeupId with
  | some g, some w =>
    if claimCurrent g claim (leaseOf w.item) now then
      (s.putGoal { g with leaseUntil := some (now + leaseSeconds) }).putWakeup
        { w with item := { w.item with leaseExpiresAt := some (now + leaseSeconds) } }
    else s
  | _, _ => s

/-- The turn of an attempt has the id of the attempt for a wakeup (`job_runner.py`, `retrospective.py`). -/
def TurnTables.attempt (s : TurnTables) (goalId attemptId leaseEpoch : Nat) (owner : String) : Except String TurnTables :=
  match s.goal? goalId, s.turn? goalId attemptId with
  | none, _ => .error "research goal missing"
  | some _, some _ => .error "uq_leadership_turn_wakeup"
  | some g, none =>
    let t : LeadershipTurn := {
      goalId := goalId
      wakeupId := attemptId
      leaseEpoch := leaseEpoch
      goalVersion := g.version
      scopeRevision := g.scopeRevision
      fenceEpoch := g.fenceEpoch
      owner := owner }
    .ok { s with turns := s.turns ++ [t] }

def TurnTables.endAttempt (s : TurnTables) (goalId attemptId : Nat) (applied : Bool) : Except String TurnTables :=
  match s.turn? goalId attemptId with
  | none => .error "turn_missing"
  | some t => .ok (s.putTurn { t with status := if applied then .applied else .lost })

/-- How far a worker has come with a wakeup: it holds the token of its claim, it calls the model, or it applies a
    saved decision. -/
inductive Work where
  | holding
  | inferring (claim : TurnClaim)
  | applying (claim : TurnClaim)
  deriving DecidableEq

structure Worker where
  token : OutboxLeaseToken
  work : Work := .holding
  deriving DecidableEq

structure Office where
  tables : TurnTables
  workers : List Worker := []

/-- A transaction of some worker, or of somebody else. A worker may stop at any point; a command or a control may
    change a goal as it likes; a wakeup may be added, and settled by any token. -/
inductive OfficeOp where
  | claimWakeup (itemId : Nat) (c : OutboxClaim)
  | prepare (a : Worker) (o : Observed)
  | save (a : Worker) (body : String) (now : Nat)
  | unconfigured (a : Worker) (reason : String) (unanswered retried : Bool) (now : Nat)
  | park (a : Worker) (reason : Option String) (now : Nat)
  | markLost (a : Worker) (now : Nat)
  | ack (a : Worker) (now : Nat)
  | renew (a : Worker) (leaseSeconds now : Nat)
  | stop (a : Worker)
  | settleItem (token : OutboxLeaseToken) (f : Storage.Settlement)
  | attempt (goalId attemptId leaseEpoch : Nat) (owner : String)
  | endAttempt (goalId attemptId : Nat) (applied : Bool)
  | addWakeup (w : Wakeup)
  | addGoal (g : ManagedGoal)
  | changeGoal (g : ManagedGoal)

def Office.goOn (s : Office) (a : Worker) (work : Work) : Office :=
  { s with workers := { a with work := work } :: s.workers.erase a }

def Office.leave (s : Office) (a : Worker) : Office := { s with workers := s.workers.erase a }

def Office.onInferring (s : Office) (a : Worker) (f : TurnClaim → Except String Office) : Except String Office :=
  match a.work with
  | .inferring claim => if a ∈ s.workers then f claim else .error "no worker"
  | _ => .error "no worker"

def Office.onApplying (s : Office) (a : Worker) (f : TurnClaim → Except String Office) : Except String Office :=
  match a.work with
  | .applying claim => if a ∈ s.workers then f claim else .error "no worker"
  | _ => .error "no worker"

def Office.perform (s : Office) : OfficeOp → Except String Office
  | .claimWakeup itemId c =>
    match s.tables.wakeup? itemId with
    | none => .error "no wakeup"
    | some w =>
      match claimOutboxItem w.item c with
      | (_, none) => .error "no wakeup"
      | (item, some token) =>
        .ok { tables := s.tables.putWakeup { w with item := item }, workers := { token := token } :: s.workers }
  | .prepare a o =>
    if a ∈ s.workers ∧ a.work = .holding then do
      let (tables, prepared) ← s.tables.prepareTurn a.token o
      let s := { s with tables := tables }
      match prepared with
      | none => .ok (s.leave a)
      | some p => .ok (s.goOn a (if p.status = .responded then .applying p.claim else .inferring p.claim))
    else .error "no worker"
  | .save a body now => s.onInferring a fun claim => do
    let (tables, saved) ← s.tables.saveDecision claim body now
    let s := { s with tables := tables }
    .ok (if saved then s.goOn a (.applying claim) else s.leave a)
  | .unconfigured a reason unanswered retried now => s.onInferring a fun claim => do
    let tables ← s.tables.parkUnconfigured a.token claim reason unanswered retried now
    .ok ({ s with tables := tables }.leave a)
  | .park a reason now => s.onApplying a fun claim => do
    let tables ← s.tables.park a.token claim reason now
    .ok ({ s with tables := tables }.leave a)
  | .markLost a now => s.onApplying a fun claim => do .ok { s with tables := ← s.tables.markLost claim now }
  | .ack a now => s.onApplying a fun claim => do
    let tables ← s.tables.ack a.token claim now
    .ok ({ s with tables := tables }.leave a)
  | .renew a leaseSeconds now =>
    match a.work with
    | .inferring claim | .applying claim => .ok { s with tables := s.tables.renewClaim claim leaseSeconds now }
    | .holding => .error "no worker"
  | .stop a => .ok (s.leave a)
  | .settleItem token f => do .ok { s with tables := ← s.tables.settleItem token f }
  | .attempt goalId attemptId leaseEpoch owner => do .ok { s with tables := ← s.tables.attempt goalId attemptId leaseEpoch owner }
  | .endAttempt goalId attemptId applied => do .ok { s with tables := ← s.tables.endAttempt goalId attemptId applied }
  | .addWakeup w =>
    if (s.tables.wakeup? w.item.id).isSome then .error "exists"
    else .ok { s with tables := { s.tables with wakeups := s.tables.wakeups ++ [w] } }
  | .addGoal g =>
    if (s.tables.goal? g.id).isSome then .error "exists"
    else .ok { s with tables := { s.tables with goals := s.tables.goals ++ [g] } }
  | .changeGoal g => .ok { s with tables := s.tables.putGoal g }

abbrev Office.Reaches (s t : Office) : Prop := Lib.Reach Office.perform (fun _ _ => True) s t

end Vuzol.Leadership
