import Mathlib.Logic.Function.Basic
import Vuzol.Discussion.Packages
import Vuzol.Storage.Outbox

/-! The owner's decision on a finished goal (`leadership/acceptance.py`): an accepted goal, or the work of a
    closed one, is fast-forwarded into the default branch by a consumer of the outbox. Git moves the branch
    before the transaction that records it commits. -/

namespace Vuzol.Acceptance

open Vuzol.Lib
open Vuzol.Discussion (Lifecycle WorkPackageStatus)
open Vuzol.Storage (OutboxItem OutboxClaim OutboxLeaseToken claimOutboxItem completeOutboxItem)

structure Criterion where
  id : String
  description : String

inductive Checker where
  /-- `GOAL_HEAD_CHECKER`. -/
  | goalReview
  /-- `PENDING_CHECKER`. -/
  | goalSnapshot
  deriving DecidableEq

/-- `ManagedGoalEvidence`. -/
structure Evidence where
  criterionId : String
  description : String
  scopeRevision : Nat
  resultCommit : String
  repositoryPath : Option String
  satisfied : Bool
  checker : Checker

/-- A work package, with what `package_has_unknown_effects` answers for it. -/
structure WorkPackage where
  id : Nat
  ofGoal : Bool := true
  status : WorkPackageStatus
  integrationBranch : String
  integrationBaseCommit : Option String
  integrationHeadCommit : Option String
  unknownEffects : Bool := false
  createdAt : Nat := 0

/-- `constraints["owner_acceptance"]`. -/
structure OwnerAcceptance where
  commit : String
  branch : String
  userId : Nat
  closedByOwner : Bool := false

structure ManagedGoal where
  ownerUserId : Nat
  lifecycle : Lifecycle
  version : Nat
  scopeRevision : Nat := 1
  criteria : List Criterion
  integrationBranch : String
  /-- `constraints["project_default_branch"]`. -/
  projectDefaultBranch : Option String := none
  currentPackageId : Option Nat
  ownerAcceptance : Option OwnerAcceptance := none
  reworkFromHead : Option (Option String) := none

def ManagedGoal.targetBranch (g : ManagedGoal) : String :=
  match g.projectDefaultBranch with
  | some branch => if branch = "" then "main" else branch
  | none => "main"

/-- `_TERMINAL`. -/
def ManagedGoal.isTerminal (g : ManagedGoal) : Bool := g.lifecycle = .completed || g.lifecycle = .cancelled

/-- The request of an item of the `goal_acceptance` outbox. -/
inductive Request where
  /-- `accept_goal`, with its payload. -/
  | accept (userId version : Nat)
  /-- `close_goal`. -/
  | close

inductive Key where
  | ownerAccept (version : Nat)
  | ownerClose
  deriving DecidableEq

def Request.key : Request → Key
  | .accept _ version => .ownerAccept version
  | .close => .ownerClose

structure AcceptanceItem where
  row : OutboxItem
  request : Request

abbrev AcceptanceItem.id (x : AcceptanceItem) : Nat := x.row.id

/-- `uq_outbox_idempotency`. -/
abbrev AcceptanceItem.key (x : AcceptanceItem) : Key := x.request.key

def goalAcceptanceDestination : String := "goal_acceptance"

structure Repository where
  /-- The commit of a branch: `read_ref`. -/
  refs : String → Option String
  /-- The branch that `HEAD` names. -/
  checkedOut : Option String := none
  /-- `require_clean_source` passes. -/
  clean : Bool := true

inductive Fault where
  /-- The default branch cannot be read. Where the first read raises, `merge_closed_goal` has no `head` to return, and the
      attempt ends as one that dies early. -/
  | unreadable
  | beforeMove
  /-- The branch is moved, and the files of the checkout do not follow. -/
  | afterMove
  deriving DecidableEq

inductive FastForward where
  | advanced | already | diverged
  deriving DecidableEq

section
-- `merge-base --is-ancestor`, which holds of a commit and itself.
variable (isAncestor : String → String → Bool)

def Repository.advances (r : Repository) (branch commit : String) : Bool :=
  r.refs branch ≠ some commit && (r.refs branch).all (isAncestor · commit) &&
    (r.checkedOut ≠ some branch || r.clean)

def Repository.move (r : Repository) (branch commit : String) : Repository :=
  { r with refs := Function.update r.refs branch (some commit) }

/-- `fast_forward`: the repository after it, and the result, or none when it raises. -/
def Repository.fastForward (r : Repository) (branch commit : String) (fault : Option Fault) :
    Repository × Option FastForward :=
  if fault = some .unreadable then (r, none)
  else if r.refs branch = some commit then (r, some .already)
  else if (r.refs branch).any fun current => !isAncestor current commit then (r, some .diverged)
  else if r.checkedOut = some branch ∧ r.clean = false then (r, none)
  else if fault = some .beforeMove then (r, none)
  else (r.move branch commit, if fault = some .afterMove then none else some .advanced)

end

inductive Outcome where
  | accepted | goalNotAvailable | goalNotFinished | goalNotVerified | targetMoved | mergeFailed
  | merged | nothing
  deriving DecidableEq

structure Notice where
  itemId : Nat
  outcome : Outcome
  deriving DecidableEq

structure Moved where
  itemId : Nat
  commit : String
  deriving DecidableEq

/-- One goal with its packages and its evidence, the repositories by their paths, the path that the consumer
    has for the project, the outbox, and the moves of the consumer. -/
structure State where
  goal : ManagedGoal
  packages : List WorkPackage := []
  evidence : List Evidence := []
  repositories : String → Repository
  projectPath : Option String := none
  items : List AcceptanceItem := []
  notices : List Notice := []
  moves : List Moved := []

namespace State

def item? (s : State) (id : Nat) : Option AcceptanceItem := s.items.find? (·.id == id)

def newestCompleted (s : State) : Option WorkPackage :=
  (s.packages.filter fun p => p.ofGoal && p.status = .completed).foldl
    (fun best p => if best.all fun b => b.createdAt < p.createdAt then some p else best) none

def resultPackage (s : State) : Option WorkPackage :=
  match s.goal.currentPackageId.bind fun id => s.packages.find? (·.id == id) with
  | none => none
  | some p =>
    if (p.status = .discarded ∨ p.status = .stopped) ∧
        (p.integrationHeadCommit = none ∨ p.integrationHeadCommit = p.integrationBaseCommit) then
      s.newestCompleted
    else some p

/-- `_current_head`, without a look at the repository. -/
def currentHead (s : State) : Option String :=
  match s.resultPackage with
  | none => none
  | some p =>
    if !p.ofGoal || p.status ≠ .completed || p.integrationBranch ≠ s.goal.integrationBranch || p.unknownEffects ||
        p.integrationHeadCommit = some "" || p.integrationHeadCommit = p.integrationBaseCommit then none
    else p.integrationHeadCommit

def evidenceOf (s : State) (commit : String) : List Evidence :=
  s.evidence.filter fun e => e.scopeRevision = s.goal.scopeRevision && e.resultCommit = commit

def absolutePath (e : Evidence) : Option String :=
  e.repositoryPath.filter fun path => path.toList.head? = some '/'

/-- `_current_head(check_live_head=True)`: the integration branch still is at the head. -/
def liveHead (s : State) (readable : Bool) : Option String := do
  let head ← s.currentHead
  let evidence ← (s.evidenceOf head).head?
  let path ← absolutePath evidence
  if readable && (s.repositories path).refs s.goal.integrationBranch = some head then some head else none

def covers (s : State) (head : Option String) (c : Criterion) : Bool :=
  head.any fun commit =>
    (((s.evidenceOf commit).filter fun e => e.checker = .goalReview && e.satisfied).reverse.find?
      (·.criterionId == c.id)).any (·.description = c.description)

/-- `assess_completion(…).satisfied`. -/
def satisfied (s : State) (head : Option String) : Bool :=
  let wanted := s.goal.criteria.filter (·.id ≠ "")
  !wanted.isEmpty && wanted.all (s.covers head)

def acceptanceReady (s : State) : Bool :=
  s.goal.lifecycle = .completed && s.goal.ownerAcceptance.isNone && s.satisfied s.currentHead

end State

inductive Error where
  /-- `uq_outbox_idempotency`. -/
  | integrityError
  | goalParked | goalTerminal | staleVersion
  | assertionError
  deriving DecidableEq

def enqueue (s : State) (request : Request) : Except Error State :=
  if s.items.any (·.key = request.key) then .error .integrityError
  else .ok { s with items := s.items ++ [{
    row := { id := s.items.length, destination := goalAcceptanceDestination }
    request := request }] }

structure Press where
  userId : Nat
  goalVersion : Nat

inductive Ingress where
  | duplicate
  | rejected (reason : String)
  | handled (reason : String)
  deriving DecidableEq

def queueAccept (s : State) (userId : Nat) : Except Error (State × String) :=
  if s.goal.ownerUserId ≠ userId then .ok (s, "goal_not_available")
  else if !s.acceptanceReady then .ok (s, "goal_not_verified")
  else (enqueue s (.accept userId s.goal.version)).map fun s => (s, "accept_queued")

/-- `apply_goal_button`, on "accept". -/
def pressAccept (s : State) (r : Press) : Except Error (State × Ingress) :=
  if s.goal.ownerAcceptance.isSome then .ok (s, .duplicate)
  else if s.goal.version ≠ r.goalVersion then .ok (s, .rejected "stale_goal_card")
  else (queueAccept s r.userId).map fun (s, outcome) =>
    (s, if outcome = "accept_queued" then .handled "goal_accept_queued" else .rejected outcome)

def ManagedGoal.reopened (g : ManagedGoal) (head : Option String) : ManagedGoal :=
  { g with lifecycle := .waiting, version := g.version + 1, reworkFromHead := some head }

def requestRework (s : State) (userId : Nat) (otherGoalLive : Bool) : State × String :=
  if s.goal.ownerUserId ≠ userId then (s, "goal_not_available")
  else if s.goal.lifecycle ≠ .completed || s.goal.ownerAcceptance.isSome then (s, "goal_not_finished")
  else if otherGoalLive then (s, "other_goal_live")
  else ({ s with goal := s.goal.reopened s.currentHead }, "rework_requested")

/-- `apply_goal_button`, on "rework". -/
def pressRework (s : State) (r : Press) (otherGoalLive : Bool) : State × Ingress :=
  if s.goal.version ≠ r.goalVersion then (s, .rejected "stale_goal_card")
  else
    let (s, outcome) := requestRework s r.userId otherGoalLive
    (s, if outcome = "rework_requested" then .handled "goal_rework_requested" else .rejected outcome)

/-- `close_goal`, and `cancel_goal` when a new task takes over (`keepsWork`) and when it does not. -/
def closeGoal (s : State) (expectedVersion : Nat) (keepsWork : Bool) : Except Error State :=
  if s.goal.version ≠ expectedVersion then .error .staleVersion
  else if s.goal.lifecycle = .parked then .error .goalParked
  else if s.goal.isTerminal then .error .goalTerminal
  else
    let s := { s with goal := { s.goal with lifecycle := .cancelled, version := s.goal.version + 1 } }
    if keepsWork then enqueue s .close else .ok s

section
variable (isAncestor : String → String → Bool)

/-- A fast-forward of the default branch on behalf of an item. -/
def State.forward (s : State) (itemId : Nat) (path commit : String) (fault : Option Fault) :
    State × Option FastForward :=
  let r := s.repositories path
  let (r', result) := r.fastForward isAncestor s.goal.targetBranch commit fault
  ({ s with
      repositories := Function.update s.repositories path r'
      moves :=
        if r.refs s.goal.targetBranch ≠ some commit ∧ r'.refs s.goal.targetBranch = some commit then
          s.moves ++ [{ itemId := itemId, commit := commit }]
        else s.moves }, result)

def State.accept (s : State) (a : OwnerAcceptance) : State :=
  { s with goal := { s.goal with ownerAcceptance := some a, version := s.goal.version + 1 } }

/-- The head that `accept_goal` forwards to, and the repository that the evidence names. -/
def State.acceptable (s : State) (readable : Bool) : Option (String × String) := do
  let head ← if s.satisfied (s.liveHead readable) then s.liveHead readable else none
  let evidence ← ((s.evidenceOf head).filter (·.checker = .goalReview)).head?
  let path ← State.absolutePath evidence
  some (path, head)

def acceptGoal (s : State) (itemId userId : Nat) (fault : Option Fault) : State × Outcome :=
  if s.goal.ownerUserId ≠ userId then (s, .goalNotAvailable)
  else if s.goal.ownerAcceptance.isSome then (s, .accepted)
  else if s.goal.lifecycle ≠ .completed then (s, .goalNotFinished)
  else
    match s.acceptable (fault ≠ some .unreadable) with
    | none => (s, .goalNotVerified)
    | some (path, head) =>
      match s.forward isAncestor itemId path head fault with
      | (s, none) => (s, .mergeFailed)
      | (s, some .diverged) => (s, .targetMoved)
      | (s, some _) => (s.accept { commit := head, branch := s.goal.targetBranch, userId := userId }, .accepted)

/-- The tip that `merge_closed_goal` forwards to, when the default branch does not contain it. -/
def State.mergeable (s : State) (path : String) : Option String :=
  let r := s.repositories path
  (r.refs s.goal.integrationBranch).filter fun head =>
    !(r.refs s.goal.targetBranch).any fun main => isAncestor head main

/-- `_close` with `merge_closed_goal`. -/
def closeIntoMain (s : State) (itemId : Nat) (fault : Option Fault) : State × Outcome :=
  match s.projectPath with
  | none => (s, .mergeFailed)
  | some path =>
    if fault = some .unreadable then (s, .mergeFailed)
    else
      match s.mergeable isAncestor path with
      | none => (s, .nothing)
      | some head =>
        match s.forward isAncestor itemId path head fault with
        | (s, none) => (s, .mergeFailed)
        | (s, some .diverged) => (s, .targetMoved)
        | (s, some _) =>
          (s.accept { commit := head, branch := s.goal.targetBranch, userId := s.goal.ownerUserId,
                      closedByOwner := true }, .merged)

def processRequest (s : State) (x : AcceptanceItem) (fault : Option Fault) : State × Outcome :=
  match x.request with
  | .accept userId _ => acceptGoal isAncestor s x.id userId fault
  | .close => closeIntoMain isAncestor s x.id fault

inductive End where
  | diesEarly
  /-- It dies after Git was called, or the transaction cannot commit. -/
  | dies
  | commits
  deriving DecidableEq

structure Attempt where
  token : OutboxLeaseToken
  fault : Option Fault := none
  ending : End
  now : Nat

def State.rollback (s after : State) : State := { s with repositories := after.repositories, moves := after.moves }

def State.putItem (s : State) (x : AcceptanceItem) : State := { s with items := put AcceptanceItem.id x s.items }

/-- The second transaction of `process_one`, under the token of the first. -/
def attempt (s : State) (a : Attempt) : Except Error State :=
  match s.item? a.token.itemId with
  | none => .error .assertionError
  | some x =>
    match a.ending with
    | .diesEarly => .ok s
    | .dies => .ok (s.rollback (processRequest isAncestor s x a.fault).1)
    | .commits =>
      let (after, outcome) := processRequest isAncestor s x a.fault
      match completeOutboxItem x.row a.token a.now with
      | (_, some _) => .ok (s.rollback after)
      | (row, none) =>
        let delivered := after.putItem { x with row := row }
        .ok { delivered with notices := after.notices ++ [{ itemId := x.id, outcome := outcome }] }

/-- The first transaction of `process_one`, as far as this item is its candidate. -/
def claim (s : State) (itemId : Nat) (c : OutboxClaim) : Except Error State :=
  match s.item? itemId with
  | none => .error .assertionError
  | some x => .ok (s.putItem { x with row := (claimOutboxItem x.row c).1 })

/-- What the lead, its workers and the owner's other commands write of a goal. -/
structure Work where
  lifecycle : Lifecycle
  version : Nat
  scopeRevision : Nat
  criteria : List Criterion
  currentPackageId : Option Nat
  reworkFromHead : Option (Option String)
  packages : List WorkPackage
  evidence : List Evidence

/-- A goal that has ended keeps its lifecycle, and `closeGoal` is what cancels one. -/
def State.work (s : State) (w : Work) : State :=
  { s with
    goal := { s.goal with
      lifecycle := if s.goal.isTerminal || w.lifecycle = .cancelled then s.goal.lifecycle else w.lifecycle
      version := w.version
      scopeRevision := w.scopeRevision
      criteria := w.criteria
      currentPackageId := w.currentPackageId
      reworkFromHead := w.reworkFromHead }
    packages := w.packages
    evidence := w.evidence }

inductive Op where
  | pressAccept (r : Press)
  | pressRework (r : Press) (otherGoalLive : Bool)
  | closeGoal (expectedVersion : Nat) (keepsWork : Bool)
  | work (w : Work)
  | repositoryChanges (path : String) (r : Repository)
  | claim (itemId : Nat) (c : OutboxClaim)
  | attempt (a : Attempt)

def perform (s : State) : Op → Except Error State
  | .pressAccept r => (pressAccept s r).map Prod.fst
  | .pressRework r otherGoalLive => .ok (pressRework s r otherGoalLive).1
  | .closeGoal expectedVersion keepsWork => closeGoal s expectedVersion keepsWork
  | .work w => .ok (s.work w)
  | .repositoryChanges path r => .ok { s with repositories := Function.update s.repositories path r }
  | .claim itemId c => claim s itemId c
  | .attempt a => attempt isAncestor s a

end

structure Undecided (s : State) : Prop where
  items : s.items = []
  acceptance : s.goal.ownerAcceptance = none
  moves : s.moves = []

end Vuzol.Acceptance
