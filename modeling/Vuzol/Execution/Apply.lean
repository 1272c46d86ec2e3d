import Vuzol.Execution.Effects

/-! Attempts to apply one approved result and passes of the reconciler, in any order. An attempt is a sequence of
    transactions and Git commands with a crash possible between any two (`ResultApplyHandler.execute`); a pass holds
    the lock of the effect's row from its observation to its commit, so that no intent and no receipt is written in
    between, while Git is not locked. -/

namespace Vuzol.Execution

open Vuzol.Workflow (ApprovalStatus StepStatus)

/-- How far an attempt has come. -/
inductive Phase where
  | started | loaded | checked | intended
  | found (targetExists : Bool)
  | moved
  /-- `apply_result` has returned. -/
  | applied
  deriving DecidableEq

structure Attempt where
  lease : StepLease
  phase : Phase := .started
  deriving DecidableEq

def Attempt.isLaunched (a : Attempt) : Bool :=
  match a.phase with
  | .started | .loaded | .checked => false
  | _ => true

structure Applying where
  rows : ApplyRows
  repository : Repository
  attempts : List Attempt := []
  /-- What a pass has observed that holds the row of the effect. -/
  observed : Option (EffectObservation × String) := none
  moves : Nat := 0

/-- The steps of the attempts and of a pass, and what others do meanwhile: the step is claimed again or moved on, the
    approval, the delivery or the package changes, the files of the repository change. -/
inductive ApplyOp where
  | start (l : StepLease)
  | load (a : Attempt) (drift : Option String)
  | assertLease (a : Attempt)
  | recordIntent (a : Attempt) (blocker : Option String)
  | examine (a : Attempt) (w : ResultWorktree)
  | updateRef (a : Attempt)
  | align (a : Attempt)
  | recordApplied (a : Attempt) (now : Nat)
  | stop (a : Attempt)
  | look (readable : Bool)
  | settle (now : Nat)
  | abandon
  | claimStep (owner : String)
  | moveStep (status : StepStatus)
  | changeApproval (a : ApprovalRow)
  | changeDelivery (state : WorktreeDeliveryState)
  | changePackage (p : Option PackageRow)
  | changeRepository (r : Repository)

namespace Applying

def goOn (u : Applying) (a : Attempt) (phase : Phase) : Applying :=
  { u with attempts := { a with phase := phase } :: u.attempts.erase a }

def leave (u : Applying) (a : Attempt) : Applying := { u with attempts := u.attempts.erase a }

def whenAt (u : Applying) (a : Attempt) (phase : Phase) (next : Except String Applying) : Except String Applying :=
  if a ∈ u.attempts ∧ a.phase = phase then next else .error "no attempt"

def unlocked (u : Applying) (next : Except String Applying) : Except String Applying :=
  if u.observed.isNone then next else .error "locked"

/-- `_load` and the checks of `execute`; `drift` is what they find changed since the approval. -/
def load (u : Applying) (a : Attempt) (drift : Option String) : Except String Applying :=
  if ¬a.lease.holds u.rows.step then .error "apply step lease lost before loading"
  else if ¬u.rows.approval.isGranted then .error "result has not been approved"
  else
    match drift with
    | some reason => .error reason
    | none => .ok (u.goOn a .loaded)

variable (treeOf : String → String) (res : ApprovedResult)

def perform (u : Applying) : ApplyOp → Except String Applying
  | .start l => .ok { u with attempts := ⟨l, .started⟩ :: u.attempts }
  | .load a drift => u.whenAt a .started (u.load a drift)
  | .assertLease a => u.whenAt a .loaded <|
    if a.lease.holds u.rows.step then .ok (u.goOn a .checked) else .error "apply step lease lost before side effect"
  | .recordIntent a blocker => u.whenAt a .checked <| u.unlocked do
    let rows ← u.rows.recordIntent res a.lease blocker
    .ok ({ u with rows := rows }.goOn a .intended)
  | .examine a w => u.whenAt a .intended do
    let (repository, verdict) ← u.repository.examine treeOf res.change w
    let u := { u with repository := repository }
    match verdict with
    | .returns => .ok (u.goOn a .applied)
    | .advances targetExists => .ok (u.goOn a (.found targetExists))
  | .updateRef a =>
    match a.phase with
    | .found targetExists => u.whenAt a (.found targetExists) do
      let repository ← u.repository.updateRef res.change targetExists
      .ok ({ u with repository := repository, moves := u.moves + 1 }.goOn a .moved)
    | _ => .error "no attempt"
  | .align a => u.whenAt a .moved do
    let repository ← u.repository.align treeOf res.change
    .ok ({ u with repository := repository }.goOn a .applied)
  | .recordApplied a now => u.whenAt a .applied <| u.unlocked do
    let rows ← u.rows.recordApplied res a.lease now
    .ok ({ u with rows := rows }.leave a)
  | .stop a => .ok (u.leave a)
  | .look readable => u.unlocked <|
    match u.rows.effect with
    | none => .error "no effect"
    | some e =>
      if isActive e.status then
        .ok { u with observed := some (observe treeOf e (if readable then some u.repository else none)) }
      else .error "no effect"
  | .settle now =>
    match u.observed with
    | none => .error "no pass"
    | some observation => .ok { u with rows := u.rows.reconcileOne observation now, observed := none }
  | .abandon => .ok { u with observed := none }
  | .claimStep owner => .ok { u with rows := { u.rows with step := { u.rows.step with
      status := .leased, leaseOwner := some owner, leaseGeneration := u.rows.step.leaseGeneration + 1 } } }
  | .moveStep status => .ok { u with rows := { u.rows with step := { u.rows.step with status := status } } }
  | .changeApproval a => .ok { u with rows := { u.rows with approval := a } }
  | .changeDelivery state =>
    if state = .applied then .error "not delivered"
    else .ok { u with rows := { u.rows with worktree := { u.rows.worktree with deliveryState := state } } }
  | .changePackage p => .ok { u with rows := { u.rows with package := p } }
  | .changeRepository r => .ok { u with repository := { r with target := u.repository.target } }

def denies (u : Applying) : ApplyOp → Bool
  | .settle _ => u.observed.any (·.1 = .notApplied)
  | _ => false

def DeniesNoneUnderWay (u : Applying) (op : ApplyOp) : Prop :=
  u.denies op = true → ∀ a ∈ u.attempts, a.isLaunched = true → a.lease.generation ≠ u.rows.step.leaseGeneration

instance (u : Applying) (op : ApplyOp) : Decidable (u.DeniesNoneUnderWay op) :=
  inferInstanceAs (Decidable (_ → _))

abbrev Reaches (allow : Applying → ApplyOp → Prop) (s u : Applying) : Prop := Lib.Reach (perform treeOf res) allow s u

/-- A result that is approved and not applied: its commit is in its worktree only. -/
structure Fresh (s : Applying) : Prop where
  attempts : s.attempts = []
  observed : s.observed = none
  moves : s.moves = 0
  effect : s.rows.effect = none
  retained : s.rows.worktree.deliveryState ≠ .applied
  result : s.rows.worktree.resultCommit = res.change.resultCommit
  target : s.repository.target = some res.change.resultCommit → res.change.isNoOp

end Applying

end Vuzol.Execution
