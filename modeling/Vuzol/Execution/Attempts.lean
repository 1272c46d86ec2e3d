import Vuzol.Execution.Git
import Vuzol.Lib.Program

/-! `apply_result` and `fast_forward` of `execution/git.py` as programs of Git commands, so that a process can die
    between any two of them. -/

namespace Vuzol.Execution

open Vuzol.Lib

/-- The commands that the two functions run. `query` is any command that changes nothing in the repository. -/
inductive Command where
  | query
  | fetch
  | updateRef (commit : String) (old : Option String)
  | reset (commit : String)

/-- `git update-ref` compares the old value and swaps; a fetch adds objects only. -/
def Command.perform (treeOf : String → String) : Command → Repository → Repository
  | .query, r | .fetch, r => r
  | .updateRef commit old, r => if r.target = old then { r with target := some commit } else r
  | .reset commit, r => r.reset treeOf commit

def Command.isUpdateRef : Command → Bool
  | .updateRef .. => true
  | _ => false

def Command.isReset : Command → Bool
  | .reset _ => true
  | _ => false

abbrev GitProgram (α : Type) := Program Repository Command String α

namespace GitProgram

def ask {α : Type} (f : Repository → α) : GitProgram α := .exec .query fun r => .ret (f r)

def require (f : Repository → Bool) (message : String) : GitProgram Unit :=
  .exec .query fun r => if f r then .ret () else .raise message

def fetch : GitProgram Unit := .exec .fetch fun _ => .ret ()

def updateRef (commit : String) (old : Option String) : GitProgram Unit :=
  .exec (.updateRef commit old) fun r => if r.target = old then .ret () else .raise "cannot lock ref"

def reset (commit : String) : GitProgram Unit := .exec (.reset commit) fun _ => .ret ()

variable (treeOf : String → String)

def requireCleanSource : GitProgram Unit := do
  require (fun r => r.files = r.head.map treeOf && !r.untracked) "source repository is dirty"
  require (fun r => !r.inProgress) "source repository has an in-progress Git operation"

def treeMatchesCommit (commit : String) : GitProgram Bool := do
  let tracked ← ask fun r => decide (r.files = some (treeOf commit))
  let untracked ← ask fun r => r.untracked
  return tracked && !untracked

/-- `apply_result` of a result that is the base. -/
def applyNoOp (c : Change) (w : ResultWorktree) : GitProgram Bool := do
  require (fun _ => w.head = some c.resultCommit) "no-change worktree differs from the approved base"
  requireCleanSource treeOf
  let current ← ask fun r => r.target
  if current.getD c.expectedHead ≠ c.expectedHead then .raise "target branch changed after the result was produced"
  else return false

/-- The branch is at the result already. -/
def recover (c : Change) (checkedOut : Bool) : GitProgram Bool := do
  if checkedOut then
    if (← treeMatchesCommit treeOf c.resultCommit) then return false
    else if !(← treeMatchesCommit treeOf c.expectedHead) then
      .raise "managed worktree diverged during apply recovery"
    else do
      reset c.resultCommit
      if !(← treeMatchesCommit treeOf c.resultCommit) then
        .raise "managed worktree did not recover to the approved result"
      else return false
  else return false

/-- The branch is at the base, or does not exist. -/
def advance (c : Change) (w : ResultWorktree) (target : Option String) (checkedOut : Bool) : GitProgram Bool := do
  if checkedOut then requireCleanSource treeOf
  fetch
  require (fun _ => w.fetched = some c.resultCommit) "fetched result identity does not match the approval"
  updateRef c.resultCommit (if target.isSome then some c.expectedHead else none)
  require (fun r => r.target = some c.resultCommit) "target branch did not advance to the approved result"
  if checkedOut then do
    reset c.resultCommit
    require (fun r => r.head = some c.resultCommit) "managed worktree did not reset to the approved result"
  return true

def requireDescendant (c : Change) (w : ResultWorktree) : GitProgram Unit := do
  require (fun _ => w.parent.isSome) "unknown revision"
  if w.parent ≠ some c.expectedHead then
    if !(← ask fun _ => w.descends) then
      require (fun r => r.parentDescends) "result commit is not a descendant of the approved base"

/-- `LocalGit.apply_result`. -/
def applyResult (c : Change) (w : ResultWorktree) : GitProgram Bool := do
  require (fun _ => w.clean) "finalized worktree is dirty"
  require (fun _ => !w.hasRemote) "isolated worktree unexpectedly has a remote"
  if c.isNoOp then applyNoOp treeOf c w
  else do
    requireDescendant c w
    let checkedOut ← ask fun r => r.checkedOut
    let target ← ask fun r => r.target
    if target.getD c.expectedHead = c.resultCommit then recover treeOf c checkedOut
    else if target.getD c.expectedHead ≠ c.expectedHead then
      .raise "target branch changed after the result was produced"
    else advance treeOf c w target checkedOut

inductive FastForward where
  | advanced | already | diverged

/-- The branch has moved on independently. `isAncestor`: `merge-base --is-ancestor`. -/
def diverges (isAncestor : String → String → Bool) (commit : String) : Option String → GitProgram Bool
  | none => return false
  | some tip => ask fun _ => !isAncestor tip commit

/-- `LocalGit.fast_forward`. -/
def fastForward (isAncestor : String → String → Bool) (commit : String) : GitProgram FastForward := do
  let current ← ask fun r => r.target
  if current = some commit then return .already
  else if (← diverges isAncestor commit current) then return .diverged
  else do
    let checkedOut ← ask fun r => r.checkedOut
    if checkedOut then requireCleanSource treeOf
    updateRef commit current
    require (fun r => r.target = some commit) "target branch did not advance to the accepted result"
    if checkedOut then do
      reset commit
      require (fun r => r.head = some commit) "checked-out branch did not reset to the accepted result"
    return .advanced

end GitProgram

end Vuzol.Execution
