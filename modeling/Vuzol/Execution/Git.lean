import Vuzol.Lib.Machine

/-! Applying a result to the managed repository (`LocalGit.apply_result` in `execution/git.py`). Git itself is not
    modelled: a repository is what the commands of `apply_result` ask of it, for one target branch. -/

namespace Vuzol.Execution

structure Change where
  targetBranch : String
  expectedHead : String
  resultCommit : String
  deriving DecidableEq

abbrev Change.isNoOp (c : Change) : Prop := c.resultCommit = c.expectedHead

/-- The isolated worktree of the result. -/
structure ResultWorktree where
  clean : Bool := true
  hasRemote : Bool := false
  head : Option String
  /-- `commit_parent` of the result. -/
  parent : Option String
  /-- `is_ancestor` of the expected head and the result. -/
  descends : Bool := true
  /-- `FETCH_HEAD` after a fetch of the result. -/
  fetched : Option String

structure Repository where
  target : Option String
  /-- `HEAD` is the target branch. -/
  checkedOut : Bool := false
  /-- The commit of `HEAD` when it is not. -/
  otherHead : Option String := none
  files : Option String := none
  untracked : Bool := false
  inProgress : Bool := false
  /-- `is_ancestor` of the expected head and the parent of the result. -/
  parentDescends : Bool := false
  deriving DecidableEq

namespace Repository

variable (treeOf : String → String)

def head (r : Repository) : Option String := if r.checkedOut then r.target else r.otherHead

/-- `require_clean_source`. -/
def isClean (r : Repository) : Bool := r.files = r.head.map treeOf && !r.untracked && !r.inProgress

def treeMatchesCommit (r : Repository) (commit : String) : Bool := r.files = some (treeOf commit) && !r.untracked

/-- `git reset --hard` of the checked out target. -/
def reset (r : Repository) (commit : String) : Repository :=
  { r with target := some commit, files := some (treeOf commit) }

def recover (r : Repository) (c : Change) : Except String Repository :=
  if r.checkedOut = false ∨ r.treeMatchesCommit treeOf c.resultCommit then .ok r
  else if ¬r.treeMatchesCommit treeOf c.expectedHead then .error "managed worktree diverged during apply recovery"
  else if ¬(r.reset treeOf c.resultCommit).treeMatchesCommit treeOf c.resultCommit then
    .error "managed worktree did not recover to the approved result"
  else .ok (r.reset treeOf c.resultCommit)

/-- How `apply_result` goes on after it has read the branch. -/
inductive Verdict where
  | returns
  | advances (targetExists : Bool)

/-- `apply_result` up to the update of the branch. -/
def examine (r : Repository) (c : Change) (w : ResultWorktree) : Except String (Repository × Verdict) :=
  if ¬w.clean then .error "finalized worktree is dirty"
  else if w.hasRemote then .error "isolated worktree unexpectedly has a remote"
  else if c.isNoOp then
    if w.head ≠ some c.resultCommit then .error "no-change worktree differs from the approved base"
    else if ¬r.isClean treeOf then .error "source repository is dirty"
    else if r.target.getD c.expectedHead ≠ c.expectedHead then .error "target branch changed after the result was produced"
    else .ok (r, .returns)
  else
    match w.parent with
    | none => .error "unknown revision"
    | some parent =>
      if parent ≠ c.expectedHead ∧ w.descends = false ∧ r.parentDescends = false then
        .error "result commit is not a descendant of the approved base"
      else if r.target.getD c.expectedHead = c.resultCommit then do .ok (← r.recover treeOf c, .returns)
      else if r.target.getD c.expectedHead ≠ c.expectedHead then .error "target branch changed after the result was produced"
      else if r.checkedOut ∧ ¬r.isClean treeOf then .error "source repository is dirty"
      else if w.fetched ≠ some c.resultCommit then .error "fetched result identity does not match the approval"
      else .ok (r, .advances r.target.isSome)

/-- `git update-ref` with the old value: the compare-and-swap. -/
def updateRef (r : Repository) (c : Change) (targetExists : Bool) : Except String Repository :=
  if r.target = (if targetExists then some c.expectedHead else none) then .ok { r with target := some c.resultCommit }
  else .error "cannot lock ref"

/-- `apply_result` after the update. -/
def align (r : Repository) (c : Change) : Except String Repository :=
  if r.target ≠ some c.resultCommit then .error "target branch did not advance to the approved result"
  else .ok (if r.checkedOut then r.reset treeOf c.resultCommit else r)

/-- `apply_result` where nobody else touches the repository. -/
def applyResult (r : Repository) (c : Change) (w : ResultWorktree) : Except String (Repository × Bool) := do
  let (r, verdict) ← r.examine treeOf c w
  match verdict with
  | .returns => .ok (r, false)
  | .advances targetExists => do
    let r ← r.updateRef c targetExists
    .ok (← r.align treeOf c, true)

end Repository

end Vuzol.Execution
