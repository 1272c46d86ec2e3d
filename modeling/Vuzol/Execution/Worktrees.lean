import Vuzol.Lib.Program
import Vuzol.Lib.Rows
import Vuzol.Lib.Uuid

/-! Preparing the worktree of a run (`WorktreeService.prepare` in `execution/worktrees.py` and `LocalGit.add_worktree` in
    `execution/git.py`): a program of file operations that ends with the commit of its transaction and can stop before any of
    them.

    The advisory lock and the locked row of the package keep other transactions out of an attempt; the branches of the source
    repository move whenever others move them. -/

namespace Vuzol.Execution.Worktrees

open Vuzol.Lib

abbrev Commit := String
abbrev Branch := String

/-- `rev-parse --verify` in the source repository: the commit of a branch, or of a commit that is there. -/
abbrev Refs := String → Option Commit

/-- `ProjectConfig`; its pattern for `id` is stricter than the check of `worktree_path`. -/
structure ProjectConfig where
  id : String
  defaultBranch : Branch

structure MaterializationLink where
  taskId : Uuid
  workPackageId : Uuid
  planRevisionId : Uuid

structure ManagedGoal where
  id : Uuid
  integrationBranch : Branch

structure WorkPackage where
  id : Uuid
  managedGoalId : Option Uuid
  integrationBranch : Option Branch
  integrationTargetBranch : Option Branch
  integrationBaseCommit : Option Commit
  integrationHeadCommit : Option Commit

/-- A row of `worktrees`. -/
structure Worktree where
  id : Uuid
  taskId : Uuid
  runId : Uuid
  projectId : String
  repositoryIdentityHash : String
  baseCommit : Commit
  defaultBranch : Branch
  expectedTargetHead : Commit
  branch : Branch
  path : String
  owner : String
  deriving DecidableEq

structure Database where
  worktrees : List Worktree := []
  links : List MaterializationLink := []
  packages : List WorkPackage := []
  goals : List ManagedGoal := []

/-- A standalone repository; what `git init`, `git fetch` and `git checkout` have put there so far. -/
structure Directory where
  branch : Option Branch := none
  fetched : Option Commit := none
  head : Option Commit := none
  deriving DecidableEq

structure World where
  db : Database
  refs : Refs
  clean : Bool
  directories : String → Option Directory

inductive Command where
  | query
  | advance (move : Refs → Refs)
  | mkdir (path : String)
  | init (path : String) (branch : Branch)
  | fetch (path : String) (base : Commit)
  | checkout (path : String) (branch : Branch)
  | wipe (path : String)
  | rmdir (path : String)
  | commit (package : Option WorkPackage) (row : Option Worktree)

def World.setDirectory (w : World) (path : String) (d : Option Directory) : World :=
  { w with directories := Function.update w.directories path d }

def Database.commit (db : Database) (package : Option WorkPackage) (row : Option Worktree) : Database :=
  { db with packages := package.elim db.packages fun p => put (·.id) p db.packages,
            worktrees := db.worktrees ++ row.toList }

def Command.perform : Command → World → World
  | .query, w => w
  | .advance move, w => { w with refs := move w.refs }
  | .mkdir path, w => w.setDirectory path (some { })
  | .init path branch, w => w.setDirectory path ((w.directories path).map fun d => { d with branch := some branch })
  | .fetch path base, w => w.setDirectory path ((w.directories path).map fun d => { d with fetched := some base })
  | .checkout path branch, w =>
    w.setDirectory path ((w.directories path).map fun d => { d with branch := some branch, head := d.fetched })
  | .wipe path, w => w.setDirectory path ((w.directories path).map fun _ => { })
  | .rmdir path, w => w.setDirectory path none
  | .commit package row, w => { w with db := w.db.commit package row }

/-- A `WorktreeError`, `GitError` or `IntegrityError`, by its message. -/
abbrev Attempt (α : Type) := Program World Command String α

namespace Attempt

abbrev read : Attempt World := Program.observe .query

abbrev exec (c : Command) : Attempt Unit := Program.command c

abbrev failIf (p : Prop) [Decidable p] (message : String) : Attempt Unit := Program.failIf p message

def found {α : Type} (a : Option α) (message : String) : Attempt α :=
  match a with
  | none => .raise message
  | some a => .ret a

end Attempt

open Attempt

/-- The reads of `prepare` in the source repository. -/
inductive Read where
  | defaultBranch | goalBranch | fallback | head

/-- `resolve_commit`, after others moved the branches. -/
def resolve (moves : Read → Refs → Refs) (at_ : Read) (ref : String) : Attempt (Option Commit) := do
  exec (.advance (moves at_))
  let w ← read
  .ret (w.refs ref)

def resolveCommit (moves : Read → Refs → Refs) (at_ : Read) (ref : String) : Attempt Commit := do
  let commit ← resolve moves at_ ref
  found commit "Needed a single revision"

def WorkPackage.bind (package : WorkPackage) (branch target : Branch) (base : Commit) : WorkPackage :=
  { package with integrationBranch := some branch, integrationTargetBranch := some target,
                 integrationBaseCommit := some base, integrationHeadCommit := some base }

/-- The package of a managed goal builds on the branch of the goal, or on the default branch while that does not exist. -/
def bindManaged (moves : Read → Refs → Refs) (db : Database) (project : ProjectConfig) (package : WorkPackage) :
    Attempt WorkPackage :=
  match package.managedGoalId, package.integrationBranch with
  | some goalId, none => do
    let goal ← found (db.goals.find? (·.id = goalId)) "managed package has no goal"
    let tip ← resolve moves .goalBranch goal.integrationBranch
    let base ← match tip with
      | some base => .ret base
      | none => resolveCommit moves .fallback project.defaultBranch
    .ret (package.bind goal.integrationBranch goal.integrationBranch base)
  | _, _ => .ret package

/-- `f"vuzol/package/{package.id.hex}/{plan_revision_id.hex[:12]}"`. -/
def packageBranch (link : MaterializationLink) (package : WorkPackage) : Branch :=
  "vuzol/package/" ++ String.ofList package.id.hex ++ "/" ++ String.ofList (link.planRevisionId.hex.take 12)

/-- `prepare` up to its `base` and `target_branch`; with them the package as it will be stored. -/
def resolveBase (moves : Read → Refs → Refs) (db : Database) (taskId : Uuid) (project : ProjectConfig) :
    Attempt (Commit × Branch × Option WorkPackage) := do
  let base ← resolveCommit moves .defaultBranch project.defaultBranch
  match db.links.find? (·.taskId = taskId) with
  | none => .ret (base, project.defaultBranch, none)
  | some link => do
    let package ← found (db.packages.find? (·.id = link.workPackageId)) "materialized task has no work package"
    let package ← bindManaged moves db project package
    let targetBranch := package.integrationBranch.getD (packageBranch link package)
    let package :=
      if package.integrationBranch = none then package.bind targetBranch project.defaultBranch base else package
    let head ← found package.integrationHeadCommit "assert package.integration_head_commit is not None"
    let base ← resolveCommit moves .head head
    .ret (base, targetBranch, some package)

/-- The run, and the service that prepares it: `root`, and `repository_identity` of the project's repository. -/
structure Request where
  taskId : Uuid
  runId : Uuid
  project : ProjectConfig
  root : String
  identity : String

/-- `worktree_path`. -/
def Request.path (r : Request) : String := r.root ++ "/" ++ r.project.id ++ "/" ++ String.ofList r.runId.str

/-- `worktree_branch`. -/
def Request.branch (r : Request) : Branch :=
  "vuzol/task-" ++ String.ofList r.taskId.str ++ "-run-" ++ String.ofList (r.runId.str.take 12)

inductive Call where
  | init | fetch | checkout | remote | inspect | flush
  deriving DecidableEq

structure Trial where
  owner : String
  rowId : Uuid
  moves : Read → Refs → Refs
  fault : Option Call

/-- `shutil.rmtree`, and the error again. -/
def cleanUp {α : Type} (path message : String) : Attempt α := do
  exec (.wipe path)
  exec (.rmdir path)
  .raise message

/-- A call inside `try`, and what it does. -/
def guarded (path : String) (fault : Option Call) (call : Call) (c : Command) : Attempt Unit :=
  if fault = some call then cleanUp path "interrupted" else exec c

/-- `LocalGit.add_worktree`. -/
def addWorktree (path : String) (branch : Branch) (base : Commit) (fault : Option Call) : Attempt Unit := do
  exec .query
  exec (.mkdir path)
  guarded path fault .init (.init path branch)
  guarded path fault .fetch (.fetch path base)
  guarded path fault .checkout (.checkout path branch)
  guarded path fault .remote .query

/-- The unique constraints of `worktrees`. -/
def Database.conflicts (db : Database) (row : Worktree) : Bool :=
  db.worktrees.any fun x => x.runId = row.runId || x.path = row.path ||
    (x.projectId = row.projectId && x.repositoryIdentityHash = row.repositoryIdentityHash && x.branch = row.branch)

/-- The row of an attempt. -/
def Request.row (r : Request) (trial : Trial) (base : Commit) (targetBranch : Branch) : Worktree where
  id := trial.rowId
  taskId := r.taskId
  runId := r.runId
  projectId := r.project.id
  repositoryIdentityHash := r.identity
  baseCommit := base
  defaultBranch := targetBranch
  expectedTargetHead := base
  branch := r.branch
  path := r.path
  owner := trial.owner

def Request.Agrees (r : Request) (existing : Worktree) (base : Commit) : Prop :=
  existing.taskId = r.taskId ∧ existing.projectId = r.project.id ∧ existing.repositoryIdentityHash = r.identity ∧
    existing.baseCommit = base ∧ existing.branch = r.branch ∧ existing.path = r.path

instance (r : Request) (existing : Worktree) (base : Commit) : Decidable (r.Agrees existing base) :=
  inferInstanceAs (Decidable (_ ∧ _))

/-- `prepare` for a run without a row. -/
def create (r : Request) (trial : Trial) (base : Commit) (targetBranch : Branch) : Attempt Worktree := do
  let w ← read
  failIf (w.clean = false) "source repository is dirty"
  failIf (w.directories r.path ≠ none) "derived worktree path already exists without a record"
  addWorktree r.path r.branch base trial.fault
  guarded r.path trial.fault .inspect .query
  let w ← read
  let inspected := (w.directories r.path).getD { }
  if inspected.head ≠ some base ∨ inspected.branch ≠ some r.branch then
    cleanUp r.path "created worktree identity is invalid"
  else if trial.fault = some .flush then cleanUp r.path "interrupted"
  else if w.db.conflicts (r.row trial base targetBranch) then
    cleanUp r.path "duplicate key value violates unique constraint"
  else .ret (r.row trial base targetBranch)

/-- `WorktreeService.prepare`, and the commit of the caller's transaction. -/
def prepare (r : Request) (trial : Trial) : Attempt Worktree := do
  let w ← read
  let (base, targetBranch, package) ← resolveBase trial.moves w.db r.taskId r.project
  match w.db.worktrees.find? (·.runId = r.runId) with
  | some existing => do
    failIf (¬r.Agrees existing base) "persisted worktree identity does not match the request"
    let w ← read
    failIf (w.directories r.path = none) "No such file or directory"
    exec (.commit package none)
    .ret existing
  | none => do
    let row ← create r trial base targetBranch
    exec (.commit package (some row))
    .ret row

/-- An attempt for the run that may be killed after so many commands, or what others do: they move branches, write rows and
    make directories, but neither the row nor the directory of the run. -/
inductive Op where
  | prepare (trial : Trial) (killed : Option Nat)
  | others (w : World)

def World.step (r : Request) (w : World) : Op → Except Unit World
  | .prepare trial (some n) => .ok ((Worktrees.prepare r trial).interrupted Command.perform n w)
  | .prepare trial none => .ok ((Worktrees.prepare r trial).run Command.perform w).2
  | .others w' => do
    raiseIf (w'.db.worktrees.filter (·.runId = r.runId) ≠ w.db.worktrees.filter (·.runId = r.runId) ∨
      w'.directories r.path ≠ w.directories r.path) ()
    .ok w'

end Vuzol.Execution.Worktrees
