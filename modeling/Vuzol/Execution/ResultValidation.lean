import Vuzol.Execution.Inspection
import Vuzol.Lib.Program

/-! The validation of a code result (`ResultValidationHandler` in `execution/result_validation.py`) as a program that rewrites
    files, stages, commits and persists, and can stop before any of these; and what takes over its diff hash: `retain`, the
    review and the approval envelope. -/

namespace Vuzol.Execution

open Vuzol.Lib

abbrev ValidationError := String

structure ResultRow where
  branch : String
  resultCommit : Option Nat := none
  diffHash : Option DiffHash := none

structure ValidationState where
  checkout : Checkout
  row : ResultRow

/-- `WorktreeService.retain`. -/
def retain (b : WorktreeBase) (s : ValidationState) : ValidationState :=
  { s with row := { s.row with resultCommit := some s.checkout.head.id, diffHash := some (s.checkout.inspect b).diffHash } }

/-- The checks of a result that do not depend on Git: forbidden names, the scaffold's gate, secrets and blocking patterns in
    the diff, the required gates (which change nothing), and `git diff --cached --check`. -/
structure ResultPolicy where
  prohibited : GitPath → Bool
  scaffoldViolation : GitTree → List GitPath → Bool
  secret : GitDiff → Bool
  blocking : GitDiff → Bool
  gatesPass : GitTree → Bool
  diffCheck : GitTree → GitTree → Bool

inductive ResultKind where
  | noChange | recovered | alreadyFinalized | created
  deriving DecidableEq

/-- `_success_payload`. -/
structure ValidationEvidence where
  kind : ResultKind
  baseCommit : Nat
  resultCommit : Nat
  branch : String
  changedFiles : List GitPath
  diffHash : DiffHash
  deriving DecidableEq

inductive ValidationCommand where
  | query
  | write (path : GitPath) (f : GitFile)
  | stage (paths : List GitPath)
  | commit
  | amend
  | persist (e : ValidationEvidence)

def ValidationState.git (s : ValidationState) : Except GitError Checkout → ValidationState
  | .ok checkout => { s with checkout }
  | .error _ => s

def ValidationCommand.perform (b : WorktreeBase) : ValidationCommand → ValidationState → ValidationState
  | .query, s => s
  | .write path f, s => { s with checkout := { s.checkout with files := Function.update s.checkout.files path (some f) } }
  | .stage paths, s => s.git (s.checkout.stagePaths paths)
  | .commit, s => s.git (s.checkout.createCommit b)
  | .amend, s => s.git (s.checkout.amendCommit b)
  | .persist e, s => { s with row := { s.row with resultCommit := some e.resultCommit, diffHash := some e.diffHash } }

abbrev ValidationProgram (α : Type) := Program ValidationState ValidationCommand ValidationError α

namespace ValidationProgram

abbrev read : ValidationProgram ValidationState := Program.observe .query

abbrev exec (c : ValidationCommand) : ValidationProgram Unit := Program.command c

def check {α : Type} : Except ValidationError α → ValidationProgram α
  | .ok a => .ret a
  | .error e => .raise e

end ValidationProgram

open ValidationProgram

section Stages
variable (b : WorktreeBase) (policy : ResultPolicy) (amendRepaired : Bool)

def amends (row : ResultRow) : Bool := amendRepaired && row.resultCommit ≠ some b.commit.id

def finalization : Except GitError Unit → Except ValidationError Unit := Except.mapError fun _ => "validation_git_finalization"

/-- `commit_parent`, which must be the base. -/
def requireChildOfBase (c : Checkout) : Except ValidationError Unit := do
  raiseIf (c.head.parent = none) "validation_git_finalization"
  raiseIf (c.head.parent ≠ some b.commit.id) "validation_commit_ancestry"

/-- `_validate` up to the normalisation: whether `HEAD` is a commit that an earlier attempt made. -/
def recognize (s : ValidationState) : Except ValidationError (Option ResultKind) := do
  let i := s.checkout.inspect b
  raiseIf (i.branch ≠ s.row.branch) "validation_branch_mismatch"
  if amends b amendRepaired s.row then
    raiseIf (s.row.resultCommit ≠ some i.head) "validation_repair_head_mismatch"
    requireChildOfBase b s.checkout
    .ok none
  else if i.head = b.commit.id then .ok none
  else
    raiseIf (¬(s.row.diffHash = some i.diffHash ∧
      (s.row.resultCommit = some b.commit.id ∨ s.row.resultCommit = some i.head))) "validation_precommitted"
    finalization (s.checkout.requireCleanWorktree b)
    requireChildOfBase b s.checkout
    .ok (some (if s.row.resultCommit = some b.commit.id then .recovered else .alreadyFinalized))

/-- `candidate.write_bytes`: the file is truncated, and `cuts` says how much of it stands there in between. -/
def writeBytes (cuts : GitPath → List Nat) (path : GitPath) (f : GitFile) : ValidationProgram Unit := do
  (0 :: cuts path).forM fun n => exec (.write path { f with content := f.content.take n })
  exec (.write path f)

/-- `_normalize_blank_lines_at_eof`. -/
def normalize (cuts : GitPath → List Nat) (c : Checkout) : ValidationProgram Unit :=
  (c.changedFiles b).forM fun path =>
    match c.files path with
    | none => .ret ()
    | some f => if normalizeFile f = f then .ret () else writeBytes cuts path (normalizeFile f)

def ResultPolicy.check (files : GitTree) (i : GitInspection) : Except ValidationError Unit := do
  raiseIf (∃ p ∈ i.changedFiles, policy.prohibited p) "validation_prohibited_path"
  raiseIf (policy.scaffoldViolation files i.changedFiles) "validation_scaffold_gate"
  raiseIf (policy.secret i.diff) "validation_failed"
  raiseIf (policy.blocking i.diff) "validation_suspicious_diff"
  raiseIf (!policy.gatesPass files) "validation_gate_failed"

/-- `_validate` between the normalisation and the commit; the evidence is there if nothing is to be committed. -/
def examine (finalized : Option ResultKind) (s : ValidationState) : Except ValidationError (Option ValidationEvidence) := do
  let i := s.checkout.inspect b
  let evidence (kind : ResultKind) (resultCommit : Nat) : ValidationEvidence :=
    { kind, baseCommit := b.commit.id, resultCommit, branch := i.branch, changedFiles := i.changedFiles,
      diffHash := i.diffHash }
  if i.changedFiles = [] ∧ finalized = none ∧ amendRepaired = false then
    raiseIf (¬s.checkout.Clean b) "validation_failed"
    policy.check s.checkout.files i
    .ok (some (evidence .noChange b.commit.id))
  else
    raiseIf (i.changedFiles = []) "validation_empty_change"
    policy.check s.checkout.files i
    .ok (finalized.map fun kind => evidence kind i.head)

/-- The commit that the host makes of the measured files. -/
def finalize (row : ResultRow) (i : GitInspection) : ValidationProgram ValidationEvidence := do
  let s ← read
  let _ ← check ((s.checkout.stagePaths i.changedFiles).mapError fun _ => "validation_git_finalization")
  exec (.stage i.changedFiles)
  let s ← read
  check (raiseIf (!policy.diffCheck s.checkout.head.tree s.checkout.index) "validation_git_finalization")
  if amends b amendRepaired row then
    let _ ← check ((s.checkout.amendCommit b).mapError fun _ => "validation_git_finalization")
    exec .amend
  else
    let _ ← check ((s.checkout.createCommit b).mapError fun _ => "validation_git_finalization")
    exec .commit
  let s ← read
  check (requireChildOfBase b s.checkout)
  check (finalization (s.checkout.requireCleanWorktree b))
  let final := s.checkout.inspect b
  .ret
    { kind := .created, baseCommit := b.commit.id, resultCommit := final.head, branch := final.branch,
      changedFiles := if final.changedFiles = [] then i.changedFiles else final.changedFiles, diffHash := i.diffHash }

/-- `_validate` and `_persist`. -/
def validate (cuts : GitPath → List Nat) : ValidationProgram ValidationEvidence := do
  let s ← read
  let finalized ← check (recognize b amendRepaired s)
  if finalized = none then normalize b cuts s.checkout else .ret ()
  let s ← read
  let settled ← check (examine b policy amendRepaired finalized s)
  let evidence ← match settled with
    | some evidence => .ret evidence
    | none => finalize b policy amendRepaired s.row (s.checkout.inspect b)
  exec (.persist evidence)
  .ret evidence

end Stages

/-- `_review` up to its `measured_diff_hash`, which every verdict carries. -/
def measuredDiffHash (b : WorktreeBase) (s : ValidationState) : Except ValidationError DiffHash := do
  raiseIf (¬s.checkout.Clean b) "finalized worktree is dirty"
  raiseIf (some (s.checkout.inspect b).head ≠ s.row.resultCommit) "worktree HEAD does not match the retained result commit"
  raiseIf ((s.checkout.inspect b).branch ≠ s.row.branch) "worktree branch does not match the prepared task branch"
  .ok (s.row.diffHash.getD (s.checkout.inspect b).diffHash)

/-- The `diff_hash` of the review evidence in the approval envelope. -/
def approvedDiffHash (row : ResultRow) (verdict : DiffHash) : Except ValidationError DiffHash := do
  raiseIf (some verdict ≠ row.diffHash) "review evidence does not match the retained result"
  .ok verdict

end Vuzol.Execution
