import Mathlib.Data.Char
import Mathlib.Data.List.Lex
import Vuzol.Lib.Url

/-! A result worktree as Git sees it (`LocalGit.inspect` and the commands of `execution/git.py` that finalize a result): the
    files, the index and the commit at `HEAD`, against the base commit.

    Git's diff is a parameter only in its text: a section of it is a path with the file before and after. -/

namespace Vuzol.Execution

open Vuzol.Lib

abbrev GitError := String

abbrev GitPath := Text

inductive FileMode where
  | regular | executable | symlink
  deriving DecidableEq

structure GitFile where
  mode : FileMode
  content : Bytes
  deriving DecidableEq

abbrev GitTree := GitPath → Option GitFile

structure GitCommit where
  id : Nat
  parent : Option Nat
  tree : GitTree

structure WorktreeBase where
  commit : GitCommit
  paths : List GitPath
  sorted : paths.Pairwise (· < ·)

/-- The checkout: its files (without ignored ones), its index and its `HEAD`; `nextCommit` makes the ids of commits new. -/
structure Checkout where
  files : GitTree
  index : GitTree
  head : GitCommit
  branch : String
  nextCommit : Nat

structure DiffSection where
  path : GitPath
  before : Option GitFile
  after : Option GitFile
  deriving DecidableEq

abbrev GitDiff := List DiffSection

abbrev DiffHash := GitDiff

structure GitInspection where
  head : Nat
  branch : String
  changedFiles : List GitPath
  diff : GitDiff

def GitInspection.diffHash (i : GitInspection) : DiffHash := i.diff

namespace Checkout

variable (b : WorktreeBase) (c : Checkout)

/-- What `git diff` compares with the base: the file of a path that is in the index. -/
def tracked (p : GitPath) : Option GitFile := if (c.index p).isSome then c.files p else none

/-- `git diff --name-only base`. -/
def trackedChanges : List GitPath := b.paths.filter fun p => b.commit.tree p ≠ c.tracked p

/-- `git ls-files --others`. -/
def untracked : List GitPath := b.paths.filter fun p => c.index p = none ∧ c.files p ≠ none

def changedFiles : List GitPath := b.paths.filter fun p => p ∈ c.trackedChanges b ∨ p ∈ c.untracked b

def diff : GitDiff :=
  ((c.trackedChanges b).map fun p => { path := p, before := b.commit.tree p, after := c.tracked p }) ++
    (c.untracked b).map fun p => { path := p, before := none, after := c.files p }

/-- `inspect(path, base_commit)`. -/
def inspect : GitInspection where
  head := c.head.id
  branch := c.branch
  changedFiles := c.changedFiles b
  diff := c.diff b

/-- `git status` prints nothing. -/
def Clean : Prop := ∀ p ∈ b.paths, c.index p = c.files p ∧ c.head.tree p = c.index p

instance : Decidable (c.Clean b) := inferInstanceAs (Decidable (∀ p ∈ b.paths, _))

def requireCleanWorktree : Except GitError Unit := raiseIf (¬c.Clean b) "finalized worktree is dirty"

/-- `stage_paths`: `git add --all` refuses a path that is neither in the index nor in the worktree. -/
def stagePaths (paths : List GitPath) : Except GitError Checkout := do
  raiseIf (paths = []) "cannot stage an empty path set"
  raiseIf (∃ p ∈ paths, c.index p = none ∧ c.files p = none) "pathspec did not match any files"
  .ok { c with index := fun p => if p ∈ paths then c.files p else c.index p }

def createCommit : Except GitError Checkout := do
  raiseIf (∀ p ∈ b.paths, c.head.tree p = c.index p) "nothing to commit"
  .ok { c with head := { id := c.nextCommit, parent := some c.head.id, tree := c.index }, nextCommit := c.nextCommit + 1 }

/-- `amend_commit` of a commit whose parent is the base. -/
def amendCommit : Except GitError Checkout := do
  raiseIf (∀ p ∈ b.paths, b.commit.tree p = c.index p) "amend would make the commit empty"
  .ok { c with head := { id := c.nextCommit, parent := c.head.parent, tree := c.index }, nextCommit := c.nextCommit + 1 }

end Checkout

/-- `bytes.splitlines(keepends=True)`. -/
def splitLines : Bytes → List Bytes
  | [] => []
  | 13 :: 10 :: rest => [13, 10] :: splitLines rest
  | x :: rest =>
    if x = 10 ∨ x = 13 then [x] :: splitLines rest
    else
      match splitLines rest with
      | [] => [[x]]
      | line :: lines => (x :: line) :: lines

/-- `rstrip(b" \t")`. -/
def stripBlanks (line : Bytes) : Bytes := line.rdropWhile fun x => x = 32 || x = 9

def normalizeLine (line : Bytes) : Bytes :=
  if [13, 10].isSuffixOf line then stripBlanks (line.take (line.length - 2)) ++ [13, 10]
  else if [10].isSuffixOf line then stripBlanks (line.take (line.length - 1)) ++ [10]
  else stripBlanks line

def dropLineEnds : Bytes → Bytes
  | 10 :: 13 :: rest => dropLineEnds rest
  | 10 :: rest => dropLineEnds rest
  | rest => rest

def normalizeBytes (content : Bytes) : Bytes :=
  let normalized := ((splitLines content).map normalizeLine).flatten
  if [10].isSuffixOf normalized then
    (dropLineEnds normalized.reverse).reverse ++ if [13, 10].isSuffixOf normalized then [13, 10] else [10]
  else normalized

def normalizeFile (f : GitFile) : GitFile :=
  if f.mode = .symlink ∨ 0 ∈ f.content then f else { f with content := normalizeBytes f.content }

/-- `_normalize_blank_lines_at_eof` of the changed files, when it is through. -/
def Checkout.normalized (b : WorktreeBase) (c : Checkout) : Checkout :=
  { c with files := fun p => if p ∈ c.changedFiles b then (c.files p).map normalizeFile else c.files p }

end Vuzol.Execution
