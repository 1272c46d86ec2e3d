import Vuzol.Ops.Retention

/-! The rows that pin an artifact (`_artifact_skip_reason` of `ops/retention.py`): the diff pointers of worktrees,
    validation results and memory units. Most of the lookups are `FOR UPDATE SKIP LOCKED` and pass over a row that
    another transaction holds. -/

namespace Vuzol.Ops

/-- A row of `validation_results` or `memory_units` with the artifact that it names. -/
structure ProvenanceRow where
  id : Nat
  artifactId : Option Nat
  deriving DecidableEq

inductive Lookup where
  | liveWorktree | worktreeDiff | validationResult | memoryUnit

/-- The rows that other transactions hold at the moment of a lookup. A phase makes its lookups one after the other, and
    others may lock and release rows in between. -/
abbrev Held := Lookup → List Nat

structure Pinned where
  store : Retained
  results : List ProvenanceRow := []
  memories : List ProvenanceRow := []

namespace Pinned

def withStore (s : Pinned) (store : Retained) : Pinned := { s with store := store }

def referenceReason (s : Pinned) (held : Held) (id : Nat) : Option String :=
  if s.store.worktrees.any fun w => Retained.WorktreeRow.pointsAt w id && w.id ∉ held .worktreeDiff then
    some "referenced_by_worktree_diff"
  else if s.results.any fun r => r.artifactId = some id && r.id ∉ held .validationResult then
    some "referenced_by_validation_result"
  else if s.memories.any fun m => m.artifactId = some id && m.id ∉ held .memoryUnit then
    some "referenced_by_memory_provenance"
  else none

def artifactSkipReason (s : Pinned) (held : Held) : Retained.SkipReason :=
  s.store.skipReason fun a taskId => (s.store.artifactRuntime (held .liveWorktree) a taskId).or (s.referenceReason held a.id)

/-- A step of the sweep whose lookups pass over the rows that are held. -/
def sweepStep (s : Pinned) (op : RetentionOp) (held : Held) : Except String Retained :=
  match op, s.store.sweep with
  | .declareArtifact id, _ => s.store.whenIdle (s.store.declareArtifact (s.artifactSkipReason held) id)
  | .proceed _ _, .artifactDeclared id => .ok (s.store.checkArtifact (s.artifactSkipReason held) id)
  | .proceed _ _, .artifactFinalizing id => .ok (s.store.finalizeArtifact (s.artifactSkipReason held) id)
  | _, _ => s.store.perform op

inductive PinnedOp where
  | sweep (op : RetentionOp) (held : Held)
  | updateWorktree (w : WorktreeRow)
  | changeWork (work : WorkRows)
  | wait

def pointers (w : WorktreeRow) : Nat × Option Nat × Option Nat := (w.id, w.patchArtifactId, w.changedFilesArtifactId)

def perform (s : Pinned) : PinnedOp → Except String Pinned
  | .sweep op held => if op.isSweep then (s.sweepStep op held).map s.withStore else .error "no step of a sweep"
  | .updateWorktree w =>
    if pointers w ∈ s.store.worktrees.map pointers then .ok (s.withStore (s.store.putWorktree w))
    else .error "no worktree with these pointers"
  | .changeWork work =>
    .ok (s.withStore { s.store with work := { work with referenced := s.store.work.referenced } })
  | .wait => .ok (s.withStore { s.store with now := s.store.now + 1 })

def refersTo (s : Pinned) (id : Nat) : Bool :=
  s.store.worktrees.any (Retained.WorktreeRow.pointsAt · id) || s.results.any (·.artifactId = some id) ||
    s.memories.any (·.artifactId = some id)

def seesReference (s : Pinned) (held : Held) (id : Nat) : Bool :=
  (s.store.worktrees.any fun w => Retained.WorktreeRow.pointsAt w id && w.id ∉ held .worktreeDiff) ||
    (s.results.any fun r => r.artifactId = some id && r.id ∉ held .validationResult) ||
      s.memories.any fun m => m.artifactId = some id && m.id ∉ held .memoryUnit

def isNeeded (s : Pinned) (held : Held) (a : ArtifactRow) : Bool :=
  a.taskId.all fun taskId => (s.store.work.task? taskId).all fun task =>
    !isCleanable task.status || (s.store.artifactRuntime (held .liveWorktree) a taskId).isSome

/-- Before a sweep goes to the disk for a referenced artifact, and where it finalizes one in the phase of its intent, a
    row that refers to it is free, or something else needs it; where it finalizes one, its file is there. -/
def SeesReferences (s : Pinned) : PinnedOp → Bool
  | .sweep (.proceed _ _) held =>
    match s.store.sweep with
    | .artifactDeclared id => (s.store.artifact? id).all fun a =>
      a.cleanup ≠ some .intent || !s.refersTo id || s.seesReference held id || s.isNeeded held a
    | .artifactFinalizing id => (s.store.artifact? id).all fun a =>
      a.cleanup ≠ some .intent || !s.refersTo id ||
        ((s.seesReference held id || s.isNeeded held a) && !s.store.fileMissing a.path)
    | _ => true
  | _ => true

abbrev Reaches (allow : Pinned → PinnedOp → Prop) (s u : Pinned) : Prop := Lib.Reach perform allow s u

end Pinned

end Vuzol.Ops
