import Vuzol.Execution.Effects
import Vuzol.Lib.Rows

/-! The retention sweeper (`ops/retention.py`) in apply mode, phase by phase, with `ArtifactStore.persist`
    (`execution/artifacts.py`) and `pin_artifacts_for_audit`. A phase is a transaction or a piece of work on the disk;
    the advisory lock lets one sweep run at a time, and a crash ends it after any phase.

    A page of a sweep is not modelled: a sweep may take any row next. -/

namespace Vuzol.Ops

open Vuzol.Execution (WorktreeDeliveryState)
open Vuzol.Workflow (ApprovalStatus StepStatus TaskStatus)

/-! ### Rows -/

inductive ArtifactStorageState where
  | staging | available | quarantined | missing | deleted
  deriving DecidableEq

inductive ProcessStatus where
  | starting | running | terminating | exited | unknown
  deriving DecidableEq

inductive ArtifactPath where
  | content (digest : String)
  | other (path : String)
  deriving DecidableEq

/-- `metadata_json["retention_cleanup"]`. -/
inductive CleanupPhase where
  | intent
  | externalDone (fileRemoved : Bool)
  deriving DecidableEq

structure ArtifactRow where
  id : Nat
  taskId : Option Nat
  runId : Option Nat
  storageKey : Option String
  contentHash : String
  /-- `_artifact_path`: none when the URI is refused. -/
  path : Option ArtifactPath
  state : ArtifactStorageState := .available
  retentionUntil : Nat
  cleanup : Option CleanupPhase := none
  deriving DecidableEq

abbrev ArtifactRow.key (a : ArtifactRow) : Nat := a.id

inductive CleanupReason where
  | intent | externalDone | retention
  | other (reason : String)
  deriving DecidableEq

/-- `INTENT_CLEANUP_REASONS`. -/
def CleanupReason.isIntent : CleanupReason → Bool
  | .intent | .externalDone => true
  | _ => false

structure WorktreeRow where
  id : Nat
  taskId : Nat
  runId : Nat
  path : String
  deliveryState : WorktreeDeliveryState
  retentionUntil : Nat
  cleanupReason : Option CleanupReason := none
  cleanedAt : Option Nat := none
  patchArtifactId : Option Nat := none
  changedFilesArtifactId : Option Nat := none
  deriving DecidableEq

abbrev WorktreeRow.key (w : WorktreeRow) : Nat := w.id

structure TaskRow where
  id : Nat
  status : TaskStatus
  updatedAt : Nat := 0
  deriving DecidableEq

structure RunRow where
  id : Nat
  taskId : Nat
  deriving DecidableEq

structure RunStep where
  id : Nat
  runId : Nat
  status : StepStatus
  deriving DecidableEq

structure StepApproval where
  stepId : Nat
  status : ApprovalStatus
  deriving DecidableEq

structure SupervisedProcess where
  worktreeId : Nat
  status : ProcessStatus
  deriving DecidableEq

/-- What others do to tasks, runs, steps, approvals and processes; `referenced` are the artifacts that validation
    results and memory units point at. -/
structure WorkRows where
  tasks : List TaskRow := []
  runs : List RunRow := []
  steps : List RunStep := []
  approvals : List StepApproval := []
  processes : List SupervisedProcess := []
  referenced : List Nat := []
  deriving DecidableEq

namespace WorkRows

def task? (s : WorkRows) (id : Nat) : Option TaskRow := s.tasks.find? (·.id = id)

def run? (s : WorkRows) (id : Nat) : Option RunRow := s.runs.find? (·.id = id)

end WorkRows

/-! ### Protection -/

/-- `CLEANABLE_TASK_STATUSES`. -/
def isCleanable : TaskStatus → Bool
  | .completed | .failed | .cancelled | .rolledBack => true
  | _ => false

/-- `PROTECTED_STEP_STATUSES`. -/
def isProtectedStep : StepStatus → Bool
  | .pending | .queued | .leased | .running | .waitingApproval | .awaitingUser | .blocked => true
  | _ => false

/-- `ACTIVE_PROCESS_STATUSES`. -/
def isActiveProcess : ProcessStatus → Bool
  | .starting | .running | .terminating | .unknown => true
  | .exited => false

/-- `settings.retention`. -/
structure RetentionPolicy where
  completedDays : Nat := 0
  failedDays : Nat := 0
  deriving DecidableEq

/-- `effective_worktree_retention_until`. -/
def effectiveRetentionUntil (policy : RetentionPolicy) (task : TaskRow) (retentionUntil : Nat) : Option Nat :=
  match task.status with
  | .completed => some (min retentionUntil (task.updatedAt + policy.completedDays))
  | .failed | .cancelled | .rolledBack =>
    some (max retentionUntil (task.updatedAt + max policy.failedDays policy.completedDays))
  | _ => none

namespace WorkRows

/-- `_run_has_protected_runtime`. -/
def protectedRuntime (s : WorkRows) (runId : Nat) (worktreeId : Option Nat) : Option String :=
  if s.steps.any fun x => x.runId = runId && isProtectedStep x.status then some "protected_step"
  else if s.approvals.any fun a => a.status = .pending && s.steps.any fun x => x.runId = runId && x.id = a.stepId then
    some "pending_approval"
  else if s.processes.any fun p => some p.worktreeId = worktreeId && isActiveProcess p.status then
    some "active_supervised_process"
  else none

def worktreeSkipReason (s : WorkRows) (policy : RetentionPolicy) (w : WorktreeRow) (task : TaskRow) (run : RunRow)
    (ignoreRetention : Bool) (now : Nat) : Option String :=
  if w.cleanedAt.isSome ∨ w.deliveryState = .cleaned then some "already_cleaned"
  else if w.deliveryState = .active then some "protected_delivery_state"
  else if task.status = .blocked then some "blocked_task"
  else if ¬isCleanable task.status then some "non_terminal_task"
  else if ¬ignoreRetention ∧ ¬w.cleanupReason.any (·.isIntent) ∧
      (effectiveRetentionUntil policy task w.retentionUntil).all (now < ·) then some "within_retention"
  else s.protectedRuntime run.id (some w.id)

end WorkRows

/-! ### The disk -/

inductive EntryKind where
  | regular | directory | symlink | brokenSymlink
  deriving DecidableEq

structure FileEntry where
  path : ArtifactPath
  kind : EntryKind := .regular
  links : Nat := 1
  deriving DecidableEq

structure TreeEntry where
  path : String
  kind : EntryKind := .directory
  deriving DecidableEq

def EntryKind.isSymlink : EntryKind → Bool
  | .symlink | .brokenSymlink => true
  | _ => false

/-! ### A sweep -/

/-- What a sweep is at: between two phases of a worktree, of an artifact, or of a file that no row knows. Before it works on
    a file it reads the rows; what it has read goes with it. -/
inductive SweepAt where
  | idle
  | worktreeDeclared (id : Nat)
  | worktreeRemoving (id : Nat) (path : String) (atCheck : WorkRows)
  | worktreeRemoved (id : Nat)
  | worktreeFinalizing (id : Nat)
  | artifactDeclared (id : Nat)
  | artifactRemoving (id : Nat) (path : ArtifactPath) (atCheck : List ArtifactRow) (lastPeer fileRemoved : Bool)
  | artifactRemoved (id : Nat) (fileRemoved : Bool)
  | artifactFinalizing (id : Nat)
  | orphans (atRead : List ArtifactRow)
  | quarantining (atRead : List ArtifactRow) (path : ArtifactPath)
  deriving DecidableEq

/-- How far a `persist` has come: its storage key was looked up, the file is there, the row is flushed. -/
inductive PersistPhase where
  | looked | stored | flushed
  deriving DecidableEq

/-- A `persist` in its caller's transaction; `content` is the digest of what it stores. -/
structure Persist where
  id : Nat
  taskId : Nat
  runId : Nat
  storageKey : String
  content : String
  retentionUntil : Nat
  phase : PersistPhase := .looked
  deriving DecidableEq

structure Retained where
  now : Nat := 0
  policy : RetentionPolicy := {}
  work : WorkRows := {}
  worktrees : List WorktreeRow := []
  artifacts : List ArtifactRow := []
  trees : List TreeEntry := []
  files : List FileEntry := []
  sweep : SweepAt := .idle
  persists : List Persist := []
  deriving DecidableEq

namespace Retained

def worktree? (s : Retained) (id : Nat) : Option WorktreeRow := s.worktrees.find? (·.id = id)

def artifact? (s : Retained) (id : Nat) : Option ArtifactRow := s.artifacts.find? (·.id = id)

def tree? (s : Retained) (path : String) : Option TreeEntry := s.trees.find? (·.path = path)

def file? (s : Retained) (path : ArtifactPath) : Option FileEntry := s.files.find? (·.path = path)

def putWorktree (s : Retained) (w : WorktreeRow) : Retained := { s with worktrees := Lib.put WorktreeRow.key w s.worktrees }

def putArtifact (s : Retained) (a : ArtifactRow) : Retained := { s with artifacts := Lib.put ArtifactRow.key a s.artifacts }

def rest (s : Retained) : Retained := { s with sweep := .idle }

def goOn (s : Retained) (next : SweepAt) : Retained := { s with sweep := next }

def treeMissing (s : Retained) (path : String) : Bool := (s.tree? path).isNone

def fileMissing (s : Retained) (path : Option ArtifactPath) : Bool := path.all fun p => (s.file? p).isNone

/-- `Path.exists`. -/
def fileExists (s : Retained) (path : ArtifactPath) : Bool := (s.file? path).any fun f => f.kind ≠ .brokenSymlink

def removeTree (s : Retained) (path : String) : Retained := { s with trees := s.trees.filter (·.path ≠ path) }

def removeFile (s : Retained) (path : ArtifactPath) : Retained := { s with files := s.files.filter (·.path ≠ path) }

/-! ### Worktrees -/

def owners (s : Retained) (w : WorktreeRow) : Option (TaskRow × RunRow) :=
  match s.work.task? w.taskId, s.work.run? w.runId with
  | some task, some run => if run.taskId = task.id then some (task, run) else none
  | _, _ => none

/-- `_worktree_phase_declare_or_report`; `contained` tells that the path is under the root. -/
def declareWorktree (s : Retained) (id : Nat) (contained : Bool) : Retained :=
  match s.worktree? id with
  | none => s
  | some w =>
    match s.owners w with
    | none => s
    | some (task, run) =>
      if w.cleanupReason = some .externalDone then s.goOn (.worktreeFinalizing id)
      else if w.cleanupReason = some .intent then
        if (s.work.worktreeSkipReason s.policy w task run true s.now).isSome then s else s.goOn (.worktreeDeclared id)
      else if (s.work.worktreeSkipReason s.policy w task run false s.now).isSome then s
      else if ¬contained then s.putWorktree { w with cleanupReason := some (.other "path_violation") }
      else if (s.tree? w.path).any fun t => t.kind = .symlink || t.kind = .regular then
        s.putWorktree { w with cleanupReason := some (.other "invalid_worktree_path") }
      else (s.putWorktree { w with cleanupReason := some .intent }).goOn (.worktreeDeclared id)

/-- `_worktree_phase_external` up to the work on the disk. -/
def checkWorktree (s : Retained) (id : Nat) : Retained :=
  match s.worktree? id with
  | none => s.goOn (.worktreeFinalizing id)
  | some w =>
    if ¬w.cleanupReason.any (·.isIntent) then s.goOn (.worktreeFinalizing id)
    else
      match s.owners w with
      | none => s.goOn (.worktreeFinalizing id)
      | some (task, run) =>
        if (s.work.worktreeSkipReason s.policy w task run true s.now).isSome then s.goOn (.worktreeFinalizing id)
        else s.goOn (.worktreeRemoving id w.path s.work)

def removeWorktree (s : Retained) (id : Nat) (path : String) (removed failed : Bool) : Retained :=
  if (s.tree? path).any (·.kind.isSymlink) then s.rest
  else if failed then (if removed then s.removeTree path else s).rest
  else (s.removeTree path).goOn (.worktreeRemoved id)

def markWorktree (s : Retained) (id : Nat) : Retained :=
  match s.worktree? id with
  | none => s.goOn (.worktreeFinalizing id)
  | some w => (s.putWorktree { w with cleanupReason := some .externalDone }).goOn (.worktreeFinalizing id)

def WorktreeRow.clean (w : WorktreeRow) (now : Nat) : WorktreeRow :=
  { w with deliveryState := .cleaned, cleanupReason := some .retention, cleanedAt := some now }

/-- `_worktree_phase_finalize`. -/
def finalizeWorktree (s : Retained) (id : Nat) : Retained :=
  match s.worktree? id with
  | none => s.rest
  | some w =>
    match s.work.task? w.taskId, s.work.run? w.runId with
    | some task, some run =>
      if (s.work.worktreeSkipReason s.policy w task run true s.now).isSome ∧ w.cleanupReason ≠ some .externalDone then s.rest
      else if w.cleanupReason = some .externalDone ∧ s.treeMissing w.path then (s.putWorktree (WorktreeRow.clean w s.now)).rest
      else if w.cleanupReason = some .externalDone then s.rest
      else if w.cleanupReason = some .intent ∧ s.treeMissing w.path then (s.putWorktree (WorktreeRow.clean w s.now)).rest
      else s.rest
    | _, _ => s.rest

/-! ### Artifacts -/

def WorktreeRow.isLive (w : WorktreeRow) : Bool := w.cleanedAt.isNone && w.deliveryState ≠ .cleaned

def WorktreeRow.pointsAt (w : WorktreeRow) (artifactId : Nat) : Bool :=
  w.patchArtifactId = some artifactId || w.changedFilesArtifactId = some artifactId

/-- The runtime of the run, or a live worktree, that needs the artifact. Of a run's worktrees the lookup passes over those
    that are held. -/
def artifactRuntime (s : Retained) (held : List Nat) (a : ArtifactRow) (taskId : Nat) : Option String :=
  match a.runId with
  | some runId =>
    match s.work.protectedRuntime runId none with
    | some reason => some reason
    | none =>
      if s.worktrees.any fun w => w.runId = runId && WorktreeRow.isLive w && w.id ∉ held then some "referenced_by_worktree"
      else none
  | none =>
    if s.worktrees.any fun w => w.taskId = taskId && WorktreeRow.isLive w && WorktreeRow.pointsAt w a.id then
      some "referenced_by_worktree"
    else none

/-- The reason to skip an artifact, or none; with `ignore_retention` or without. -/
abbrev SkipReason := ArtifactRow → Bool → Option String

/-- `_artifact_skip_reason`; `needed` is what needs the artifact, by the lookups of a phase. -/
def skipReason (s : Retained) (needed : ArtifactRow → Nat → Option String) : SkipReason := fun a ignoreRetention =>
  match a.taskId with
  | none => some "ambiguous_identity"
  | some taskId =>
    match s.work.task? taskId with
    | none => some "ambiguous_identity"
    | some task =>
      if task.status = .blocked then some "blocked_task"
      else if ¬isCleanable task.status then some "non_terminal_task"
      else if ¬ignoreRetention ∧ s.now < a.retentionUntil ∧ a.cleanup = none then some "within_retention"
      else needed a taskId

def referenceReason (s : Retained) (id : Nat) : Option String :=
  if s.worktrees.any fun w => WorktreeRow.pointsAt w id then some "referenced_by_worktree_diff"
  else if id ∈ s.work.referenced then some "referenced_by_provenance"
  else none

/-- The skip reason where no other transaction holds a row. -/
def artifactSkipReason (s : Retained) : SkipReason :=
  s.skipReason fun a taskId => (s.artifactRuntime [] a taskId).or (s.referenceReason a.id)

def hasPeer (s : Retained) (a : ArtifactRow) : Bool :=
  s.artifacts.any fun x => x.contentHash = a.contentHash && x.id ≠ a.id &&
    (x.state = .available || x.state = .staging || x.state = .quarantined)

/-- `_artifact_phase_declare_or_report`. -/
def declareArtifact (s : Retained) (skips : SkipReason) (id : Nat) : Retained :=
  match s.artifact? id with
  | none => s
  | some a =>
    match a.cleanup with
    | some (.externalDone _) => s.goOn (.artifactDeclared id)
    | some .intent => if (skips a true).isSome then s else s.goOn (.artifactDeclared id)
    | none =>
      if a.state ≠ .available then s
      else if (skips a false).isSome then s
      else
        match a.path with
        | none => s
        | some path =>
          if ¬s.fileExists path then s.putArtifact { a with state := .missing }
          else if (s.file? path).any fun f => f.kind.isSymlink || 1 < f.links then s
          else (s.putArtifact { a with cleanup := some .intent }).goOn (.artifactDeclared id)

/-- `_artifact_phase_external` up to the work on the disk. -/
def checkArtifact (s : Retained) (skips : SkipReason) (id : Nat) : Retained :=
  match s.artifact? id with
  | none => s.goOn (.artifactFinalizing id)
  | some a =>
    match a.cleanup with
    | none => s.goOn (.artifactFinalizing id)
    | some phase =>
      -- a skip leaves the phase, and the sweep goes on to finalize
      if phase = .intent ∧ (skips a true).isSome then s.goOn (.artifactFinalizing id)
      else
        match a.path with
        | none => s.rest
        | some path =>
          let prior := match phase with
            | .externalDone fileRemoved => fileRemoved
            | .intent => false
          s.goOn (.artifactRemoving id path s.artifacts (!s.hasPeer a) prior)

/-- The work on the disk; `failed` is an error of the operating system. -/
def removeArtifact (s : Retained) (id : Nat) (path : ArtifactPath) (lastPeer fileRemoved failed : Bool) : Retained :=
  match s.file? path with
  | none => s.goOn (.artifactRemoved id (fileRemoved || lastPeer))
  | some f =>
    if lastPeer ∧ f.kind = .brokenSymlink then s.goOn (.artifactRemoved id true)
    else if lastPeer ∧ ¬f.kind.isSymlink then
      if 1 < f.links ∨ failed then s.rest else (s.removeFile path).goOn (.artifactRemoved id true)
    else s.goOn (.artifactRemoved id fileRemoved)

def markArtifact (s : Retained) (id : Nat) (fileRemoved : Bool) : Retained :=
  match s.artifact? id with
  | none => s.goOn (.artifactFinalizing id)
  | some a => (s.putArtifact { a with cleanup := some (.externalDone fileRemoved) }).goOn (.artifactFinalizing id)

/-- `_artifact_phase_finalize`. -/
def finalizeArtifact (s : Retained) (skips : SkipReason) (id : Nat) : Retained :=
  match s.artifact? id with
  | none => s.rest
  | some a =>
    match a.cleanup with
    | none => s.rest
    | some phase =>
      if ¬s.fileMissing a.path ∧ phase ≠ .intent ∧ ¬s.hasPeer a then s.rest
      else if (skips a true).isSome ∧ phase = .intent ∧ ¬s.fileMissing a.path then s.rest
      else (s.putArtifact { a with cleanup := none, state := .deleted }).rest

/-! ### Files without a row -/

/-- `_known_content_hashes`: the rows of every state. -/
def knownContentHashes (rows : List ArtifactRow) : List String := rows.map (·.contentHash)

/-- A file that `_reconcile_orphan_artifacts` moves to quarantine. -/
def isOrphan (atRead : List ArtifactRow) (f : FileEntry) : Bool :=
  f.kind.isSymlink || 1 < f.links ||
    match f.path with
    | .content digest => digest ∉ knownContentHashes atRead
    | .other _ => true

/-! ### Persisting and pinning -/

/-- The row that `persist` returns where its storage key is taken. -/
def existing? (s : Retained) (p : Persist) : Option ArtifactRow := s.artifacts.find? (·.storageKey = some p.storageKey)

def Persist.row (p : Persist) : ArtifactRow where
  id := p.id
  taskId := some p.taskId
  runId := some p.runId
  storageKey := some p.storageKey
  contentHash := p.content
  path := some (.content p.content)
  retentionUntil := p.retentionUntil

def store (s : Retained) (content : String) : Retained :=
  if s.fileExists (.content content) then s
  else { s.removeFile (.content content) with
    files := (s.removeFile (.content content)).files ++ [{ path := .content content }] }

def pinArtifacts (s : Retained) (ids : List Nat) (retentionUntil : Nat) : Retained :=
  { s with artifacts := s.artifacts.map fun a =>
      if a.id ∈ ids ∧ a.retentionUntil < retentionUntil then { a with retentionUntil := retentionUntil } else a }

end Retained

/-! ### Runs -/

/-- The next phase of the sweep, or what others do meanwhile. -/
inductive RetentionOp where
  | declareWorktree (id : Nat) (contained : Bool)
  | declareArtifact (id : Nat)
  | readKnown
  | considerFile (path : ArtifactPath)
  | proceed (removed failed : Bool)
  | endSweep
  | persistLook (p : Persist)
  | persistStore (p : Persist)
  | persistFlush (p : Persist)
  | persistCommit (p : Persist)
  | persistRollback (p : Persist)
  | pin (ids : List Nat) (retentionUntil : Nat)
  | wait
  | changeWork (work : WorkRows)

def RetentionOp.isSweep : RetentionOp → Bool
  | .declareWorktree _ _ | .declareArtifact _ | .readKnown | .considerFile _ | .proceed _ _ | .endSweep => true
  | _ => false

namespace Retained

def whenIdle (s : Retained) (next : Retained) : Except String Retained :=
  if s.sweep = .idle then .ok next else .error "a sweep is under way"

/-- A step of a `persist` that has come to the phase. -/
def whenAt (s : Retained) (p : Persist) (phase : PersistPhase) (next : Except String Retained) : Except String Retained :=
  if p ∈ s.persists ∧ p.phase = phase then next else .error "no persist"

def persistGoOn (s : Retained) (p : Persist) (phase : PersistPhase) : Retained :=
  { s with persists := { p with phase := phase } :: s.persists.erase p }

def proceed (s : Retained) (removed failed : Bool) : Except String Retained :=
  match s.sweep with
  | .idle | .orphans _ => .error "no work"
  | .worktreeDeclared id => .ok (s.checkWorktree id)
  | .worktreeRemoving id path _ => .ok (s.removeWorktree id path removed failed)
  | .worktreeRemoved id => .ok (s.markWorktree id)
  | .worktreeFinalizing id => .ok (s.finalizeWorktree id)
  | .artifactDeclared id => .ok (s.checkArtifact s.artifactSkipReason id)
  | .artifactRemoving id path _ lastPeer fileRemoved => .ok (s.removeArtifact id path lastPeer fileRemoved failed)
  | .artifactRemoved id fileRemoved => .ok (s.markArtifact id fileRemoved)
  | .artifactFinalizing id => .ok (s.finalizeArtifact s.artifactSkipReason id)
  | .quarantining atRead path => .ok ((if failed then s else s.removeFile path).goOn (.orphans atRead))

def perform (s : Retained) : RetentionOp → Except String Retained
  | .declareWorktree id contained => s.whenIdle (s.declareWorktree id contained)
  | .declareArtifact id => s.whenIdle (s.declareArtifact s.artifactSkipReason id)
  | .readKnown => s.whenIdle (s.goOn (.orphans s.artifacts))
  | .considerFile path =>
    match s.sweep, s.file? path with
    | .orphans atRead, some f => if isOrphan atRead f then .ok (s.goOn (.quarantining atRead path)) else .ok s
    | _, _ => .error "no file"
  | .proceed removed failed => s.proceed removed failed
  | .endSweep => .ok s.rest
  | .persistLook p =>
    if (s.existing? p).isSome then .ok s else .ok { s with persists := { p with phase := .looked } :: s.persists }
  | .persistStore p => s.whenAt p .looked (.ok ((s.store p.content).persistGoOn p .stored))
  | .persistFlush p => s.whenAt p .stored <|
    -- the unique storage key, and the key of a new row
    if (s.existing? p).isSome ∨ (s.artifact? p.id).isSome ∨
        s.persists.any (fun q => q.phase = .flushed && (q.storageKey = p.storageKey || q.id = p.id)) then .error "unique"
    else .ok (s.persistGoOn p .flushed)
  | .persistCommit p => s.whenAt p .flushed
    (.ok { s with artifacts := s.artifacts ++ [Persist.row p], persists := s.persists.erase p })
  | .persistRollback p => .ok { s with persists := s.persists.erase p }
  | .pin ids retentionUntil => .ok (s.pinArtifacts ids retentionUntil)
  | .wait => .ok { s with now := s.now + 1 }
  | .changeWork work => .ok { s with work := work }

def hasAvailablePeer (s : Retained) (a : ArtifactRow) : Bool :=
  s.artifacts.any fun x => x.contentHash = a.contentHash && x.id ≠ a.id && x.state = .available

/-- A row that is finalized in the phase of its intent, since its external phase was skipped, is still protected, or
    its file is missing, or another available row has its content. -/
def FinalizesProtected (s : Retained) : RetentionOp → Bool
  | .proceed _ _ =>
    match s.sweep with
    | .artifactFinalizing id => (s.artifact? id).all fun a =>
      a.cleanup ≠ some .intent || s.fileMissing a.path || (s.artifactSkipReason a true).isSome || s.hasAvailablePeer a
    | _ => true
  | _ => true

/-- The path of the row that a step of `persist` returns. -/
def returns (s : Retained) : RetentionOp → Option (Option ArtifactPath)
  | .persistLook p => (s.existing? p).map (·.path)
  | .persistFlush p => some (some (.content p.content))
  | _ => none

/-- Since a sweep read the rows, a row with the content was committed, or a `persist` of it is under way that has looked at
    the file. -/
def persistedSince (s : Retained) (read : List ArtifactRow) (content : String) : Bool :=
  (s.artifacts.any fun a => a.contentHash = content && read.all fun x => x.id ≠ a.id) ||
    s.persists.any fun p => p.phase ≠ .looked && p.content = content

/-- A row that `persist` finds shares its content with an available row whose cleanup is not intended, no row whose cleanup
    is intended is pinned, and no `persist` comes between the rows that a sweep read and its work on the file. -/
def KeepsContent (s : Retained) : RetentionOp → Bool
  | .persistLook p => (s.existing? p).all fun a =>
    s.artifacts.any fun x => x.contentHash = a.contentHash && x.state = .available && x.cleanup = none
  | .pin ids retentionUntil => s.artifacts.all fun a =>
    a.id ∉ ids || retentionUntil ≤ a.retentionUntil || a.cleanup = none
  | .proceed _ false =>
    match s.sweep with
    | .artifactRemoving _ (.content content) atCheck true _ => !s.persistedSince atCheck content
    | .quarantining atRead (.content content) => !s.persistedSince atRead content
    | _ => true
  | _ => true

abbrev Reaches (allow : Retained → RetentionOp → Prop) (s u : Retained) : Prop := Lib.Reach perform allow s u

end Retained

end Vuzol.Ops
