import Vuzol.Discussion.Service

/-! `WorkPackageSequencer` (`discussion/sequencer.py`): an approved plan becomes tasks, one item ahead, and
    the ends of these tasks move the cursor. -/

namespace Vuzol.Discussion

open Vuzol.Lib

inductive TerminalKind where
  | blocked | failed | completed

structure SequenceResult where
  statusGeneration : Nat
  taskId : Option Nat
  ordinal : Option Nat
  completed : Bool := false
  terminalKind : Option TerminalKind := none

def completesItem (s : State) (item : PlanRevisionItem) (l : MaterializationLink) : Bool :=
  l.workItemDraftId == item.itemId && (s.task? l.taskId).any (·.status = .completed) &&
    (s.itemOf l).any (samePlanItem item)

def completedElsewhere (s : State) (revision : PlanRevision) (item : PlanRevisionItem) : Bool :=
  s.links.any fun l => l.planRevisionId != revision.id && completesItem s item l

def firstUnfinishedOrdinal (s : State) (revision : PlanRevision) : Nat :=
  match revision.items.find? fun item => !completedElsewhere s revision item with
  | some item => item.ordinal
  | none => revision.items.length + 1

def itemWasSkipped (s : State) (workItemDraftId : Nat) : Bool :=
  s.events.any fun
    | .itemSkipped _ _ (some id) => id == workItemDraftId
    | _ => false

def dependency? (s : State) (revision : PlanRevision) (localId : String) : Option PlanRevisionItem :=
  revision.items.find? fun item => s.drafts.any fun d => d.id == item.itemId && d.localId == some localId

/-- One round of `check_item_dependencies`. -/
def dependencyMet (s : State) (revision : PlanRevision) (localId : String) : Bool :=
  (dependency? s revision localId).any fun item =>
    s.links.any (completesItem s item) || itemWasSkipped s item.itemId

def checkItemDependencies (s : State) (revision : PlanRevision) (item : PlanRevisionItem) : Except Error Unit :=
  if item.contract.dependencies.all (dependencyMet s revision) then .ok ()
  else .error (.domain .dependenciesUnfinished)

def approvalProvenance (s : State) (revision : PlanRevision) (now : Nat) : Except Error Int :=
  match revision.approvedByUserId with
  | some userId => .ok userId
  | none =>
    match revision.approvedByDelegationId.bind s.delegation? with
    | none => .error (.domain .approvalProvenanceMissing)
    | some d =>
      if d.revoked || delegationIsExpired d.expiresAt now then .error (.domain .approvalProvenanceMissing)
      else .ok d.ownerUserId

def interpretedTask (id : Nat) : Task := { id := id, status := .interpreted, version := 2 }

def addMaterialization (s : State) (revision : PlanRevision) (item : PlanRevisionItem) (ordinal : Nat) : State :=
  { s with
    tasks := s.tasks ++ [interpretedTask s.tasks.length]
    links := s.links ++ [{ planRevisionId := revision.id, workItemDraftId := item.itemId,
                           taskId := s.tasks.length, ordinal := ordinal }]
    events := s.events ++ [.itemMaterialized revision.id ordinal s.tasks.length] }

def completePackage (s : State) : State :=
  { s with
    package := { s.package with
      status := .completed
      cursorOrdinal := none
      pauseReason := none
      lastFailureTaskId := none
      version := s.package.version + 1 }
    activeInTopic := false }

def materializeItem (s : State) (revision : PlanRevision) (item : PlanRevisionItem) (ordinal now : Nat) :
    Except Error (State × SequenceResult) := do
  checkItemDependencies s revision item
  let _ ← approvalProvenance s revision now
  .ok (addMaterialization s revision item ordinal,
    { statusGeneration := s.package.version, taskId := some s.tasks.length, ordinal := some ordinal })

def materializeCurrent (s : State) (revision : PlanRevision) (now : Nat) :
    Except Error (State × SequenceResult) :=
  if s.goal.any (·.pendingAmendment) then
    .ok (s, { statusGeneration := s.package.version, taskId := none, ordinal := s.package.cursorOrdinal,
              terminalKind := some .blocked })
  else match s.package.cursorOrdinal with
    | none => .error (.domain .cursorMissing)
    | some ordinal =>
      match revision.itemAt ordinal with
      | none =>
        let s := completePackage s
        .ok (s, { statusGeneration := s.package.version, taskId := none, ordinal := none, completed := true,
                  terminalKind := some .completed })
      | some item =>
        match s.linkAt revision.id ordinal with
        | some l =>
          .ok (s, { statusGeneration := s.package.version, taskId := some l.taskId, ordinal := some ordinal })
        | none => materializeItem s revision item ordinal now

structure StartRequest where
  fence : Fence
  /-- `actor_type == "agent"`: the lead dispatches the plan of its goal. -/
  agent : Bool := false
  now : Nat := 0

def fencedApprovedRevision (s : State) (fence : Fence) : Except Error PlanRevision := do
  let revision ← fencedRevision s fence
  if revision.state ≠ .approved then .error (.domain .approvalBindingMismatch) else .ok revision

def requireDispatch (digest : PlanBody → Digest) (s : State) (revision : PlanRevision) (agent : Bool) :
    Except Error Unit :=
  match s.goal with
  | none => .ok ()
  | some goal => do
    requireManagedRevision digest goal revision
    if !agent || goal.lifecycle ≠ .active then .error (.domain .leadDispatchRequired) else .ok ()

/-- The guards of `start`. -/
def startable (digest : PlanBody → Digest) (s : State) (r : StartRequest) : Except Error PlanRevision := do
  requireGeneration s.package.version r.fence.generation
  controlTransitionTarget s.package.status .start
  let revision ← fencedApprovedRevision s r.fence
  if s.package.approvedRevisionId ≠ some revision.id ∨ s.package.headRevisionId ≠ some revision.id then
    .error (.domain .approvalBindingMismatch)
  else
    requireDispatch digest s revision r.agent
    .ok revision

def startRevision (s : State) (revision : PlanRevision) : State :=
  { s with package := { s.package with
      status := .running
      runningRevisionId := some revision.id
      cursorOrdinal := some (firstUnfinishedOrdinal s revision)
      pauseReason := none
      lastFailureTaskId := none
      version := s.package.version + 1
      startGeneration := some (s.package.version + 1) } }

def start (digest : PlanBody → Digest) (s : State) (r : StartRequest) : Except Error (State × SequenceResult) := do
  let revision ← startable digest s r
  materializeCurrent (startRevision s revision) revision r.now

/-- The statuses that `observe_terminal` takes as an end. -/
def isTerminalEvidence (status : Workflow.TaskStatus) : Bool :=
  [.completed, .failed, .blocked, .quotaExhausted, .cancelled].contains status

def pauseOn (s : State) (t : Task) : State :=
  { s with package := { s.package with
      status := .paused
      pauseReason := some (if t.status = .blocked ∨ t.status = .quotaExhausted then .itemBlocked else .itemFailed)
      lastFailureTaskId := some t.id
      version := s.package.version + 1 } }

def advanceCursor (s : State) (ordinal : Nat) : State :=
  { s with package := { s.package with cursorOrdinal := some (ordinal + 1), version := s.package.version + 1 } }

def observeCompleted (s : State) (l : MaterializationLink) (now : Nat) : Except Error (State × SequenceResult) :=
  match s.revision? l.planRevisionId with
  | none => .error .lookupError
  | some revision =>
    let s := advanceCursor s l.ordinal
    if s.isManaged && (revision.itemAt (l.ordinal + 1)).isSome then
      .ok (s, { statusGeneration := s.package.version, taskId := none, ordinal := some (l.ordinal + 1) })
    else materializeCurrent s revision now

def isCurrent (s : State) (l : MaterializationLink) : Bool :=
  s.package.status = .running && s.package.runningRevisionId == some l.planRevisionId &&
    s.package.cursorOrdinal == some l.ordinal

def observeTerminal (s : State) (taskId now : Nat) : Except Error (State × Option SequenceResult) :=
  match s.linkOf taskId with
  | none => .ok (s, none)
  | some l =>
    match s.task? taskId with
    | none => .error (.domain .materializedTaskMissing)
    | some t =>
      if !isTerminalEvidence t.status then .error (.domain .taskNotTerminal)
      else if !isCurrent s l then
        .ok (s, some { statusGeneration := s.package.version, taskId := some t.id, ordinal := some l.ordinal,
                       completed := s.package.status = .completed })
      else if t.status = .completed then do
        let (s, result) ← observeCompleted s l now
        .ok (s, some result)
      else
        let blocked := t.status = .blocked ∨ t.status = .quotaExhausted
        let s := pauseOn s t
        .ok (s, some { statusGeneration := s.package.version, taskId := some t.id, ordinal := some l.ordinal,
                       terminalKind := some (if blocked then .blocked else .failed) })

def markConsumed (s : State) (taskId version : Nat) : State :=
  { s with outbox := s.outbox.map fun x =>
      if x.taskId = taskId ∧ x.version = version then { x with consumed := true } else x }

/-- `WorkPackageSequenceConsumer.process_one` on one row of the outbox. An observation that finds no ended
    task is dead-lettered; any other error leaves the row to be delivered again. -/
def processSequenceItem (s : State) (taskId version now : Nat) : Except Error State :=
  if s.outbox.any (fun x => x.taskId == taskId && x.version == version && !x.consumed) then
    match observeTerminal s taskId now with
    | .ok (s, _) => .ok (markConsumed s taskId version)
    | .error (.domain .materializedTaskMissing) | .error (.domain .taskNotTerminal) =>
      .ok (markConsumed s taskId version)
    | .error e => .error e
  else .error .lookupError

/-- The item that `skip_current` leaves undone, with its revision and its ordinal. -/
def skippable (s : State) : Except Error (PlanRevision × Nat × PlanRevisionItem) :=
  if s.package.status ≠ .running ∧ s.package.status ≠ .paused then .error (.domain .nothingToSkip)
  else match s.package.cursorOrdinal, s.package.runningRevisionId with
    | some ordinal, some revisionId =>
      match s.revision? revisionId with
      | none => .error .lookupError
      | some revision =>
        match revision.itemAt ordinal with
        | none => .error (.domain .nothingToSkip)
        | some item => .ok (revision, ordinal, item)
    | _, _ => .error (.domain .nothingToSkip)

def passItem (s : State) (revision : PlanRevision) (ordinal : Nat) (item : PlanRevisionItem) : State :=
  { s with
    package := { s.package with
      cursorOrdinal := some (ordinal + 1)
      status := .running
      pauseReason := none
      lastFailureTaskId := none
      version := s.package.version + 1 }
    events := s.events ++ [.itemSkipped revision.id ordinal (some item.itemId)] }

def skipCurrent (s : State) (c : Cancellation) (now : Nat) : Except Error (State × SequenceResult) := do
  let (revision, ordinal, item) ← skippable s
  let s ← cancelLive s s.currentTask c
  let s := passItem s revision ordinal item
  if (revision.itemAt (ordinal + 1)).isSome then
    .ok (s, { statusGeneration := s.package.version, taskId := none, ordinal := some (ordinal + 1) })
  else materializeCurrent s revision now

/-- The revision that a running package materializes from. -/
def runningRevision (s : State) : Except Error PlanRevision :=
  if s.package.status ≠ .running then .error (.domain .invalidTransition)
  else match s.package.runningRevisionId with
    | none => .error (.domain .runningRevisionMissing)
    | some id =>
      match s.revision? id with
      | none => .error .lookupError
      | some revision =>
        if s.package.headRevisionId ≠ some revision.id ∨ s.package.approvedRevisionId ≠ some revision.id then
          .error (.domain .staleRevision)
        else .ok revision

def materializeRunning (s : State) (now : Nat) : Except Error (State × SequenceResult) := do
  let revision ← runningRevision s
  materializeCurrent s revision now

def failedItemIsRematerializable (x : Workflow.Step) : Bool :=
  x.status = .failed && !x.unknownEffects &&
    [.prepareContext, .prepareWorktree, .validate, .review, .buildStatic].contains x.stepType

/-- The link of a failed item whose task may be replaced. -/
def rematerializable (s : State) (fence : Fence) : Except Error MaterializationLink := do
  requireGeneration s.package.version fence.generation
  let revision ← fencedApprovedRevision s fence
  if s.package.status ≠ .paused ∨ s.package.pauseReason ≠ some .itemFailed ∨
      s.package.runningRevisionId ≠ some revision.id then .error (.domain .itemNotSafelyRetryable)
  else match s.package.cursorOrdinal, s.package.lastFailureTaskId with
    | some ordinal, some failed =>
      if s.runs.any fun run => run.taskId == failed && run.fixedContract then .error (.domain .leadRevisionRequired)
      else if !(lastStep? s failed .failed).any (fun x => failedItemIsRematerializable x.2) then
        .error (.domain .itemNotSafelyRetryable)
      else match s.linkAt revision.id ordinal with
        | none => .error (.domain .failureContextMissing)
        | some l => if l.taskId ≠ failed then .error (.domain .failureContextMissing) else .ok l
    | _, _ => .error (.domain .itemNotSafelyRetryable)

/-- The link is bound to a fresh task; the failed one stays as evidence. -/
def replaceTask (s : State) (l : MaterializationLink) : State :=
  { s with
    tasks := s.tasks ++ [interpretedTask s.tasks.length]
    links := put MaterializationLink.key { l with taskId := s.tasks.length } s.links
    package := { s.package with
      status := .running
      pauseReason := none
      lastFailureTaskId := none
      version := s.package.version + 1 }
    events := s.events ++ [.itemRetried l.ordinal l.taskId s.tasks.length] }

def retryFailedItem (s : State) (fence : Fence) : Except Error (State × SequenceResult) := do
  let l ← rematerializable s fence
  .ok (replaceTask s l,
    { statusGeneration := s.package.version + 1, taskId := some s.tasks.length, ordinal := some l.ordinal })

end Vuzol.Discussion
