import Vuzol.Workflow.Types

/-! The evidence for a retained result (`_validation_evidence` of `workflows/result_approval.py`), collected from the
    steps of a run in ordinal order and from its worktree. A SHA-256 digest stands for what it is taken of. -/

namespace Vuzol.Workflow.Results

structure Gate where
  exitCode : Option Int
  deriving DecidableEq

structure Finding where
  severity : Option String
  deriving DecidableEq

/-- `structured_output`, by the keys that are read. A list is none where the key holds anything else, and so is an
    entry that is no object. -/
structure Manifest where
  baseCommit : Option String := none
  resultCommit : Option String := none
  diffHash : Option String := none
  gates : Option (List (Option Gate)) := none
  verdict : Option String := none
  findings : Option (List (Option Finding)) := some []
  resultKind : Option String := none
  report : Option String := none
  reportHash : Option String := none
  /-- What `TaskReport` makes of the output, none where it refuses it. -/
  document : Option String := none
  noChange : Bool := false
  noChangeReason : Option String := none
  changedFiles : List String := []
  deriving DecidableEq

structure ArtifactRecord where
  /-- `artifact_id` is the text of a UUID. -/
  identified : Bool
  artifactType : Option String
  contentHash : Option String
  sizeBytes : Option Int
  deriving DecidableEq

/-- `Step.result`, by the keys that are read. -/
structure StepResult where
  structuredOutput : Option Manifest := none
  status : Option String := none
  sourceCommit : Option String := none
  artifactHash : Option String := none
  artifacts : Option (List (Option ArtifactRecord)) := none
  deriving DecidableEq

structure StaticBuild where
  sourceCommit : Option String
  artifactHash : String
  deriving DecidableEq

structure ProducedArtifacts where
  sourceCommit : Option String
  artifacts : List (Option ArtifactRecord)
  result : StepResult
  deriving DecidableEq

structure Evidence where
  gates : List (Option Gate)
  reportHash : Option String
  noChange : Bool
  noChangeReason : String
  changedFiles : List String
  validation : Manifest
  review : Option Manifest
  staticBuild : Option StaticBuild
  artifacts : Option ProducedArtifacts

structure WorktreeRow where
  projectId : String
  repositoryIdentityHash : String
  defaultBranch : String
  expectedTargetHead : String
  baseCommit : String
  resultCommit : Option String := none
  diffHash : Option String := none

/-- The approval envelope; texts for the reader are left out. -/
structure ResultEnvelope where
  reportHash : Option (Option String) := none
  requestedAction : RequestedAction
  stepId : Nat
  projectId : String
  repositoryIdentityHash : String
  targetBranch : String
  expectedTargetHead : String
  baseCommit : String
  resultCommit : Option String
  diffHash : Option String
  gates : List (Option Gate)
  changedFiles : List String
  noChange : Option String
  validation : Manifest
  review : Option Manifest
  staticBuild : Option StaticBuild
  artifacts : Option ProducedArtifacts
  configurationRevision : Option String
  policyRevision : Option String
  deriving DecidableEq

structure StepRow where
  id : Nat
  ordinal : Nat
  stepType : StepType
  status : StepStatus
  predecessorOrdinals : List Nat := []
  requestedAction : Option RequestedAction := none
  resultKind : Option ResultKind := none
  result : Option StepResult := none
  actionEnvelope : Option ResultEnvelope := none
  attemptCount : Nat := 0
  unknownEffects : Bool := false

abbrev StepRow.key (x : StepRow) : Nat := x.id

def StepRow.manifest? (x : StepRow) : Option Manifest := x.result.bind (·.structuredOutput)

def lastCompleted (kind : StepType → Bool) (steps : List StepRow) : Option StepRow :=
  (steps.filter fun x => kind x.stepType && x.status = .completed).getLast?

def firstCompleted (kind : StepType) (steps : List StepRow) : Option StepRow :=
  steps.find? fun x => x.stepType = kind && x.status = .completed

def hasKind (kind : StepType) (steps : List StepRow) : Bool := steps.any fun x => x.stepType = kind

def Manifest.validates (m : Manifest) (w : WorktreeRow) : Bool :=
  m.resultCommit = w.resultCommit && m.baseCommit = some w.baseCommit && m.gates.any (!·.isEmpty)

def StepRow.holdsManifest (w : WorktreeRow) (x : StepRow) : Bool :=
  x.status = .completed && x.manifest?.any (·.validates w)

def evidenceSource (steps : List StepRow) (w : WorktreeRow) : Option StepRow :=
  ((steps.filter fun x => x.stepType = .validate && x.holdsManifest w).getLast?).or
    (steps.filter (StepRow.holdsManifest w)).getLast?

def Manifest.gatesPass (m : Manifest) : Bool :=
  m.gates.any fun gates => !gates.isEmpty && gates.all fun g => g.any (·.exitCode = some 0)

def validationManifest (steps : List StepRow) (w : WorktreeRow) : Except String Manifest :=
  match evidenceSource steps w with
  | none => .error "result approval requires a completed validate step"
  | some source =>
    match source.manifest? with
    | none => .error "result approval requires structured validation output"
    | some m =>
      if m.resultCommit ≠ w.resultCommit ∨ m.baseCommit ≠ some w.baseCommit then
        .error "retained result does not match the finalized validation evidence"
      else if ¬m.gatesPass then .error "result approval requires passing trusted gates"
      else .ok m

def Manifest.findingsPass (m : Manifest) : Bool :=
  m.findings.any (·.all (·.any fun f => f.severity ≠ some "error" && f.severity ≠ some "blocker"))

def Manifest.verdictPasses (m : Manifest) : Bool := m.verdict = some "pass" || m.verdict = some "pass_with_warnings"

def reviewManifest (steps : List StepRow) (w : WorktreeRow) : Except String (Option Manifest) :=
  match firstCompleted .review steps with
  | none =>
    if hasKind .review steps then .error "result approval requires the configured review step to complete" else .ok none
  | some review =>
    match review.manifest? with
    | none => .error "result approval requires structured review output"
    | some m =>
      if m.baseCommit ≠ some w.baseCommit ∨ m.resultCommit ≠ w.resultCommit ∨ m.diffHash ≠ w.diffHash then
        .error "review evidence does not match the retained result"
      else if ¬m.verdictPasses then .error "result approval requires a passing review verdict"
      else if ¬m.findingsPass then .error "passing review evidence contains blocking findings"
      else .ok (some m)

def checkReport (steps : List StepRow) (m : Manifest) (review : Option Manifest) : Except String Unit :=
  if m.resultKind ≠ some "report" then .ok ()
  else
    match ((lastCompleted StepType.isWorker steps).bind StepRow.manifest?).bind (·.document) with
    | none => .error "task report is refused"
    | some document =>
      if m.reportHash ≠ some document ∨ m.report ≠ some document ∨ review.bind (·.reportHash) ≠ m.reportHash then
        .error "report evidence changed after validation/review"
      else .ok ()

def staticBuildEvidence (steps : List StepRow) (w : WorktreeRow) : Except String (Option StaticBuild) :=
  if ¬hasKind .buildStatic steps then .ok none
  else
    match (firstCompleted .buildStatic steps).bind (·.result) with
    | none => .error "result approval requires the configured static build to complete"
    | some result =>
      if result.status = some "built" then
        match result.artifactHash with
        | none => .error "static build evidence does not match the retained result"
        | some hash =>
          if result.sourceCommit ≠ w.resultCommit then .error "static build evidence does not match the retained result"
          else .ok (some ⟨result.sourceCommit, hash⟩)
      else if result.status ≠ some "skipped" then .error "static build did not produce a publishable result"
      else .ok none

def ArtifactRecord.isTrusted (a : ArtifactRecord) : Bool :=
  a.identified && a.artifactType.any (fun t => t ≠ "" && t.length ≤ 100) &&
    a.contentHash.any (fun h => h.length = 64 && h.toList.all ("0123456789abcdef".toList.contains ·)) &&
    a.sizeBytes.any (0 ≤ ·)

def trustedArtifactRecords (artifacts : List (Option ArtifactRecord)) : Bool :=
  artifacts.length ≤ 40 && artifacts.all (·.any ArtifactRecord.isTrusted)

def artifactEvidence (steps : List StepRow) (w : WorktreeRow) : Except String (Option ProducedArtifacts) :=
  if ¬hasKind .produceArtifacts steps then .ok none
  else
    match (firstCompleted .produceArtifacts steps).bind (·.result) with
    | none => .error "result approval requires artifact production to complete"
    | some result =>
      if result.status = some "produced" then
        match result.artifacts with
        | none => .error "artifact evidence does not match the retained result"
        | some artifacts =>
          if result.sourceCommit ≠ w.resultCommit ∨ artifacts.isEmpty ∨ ¬trustedArtifactRecords artifacts then
            .error "artifact evidence does not match the retained result"
          else .ok (some ⟨w.resultCommit, artifacts, result⟩)
      else if result.status ≠ some "skipped" then .error "artifact production did not produce trusted evidence"
      else .ok none

def validationEvidence (steps : List StepRow) (w : WorktreeRow) : Except String Evidence := do
  let m ← validationManifest steps w
  let review ← reviewManifest steps w
  checkReport steps m review
  let staticBuild ← staticBuildEvidence steps w
  let artifacts ← artifactEvidence steps w
  .ok {
    gates := m.gates.getD []
    reportHash := m.reportHash
    noChange := m.noChange
    noChangeReason := String.ofList ((m.noChangeReason.getD "").toList.take 2000)
    changedFiles := m.changedFiles
    validation := m
    review := review
    staticBuild := staticBuild
    artifacts := artifacts }

end Vuzol.Workflow.Results
