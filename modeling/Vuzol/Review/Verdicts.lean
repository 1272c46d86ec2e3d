import Vuzol.Lib.Json
import Vuzol.Review.Partitions

/-! The verdicts of an independent review (`review/independent.py`, `review/domain.py`): what one answer of the reviewer
    says, the review of a manifest partition by partition, and the aggregate.

    A call of the reviewer is its answer. `repr` is `str()` of a value that is no text. -/

namespace Vuzol.Review

open Vuzol.Lib
open Vuzol.Discussion (RiskLevel)

inductive ReviewVerdictKind where
  | passed | passedWithWarnings | changesRequired | blocked
  deriving DecidableEq

def ReviewVerdictKind.value : ReviewVerdictKind → String
  | .passed => "pass"
  | .passedWithWarnings => "pass_with_warnings"
  | .changesRequired => "changes_required"
  | .blocked => "blocked"

/-- `ReviewVerdictKind(value)`. -/
def reviewVerdictKind? (value : Text) : Option ReviewVerdictKind :=
  [.passed, .passedWithWarnings, .changesRequired, .blocked].find? fun kind => kind.value.toList = value

inductive FindingSeverity where
  | info | warning | error | blocker
  deriving DecidableEq

def FindingSeverity.value : FindingSeverity → String
  | .info => "info"
  | .warning => "warning"
  | .error => "error"
  | .blocker => "blocker"

/-- `FindingSeverity(value)`. -/
def findingSeverity? (value : Text) : Option FindingSeverity :=
  [.info, .warning, .error, .blocker].find? fun severity => severity.value.toList = value

/-- `IndependentReviewError` by its message, and the `ValidationError` of a model. -/
inductive ReviewError where
  | diff (e : Error)
  | noDiffContent (missing : List Path)
  | tooManyFiles (files : Nat)
  | diffTooLong (characters : Nat)
  | call (summary : String)
  | didNotSucceed | noStructuredOutput | schema
  | crossNoVerdicts | crossDidNotSucceed | crossNoOutput | crossFindings | crossSchema | crossVerdict
  | noVerdicts | hashDrift
  | invalid
  | aggregationFailed
  deriving DecidableEq

structure ReviewFinding where
  severity : FindingSeverity
  classification : Text
  summary : Text
  path : Option Text := none
  line : Option Int := none
  criterionId : Option Text := none
  evidence : Option Text := none
  deriving DecidableEq

def ReviewFinding.isValid (f : ReviewFinding) : Bool :=
  1 ≤ f.classification.length && f.classification.length ≤ 100 && 1 ≤ f.summary.length && f.summary.length ≤ 500 &&
    f.path.all (fun t => t.length ≤ 500) && f.line.all (fun n => 1 ≤ n) &&
    f.criterionId.all (fun t => t.length ≤ 200) && f.evidence.all (fun t => t.length ≤ 2000)

def ReviewFinding.construct (f : ReviewFinding) : Option ReviewFinding := if f.isValid then some f else none

abbrev Fields := List (String × Json)

section Answers
variable (repr : Json → Text)

/-- `str(value)`. -/
def strOf : Json → Text
  | .str t => t
  | v => repr v

def optionalText (value : Option Json) (limit : Nat) : Option Text :=
  match value with
  | some (.str t) => if strip t = [] then none else some ((strip t).take limit)
  | _ => none

/-- `item.get(key)` where None counts as absent. -/
def get (item : Fields) (key : String) : Option Json :=
  match item.lookup key with
  | some .null => none
  | v => v

/-- `_finding_from_output`; none for any of its errors. -/
def findingFromOutput (item : Fields) : Option ReviewFinding := do
  let severity ← findingSeverity? (strOf repr (← item.lookup "severity"))
  let classification ← item.lookup "classification"
  let summary ← item.lookup "summary"
  ReviewFinding.construct
    { severity
      classification := (strOf repr classification).take 100
      summary := (strOf repr summary).take 500
      path := (get item "path").map fun v => (strOf repr v).take 500
      line := (item.lookup "line").bind Json.int?
      criterionId := optionalText (item.lookup "criterion_id") 200
      evidence := optionalText (item.lookup "evidence") 2000 }

/-- `structured.get("findings") or []`; none where this is no list. -/
def rawFindings (structured : Fields) : Option (List Json) :=
  match structured.lookup "findings" with
  | none => some []
  | some v =>
    if v.truthy then
      match v with
      | .arr items => some items
      | _ => none
    else some []

def fieldsOf? : Json → Option Fields
  | .obj fields => some fields
  | _ => none

def findingsOf (items : List Json) : Option (List ReviewFinding) :=
  (items.filterMap fieldsOf?).mapM (findingFromOutput repr)

end Answers

structure ProviderResult where
  succeeded : Bool := true
  structuredOutput : Option Fields
  unknownUsage : Bool := false

structure Binding where
  risk : RiskLevel
  baseCommit : String
  resultCommit : String
  diffHash : Option String

/-- `diff_hash or measured`: no hash and an empty one are replaced. -/
def Binding.orMeasured (b : Binding) (measured : String) : Binding :=
  { b with diffHash := if b.diffHash.getD "" = "" then some measured else b.diffHash }

structure ReviewVerdict where
  verdict : ReviewVerdictKind
  bound : Binding
  changedFiles : List Path
  findings : List ReviewFinding
  summary : Text
  partitionCount : Nat
  unknownUsage : Bool

def isHex (low high : Nat) (s : String) : Bool :=
  low ≤ s.length && s.length ≤ high && s.toList.all fun c => ('0' ≤ c && c ≤ '9') || ('a' ≤ c && c ≤ 'f')

def ReviewVerdict.isValid (v : ReviewVerdict) : Bool :=
  isHex 40 64 v.bound.baseCommit && isHex 40 64 v.bound.resultCommit && v.bound.diffHash.all (isHex 64 64) &&
    1 ≤ v.summary.length && v.summary.length ≤ 2000

def ReviewVerdict.construct (v : ReviewVerdict) : Except ReviewError ReviewVerdict := do
  raiseIf (v.isValid = false) .invalid
  .ok v

def promote (kind : ReviewVerdictKind) (merged : List ReviewFinding) : ReviewVerdictKind :=
  if (kind = .passed ∨ kind = .passedWithWarnings) ∧ merged.any (fun f => f.severity = .error ∨ f.severity = .blocker) then
    .changesRequired
  else if kind = .passed ∧ merged.any (fun f => f.severity = .warning) then .passedWithWarnings
  else kind

def usageNote : Text := " Usage unknown: cost settled at the conservative floor.".toList

section Review
variable (repr : Json → Text) (profileId : Text)

/-- What `_verdict_from_provider_result` reads of the output; none for any of its errors. -/
def readOutput (structured : Fields) : Option (ReviewVerdictKind × Text × List ReviewFinding) := do
  let kind ← reviewVerdictKind? (strOf repr (← structured.lookup "verdict"))
  let summary ← structured.lookup "summary"
  let findings ← findingsOf repr (← rawFindings structured)
  some (kind, strip (strOf repr summary), findings)

def summaryOf (kind : ReviewVerdictKind) (summary : Text) (unknownUsage : Bool) : Text :=
  let summary :=
    if summary = [] then "Independent review via ".toList ++ profileId ++ ": ".toList ++ kind.value.toList ++ ".".toList
    else summary
  let summary := if unknownUsage then strip (summary ++ usageNote) else summary
  ('[' :: profileId ++ "] ".toList ++ summary).take 2000

def verdictFromProviderResult (result : ProviderResult) (bound : Binding) (changedFiles : List Path)
    (mechanical : List ReviewFinding) (partitionCount : Nat) : Except ReviewError ReviewVerdict :=
  match result.structuredOutput with
  | none => .error .noStructuredOutput
  | some structured =>
    match readOutput repr structured with
    | none => .error .schema
    | some (kind, summary, findings) =>
      let merged := mechanical ++ findings
      let kind := promote kind merged
      ReviewVerdict.construct
        { verdict := kind
          bound
          changedFiles
          findings := merged
          summary := summaryOf profileId kind summary result.unknownUsage
          partitionCount
          unknownUsage := result.unknownUsage }

def maxFiles : Nat := 80

def maxDiffChars : Nat := 120000

/-- What a call of the reviewer is about: the ordinal of the call, the partition, its part of the diff and the mechanical
    findings that it is told. -/
structure PartitionRequest (δ : Type) where
  ordinal : Nat
  partition : Partition δ
  diff : Bytes
  mechanical : List ReviewFinding

structure PartitionSummary (δ : Type) where
  partitionId : String
  files : Nat
  verdict : ReviewVerdictKind
  level : ReviewLevel
  diffHash : Option δ

structure CrossRequest (δ : Type) where
  partitions : List (PartitionSummary δ)
  partitionCount : Nat
  reviewedCount : Nat

-- `sha256` gives the hex digest that is the `diff_hash` of an inspection.
variable {δ : Type} (sha256 : Bytes → String) (call : PartitionRequest δ → Except ReviewError ProviderResult)
  (ask : CrossRequest δ → Except ReviewError ProviderResult) (bound : Binding)

def reviewSinglePartition (request : PartitionRequest δ) : Except ReviewError ReviewVerdict := do
  raiseIf (maxFiles < request.partition.files.length) (.tooManyFiles request.partition.files.length)
  raiseIf (maxDiffChars < charCount request.diff) (.diffTooLong (charCount request.diff))
  let result ← call request
  raiseIf (result.succeeded = false) .didNotSucceed
  verdictFromProviderResult repr profileId result (bound.orMeasured (sha256 request.diff)) request.partition.files
    request.mechanical 1

def ReviewVerdict.stops (v : ReviewVerdict) : Bool :=
  v.verdict = .blocked || v.findings.any fun f => f.severity = .blocker

/-- The loop of `_review_partitioned`; the first partition alone is told the mechanical findings. -/
def reviewPartitions (perFile : Slices) : Nat → List ReviewFinding → List (Partition δ) →
    Except ReviewError (List ReviewVerdict)
  | _, _, [] => .ok []
  | ordinal, mechanical, p :: ps => do
    let verdict ← reviewSinglePartition repr profileId sha256 call bound
      { ordinal, partition := p, diff := blobOf perFile p.files, mechanical }
    if verdict.stops then .ok [verdict]
    else do
      let verdicts ← reviewPartitions perFile (ordinal + 1) [] ps
      .ok (verdict :: verdicts)

def crossPartitionAssessment (manifest : PartitionManifest δ) (verdicts : List ReviewVerdict) :
    Except ReviewError (List ReviewFinding) := do
  raiseIf (verdicts = []) .crossNoVerdicts
  let result ← ask
    { partitions := List.zipWith (fun p v =>
        { partitionId := p.partitionId, files := p.files.length, verdict := v.verdict, level := p.level,
          diffHash := p.diffHash }) (manifest.partitions.take verdicts.length) verdicts
      partitionCount := manifest.partitions.length
      reviewedCount := verdicts.length }
  raiseIf (result.succeeded = false) .crossDidNotSucceed
  match result.structuredOutput with
  | none => .error .crossNoOutput
  | some structured =>
    match rawFindings structured with
    | none => .error .crossFindings
    | some items =>
      match findingsOf repr items with
      | none => .error .crossSchema
      | some findings =>
        match reviewVerdictKind? (strOf repr ((structured.lookup "verdict").getD (.str "pass".toList))) with
        | none => .error .crossVerdict
        | some kind =>
          if kind = .blocked ∧ (findings.any fun f => f.severity = .blocker) = false then
            match ReviewFinding.construct
              { severity := .blocker
                classification := "cross_partition_block".toList
                summary := (strOf repr
                  ((structured.lookup "summary").getD (.str "cross-partition block".toList))).take 500 } with
            | none => .error .invalid
            | some block => .ok (findings ++ [block])
          else .ok findings

def aggregateKind (verdicts : List ReviewVerdict) (merged : List ReviewFinding) : ReviewVerdictKind :=
  if (verdicts.any fun v => v.verdict = .blocked) ∨ merged.any fun f => f.severity = .blocker then .blocked
  else if (verdicts.any fun v => v.verdict = .changesRequired) ∨ merged.any fun f => f.severity = .error then
    .changesRequired
  else if (verdicts.any fun v => v.verdict = .passedWithWarnings) ∨ merged.any fun f => f.severity = .warning then
    .passedWithWarnings
  else .passed

def aggregatePartitionVerdicts (verdicts : List ReviewVerdict) (crossFindings : List ReviewFinding)
    (changedFiles : List Path) (mechanical : List ReviewFinding) (unknownUsage : Bool) :
    Except ReviewError ReviewVerdict := do
  raiseIf (verdicts = []) .noVerdicts
  raiseIf (verdicts.any fun v => v.bound.baseCommit ≠ bound.baseCommit || v.bound.resultCommit ≠ bound.resultCommit ||
    v.bound.diffHash.getD "" ≠ bound.diffHash.getD "") .hashDrift
  let merged := mechanical ++ verdicts.flatMap (·.findings) ++ crossFindings
  let kind := aggregateKind verdicts merged
  let summary := "Partitioned independent review: ".toList ++ Nat.toDigits 10 verdicts.length ++ " partition(s), ".toList ++
    Nat.toDigits 10 crossFindings.length ++ " cross-partition finding(s) → ".toList ++ kind.value.toList ++ ".".toList
  ReviewVerdict.construct
    { verdict := kind
      bound
      changedFiles
      findings := merged
      summary := (if unknownUsage then summary ++ usageNote else summary).take 2000
      partitionCount := verdicts.length
      unknownUsage }

/-- The errors of the last part of `_review_partitioned`. -/
def aggregationError : ReviewError → ReviewError
  | .invalid => .aggregationFailed
  | e => e

def reviewPartitioned (manifest : PartitionManifest δ) (inspection : GitInspection) (mechanical : List ReviewFinding) :
    Except ReviewError ReviewVerdict := do
  let perFile ← (splitDiffByFile inspection.diff).mapError .diff
  let missing := (manifest.partitions.flatMap (·.files)).filter fun path => !perFile.any (·.1 == path)
  raiseIf (isSingleBlob perFile = false ∧ missing ≠ []) (.noDiffContent (missing.take 5))
  let verdicts ← reviewPartitions repr profileId sha256 call bound perFile 1 mechanical manifest.partitions
  let unknownUsage := verdicts.any (·.unknownUsage)
  let crossFindings ← (crossPartitionAssessment repr ask manifest verdicts).mapError aggregationError
  (aggregatePartitionVerdicts bound verdicts crossFindings inspection.changedFiles mechanical unknownUsage).mapError
    aggregationError

end Review

end Vuzol.Review
