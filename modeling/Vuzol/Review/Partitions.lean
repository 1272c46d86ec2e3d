import Mathlib.Data.List.Lex
import Vuzol.Lib.Packing
import Vuzol.Review.Policy

/-! The partitions of a review (`review/partitions.py`): a large diff is split by files, and the files are packed into
    bounded partitions. -/

namespace Vuzol.Review

open Vuzol.Lib
open Vuzol.Discussion (RiskLevel)

/-- `IndependentReviewError`, and the `ValueError` of a byte out of range. -/
inductive Error where
  | truncatedEscape | truncatedOctalEscape
  | unparseableQuotedHeader (rest : Bytes)
  | unparseableHeader (rest : Bytes)
  | noDiffContent (missing : List Path)
  | notOrdered (partitionId : String)
  | notCovered (expected got : Nat)
  | overlapping
  | noDeliveredContent (missing : List Path)
  | valueError
  deriving DecidableEq

def diffGitPrefix : Bytes := ascii "diff --git "

def backslash : UInt8 := 0x5C

def isOctal (b : UInt8) : Bool := 0x30 ≤ b && b ≤ 0x37

/-- `int(triple, 8)`. -/
def octalValue (x y z : UInt8) : Nat := (x.toNat - 0x30) * 64 + (y.toNat - 0x30) * 8 + (z.toNat - 0x30)

def unescape (b : UInt8) : UInt8 := if b = 0x6E then 0x0A else if b = 0x74 then 0x09 else b

def unquoteGitPath : Bytes → Except Error Bytes
  | [] => .ok []
  | b :: rest =>
    if b ≠ backslash then (unquoteGitPath rest).map (b :: ·)
    else
      match rest with
      | [] => .error .truncatedEscape
      | x :: rest =>
        if isOctal x then
          match rest with
          | y :: z :: rest =>
            if isOctal y && isOctal z then
              if 0xFF < octalValue x y z then .error .valueError
              else (unquoteGitPath rest).map (UInt8.ofNat (octalValue x y z) :: ·)
            else .error .truncatedOctalEscape
          | _ => .error .truncatedOctalEscape
        else (unquoteGitPath rest).map (unescape x :: ·)

/-- What follows the last occurrence of `word`. -/
def afterLast (word : Bytes) : Bytes → Option Bytes
  | [] => none
  | b :: rest =>
    match afterLast word rest with
    | some found => some found
    | none => if word.isPrefixOf (b :: rest) then some ((b :: rest).drop word.length) else none

/-- The second group of `"a/(.*)" "b/(.*)"`, of which the first is as long as it can be. -/
def quotedSide (rest : Bytes) : Option Bytes :=
  if rest.getLast? = some 0x22 then afterLast (ascii "\" \"b/") (rest.drop 3).dropLast else none

/-- The sides of `a/X b/X` agree; `seen` is the part of the body before the place that is looked at. -/
def agreeingSide (seen : Bytes) : Bytes → Option Bytes
  | [] => none
  | b :: rest =>
    if (ascii " b/").isPrefixOf (b :: rest) ∧ seen = (b :: rest).drop 3 then some ((b :: rest).drop 3)
    else agreeingSide (seen ++ [b]) rest

/-- `_parse_header_path`; the messages quote 80 bytes of the header. -/
def parseHeaderPath (header : Bytes) : Except Error Path :=
  let rest := header.drop diffGitPrefix.length
  if (ascii "\"a/").isPrefixOf rest then
    match quotedSide rest with
    | none => .error (.unparseableQuotedHeader (rest.take 80))
    | some side => (unquoteGitPath side).map (decode surrogateescape)
  else if !(ascii "a/").isPrefixOf rest then .error (.unparseableHeader (rest.take 80))
  else
    match agreeingSide [] (rest.drop 2) with
    | some side => .ok (decode surrogateescape side)
    | none => .error (.unparseableHeader (rest.take 80))

abbrev Slices := List (Path × Bytes)

/-- `out[path] = blob`. -/
def setItem (out : Slices) (item : Path × Bytes) : Slices :=
  if out.any (·.1 == item.1) then out.map fun entry => if entry.1 = item.1 then item else entry
  else out ++ [item]

/-- Where a header line starts, and the path that it names; `offset` is where the lines start. -/
def startsOf (offset : Nat) : List Bytes → Except Error (List (Nat × Path))
  | [] => .ok []
  | line :: lines =>
    if diffGitPrefix.isPrefixOf line then do
      let path ← parseHeaderPath line
      let starts ← startsOf (offset + line.length + 1) lines
      .ok ((offset, path) :: starts)
    else startsOf (offset + line.length + 1) lines

def slicesOf (diff : Bytes) : List (Nat × Path) → List (Path × Bytes)
  | [] => []
  | [(start, path)] => [(path, diff.drop start)]
  | (start, path) :: (stop, next) :: starts =>
    (path, (diff.drop start).take (stop - start)) :: slicesOf diff ((stop, next) :: starts)

def full : Path := codePoints "__full__"

def splitDiffByFile (diff : Bytes) : Except Error Slices := do
  let starts ← startsOf 0 (diff.splitOn 0x0A)
  if starts = [] then .ok [(full, diff)] else .ok ((slicesOf diff starts).foldl setItem [])

/-- `per_file[path]`, for a key of the dict. -/
def slice (perFile : Slices) (path : Path) : Bytes := (perFile.lookup path).getD []

/-- `set(per_file.keys()) == {"__full__"}`. -/
def isSingleBlob (perFile : Slices) : Bool := perFile.map (·.1) == [full]

structure GitInspection where
  changedFiles : List Path
  diff : Bytes

structure Partition (δ : Type) where
  partitionId : String
  files : List Path
  fileClasses : List FileClass
  level : ReviewLevel
  diffHash : Option δ
  charCount : Nat
  diffTruncated : Bool
  generatedFiles : List Path
  lockfileFiles : List Path

structure PartitionManifest (δ : Type) where
  policyRevision : String
  baseCommit : String
  resultCommit : String
  diffHash : Option δ
  partitions : List (Partition δ)
  generatedInventory : List Path
  lockfileInventory : List Path
  truncated : Bool
  totalFiles : Nat
  totalChars : Nat

/-- `sorted(paths)`. -/
def sorted (paths : List Path) : List Path := paths.mergeSort fun a b => decide (a ≤ b)

def validateManifest {δ : Type} (m : PartitionManifest δ) (changedFiles : List Path) (perFile : Option Slices) :
    Except Error Unit := do
  m.partitions.forM fun p => raiseIf (sorted p.files ≠ p.files) (.notOrdered p.partitionId)
  let seen := m.partitions.flatMap (·.files)
  raiseIf (sorted seen ≠ sorted changedFiles) (.notCovered changedFiles.length seen.length)
  raiseIf (¬seen.Nodup) .overlapping
  match perFile with
  | some perFile =>
    if isSingleBlob perFile then .ok ()
    else
      let missing := seen.filter fun path => slice perFile path = []
      raiseIf (missing ≠ []) (.noDeliveredContent (missing.take 5))
  | none => .ok ()

/-- `f"p{number:02d}"`. -/
def partitionIdOf (number : Nat) : String :=
  if number < 10 then "p0" ++ toString number else "p" ++ toString number

/-- `len(blob.decode("utf-8", "replace"))`. -/
def charCount (blob : Bytes) : Nat := (decode replaceErrors blob).length

section Manifest
variable {δ : Type} (digest : Bytes → δ) (lower : CodePoints → CodePoints) (inspection : GitInspection) (risk : RiskLevel)
  (maxFiles maxChars : Nat) (l1Enabled : Bool)

def sizeOf (perFile : Slices) (path : Path) : Nat :=
  if isSingleBlob perFile then inspection.diff.length / max inspection.changedFiles.length 1
  else (slice perFile path).length

def takes {size : Path → Nat} (bucket : Bin size) (path : Path) : Bool :=
  bucket.items.length < maxFiles && (bucket.load + size path ≤ maxChars || bucket.items.isEmpty)

def bucketsOf (perFile : Slices) : List (Bin (sizeOf inspection perFile)) :=
  firstFit (takes maxFiles maxChars) (sorted inspection.changedFiles)

/-- What a reviewer is given of a partition: `_review_partitioned` joins the slices in the same way. -/
def blobOf (perFile : Slices) (files : List Path) : Bytes :=
  if isSingleBlob perFile then slice perFile full else (files.map (slice perFile)).flatten

/-- One round of the loop over the buckets. -/
def partitionOf (perFile : Slices) (buckets number : Nat) (files : List Path) : Partition δ :=
  let classes := files.map (classifyFile lower)
  let blob := blobOf perFile files
  let chars := if isSingleBlob perFile then blob.length / buckets else charCount blob
  { partitionId := partitionIdOf number
    files := files
    fileClasses := classes
    level := maxLevel (classes.map fun c => levelFor risk c l1Enabled)
    diffHash := if isSingleBlob perFile || blob ≠ [] then some (digest blob) else none
    charCount := chars
    diffTruncated := if isSingleBlob perFile then decide (1 < buckets) else decide (maxChars < chars)
    generatedFiles := files.filter fun path => classifyFile lower path = .generated
    lockfileFiles := files.filter fun path => classifyFile lower path = .lockfile }

/-- The manifest that `build_manifest` makes of the slices. -/
def manifestOf (perFile : Slices) (baseCommit resultCommit policyRevision : String) : PartitionManifest δ :=
  let changed := sorted inspection.changedFiles
  let buckets := bucketsOf inspection maxFiles maxChars perFile
  let partitions := buckets.zipIdx.map fun b =>
    partitionOf digest lower risk maxChars l1Enabled perFile buckets.length b.2 b.1.items
  { policyRevision := policyRevision
    baseCommit := baseCommit
    resultCommit := resultCommit
    diffHash := some (digest inspection.diff)
    partitions := partitions
    generatedInventory := changed.filter fun path => classifyFile lower path = .generated
    lockfileInventory := changed.filter fun path => classifyFile lower path = .lockfile
    truncated := decide (1 < buckets.length) || partitions.any (·.diffTruncated)
    totalFiles := changed.length
    totalChars := charCount inspection.diff }

def buildManifest (baseCommit resultCommit policyRevision : String) : Except Error (PartitionManifest δ) := do
  let changed := sorted inspection.changedFiles
  let perFile ← splitDiffByFile inspection.diff
  let missing := changed.filter fun path => !perFile.any (·.1 == path)
  raiseIf (isSingleBlob perFile = false ∧ missing ≠ []) (.noDiffContent (missing.take 5))
  let manifest := manifestOf digest lower inspection risk maxFiles maxChars l1Enabled perFile baseCommit resultCommit
    policyRevision
  validateManifest manifest changed (some perFile)
  .ok manifest

end Manifest

end Vuzol.Review
