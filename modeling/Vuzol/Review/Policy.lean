import Mathlib.Data.List.DropRight
import Vuzol.Discussion.Packages
import Vuzol.Lib.Utf8

/-! The depth of a review by the files that a result changes (`review/policy.py`), with the paths that count as
    documentation (`execution/scaffold.py`). -/

namespace Vuzol.Review

open Vuzol.Lib
open Vuzol.Discussion (RiskLevel)

abbrev Path := CodePoints

/-- `path.split("/")`. -/
def components (path : Path) : List Path := path.splitOn '/'.toNat

/-- `PurePosixPath(path)`, less its root. -/
def tail (path : Path) : List Path := (components path).filter fun part => part ≠ [] && part ≠ codePoints "."

/-- `PurePosixPath(path).name`. -/
def name (path : Path) : Path := (tail path).getLastD []

/-- `name.rpartition(".")` as `PurePosixPath(path).suffix` uses it: a name that starts or ends with its last dot has no suffix. -/
def suffix (path : Path) : Path :=
  let ending := (name path).rtakeWhile (· ≠ '.'.toNat)
  if ending = [] ∨ (name path).length ≤ ending.length + 1 then [] else '.'.toNat :: ending

def isIn (word : Path) (words : List String) : Bool := words.any fun w => codePoints w == word

def endsWith (word : Path) (ending : String) : Bool := (codePoints ending).isSuffixOf word

def startsWith (word : Path) (start : String) : Bool := (codePoints start).isPrefixOf word

def docNames : List String :=
  ["readme", "readme.md", "license", "license.md", "licence", "copying", "changelog", "changelog.md", "authors",
    "contributors", "code_of_conduct.md", "security.md", "makefile", ".gitignore", ".gitattributes", ".editorconfig"]

def docSuffixes : List String := [".md", ".rst", ".txt", ".adoc"]

def docTreeSuffixes : List String := docSuffixes ++ [".json", ".yaml", ".yml", ".toml"]

def docRootDirs : List String := ["docs", "doc", "documentation", "notes"]

def productTxtPrefixes : List String := ["requirements", "constraints", "requirements-dev", "requirements-test"]

def isProductTxtName (name : Path) : Bool :=
  endsWith name ".txt" &&
    let stem := name.take (name.length - 4)
    productTxtPrefixes.any fun start => stem == codePoints start || startsWith stem (start ++ "-")

inductive FileClass where
  | docs | code | generated | lockfile | privileged
  deriving DecidableEq

def privilegedPathParts : List String :=
  ["ansible", "deploy", "deployment", "helm", "infra", "k8s", "systemd", "terraform"]

def lockfileNames : List String :=
  ["package-lock.json", "pnpm-lock.yaml", "poetry.lock", "requirements.txt", "uv.lock", "cargo.lock", "go.lock",
    "gemfile.lock"]

def generatedSuffixes : List String :=
  [".min.js", ".min.css", ".bundle.js", ".pb.go", ".generated.py", "_generated.py", ".g.dart"]

def generatedDirParts : List String := ["dist", "build", "out", "__pycache__", ".next", "coverage"]

section Classes
-- `str.lower`.
variable (lower : CodePoints → CodePoints)

def pathIsDocsOnly (path : Path) : Bool :=
  if startsWith path "/" || (tail path).contains (codePoints "..") then false
  else
    let name := lower (name path)
    let suffix := lower (suffix path)
    if isProductTxtName name then false
    else if isIn name docNames then true
    else if startsWith name "." && isIn name [".gitignore", ".gitattributes", ".editorconfig"] then true
    else if (tail path).dropLast.any fun part => isIn (lower part) docRootDirs then
      isIn suffix docTreeSuffixes || suffix == []
    else isIn suffix docSuffixes

def classifyFile (path : Path) : FileClass :=
  let normalized := lower path
  let parts := (normalized.splitOnP (· ∈ codePoints "/._-")).filter (· ≠ [])
  let filename := (components normalized).getLastD []
  if parts.any (isIn · privilegedPathParts) then .privileged
  else if isIn filename lockfileNames then .lockfile
  else if generatedSuffixes.any (endsWith filename) || (components normalized).any (isIn · generatedDirParts) then .generated
  else if pathIsDocsOnly lower path then .docs
  else .code

end Classes

inductive ReviewLevel where
  | l0 | l1 | l2 | l3

def levelRank : ReviewLevel → Nat
  | .l0 => 0
  | .l1 => 1
  | .l2 => 2
  | .l3 => 3

def levelFor (risk : RiskLevel) (fileClass : FileClass) (l1Enabled : Bool) : ReviewLevel :=
  match risk, fileClass with
  | .privileged, _ => .l3
  | .high, .privileged => .l3
  | .high, _ => .l2
  | .medium, _ => .l2
  | .low, .privileged => .l3
  | .low, .lockfile => .l2
  | .low, .generated => .l2
  | .low, .docs => .l0
  | .low, .code => if l1Enabled then .l1 else .l2

/-- `max(levels, key=_level_rank, default=ReviewLevel.L2)`: the first of the greatest ones. -/
def maxLevel : List ReviewLevel → ReviewLevel
  | [] => .l2
  | level :: levels => levels.foldl (fun m l => if levelRank m < levelRank l then l else m) level

end Vuzol.Review
