import Mathlib.Data.Char
import Mathlib.Data.List.Lex
import Mathlib.Data.List.Sort
import Vuzol.Lib.Url

/-! Static trees and their digest (`ops/static_publish.py`): `_tree_digest`, `_copy_allowlist`, `measure_static_tree` and the
    part of `prepare` before its lock.

    SHA-256 and `_require_closed_html_entrypoint` are parameters. -/

namespace Vuzol.Ops

open Vuzol.Lib

/-- The text of a `StaticPublishError` or of an `OSError`. -/
abbrev StaticPublishError := String

def maxFiles : Nat := 10_000
def maxBytes : Nat := 250 * 1024 * 1024

/-- `digest.hexdigest()`. -/
structure Digest where
  digits : List (Fin 16)
  length_digits : digits.length = 64
  deriving DecidableEq

/-- `PurePath.as_posix`, encoded. -/
def encodeParts (parts : List Text) : Bytes := utf8 (String.ofList (['/'].intercalate parts))

/-- A relative path that can be encoded, shorter than what four bytes count. -/
structure RelPath where
  parts : List Text
  parts_ne_nil : parts ≠ []
  part_ne_nil : ∀ part ∈ parts, part ≠ []
  slash_not_mem : ∀ part ∈ parts, '/' ∉ part
  length_lt : (encodeParts parts).length < 256 ^ 4
  deriving DecidableEq

def indexHtml : RelPath where
  parts := [['i', 'n', 'd', 'e', 'x', '.', 'h', 't', 'm', 'l']]
  parts_ne_nil := by decide
  part_ne_nil := by decide
  slash_not_mem := by decide
  length_lt := by decide

namespace RelPath

def encode (path : RelPath) : Bytes := encodeParts path.parts

def Apart (p q : RelPath) : Prop := ¬p.parts <+: q.parts ∧ ¬q.parts <+: p.parts

instance (p q : RelPath) : Decidable (p.Apart q) := inferInstanceAs (Decidable (_ ∧ _))

end RelPath

abbrev File := RelPath × Bytes

theorem apart_nil : ([] : List File).Pairwise fun f g => f.1.Apart g.1 := .nil

structure StaticTree where
  files : List File := []
  apart : files.Pairwise fun f g => f.1.Apart g.1 := by exact apart_nil

namespace StaticTree

/-- `sorted` of the paths. -/
def sortedFiles (files : List File) : List File := files.insertionSort fun f g => f.1.parts ≤ g.1.parts

def fileFeed (f : File) : Bytes := packBE 4 f.1.encode.length ++ f.1.encode ++ f.2

/-- What `_tree_digest` feeds to SHA-256. -/
def feed (tree : StaticTree) : Bytes := (sortedFiles tree.files).flatMap fileFeed

def treeDigest (sha256 : Bytes → Digest) (tree : StaticTree) : Digest := sha256 tree.feed

def bytes (tree : StaticTree) : Nat := (tree.files.map fun f => f.2.length).sum

/-- `target.open("xb")` below `target.parent.mkdir(parents=True, exist_ok=True)`. -/
def create (tree : StaticTree) (path : RelPath) (content : Bytes) : Except StaticPublishError StaticTree :=
  if h : ∀ f ∈ tree.files, f.1.Apart path then
    .ok { files := tree.files ++ [(path, content)],
          apart := List.pairwise_append.mpr ⟨tree.apart, List.pairwise_singleton _ _, fun f hf _ hg =>
            List.mem_singleton.mp hg ▸ h f hf⟩ }
  else .error "File exists"

end StaticTree

inductive Item where
  | directory | linkedDirectory
  | file (content : Bytes)
  | link (target : Bool)
  | special

/-- `item path`: what `lstat` finds at `source / path`, or nothing; `below path`: `sorted(candidate.rglob("*"))`, and of the
    source itself for no path. -/
structure Source where
  item : RelPath → Option Item
  below : Option RelPath → List RelPath

/-- `info.st_size` is counted before the file is taken. -/
def checkLimits (message : String) (tree : StaticTree) (content : Bytes) : Except StaticPublishError Unit :=
  raiseIf (maxFiles < tree.files.length + 1 ∨ maxBytes < tree.bytes + content.length) message

/-- The body of the inner loop of `_copy_allowlist`. -/
def copyItem (source : Source) (staging : StaticTree) (path : RelPath) : Except StaticPublishError StaticTree :=
  match source.item path with
  | some .directory => .ok staging
  | some .linkedDirectory => .error "symlink directory is forbidden"
  | item? =>
    if ∃ f ∈ staging.files, f.1 = path then .ok staging
    else
      match item? with
      | some (.file content) => do
        checkLimits "static publication exceeds configured size limits" staging content
        staging.create path content
      | none => .error "No such file or directory"
      | _ => .error "only regular files may be published"

def copyInclude (source : Source) (staging : StaticTree) (relative : RelPath) : Except StaticPublishError StaticTree :=
  match source.item relative with
  | none | some (.link false) => .ok staging
  | some .linkedDirectory | some (.link true) => .error "allowlisted path is unsafe"
  | some (.file _) => copyItem source staging relative
  | some .directory | some .special => (source.below (some relative)).foldlM (copyItem source) staging

def copyAllowlist (source : Source) (include_ : List RelPath) : Except StaticPublishError StaticTree :=
  include_.foldlM (copyInclude source) { }

/-- The body of the loop of `measure_static_tree`, which reads the files where they are. -/
def measureItem (source : Source) (tree : StaticTree) (path : RelPath) : Except StaticPublishError StaticTree :=
  match source.item path with
  | some .directory => .ok tree
  | some .linkedDirectory => .error "static build contains a symlink directory"
  | some (.file content) => do
    checkLimits "static build exceeds configured size limits" tree content
    tree.create path content
  | none => .error "No such file or directory"
  | _ => .error "static build contains a non-regular file"

section Publication
variable (sha256 : Bytes → Digest) (closed : StaticTree → RelPath → Except StaticPublishError Unit)

/-- `_regular_file(root / entrypoint)` and `_require_closed_html_entrypoint`. -/
def requireEntrypoint (tree : StaticTree) (entrypoint : RelPath) : Except StaticPublishError Unit := do
  raiseIf (¬∃ f ∈ tree.files, f.1 = entrypoint) "required entrypoint is missing"
  closed tree entrypoint

structure StaticTreeEvidence where
  digest : Digest
  files : Nat
  bytes : Nat

/-- The tree that `measure_static_tree` measures: the allowlisted part of the source, or the source itself. -/
def measuredTree (source : Source) (entrypoint : RelPath) (include_ : Option (List RelPath)) :
    Except StaticPublishError StaticTree := do
  let tree ← match include_ with
    | some include_ => copyAllowlist source include_
    | none => (source.below none).foldlM (measureItem source) { }
  requireEntrypoint closed tree entrypoint
  .ok tree

def measureStaticTree (source : Source) (entrypoint : RelPath) (include_ : Option (List RelPath)) :
    Except StaticPublishError StaticTreeEvidence := do
  let tree ← measuredTree closed source entrypoint include_
  .ok { digest := tree.treeDigest sha256, files := tree.files.length, bytes := tree.bytes }

/-- `prepare` up to its lock: the private copy. -/
def stage (source : Source) (entrypoint : RelPath) (include_ : List RelPath) (expectedHash : Option Digest) :
    Except StaticPublishError StaticTree := do
  let staging ← copyAllowlist source include_
  requireEntrypoint closed staging entrypoint
  raiseIf (∃ expected ∈ expectedHash, staging.treeDigest sha256 ≠ expected)
    "prepared tree does not match the approved build artifact"
  .ok staging

end Publication

end Vuzol.Ops
