import Vuzol.Lib.Program
import Vuzol.Ops.StaticTree

/-! The releases of a static site (`ops/static_publish.py`): the section of `prepare` under the site lock, `activate`,
    `compensate` and `rollback`, as programs of file operations that can stop between any two of them.

    What is written under another name first (the copy of `prepare`, the journal, the new link) is put in place by one
    rename, and nothing reads it before. -/

namespace Vuzol.Ops

open Vuzol.Lib

abbrev ReleaseName := List (Fin 16)

/-- `digest[:20]`. -/
def releaseName (sha256 : Bytes → Digest) (tree : StaticTree) : ReleaseName := (tree.treeDigest sha256).digits.take 20

def StaticTree.unlink (tree : StaticTree) (path : RelPath) : StaticTree where
  files := tree.files.filter (·.1 ≠ path)
  apart := tree.apart.filter _

/-- A directory under `releases`: what is in it, what `prepare` put there, and `st_mtime_ns`. -/
structure Release where
  name : ReleaseName
  tree : StaticTree
  made : StaticTree
  mtime : Nat

/-- `.activation.json`; an activation id is a `uuid4`. -/
structure Journal where
  current : ReleaseName
  previous : Option ReleaseName
  activationId : Nat

/-- The destination of a site: the releases in the order of `iterdir`, the target of the link `current`, and the journal.
    `before` is no file: it is what was live when the link was last changed. -/
structure Site where
  releases : List Release := []
  current : Option ReleaseName := none
  journal : Option Journal := none
  before : Option (ReleaseName × StaticTree) := none

namespace Site

def find (s : Site) (name : ReleaseName) : Option Release := s.releases.find? (·.name == name)

def live (s : Site) : Option (ReleaseName × StaticTree) :=
  s.current.bind fun name => (s.find name).map fun r => (name, r.tree)

end Site

inductive FileOp where
  | query
  | rename (r : Release) (place : Nat)
  | replaceJournal (j : Journal)
  | replaceCurrent (name : ReleaseName)
  | unlinkCurrent
  | unlink (name : ReleaseName) (path : RelPath) (mtime : Nat)
  | rmdir (name : ReleaseName)

def FileOp.perform : FileOp → Site → Site
  | .query, s => s
  | .rename r place, s => { s with releases := s.releases.take place ++ r :: s.releases.drop place }
  | .replaceJournal j, s => { s with journal := some j }
  | .replaceCurrent name, s => { s with current := some name, before := s.live }
  | .unlinkCurrent, s => { s with current := none, before := s.live }
  | .unlink name path mtime, s =>
    { s with releases := s.releases.map fun r => if r.name = name then { r with tree := r.tree.unlink path, mtime } else r }
  | .rmdir name, s => { s with releases := s.releases.filter (·.name ≠ name) }

abbrev SiteProgram (α : Type) := Program Site FileOp StaticPublishError α

namespace SiteProgram

abbrev read : SiteProgram Site := Program.observe .query

abbrev exec (op : FileOp) : SiteProgram Unit := Program.command op

abbrev failIf (p : Prop) [Decidable p] (message : StaticPublishError) : SiteProgram Unit := Program.failIf p message

/-- `ordered` of `_prune`: the newest release first. -/
def ordered (s : Site) : List Release := s.releases.insertionSort fun r r' => r'.mtime ≤ r.mtime

/-- `ordered[:keep]`. -/
def newest (s : Site) (keep : Nat) : List ReleaseName := ((ordered s).take keep).map (·.name)

/-- What `_prune` removes. -/
def victims (s : Site) (current : ReleaseName) (keep : Nat) (previous : Option ReleaseName) : List Release :=
  (ordered s).filter fun r => ¬(r.name = current ∨ some r.name = previous ∨ r.name ∈ newest s keep)

/-- `shutil.rmtree`; `touched` is the time that the directory has after each removal. -/
def rmtree (touched : RelPath → Nat) (r : Release) : SiteProgram Unit := do
  r.tree.files.forM fun f => exec (.unlink r.name f.1 (touched f.1))
  exec (.rmdir r.name)

def prune (touched : RelPath → Nat) (current : ReleaseName) (keep : Nat) (previous : Option ReleaseName) :
    SiteProgram Unit := do
  let s ← read
  (victims s current keep previous).forM (rmtree touched)

def currentRelease : SiteProgram ReleaseName := do
  let s ← read
  match s.current with
  | none => .raise "site has no active release"
  | some name =>
    failIf (s.find name).isNone "No such file or directory"
    .ret name

def optionalCurrent : SiteProgram (Option ReleaseName) := do
  let s ← read
  if s.current = none then .ret none
  else
    let name ← currentRelease
    .ret (some name)

/-- `_activation_journal`; what is written there has only hexadecimal digits. -/
def activationJournal : SiteProgram Journal := do
  let s ← read
  match s.journal with
  | none => .raise "activation history is unavailable"
  | some j => .ret j

/-- `_activate`: the journal first. -/
def activateRelease (activationId : Nat) (release : ReleaseName) : SiteProgram Unit := do
  let s ← read
  failIf (s.find release).isNone "activation target is not a retained release"
  let previous ← optionalCurrent
  exec (.replaceJournal { current := release, previous, activationId })
  exec (.replaceCurrent release)

end SiteProgram

/-- `PreparedRelease`, with `keep_releases` of its site. -/
structure PreparedRelease where
  release : ReleaseName
  keepReleases : Nat
  files : Nat
  bytes : Nat
  deriving DecidableEq

structure PublishResult where
  release : ReleaseName
  changed : Bool
  files : Nat
  bytes : Nat
  previousRelease : Option ReleaseName
  activationId : Option Nat
  deriving DecidableEq

open SiteProgram

/-- `prepare` under the lock, for the tree that was staged. -/
def prepare (sha256 : Bytes → Digest) (staged : StaticTree) (keepReleases mtime place : Nat) :
    SiteProgram PreparedRelease := do
  let s ← read
  match s.find (releaseName sha256 staged) with
  | some r => failIf (r.tree.treeDigest sha256 ≠ staged.treeDigest sha256) "existing release bytes changed"
  | none => exec (.rename { name := releaseName sha256 staged, tree := staged, made := staged, mtime } place)
  .ret { release := releaseName sha256 staged, keepReleases, files := staged.files.length, bytes := staged.bytes }

def activate (activationId : Nat) (touched : RelPath → Nat) (prepared : PreparedRelease) : SiteProgram PublishResult := do
  let previous ← optionalCurrent
  if previous ≠ some prepared.release then activateRelease activationId prepared.release else .ret ()
  prune touched prepared.release prepared.keepReleases previous
  .ret
    { release := prepared.release, changed := previous ≠ some prepared.release, files := prepared.files,
      bytes := prepared.bytes, previousRelease := previous,
      activationId := if previous ≠ some prepared.release then some activationId else none }

def compensate (activationId : Nat) (result : PublishResult) : SiteProgram Unit :=
  if ¬result.changed then .ret ()
  else do
    let journal ← activationJournal
    let current ← optionalCurrent
    failIf (some journal.activationId ≠ result.activationId ∨ current ≠ some result.release)
      "publication changed before compensation"
    match result.previousRelease with
    | none => exec .unlinkCurrent
    | some previous => activateRelease activationId previous

def rollback (activationId : Nat) : SiteProgram PublishResult := do
  let current ← currentRelease
  let journal ← activationJournal
  match journal.previous with
  | none => .raise "no previous release recorded"
  | some previous =>
    failIf (journal.current ≠ current) "no previous release recorded"
    activateRelease activationId previous
    let s ← read
    let tree := ((s.find previous).map (·.tree)).getD { }
    .ret
      { release := previous, changed := true, files := tree.files.length, bytes := tree.bytes,
        previousRelease := some current, activationId := some activationId }

/-- A site, and what the calls so far returned to their processes; `nextId` makes the activation ids new. -/
structure World where
  site : Site := { }
  prepared : List PreparedRelease := []
  results : List PublishResult := []
  nextId : Nat := 0

/-- A section under the lock. `crash`: the process dies after so many of its operations. -/
inductive SiteOp where
  | prepare (staged : StaticTree) (keepReleases mtime place : Nat) (crash : Option Nat)
  | activate (prepared : PreparedRelease) (touched : RelPath → Nat) (crash : Option Nat)
  | compensate (result : PublishResult) (crash : Option Nat)
  | rollback (crash : Option Nat)

def World.section {α : Type} (w : World) (program : SiteProgram α) (returned : World → α → World) :
    Option Nat → World
  | some n => { w with site := program.interrupted FileOp.perform n w.site, nextId := w.nextId + 1 }
  | none =>
    match program.run FileOp.perform w.site with
    | (.ok a, site) => returned { w with site, nextId := w.nextId + 1 } a
    | (.error _, site) => { w with site, nextId := w.nextId + 1 }

/-- A process activates what a `prepare` returned, and compensates what an activation returned. -/
def World.step (sha256 : Bytes → Digest) (w : World) : SiteOp → Except Unit World
  | .prepare staged keepReleases mtime place crash =>
    .ok (w.section (Ops.prepare sha256 staged keepReleases mtime place)
      (fun w p => { w with prepared := p :: w.prepared }) crash)
  | .activate prepared touched crash => do
    raiseIf (prepared ∉ w.prepared) ()
    .ok (w.section (Ops.activate w.nextId touched prepared) (fun w r => { w with results := r :: w.results }) crash)
  | .compensate result crash => do
    raiseIf (result ∉ w.results) ()
    .ok (w.section (Ops.compensate w.nextId result) (fun w _ => w) crash)
  | .rollback crash =>
    .ok (w.section (Ops.rollback w.nextId) (fun w r => { w with results := r :: w.results }) crash)

end Vuzol.Ops
