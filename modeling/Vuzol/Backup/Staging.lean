import Mathlib.Data.List.Sort
import Mathlib.Logic.Function.Basic
import Vuzol.Backup.Crypto

/-! Staged runs (`ops/backup/staging.py`): the part of `BackupCaptureRunner.run` that writes below the staging root, and
    `gc_incomplete_runs`, one access to the disk at a time.

    The capture lock lets one capture run at a time; the collector takes no lock. Either may raise or crash at any point,
    and the entries below a directory are removed in any order. Containment checks are not modelled. -/

namespace Vuzol.Backup

open Vuzol.Lib

inductive RunState where
  | starting | dumping | manifesting | published | failed | cancelled
  deriving DecidableEq

/-- `read_state`: the file is missing, or `write_text` has opened it and written nothing yet, or its text. -/
abbrev StateFile := Option (Option RunState)

inductive FileName where
  | dump | wrap | manifest | manifestSha
  deriving DecidableEq

def FileName.all : List FileName := [.dump, .wrap, .manifest, .manifestSha]

/-- What the manifest says of the run and of its component `postgres`. -/
structure BackupManifest where
  runId : RunId
  postgres : EncryptResult

inductive Content where
  | bytes (b : Bytes)
  | manifest (m : BackupManifest)
  | digest (d : String)

abbrev Files := FileName → Option Content

/-- `runs/{id}`; `tmp` and `publish` are none where the directory is missing. -/
structure RunDir where
  mtime : Nat
  state : StateFile := none
  tmp : Option Files := none
  publish : Option Files := none

/-- What `rmtree` removes at a time. -/
inductive Entry where
  | state
  | tmpFile (n : FileName)
  | tmp
  | publishFile (n : FileName)
  | publish
  deriving DecidableEq

def Files.isEmpty (fs : Files) : Bool := FileName.all.all fun n => (fs n).isNone

namespace RunDir

def isEmpty (d : RunDir) : Bool := d.state.isNone && d.tmp.isNone && d.publish.isNone

/-- Removing an entry of the directory itself touches it. -/
def remove (d : RunDir) (now : Nat) : Entry → Option RunDir
  | .state => if d.state.isSome then some { d with state := none, mtime := now } else none
  | .tmpFile n =>
    match d.tmp with
    | some fs => if (fs n).isSome then some { d with tmp := some (Function.update fs n none) } else none
    | none => none
  | .tmp =>
    match d.tmp with
    | some fs => if fs.isEmpty then some { d with tmp := none, mtime := now } else none
    | none => none
  | .publishFile n =>
    match d.publish with
    | some fs => if (fs n).isSome then some { d with publish := some (Function.update fs n none) } else none
    | none => none
  | .publish =>
    match d.publish with
    | some fs => if fs.isEmpty then some { d with publish := none, mtime := now } else none
    | none => none

end RunDir

structure BackupConfig where
  sha256 : Bytes → String
  manifestSha256 : BackupManifest → String
  keepLocalRuns : Nat
  keepFailedRuns : Bool
  maxAgeSeconds : Nat

inductive Action where
  | mkdirRun | mkdirTmp | mkdirPublish
  | openState | putState (state : RunState)
  | write (n : FileName)
  | replace (n : FileName)
  deriving DecidableEq

/-- `write_text` opens the file, which empties it, and writes. -/
def writeState (state : RunState) : List Action := [.openState, .putState state]

def ensureStagingTree : List Action := [.mkdirRun, .mkdirTmp, .mkdirPublish] ++ writeState .starting

def publishRun : List Action := FileName.all.map .replace ++ writeState .published

def captureActions : List Action :=
  ensureStagingTree ++ writeState .dumping ++ [.write .dump, .write .wrap] ++ writeState .manifesting ++
    [.write .manifest, .write .manifestSha] ++ publishRun

inductive CapturePhase where
  | running (rest : List Action)
  /-- `prune_published_runs` reads the STATE of every run. -/
  | scanning (todo found : List RunId)
  | pruning (published : List RunId)
  | removing (victim : RunId) (published : List RunId)
  /-- Writing FAILED; `encrypting` is the handler around the encryption. -/
  | failing (rest : List Action) (encrypting : Bool)
  | discarding (encrypting : Bool)
  deriving DecidableEq

structure Capture where
  run : RunId
  phase : CapturePhase := .running captureActions
  /-- `run_dir` is assigned. -/
  assigned : Bool := false
  result : Option EncryptResult := none

/-- What a file is written with; `bytes` is the ciphertext or the wrap. -/
def Capture.content (cfg : BackupConfig) (c : Capture) (bytes : Bytes) : FileName → Option Content
  | .dump | .wrap => some (.bytes bytes)
  | .manifest => c.result.map fun r => .manifest { runId := c.run, postgres := r }
  | .manifestSha => c.result.map fun r => .digest (cfg.manifestSha256 { runId := c.run, postgres := r })

/-- The directory after an action; none where the action raises. -/
def Capture.act (cfg : BackupConfig) (c : Capture) (d : Option RunDir) (now : Nat) (bytes : Bytes) :
    Action → Option RunDir
  | .mkdirRun => if d.isSome then none else some { mtime := now }
  | .mkdirTmp => d.bind fun d => if d.tmp.isSome then none else some { d with tmp := some fun _ => none, mtime := now }
  | .mkdirPublish =>
    d.bind fun d => if d.publish.isSome then none else some { d with publish := some fun _ => none, mtime := now }
  | .openState => d.map fun d => { d with state := some none, mtime := if d.state.isNone then now else d.mtime }
  | .putState state => d.bind fun d => if d.state.isSome then some { d with state := some (some state) } else none
  | .write n => d.bind fun d =>
    match d.tmp, c.content cfg bytes n with
    | some fs, some x => some { d with tmp := some (Function.update fs n (some x)) }
    | _, _ => none
  | .replace n => d.bind fun d =>
    match d.tmp, d.publish with
    | some fs, some gs =>
      match fs n with
      | some x => some { d with
          tmp := some (Function.update fs n none)
          publish := some (Function.update gs n (some x)) }
      | none => none
    | _, _ => none

def Capture.after (cfg : BackupConfig) (c : Capture) (bytes : Bytes) : Action → Capture
  | .putState .starting => { c with assigned := true }
  | .write .dump => { c with result := some { sha256Ciphertext := cfg.sha256 bytes, sizeCiphertext := bytes.length } }
  | _ => c

inductive GcPhase where
  | idle
  | looked (run : RunId) (state : StateFile)
  | removing (run : RunId)
  deriving DecidableEq

structure Staging where
  dirs : RunId → Option RunDir := fun _ => none
  /-- The ids that `uuid4` has returned. -/
  issued : List RunId := []
  capture : Option Capture := none
  gcs : Nat → GcPhase := fun _ => .idle

inductive StagingOp where
  | begin (run : RunId)
  | act (now : Nat) (bytes : Bytes)
  | encryptFails
  | raises
  | crash
  | scan
  | sort
  | next
  | remove (now : Nat) (entry : Entry)
  | removed
  | gcLook (gc : Nat) (run : RunId)
  | gcAge (gc : Nat) (now : Nat)
  | gcRemove (gc : Nat) (now : Nat) (entry : Entry)
  | gcRemoved (gc : Nat)
  | gcEnds (gc : Nat)

namespace Staging

variable (cfg : BackupConfig)

def setDir (s : Staging) (run : RunId) (d : Option RunDir) : Staging :=
  { s with dirs := Function.update s.dirs run d }

def goOn (s : Staging) (c : Capture) (phase : CapturePhase) : Staging :=
  { s with capture := some { c with phase := phase } }

def finish (s : Staging) : Staging := { s with capture := none }

def setGc (s : Staging) (gc : Nat) (phase : GcPhase) : Staging := { s with gcs := Function.update s.gcs gc phase }

def stateOf (s : Staging) (run : RunId) : StateFile := (s.dirs run).bind RunDir.state

def isPublished (s : Staging) (run : RunId) : Bool := s.stateOf run = some (some .published)

def mtime (s : Staging) (run : RunId) : Nat := ((s.dirs run).map RunDir.mtime).getD 0

/-- `except Exception`: around the whole, or around the encryption of a run that is being failed. -/
def handle (s : Staging) (c : Capture) : Staging :=
  if c.assigned ∧ (s.dirs c.run).isSome then s.goOn c (.failing (writeState .failed) false) else s.finish

def raise (s : Staging) (c : Capture) : Staging :=
  match c.phase with
  | .failing _ false | .discarding false => s.finish
  | _ => s.handle c

/-- The capture's next access below its own run. -/
def act (s : Staging) (c : Capture) (now : Nat) (bytes : Bytes) : Except String Staging :=
  match c.phase with
  | .running (a :: rest) =>
    match c.act cfg (s.dirs c.run) now bytes a with
    | none => .ok (s.raise c)
    | some d =>
      let c' := c.after cfg bytes a
      let s := s.setDir c.run (some d)
      .ok (s.goOn c' (if rest = [] then .scanning (s.issued.filter fun r => (s.dirs r).isSome) [] else .running rest))
  | .failing (a :: rest) encrypting =>
    match c.act cfg (s.dirs c.run) now bytes a with
    | none => .ok (s.raise c)
    | some d =>
      let s := s.setDir c.run (some d)
      if rest ≠ [] then .ok (s.goOn c (.failing rest encrypting))
      else if encrypting ∨ ¬cfg.keepFailedRuns then .ok (s.goOn c (.discarding encrypting))
      else .ok s.finish
  | _ => .error "no access"

/-- `except (PostgresDumpError, BackupCryptoError)`. -/
def encryptFails (s : Staging) (c : Capture) : Except String Staging :=
  match c.phase with
  | .running (.write .dump :: _) | .running (.write .wrap :: _) =>
    .ok (s.goOn c (.failing (writeState .failed) true))
  | _ => .error "no encryption"

def scan (s : Staging) (c : Capture) : Except String Staging :=
  match c.phase with
  | .scanning (r :: todo) found => .ok (s.goOn c (.scanning todo (if s.isPublished r then found ++ [r] else found)))
  | _ => .error "no scan"

/-- `published.sort`; a run that is gone has no mtime. -/
def sort (s : Staging) (c : Capture) : Except String Staging :=
  match c.phase with
  | .scanning [] found =>
    if found.all fun r => (s.dirs r).isSome then
      .ok (s.goOn c (.pruning (found.insertionSort fun a b => s.mtime a ≤ s.mtime b)))
    else .ok (s.raise c)
  | _ => .error "no scan"

/-- `while len(published) > keep`. -/
def next (s : Staging) (c : Capture) : Except String Staging :=
  match c.phase with
  | .pruning published =>
    match published with
    | victim :: rest =>
      if cfg.keepLocalRuns < published.length then .ok (s.goOn c (.removing victim rest)) else .ok s.finish
    | [] => .ok s.finish
  | _ => .error "no pruning"

def target (c : Capture) : Option RunId :=
  match c.phase with
  | .removing victim _ => some victim
  | .discarding _ => some c.run
  | _ => none

def removeEntry (s : Staging) (run : RunId) (now : Nat) (entry : Entry) : Except String Staging :=
  match (s.dirs run).bind fun d => d.remove now entry with
  | some d => .ok (s.setDir run (some d))
  | none => .error "no entry"

/-- `rmtree` comes to its end, or there was no directory. -/
def removeDir (s : Staging) (run : RunId) : Except String Staging :=
  match s.dirs run with
  | some d => if d.isEmpty then .ok (s.setDir run none) else .error "not empty"
  | none => .ok s

def afterRemoval (s : Staging) (c : Capture) : Staging :=
  match c.phase with
  | .removing _ rest => s.goOn c (.pruning rest)
  | _ => s.finish

def gcAge (s : Staging) (gc : Nat) (now : Nat) : Except String Staging :=
  match s.gcs gc with
  | .looked run state =>
    match s.dirs run with
    | none => .ok (s.setGc gc .idle)
    | some d =>
      if d.mtime + cfg.maxAgeSeconds ≤ now ∨ state = none ∨ state = some (some .failed) ∨ state = some (some .cancelled) then
        .ok (s.setGc gc (.removing run))
      else .ok (s.setGc gc .idle)
  | _ => .error "no run"

def withCapture (s : Staging) (f : Capture → Except String Staging) : Except String Staging :=
  match s.capture with
  | some c => f c
  | none => .error "no capture"

def perform (s : Staging) : StagingOp → Except String Staging
  | .begin run =>
    if s.capture.isNone ∧ run ∉ s.issued then
      .ok { s with issued := s.issued ++ [run], capture := some { run := run } }
    else .error "lock_busy"
  | .act now bytes => s.withCapture fun c => s.act cfg c now bytes
  | .encryptFails => s.withCapture s.encryptFails
  | .raises => s.withCapture fun c => .ok (s.raise c)
  | .crash => s.withCapture fun _ => .ok s.finish
  | .scan => s.withCapture s.scan
  | .sort => s.withCapture s.sort
  | .next => s.withCapture fun c => s.next cfg c
  | .remove now entry => s.withCapture fun c =>
    match target c with
    | some run => s.removeEntry run now entry
    | none => .error "no removal"
  | .removed => s.withCapture fun c =>
    match target c with
    | some run => do
      let s ← s.removeDir run
      .ok (s.afterRemoval c)
    | none => .error "no removal"
  | .gcLook gc run =>
    match s.gcs gc, s.dirs run with
    | .idle, some d =>
      if d.state = some (some .published) then .ok s else .ok (s.setGc gc (.looked run d.state))
    | _, _ => .error "no run"
  | .gcAge gc now => s.gcAge cfg gc now
  | .gcRemove gc now entry =>
    match s.gcs gc with
    | .removing run => s.removeEntry run now entry
    | _ => .error "no removal"
  | .gcRemoved gc =>
    match s.gcs gc with
    | .removing run => do
      let s ← s.removeDir run
      .ok (s.setGc gc .idle)
    | _ => .error "no removal"
  | .gcEnds gc => .ok (s.setGc gc .idle)

end Staging

end Vuzol.Backup
