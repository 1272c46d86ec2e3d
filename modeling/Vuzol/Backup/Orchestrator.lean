import Vuzol.Backup.Restore
import Vuzol.Lib.Program

/-! The exits of `run_restore_orchestration` (`ops/backup/restore_orchestrator.py`): every callback may return or raise
    anything, and what was called is recorded in order. -/

namespace Vuzol.Backup.Orchestrator

open Vuzol.Lib

/-- `BackupCryptoError`, another `Exception`, or a `BaseException` beyond these. -/
inductive Raised where
  | crypto | exception | base

abbrev Answer (α : Type) := Except Raised α

/-- A value that is compared with `is True`; `other` is a truthy or falsy value that is no bool. -/
inductive Flag where
  | true_ | false_ | other
  deriving DecidableEq

inductive ModeArgument where
  | member (mode : RestoreMode)
  | text (t : String)
  | other

/-- `RestoreMode(mode)`. -/
def ModeArgument.resolve : ModeArgument → Option RestoreMode
  | member mode => some mode
  | text t => if t = "dry_run" then some .dryRun else if t = "apply" then some .apply else none
  | other => none

inductive KeyMaterial where
  | bytes (b : Bytes)
  | other

def KeyMaterial.isKeyBytes32 : KeyMaterial → Bool
  | bytes b => b.length = 32
  | other => false

/-- `_default_bind_package_handle`, by the message of the check that fails and whether it names the run, or the seam for
    tests, which may return a report of its own. -/
inductive Binder where
  | standard (failure : Answer (Option (String × Bool)))
  | injected (answer : Answer (Option RestoreOrchestrationReport))

/-- The arguments, and what the callbacks answer; `true` is the first pass. -/
structure Inputs where
  mode : ModeArgument := .member .dryRun
  applyAuthorized : Flag := .false_
  verifyCrypto : Flag := .false_
  kek : KeyMaterial := .other
  packagePreflight : Bool → Answer PackagePreflightReport
  targetPreflight : Bool → Answer TargetPreflightReport
  probeCaptureLock : Option (Answer Flag) := none
  assertEmptyTarget : Option (Answer Unit) := none
  binder : Binder := .standard (.ok none)
  buildArgv : Answer (List Text)
  unwrap : Answer KeyMaterial
  decryptStream : Answer Unit
  consume : Answer Unit := .ok ()
  runRestore : Answer RestoreProcessResult
  /-- Closing the generator raises a `BaseException`. -/
  closeRaises : Bool := false

inductive Call where
  | package | target | probe | empty | bind | buildArgv | unwrap | decrypt | consume | runRestore | close
  deriving DecidableEq

/-- How the function ends before its last `return`. -/
inductive Exit where
  | report (r : RestoreOrchestrationReport)
  | escaped (e : Raised)

abbrev Restoring (α : Type) := Program Unit Call Exit α

/-- A call; `refuse` is the report on what it raises, where that is caught. -/
def ask {α : Type} (c : Call) (answer : Answer α) (refuse : Raised → Option RestoreOrchestrationReport) : Restoring α :=
  .exec c fun _ =>
    match answer with
    | .ok a => .ret a
    | .error e =>
      match refuse e with
      | some r => .raise (.report r)
      | none => .raise (.escaped e)

def refuseIf (p : Prop) [Decidable p] (r : RestoreOrchestrationReport) : Restoring Unit :=
  if p then .raise (.report r) else .ret ()

def uncaught : Raised → Option RestoreOrchestrationReport := fun _ => none

/-- `except Exception`. -/
def onException (r : RestoreOrchestrationReport) : Raised → Option RestoreOrchestrationReport
  | .base => none
  | _ => some r

/-- `except BackupCryptoError` and `except Exception`. -/
def onCrypto (crypto other : RestoreOrchestrationReport) : Raised → Option RestoreOrchestrationReport
  | .crypto => some crypto
  | .exception => some other
  | .base => none

abbrev Passed := PackagePreflightReport × TargetPreflightReport

/-- A report behind both preflights. -/
def report (mode : RestoreMode) (passed : Passed) (code message : String) : RestoreOrchestrationReport where
  ok := false
  code := code
  message := message
  mode := some mode
  runId := passed.1.runId
  packageCode := some passed.1.code
  targetCode := some passed.2.code
  host := passed.2.host
  port := passed.2.port
  database := passed.2.database

variable (w : Inputs)

/-- The package preflight, and the target preflight. -/
def pass (mode : RestoreMode) (first : Bool) : Restoring Passed := do
  let package ← ask .package (w.packagePreflight first) uncaught
  refuseIf (package.ok = false)
    { ok := false, code := package.code, message := package.message, mode := some mode, runId := package.runId,
      packageCode := some package.code }
  let target ← ask .target (w.targetPreflight first) uncaught
  refuseIf (target.ok = false)
    { ok := false, code := target.code, message := target.message, mode := some mode, runId := package.runId,
      packageCode := some package.code, targetCode := some target.code }
  return (package, target)

def probeLock (passed : Passed) : Restoring Unit :=
  match w.probeCaptureLock with
  | some answer => do
    let free ← ask .probe answer uncaught
    refuseIf (free ≠ .true_) (report .apply passed "lock_busy_capture" "capture lock held")
  | none => .ret ()

def requireEmpty (passed : Passed) : Restoring Unit :=
  match w.assertEmptyTarget with
  | some answer =>
    ask .empty answer (onException (report .apply passed "preflight_target_not_empty" "restore target is not empty"))
  | none => .ret ()

def Binder.answer (mode : RestoreMode) (package : PackagePreflightReport) : Binder → Answer (Option RestoreOrchestrationReport)
  | standard failure =>
    failure.map fun failed => failed.map fun (message, named) =>
      { ok := false, code := "preflight_package", message := message, mode := some mode,
        runId := if named then package.runId else none, packageCode := some package.code }
  | injected answer => answer

def bindPackage (mode : RestoreMode) (passed : Passed) : Restoring Unit := do
  let handle ← ask .bind (w.binder.answer mode passed.1) uncaught
  match handle with
  | some r => .raise (.report r)
  | none => return ()

def requireKek (mode : RestoreMode) (passed : Passed) : Restoring Unit :=
  refuseIf (w.kek.isKeyBytes32 = false) (report mode passed "preflight_kek" "KEK missing or invalid length")

def unwrapDek (mode : RestoreMode) (passed : Passed) : Restoring Unit := do
  let dek ← ask .unwrap w.unwrap (onCrypto (report mode passed "wrap_auth_failed" "dek wrap authentication failed")
    (report mode passed "crypto_failed" "unwrap failed"))
  refuseIf (dek.isKeyBytes32 = false) (report mode passed "crypto_failed" "unwrap failed")

def onDecrypt (mode : RestoreMode) (passed : Passed) : Raised → Option RestoreOrchestrationReport :=
  onCrypto (report mode passed "blob_auth_failed" "blob authentication failed")
    (report mode passed "crypto_failed" "decrypt failed")

def closing (result : Except Raised RestoreOrchestrationReport) : Restoring RestoreOrchestrationReport :=
  .exec .close fun _ =>
    if w.closeRaises then .raise (.escaped .base)
    else
      match result with
      | .ok r => .ret r
      | .error e => .raise (.escaped e)

def verifyCrypto (passed : Passed) : Restoring RestoreOrchestrationReport := do
  requireKek w .dryRun passed
  bindPackage w .dryRun passed
  unwrapDek w .dryRun passed
  ask .decrypt w.decryptStream (onDecrypt .dryRun passed)
  .exec .consume fun _ =>
    closing w (match w.consume with
      | .ok () => .ok { report .dryRun passed "crypto_verified" "dry-run crypto verify ok" with ok := true, isPartial := true }
      | .error e =>
        match onDecrypt .dryRun passed e with
        | some r => .ok r
        | none => .error e)

def dryRun (verify : Bool) : Restoring RestoreOrchestrationReport := do
  let passed ← pass w .dryRun true
  if verify then verifyCrypto w passed
  else
    return { report .dryRun passed "would_restore" "dry-run: package and target preflight ok" with ok := true, isPartial := true }

def isRestored (result : RestoreProcessResult) : Bool := result.ok && result.code = "restored" && result.processStarted

/-- The report on the process. -/
def processReport (passed : Passed) : Answer RestoreProcessResult → Except Raised RestoreOrchestrationReport
  | .ok result =>
    .ok { report .apply passed (if isRestored result then "restored" else result.code)
            (if isRestored result then "partial postgres restore completed" else "partial postgres restore did not complete") with
          ok := isRestored result
          isPartial := true
          processCode := some result.code
          processStarted := result.processStarted
          bytesWritten := result.bytesWritten
          targetMayBeDirty := result.processStarted && !isRestored result }
  | .error .base => .error .base
  | .error _ =>
    .ok { report .apply passed "restore_failed" "restore process raised" with processStarted := true, targetMayBeDirty := true }

def apply : Restoring RestoreOrchestrationReport := do
  let first ← pass w .apply true
  probeLock w first
  requireEmpty w first
  let passed ← pass w .apply false
  bindPackage w .apply passed
  requireKek w .apply passed
  let _ ← ask .buildArgv w.buildArgv (onException (report .apply passed "preflight_postgres" "restore argv rejected"))
  unwrapDek w .apply passed
  ask .decrypt w.decryptStream (onDecrypt .apply passed)
  .exec .runRestore fun _ => closing w (processReport passed w.runRestore)

/-- `run_restore_orchestration`. -/
def orchestrate : Restoring RestoreOrchestrationReport :=
  match w.mode.resolve with
  | none => .ret { ok := false, code := "restore_failed", message := "invalid restore mode", mode := none }
  | some mode =>
    match w.verifyCrypto with
    | .other => .ret { ok := false, code := "restore_failed", message := "invalid verify mode", mode := some mode }
    | verify =>
      match mode with
      | .apply =>
        if w.applyAuthorized ≠ .true_ then
          .ret { ok := false, code := "restore_not_permitted", message := "APPLY requires apply_authorized=True",
                 mode := some .apply }
        else apply w
      | .dryRun => dryRun w (verify = .true_)

def outcome : Except Raised RestoreOrchestrationReport :=
  match ((orchestrate w).run (fun _ s => s) ()).1 with
  | .ok r | .error (.report r) => .ok r
  | .error (.escaped e) => .error e

def calls : List Call := ((orchestrate w).trace (fun _ s => s) ()).map Prod.fst

end Vuzol.Backup.Orchestrator

namespace Vuzol.Backup

open Vuzol.Lib

structure Located (σ : Type) where
  server : σ
  database : Text

/-- `assert_empty_target`: the target it inspects, and what it answers. -/
structure EmptyTargetHook (σ : Type) where
  inspects : Located σ
  answer : Orchestrator.Answer Unit

/-- The arguments of a call that say what is restored to. -/
structure RestoreCall (σ : Type) where
  productionDsn : Text
  restoreDsn : Text
  requiredDatabaseSuffix : Text := "_restore".toList
  allowLocalHostsOnly : Bool := true
  postgresContainer : Text := "vuzol-postgres-1".toList
  restoreUser : Text := "vuzol".toList
  restoreDatabase : Text := "vuzol_restore".toList
  assertEmptyTarget : Option (EmptyTargetHook σ) := none

/-- The other arguments and callbacks, and what the default target preflight reads. -/
structure RestoreWorld where
  env : UrlEnv
  paths : Bool → Option PathFailure
  inputs : Orchestrator.Inputs

structure RestoreOutcome (σ : Type) where
  report : Except Orchestrator.Raised RestoreOrchestrationReport
  started : Option (List Text)
  inspected : Option (Located σ)

namespace RestoreCall

variable {σ : Type} (call : RestoreCall σ) (world : RestoreWorld)

def target (first : Bool) : TargetPreflightReport :=
  preflightRestoreTarget world.env call.productionDsn call.restoreDsn call.requiredDatabaseSuffix
    call.allowLocalHostsOnly (world.paths first)

def argv : Except String (List Text) := buildPgRestoreArgv call.postgresContainer call.restoreUser call.restoreDatabase

/-- The call with the target preflight and the argument vector that the function falls back to. -/
def inputs : Orchestrator.Inputs :=
  { world.inputs with
    targetPreflight := fun first => .ok (call.target world first)
    assertEmptyTarget := call.assertEmptyTarget.map EmptyTargetHook.answer
    buildArgv := call.argv.mapError fun _ => .exception }

def run : RestoreOutcome σ where
  report := Orchestrator.outcome (call.inputs world)
  started := if .runRestore ∈ Orchestrator.calls (call.inputs world) then call.argv.toOption else none
  inspected :=
    if .empty ∈ Orchestrator.calls (call.inputs world) then call.assertEmptyTarget.map EmptyTargetHook.inspects else none

end RestoreCall

end Vuzol.Backup
