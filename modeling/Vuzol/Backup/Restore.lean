import Vuzol.Backup.Dsn

/-! The layers of a restore: the target preflight (`ops/backup/restore_target.py`), the argument vector of `pg_restore`
    (`ops/backup/postgres_restore.py`), and the reports of `ops/backup/restore_orchestrator.py`. -/

namespace Vuzol.Backup

open Vuzol.Lib

structure TargetPreflightReport where
  ok : Bool
  code : String
  message : String
  host : Option Text := none
  port : Option Nat := none
  database : Option Text := none

/-- How `assert_safe_restore_paths` refuses the drill root. -/
inductive PathFailure where
  | conflict | io

namespace TargetPreflightReport

def fail (code message : String) : TargetPreflightReport := { ok := false, code := code, message := message }

/-- `_classify_dsn_isolation`. -/
def classify (prod rest : DsnIdentity) (requiredDatabaseSuffix : Text) (allowLocalHostsOnly : Bool) :
    Option TargetPreflightReport :=
  if rest = prod then some (fail "preflight_target_identity" "restore identity matches production")
  else
    match databaseNameIsIsolated rest.database requiredDatabaseSuffix with
    | .error _ => some (fail "preflight_target_database" "required database suffix is empty")
    | .ok false => some (fail "preflight_target_database" "restore database name is not isolated")
    | .ok true =>
      if allowLocalHostsOnly = true ∧ rest.isLocal = false then
        some (fail "preflight_target_host" "restore host is not local-only")
      else none

end TargetPreflightReport

/-- `_safe_host_for_report`. -/
def safeHost (host : Text) : Text := if unixPrefix.isPrefixOf host then ['u', 'n', 'i', 'x'] else host

def preflightRestoreTarget (env : UrlEnv) (productionDsn restoreDsn requiredDatabaseSuffix : Text)
    (allowLocalHostsOnly : Bool) (paths : Option PathFailure) : TargetPreflightReport :=
  match normalizeDsnIdentity env productionDsn, normalizeDsnIdentity env restoreDsn with
  | .error _, _ => .fail "preflight_dsn" "production DSN is invalid"
  | .ok _, .error _ => .fail "preflight_dsn" "restore DSN is invalid"
  | .ok prod, .ok rest =>
    match assertIsolatedRestoreDsn env productionDsn restoreDsn requiredDatabaseSuffix allowLocalHostsOnly with
    | .error _ =>
      (TargetPreflightReport.classify prod rest requiredDatabaseSuffix allowLocalHostsOnly).getD
        (.fail "preflight_dsn" "restore DSN failed isolation checks")
    | .ok () =>
      match paths with
      | some .conflict => .fail "preflight_path_conflict" "drill root conflicts with production roots"
      | some .io => .fail "preflight_path_io" "drill root is not resolvable"
      | none =>
        { ok := true, code := "target_ok", message := "restore target isolation ok", host := some (safeHost rest.host),
          port := rest.port, database := some rest.database }

def isAlnum (c : Char) : Bool := ('a' ≤ c && c ≤ 'z') || ('A' ≤ c && c ≤ 'Z') || ('0' ≤ c && c ≤ '9')

/-- `_CONTAINER_RE`. -/
def isContainerName : Text → Bool
  | [] => false
  | c :: rest => isAlnum c && rest.length ≤ 63 && rest.all fun c => isAlnum c || c = '_' || c = '.' || c = '-'

/-- `_IDENT_RE`. -/
def isIdent : Text → Bool
  | [] => false
  | c :: rest => (isAlnum c || c = '_') && rest.length ≤ 62 && rest.all fun c => isAlnum c || c = '_' || c = '-'

/-- `build_pg_restore_argv` without an override and without `--clean`. -/
def buildPgRestoreArgv (container user database : Text) : Except String (List Text) := do
  raiseIf (isContainerName container = false) "container name rejected"
  raiseIf (isIdent user = false ∨ isIdent database = false) "user/database rejected"
  .ok ["docker".toList, "exec".toList, "-i".toList, container, "pg_restore".toList, "-U".toList, user, "-d".toList,
    database, "--no-owner".toList, "--no-acl".toList]

/-- What `docker exec` and `pg_restore` make of an argument vector: the container whose server is written to, and the
    database. -/
def writesTo : List Text → Option (Text × Text)
  | docker :: exec :: i :: container :: program :: u :: _ :: d :: database :: _ =>
    if docker = "docker".toList ∧ exec = "exec".toList ∧ i = "-i".toList ∧ program = "pg_restore".toList ∧
        u = "-U".toList ∧ d = "-d".toList then
      some (container, database)
    else none
  | _ => none

inductive RestoreMode where
  | dryRun | apply

structure PackagePreflightReport where
  ok : Bool
  code : String
  message : String
  runId : Option String

structure RestoreProcessResult where
  ok : Bool
  code : String
  bytesWritten : Nat
  processStarted : Bool

structure RestoreOrchestrationReport where
  ok : Bool
  code : String
  message : String
  mode : Option RestoreMode
  runId : Option String := none
  isPartial : Bool := false
  packageCode : Option String := none
  targetCode : Option String := none
  processCode : Option String := none
  processStarted : Bool := false
  bytesWritten : Nat := 0
  targetMayBeDirty : Bool := false
  host : Option Text := none
  port : Option Nat := none
  database : Option Text := none

end Vuzol.Backup
