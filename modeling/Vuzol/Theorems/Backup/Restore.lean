import Vuzol.Theorems.Backup.Orchestrator

/-! The database that a restore writes. The target is described three times: by the restore URL, which is validated and
    inspected, and by the container and the database name, which are written to. -/

namespace Vuzol.Backup

open Vuzol.Lib

variable {env : UrlEnv} {productionDsn restoreDsn suffix container user database : Text} {localOnly : Bool}
  {paths : Option PathFailure} {argv : List Text}

theorem classify_eq_none_iff {prod rest : DsnIdentity} (hprod : normalizeDsnIdentity env productionDsn = .ok prod)
    (hrest : normalizeDsnIdentity env restoreDsn = .ok rest) :
    TargetPreflightReport.classify prod rest suffix localOnly = none ↔
      assertIsolatedRestoreDsn env productionDsn restoreDsn suffix localOnly = .ok () := by
  simp only [assertIsolatedRestoreDsn, hprod, hrest, ok_bind, bind_eq_ok, raiseIf_eq_ok,
    TargetPreflightReport.classify]
  by_cases hsame : rest = prod
  · simp [hsame]
  · cases hisolated : databaseNameIsIsolated rest.database suffix with
    | error e => simp [hsame]
    | ok isolated => cases isolated <;> simp [hsame]

theorem preflightRestoreTarget_ok
    (h : (preflightRestoreTarget env productionDsn restoreDsn suffix localOnly paths).ok = true) :
    (∃ i, normalizeDsnIdentity env restoreDsn = .ok i) ∧
      assertIsolatedRestoreDsn env productionDsn restoreDsn suffix localOnly = .ok () := by
  unfold preflightRestoreTarget at h
  split at h
  · cases h
  · cases h
  · rename_i prod rest hprod hrest
    split at h
    · rename_i e haccept
      have hclass : TargetPreflightReport.classify prod rest suffix localOnly ≠ none := by
        rw [Ne, classify_eq_none_iff hprod hrest, haccept]
        nofun
      obtain ⟨report, hreport⟩ := Option.ne_none_iff_exists'.mp hclass
      rw [hreport] at h
      unfold TargetPreflightReport.classify at hreport
      split at hreport
      · cases hreport
        cases h
      · split at hreport
        · cases hreport
          cases h
        · cases hreport
          cases h
        · split at hreport
          · cases hreport
            cases h
          · cases hreport
    · rename_i haccept
      exact ⟨⟨rest, hrest⟩, haccept⟩

theorem writesTo_buildPgRestoreArgv (h : buildPgRestoreArgv container user database = .ok argv) :
    writesTo argv = some (container, database) := by
  simp only [buildPgRestoreArgv, bind_eq_ok] at h
  obtain ⟨-, -, -, -, h⟩ := h
  cases h
  unfold writesTo
  exact if_pos ⟨rfl, rfl, rfl, rfl, rfl, rfl⟩

structure Servers (σ : Type) where
  inContainer : Text → σ
  listening : Text → Option Nat → σ

def Servers.validated {σ : Type} (servers : Servers σ) (i : DsnIdentity) : Located σ where
  server := servers.listening i.host i.port
  database := i.database

namespace RestoreCall

variable {σ : Type} {call : RestoreCall σ} {world : RestoreWorld} {servers : Servers σ}

/-- A call that starts `pg_restore` has passed both preflights, and the hook, if there is one, has inspected its
    target. -/
theorem run_started (h : (call.run world).started = some argv) :
    writesTo argv = some (call.postgresContainer, call.restoreDatabase) ∧ (call.target world false).ok = true ∧
      (call.run world).inspected = call.assertEmptyTarget.map EmptyTargetHook.inspects := by
  unfold run at h ⊢
  dsimp only at h ⊢
  split at h
  · rename_i hcall
    have hgated := Orchestrator.gated_of_runRestore hcall
    refine ⟨?_, ?_, ?_⟩
    · cases hargv : call.argv with
      | error e => rw [hargv] at h; cases h
      | ok built =>
        rw [hargv] at h
        cases h
        exact writesTo_buildPgRestoreArgv hargv
    · obtain ⟨-, target, htarget, hok⟩ := hgated.passedSecond
      cases htarget
      exact hok
    · rw [hgated.order, Orchestrator.path]
      cases hhook : call.assertEmptyTarget with
      | none => simp
      | some hook => simp [inputs, hhook]
  · cases h

/-- What `pg_restore` writes to is what was validated and inspected. -/
structure WritesValidatedTarget (servers : Servers σ) (call : RestoreCall σ) (world : RestoreWorld) (argv : List Text) :
    Prop where
  validated : ∃ container database i, writesTo argv = some (container, database) ∧
    normalizeDsnIdentity world.env call.restoreDsn = .ok i ∧ (call.target world false).ok = true ∧
      { server := servers.inContainer container, database := database : Located σ } = servers.validated i
  inspected : ∀ container database t, writesTo argv = some (container, database) →
    (call.run world).inspected = some t → { server := servers.inContainer container, database := database } = t

structure DescribesOneTarget (servers : Servers σ) (call : RestoreCall σ) (i : DsnIdentity) : Prop where
  database : call.restoreDatabase = i.database
  server : servers.inContainer call.postgresContainer = servers.listening i.host i.port
  hook : ∀ hook, call.assertEmptyTarget = some hook → hook.inspects = servers.validated i

/-- A restore that started writes to the target that it validated exactly when its container, its database and its hook stand
    for the one that the DSN names. -/
theorem restore_writes_validated_target (servers : Servers σ) (call : RestoreCall σ) (world : RestoreWorld)
    (argv : List Text) (h : (call.run world).started = some argv) :
    WritesValidatedTarget servers call world argv ↔
      ∀ i, normalizeDsnIdentity world.env call.restoreDsn = .ok i → DescribesOneTarget servers call i := by
  obtain ⟨hwrites, htarget, hinspected⟩ := run_started h
  constructor
  · rintro ⟨⟨container, database, i, hargv, hi, -, hsame⟩, hhook⟩ j hj
    rw [hi] at hj
    cases hj
    rw [hwrites] at hargv
    cases hargv
    simp only [Servers.validated, Located.mk.injEq] at hsame
    refine ⟨hsame.2, hsame.1, fun hook hh => ?_⟩
    have ht := hhook _ _ hook.inspects hwrites (by rw [hinspected, hh]; rfl)
    rw [← ht, hsame.1, hsame.2]
    rfl
  · intro hagree
    obtain ⟨⟨i, hi⟩, -⟩ := preflightRestoreTarget_ok htarget
    obtain ⟨hdatabase, hserver, hhook⟩ := hagree i hi
    have hsame : { server := servers.inContainer call.postgresContainer, database := call.restoreDatabase : Located σ } =
        servers.validated i := by
      rw [hserver, hdatabase]
      rfl
    refine ⟨⟨_, _, i, hwrites, hi, htarget, hsame⟩, fun container database t hargv ht => ?_⟩
    rw [hwrites] at hargv
    cases hargv
    rw [hinspected, Option.map_eq_some_iff] at ht
    obtain ⟨hook, hh, rfl⟩ := ht
    rw [hsame, hhook hook hh]

/-- A world in which every layer succeeds. -/
def fineWorld : RestoreWorld where
  env := { lower := id, lower_lower := fun _ => rfl, lower_eq_nil := fun _ h => h, lower_nil := rfl,
           checkNetloc := fun _ => true }
  paths _ := none
  inputs := {
    mode := .text "apply"
    applyAuthorized := .true_
    kek := .bytes (List.replicate 32 0)
    packagePreflight := fun _ => .ok { ok := true, code := "package_ok", message := "package ok", runId := some "run" }
    targetPreflight := fun _ => .error .exception
    probeCaptureLock := some (.ok .true_)
    buildArgv := .error .exception
    unwrap := .ok (.bytes (List.replicate 32 0))
    decryptStream := .ok ()
    runRestore := .ok { ok := true, code := "restored", bytesWritten := 1, processStarted := true } }

def twoServers : Servers Nat where
  inContainer _ := 0
  listening _ port := if port = some 5432 then 0 else 1

def drillCall (dsn : String) (server : Nat) : RestoreCall Nat where
  productionDsn := "postgresql://vuzol@127.0.0.1/vuzol".toList
  restoreDsn := dsn.toList
  assertEmptyTarget := some { inspects := { server := server, database := "vuzol_restore".toList }, answer := .ok () }

def drillArgv : List Text :=
  ["docker", "exec", "-i", "vuzol-postgres-1", "pg_restore", "-U", "vuzol", "-d", "vuzol_restore", "--no-owner",
    "--no-acl"].map String.toList

/-- A drill on the server of the container. -/
theorem restore_writes_validated_target_in_container :
    WritesValidatedTarget twoServers (drillCall "postgresql://vuzol@127.0.0.1:5432/vuzol_restore" 0) fineWorld drillArgv := by
  refine (restore_writes_validated_target twoServers _ fineWorld drillArgv (by rfl)).mpr fun i hi => ?_
  have hi' : normalizeDsnIdentity fineWorld.env "postgresql://vuzol@127.0.0.1:5432/vuzol_restore".toList =
      .ok { host := loopback, port := some 5432, database := "vuzol_restore".toList } := by rfl
  change normalizeDsnIdentity fineWorld.env "postgresql://vuzol@127.0.0.1:5432/vuzol_restore".toList = _ at hi
  rw [hi'] at hi
  cases hi
  refine ⟨rfl, rfl, fun hook hh => ?_⟩
  cases hh
  rfl

/-- A drill on a server at another port: the validated and inspected server is not the one that is written to. -/
theorem other_server_written :
    ((drillCall "postgresql://vuzol@127.0.0.1:5433/vuzol_restore" 1).run fineWorld).started = some drillArgv ∧
      ¬WritesValidatedTarget twoServers (drillCall "postgresql://vuzol@127.0.0.1:5433/vuzol_restore" 1) fineWorld drillArgv := by
  refine ⟨by rfl, fun h => ?_⟩
  have hsame := h.inspected "vuzol-postgres-1".toList "vuzol_restore".toList _ (by rfl) (by rfl)
  have hserver : (0 : Nat) = 1 := congrArg Located.server hsame
  cases hserver

end RestoreCall

end Vuzol.Backup
