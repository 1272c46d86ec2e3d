import Vuzol.Ops.Retention

/-! Crashes of the sweeper. A directory is removed under a check that found nothing that protects it, a worktree is
    cleaned where its directory is gone, and an artifact is deleted where its file is gone or another row has its
    content, unless it is finalized before its external phase. -/

namespace Vuzol.Ops

open Vuzol.Execution (WorktreeDeliveryState)

variable {s u v : Retained} {op : RetentionOp} {w w' : WorktreeRow} {a a' : ArtifactRow} {id : Nat}

namespace Retained

theorem mem_of_worktree? (h : u.worktree? id = some w) : w ∈ u.worktrees ∧ w.id = id :=
  ⟨List.mem_of_find?_eq_some h, by simpa using List.find?_some h⟩

theorem mem_of_artifact? (h : u.artifact? id = some a) : a ∈ u.artifacts ∧ a.id = id :=
  ⟨List.mem_of_find?_eq_some h, by simpa using List.find?_some h⟩

/-! ### Phases of a worktree -/

theorem declareWorktree_eq (u : Retained) (id : Nat) (contained : Bool) :
    u.declareWorktree id contained = u ∨ u.declareWorktree id contained = u.goOn (.worktreeFinalizing id) ∨
      u.declareWorktree id contained = u.goOn (.worktreeDeclared id) ∨
        ∃ w reason, u.worktree? id = some w ∧
          (u.declareWorktree id contained = u.putWorktree { w with cleanupReason := reason } ∨
            u.declareWorktree id contained = (u.putWorktree { w with cleanupReason := reason }).goOn (.worktreeDeclared id)) := by
  unfold declareWorktree
  split
  · exact .inl rfl
  rename_i w hw
  split
  · exact .inl rfl
  split
  · exact .inr (.inl rfl)
  split
  · split
    · exact .inl rfl
    · exact .inr (.inr (.inl rfl))
  split
  · exact .inl rfl
  split
  · exact .inr (.inr (.inr ⟨w, _, hw, .inl rfl⟩))
  split
  · exact .inr (.inr (.inr ⟨w, _, hw, .inl rfl⟩))
  · exact .inr (.inr (.inr ⟨w, _, hw, .inr rfl⟩))

theorem checkWorktree_eq (u : Retained) (id : Nat) :
    u.checkWorktree id = u.goOn (.worktreeFinalizing id) ∨
      ∃ w task run, u.worktree? id = some w ∧ u.owners w = some (task, run) ∧
        u.work.worktreeSkipReason u.policy w task run true u.now = none ∧
        u.checkWorktree id = u.goOn (.worktreeRemoving id w.path u.work) := by
  unfold checkWorktree
  split
  · exact .inl rfl
  rename_i w hw
  split
  · exact .inl rfl
  split
  · exact .inl rfl
  rename_i task run howners
  split
  · exact .inl rfl
  · rename_i hskip
    exact .inr ⟨w, task, run, hw, howners, by simpa using hskip, rfl⟩

theorem finalizeWorktree_eq (u : Retained) (id : Nat) :
    u.finalizeWorktree id = u.rest ∨ ∃ w, u.worktree? id = some w ∧ u.treeMissing w.path = true ∧
      u.finalizeWorktree id = (u.putWorktree (WorktreeRow.clean w u.now)).rest := by
  unfold finalizeWorktree
  split
  · exact .inl rfl
  rename_i w hw
  split
  · split
    · exact .inl rfl
    split
    · rename_i h
      exact .inr ⟨w, hw, h.2, rfl⟩
    split
    · exact .inl rfl
    split
    · rename_i h
      exact .inr ⟨w, hw, h.2, rfl⟩
    · exact .inl rfl
  · exact .inl rfl

/-! ### Phases of an artifact -/

/-- An artifact is declared where nothing skips it: it is marked missing, or its cleanup is intended. -/
theorem declareArtifact_eq (u : Retained) (skips : SkipReason) (id : Nat) :
    u.declareArtifact skips id = u ∨ u.declareArtifact skips id = u.goOn (.artifactDeclared id) ∨
      ∃ a path, u.artifact? id = some a ∧ skips a false = none ∧ a.path = some path ∧ a.state = .available ∧ a.cleanup = none ∧
        ((u.fileExists path = false ∧ u.declareArtifact skips id = u.putArtifact { a with state := .missing }) ∨
          u.declareArtifact skips id = (u.putArtifact { a with cleanup := some .intent }).goOn (.artifactDeclared id)) := by
  unfold declareArtifact
  split
  · exact .inl rfl
  rename_i a ha
  split
  · exact .inr (.inl rfl)
  · split
    · exact .inl rfl
    · exact .inr (.inl rfl)
  rename_i hphase
  split
  · exact .inl rfl
  rename_i hstate
  split
  · exact .inl rfl
  rename_i hskip
  split
  · exact .inl rfl
  rename_i path hpath
  have hstate : a.state = .available := by simpa using hstate
  have hskip : skips a false = none := by simpa using hskip
  split
  · rename_i hmissing
    exact .inr (.inr ⟨a, path, ha, hskip, hpath, hstate, hphase, .inl ⟨by simpa using hmissing, rfl⟩⟩)
  split
  · exact .inl rfl
  · exact .inr (.inr ⟨a, path, ha, hskip, hpath, hstate, hphase, .inr rfl⟩)

theorem checkArtifact_eq (u : Retained) (skips : SkipReason) (id : Nat) :
    u.checkArtifact skips id = u.goOn (.artifactFinalizing id) ∨ u.checkArtifact skips id = u.rest ∨
      ∃ a path prior, u.artifact? id = some a ∧ a.cleanup ≠ none ∧ a.path = some path ∧
        (a.cleanup = some .intent → skips a true = none) ∧
        u.checkArtifact skips id = u.goOn (.artifactRemoving id path u.artifacts (!u.hasPeer a) prior) := by
  unfold checkArtifact
  split
  · exact .inl rfl
  rename_i a ha
  split
  · exact .inl rfl
  rename_i phase hphase
  split
  · exact .inl rfl
  rename_i hskip
  split
  · exact .inr (.inl rfl)
  rename_i path hpath
  refine .inr (.inr ⟨a, path, _, ha, by rw [hphase]; exact fun h => (nomatch h), hpath, fun hintent => ?_, rfl⟩)
  rw [hphase] at hintent
  exact Option.not_isSome_iff_eq_none.mp fun hs => hskip ⟨Option.some.inj hintent, hs⟩

theorem removeArtifact_eq (u : Retained) (id : Nat) (path : ArtifactPath) (lastPeer fileRemoved failed : Bool) :
    u.removeArtifact id path lastPeer fileRemoved failed = u.rest ∨
      (∃ removed, u.removeArtifact id path lastPeer fileRemoved failed = u.goOn (.artifactRemoved id removed)) ∨
        (lastPeer = true ∧ failed = false ∧ u.fileExists path = true ∧
          u.removeArtifact id path lastPeer fileRemoved failed = (u.removeFile path).goOn (.artifactRemoved id true)) := by
  unfold removeArtifact
  split
  · exact .inr (.inl ⟨_, rfl⟩)
  rename_i f hf
  split
  · exact .inr (.inl ⟨_, rfl⟩)
  rename_i hbroken
  split
  · rename_i hlast
    split
    · exact .inl rfl
    · rename_i hnot
      refine .inr (.inr ⟨hlast.1, by simpa using fun hf => hnot (.inr hf), ?_, rfl⟩)
      simp only [fileExists, hf, Option.any_some, decide_eq_true_eq]
      exact fun hk => hbroken ⟨hlast.1, hk⟩
  · exact .inr (.inl ⟨_, rfl⟩)

theorem markArtifact_eq (u : Retained) (id : Nat) (fileRemoved : Bool) :
    u.markArtifact id fileRemoved = u.goOn (.artifactFinalizing id) ∨
      ∃ a, u.artifact? id = some a ∧ u.markArtifact id fileRemoved =
        (u.putArtifact { a with cleanup := some (.externalDone fileRemoved) }).goOn (.artifactFinalizing id) := by
  unfold markArtifact
  split
  · exact .inl rfl
  · rename_i a ha
    exact .inr ⟨a, ha, rfl⟩

/-- An artifact is deleted where its file is missing, where another row has its content, or, in the phase of the
    intent, where nothing skips it. -/
theorem finalizeArtifact_eq (u : Retained) (skips : SkipReason) (id : Nat) :
    u.finalizeArtifact skips id = u.rest ∨
      ∃ a, u.artifact? id = some a ∧ a.cleanup ≠ none ∧
        (u.fileMissing a.path = true ∨ (a.cleanup ≠ some .intent ∧ u.hasPeer a = true) ∨
          (a.cleanup = some .intent ∧ skips a true = none)) ∧
        u.finalizeArtifact skips id = (u.putArtifact { a with cleanup := none, state := .deleted }).rest := by
  unfold finalizeArtifact
  split
  · exact .inl rfl
  rename_i a ha
  split
  · exact .inl rfl
  rename_i phase hphase
  split
  · exact .inl rfl
  rename_i hexternal
  split
  · exact .inl rfl
  rename_i hintent
  refine .inr ⟨a, ha, by rw [hphase]; exact fun h => (nomatch h), ?_, rfl⟩
  by_cases hmissing : u.fileMissing a.path = true
  · exact .inl hmissing
  by_cases hp : phase = .intent
  · refine .inr (.inr ⟨by rw [hphase, hp], ?_⟩)
    exact Option.not_isSome_iff_eq_none.mp fun hs => hintent ⟨hs, hp, hmissing⟩
  · have hpeer : u.hasPeer a = true := by
      cases hr : u.hasPeer a with
      | true => rfl
      | false => exact absurd ⟨hmissing, hp, by rw [hr]; exact Bool.false_ne_true⟩ hexternal
    exact .inr (.inl ⟨by rw [hphase]; exact fun h => hp (Option.some.inj h), hpeer⟩)

structure Unprotected (work : WorkRows) (w : WorktreeRow) : Prop where
  task : ∃ task, work.task? w.taskId = some task ∧ isCleanable task.status = true
  step : ∀ x ∈ work.steps, x.runId = w.runId → isProtectedStep x.status = false
  approval : ∀ x ∈ work.steps, x.runId = w.runId → ∀ a ∈ work.approvals, a.stepId = x.id → a.status ≠ .pending
  process : ∀ p ∈ work.processes, p.worktreeId = w.id → isActiveProcess p.status = false

theorem unprotected_of_skip {task : TaskRow} {run : RunRow} (howners : u.owners w = some (task, run))
    (hskip : u.work.worktreeSkipReason u.policy w task run true u.now = none) : Unprotected u.work w := by
  unfold owners at howners
  split at howners
  · rename_i task' run' htask hrun
    split at howners
    · cases howners
      have hrunId : run.id = w.runId := by simpa using List.find?_some hrun
      unfold WorkRows.worktreeSkipReason at hskip
      split at hskip
      · cases hskip
      split at hskip
      · cases hskip
      split at hskip
      · cases hskip
      split at hskip
      · cases hskip
      rename_i hcleanable
      split at hskip
      · cases hskip
      unfold WorkRows.protectedRuntime at hskip
      split at hskip
      · cases hskip
      rename_i hsteps
      split at hskip
      · cases hskip
      rename_i happrovals
      split at hskip
      · cases hskip
      rename_i hprocesses
      rw [hrunId] at hsteps happrovals
      refine ⟨⟨task, htask, by simpa using hcleanable⟩, ?_, ?_, ?_⟩
      · intro x hx hr
        by_contra hp
        exact hsteps (List.any_eq_true.mpr ⟨x, hx, by simp [hr, hp]⟩)
      · intro x hx hr a ha hs hp
        refine happrovals (List.any_eq_true.mpr ⟨a, ha, ?_⟩)
        simp only [hp, decide_true, Bool.true_and, List.any_eq_true]
        exact ⟨x, hx, by simp [hr, hs]⟩
      · intro p hp hw
        by_contra hact
        exact hprocesses (List.any_eq_true.mpr ⟨p, hp, by simp [hw, hact]⟩)
    · cases howners
  · cases howners

/-! ### What a step of the sweeper does -/

def NextSound (u : Retained) : SweepAt → Prop
  | .worktreeRemoving id path seen => ∃ w ∈ u.worktrees, w.id = id ∧ w.path = path ∧ Unprotected seen w
  | .artifactRemoving id path atCheck lastPeer _ => atCheck = u.artifacts ∧
      ∃ a, u.artifact? id = some a ∧ a.cleanup ≠ none ∧ a.path = some path ∧ lastPeer = !u.hasPeer a
  | .artifactRemoved id _ => ∃ path atCheck lastPeer fileRemoved,
      u.sweep = .artifactRemoving id path atCheck lastPeer fileRemoved
  | .orphans atRead => atRead = u.artifacts ∨ u.sweep = .orphans atRead ∨ ∃ path, u.sweep = .quarantining atRead path
  | .quarantining atRead path => u.sweep = .orphans atRead ∧ ∃ f ∈ u.files, f.path = path ∧ isOrphan atRead f = true
  | _ => True

/-- How a row of an artifact is rewritten. -/
inductive ArtifactChange (u : Retained) (op : RetentionOp) (a : ArtifactRow) : ArtifactRow → SweepAt → Prop
  | missing : ArtifactChange u op a { a with state := .missing } .idle
  | intends : a.cleanup = none → u.artifactSkipReason a false = none →
      ArtifactChange u op a { a with cleanup := some .intent } (.artifactDeclared a.id)
  | marks {fileRemoved : Bool} : u.sweep = .artifactRemoved a.id fileRemoved →
      ArtifactChange u op a { a with cleanup := some (.externalDone fileRemoved) } (.artifactFinalizing a.id)
  | deletes {removed failed : Bool} : op = .proceed removed failed → u.sweep = .artifactFinalizing a.id →
      u.fileMissing a.path = true ∨ (a.cleanup ≠ some .intent ∧ u.hasPeer a = true) ∨
        (a.cleanup = some .intent ∧ u.artifactSkipReason a true = none) →
      ArtifactChange u op a { a with cleanup := none, state := .deleted } .idle

inductive FileRemoval (u : Retained) (op : RetentionOp) (path : ArtifactPath) : SweepAt → Prop
  | lastPeer {id : Nat} {atCheck : List ArtifactRow} {fileRemoved removed : Bool} : op = .proceed removed false →
      u.sweep = .artifactRemoving id path atCheck true fileRemoved → FileRemoval u op path (.artifactRemoved id true)
  | orphan {atRead : List ArtifactRow} {removed : Bool} : op = .proceed removed false →
      u.sweep = .quarantining atRead path → FileRemoval u op path (.orphans atRead)

inductive SweepChange (u : Retained) (op : RetentionOp) : Retained → Prop
  | stays : SweepChange u op u
  | goesOn {next : SweepAt} : NextSound u next → SweepChange u op (u.goOn next)
  | worktree {w w' : WorktreeRow} {next : SweepAt} : u.worktree? w.id = some w → w'.id = w.id → w'.path = w.path →
      w'.deliveryState = w.deliveryState ∨ u.treeMissing w.path = true → NextSound u next →
      (∀ id path seen, next ≠ .worktreeRemoving id path seen) → SweepChange u op ((u.putWorktree w').goOn next)
  | artifact {a a' : ArtifactRow} {next : SweepAt} : u.artifact? a.id = some a → ArtifactChange u op a a' next →
      SweepChange u op ((u.putArtifact a').goOn next)
  | tree {id : Nat} {path : String} {seen : WorkRows} {next : SweepAt} : u.sweep = .worktreeRemoving id path seen →
      next = .idle ∨ next = .worktreeRemoved id → SweepChange u op ((u.removeTree path).goOn next)
  | file {path : ArtifactPath} {next : SweepAt} : FileRemoval u op path next → SweepChange u op ((u.removeFile path).goOn next)

theorem sweepChange_of_proceed {removed failed : Bool} (hop : u.proceed removed failed = .ok v) :
    SweepChange u (.proceed removed failed) v := by
  unfold proceed at hop
  split at hop
  · cases hop
  · cases hop
  · rename_i id hsweep
    cases hop
    rcases checkWorktree_eq u id with heq | ⟨w, task, run, hw, howners, hskip, heq⟩
    · rw [heq]
      exact .goesOn trivial
    · rw [heq]
      obtain ⟨hmem, hid⟩ := mem_of_worktree? hw
      exact .goesOn ⟨w, hmem, hid, rfl, unprotected_of_skip howners hskip⟩
  · rename_i id path seen hsweep
    cases hop
    unfold removeWorktree
    split
    · exact .goesOn trivial
    split
    · cases removed with
      | false => exact .goesOn trivial
      | true => exact .tree hsweep (.inl rfl)
    · exact .tree hsweep (.inr rfl)
  · rename_i id hsweep
    cases hop
    unfold markWorktree
    split
    · exact .goesOn trivial
    · rename_i w hw
      obtain rfl := (mem_of_worktree? hw).2
      exact .worktree hw rfl rfl (.inl rfl) trivial fun _ _ _ h => (nomatch h)
  · rename_i id hsweep
    cases hop
    rcases finalizeWorktree_eq u id with heq | ⟨w, hw, hmissing, heq⟩
    · rw [heq]
      exact .goesOn trivial
    · rw [heq]
      obtain rfl := (mem_of_worktree? hw).2
      exact .worktree hw rfl rfl (.inr hmissing) trivial fun _ _ _ h => (nomatch h)
  · rename_i id hsweep
    cases hop
    rcases checkArtifact_eq u u.artifactSkipReason id with heq | heq | ⟨a, path, prior, ha, hphase, hpath, -, heq⟩
    · rw [heq]
      exact .goesOn trivial
    · rw [heq]
      exact .goesOn trivial
    · rw [heq]
      exact .goesOn ⟨rfl, a, ha, hphase, hpath, rfl⟩
  · rename_i id path atCheck lastPeer fileRemoved hsweep
    cases hop
    rcases removeArtifact_eq u id path lastPeer fileRemoved failed with heq | ⟨r, heq⟩ | ⟨hlast, rfl, -, heq⟩
    · rw [heq]
      exact .goesOn trivial
    · rw [heq]
      exact .goesOn ⟨path, atCheck, lastPeer, fileRemoved, hsweep⟩
    · rw [heq]
      rw [hlast] at hsweep
      exact .file (.lastPeer rfl hsweep)
  · rename_i id fileRemoved hsweep
    cases hop
    rcases markArtifact_eq u id fileRemoved with heq | ⟨a, ha, heq⟩
    · rw [heq]
      exact .goesOn trivial
    · rw [heq]
      obtain rfl := (mem_of_artifact? ha).2
      exact .artifact ha (.marks hsweep)
  · rename_i id hsweep
    cases hop
    rcases finalizeArtifact_eq u u.artifactSkipReason id with heq | ⟨a, ha, -, hcause, heq⟩
    · rw [heq]
      exact .goesOn trivial
    · rw [heq]
      obtain rfl := (mem_of_artifact? ha).2
      exact .artifact ha (.deletes rfl hsweep hcause)
  · rename_i atRead path hsweep
    cases hop
    cases failed with
    | true => exact .goesOn (.inr (.inr ⟨path, hsweep⟩))
    | false => exact .file (.orphan rfl hsweep)

theorem sweepChange_of_step (hs : op.isSweep = true) (hop : u.perform op = .ok v) : SweepChange u op v := by
  cases op with
  | declareWorktree id contained =>
    obtain ⟨hidle, hop⟩ := Lib.check_eq_ok.mp hop
    cases hop
    rcases declareWorktree_eq u id contained with heq | heq | heq | ⟨w, reason, hw, heq | heq⟩
    · rw [heq]
      exact .stays
    · rw [heq]
      exact .goesOn trivial
    · rw [heq]
      exact .goesOn trivial
    · rw [heq]
      obtain rfl := (mem_of_worktree? hw).2
      have hput : u.putWorktree { w with cleanupReason := reason } = (u.putWorktree { w with cleanupReason := reason }).goOn .idle := by
        rw [← hidle]
        rfl
      rw [hput]
      exact .worktree hw rfl rfl (.inl rfl) trivial fun _ _ _ h => (nomatch h)
    · rw [heq]
      obtain rfl := (mem_of_worktree? hw).2
      exact .worktree hw rfl rfl (.inl rfl) trivial fun _ _ _ h => (nomatch h)
  | declareArtifact id =>
    obtain ⟨hidle, hop⟩ := Lib.check_eq_ok.mp hop
    cases hop
    rcases declareArtifact_eq u u.artifactSkipReason id with
      heq | heq | ⟨a, path, ha, hskip, -, -, hphase, ⟨-, heq⟩ | heq⟩
    · rw [heq]
      exact .stays
    · rw [heq]
      exact .goesOn trivial
    · have hput : u.putArtifact { a with state := .missing } = (u.putArtifact { a with state := .missing }).goOn .idle := by
        rw [← hidle]
        rfl
      rw [heq, hput]
      obtain rfl := (mem_of_artifact? ha).2
      exact .artifact ha .missing
    · rw [heq]
      obtain rfl := (mem_of_artifact? ha).2
      exact .artifact ha (.intends hphase hskip)
  | readKnown =>
    obtain ⟨-, hop⟩ := Lib.check_eq_ok.mp hop
    cases hop
    exact .goesOn (.inl rfl)
  | considerFile path =>
    simp only [perform] at hop
    split at hop
    · rename_i atRead f hsweep hf
      split at hop
      · rename_i horphan
        cases hop
        have hpath : f.path = path := by simpa using List.find?_some hf
        exact .goesOn ⟨hsweep, f, List.mem_of_find?_eq_some hf, hpath, horphan⟩
      · cases hop
        exact .stays
    · cases hop
  | proceed removed failed => exact sweepChange_of_proceed hop
  | endSweep =>
    cases hop
    exact .goesOn trivial
  | _ => cases hs

/-! ### What a step of others does -/

structure OthersChange (u v : Retained) : Prop where
  worktrees : v.worktrees = u.worktrees
  trees : v.trees = u.trees
  sweep : v.sweep = u.sweep
  artifacts : ∀ a ∈ v.artifacts, a.state = .available ∨ ∃ a' ∈ u.artifacts, a'.id = a.id ∧ a'.state = a.state

theorem OthersChange.of_eq (hw : v.worktrees = u.worktrees) (ht : v.trees = u.trees) (hs : v.sweep = u.sweep)
    (ha : v.artifacts = u.artifacts) : OthersChange u v :=
  ⟨hw, ht, hs, fun a h => .inr ⟨a, by rw [← ha]; exact h, rfl, rfl⟩⟩

theorem othersChange_of_step (hs : op.isSweep = false) (hop : u.perform op = .ok v) : OthersChange u v := by
  cases op with
  | persistLook p =>
    simp only [perform] at hop
    split at hop
    · cases hop
      exact .of_eq rfl rfl rfl rfl
    · cases hop
      exact .of_eq rfl rfl rfl rfl
  | persistStore p =>
    obtain ⟨-, hop⟩ := Lib.check_eq_ok.mp hop
    cases hop
    unfold store
    split
    · exact .of_eq rfl rfl rfl rfl
    · exact .of_eq rfl rfl rfl rfl
  | persistFlush p =>
    obtain ⟨-, hop⟩ := Lib.check_eq_ok.mp hop
    obtain ⟨-, hop⟩ := Lib.guard_eq_ok.mp hop
    cases hop
    exact .of_eq rfl rfl rfl rfl
  | persistCommit p =>
    obtain ⟨-, hop⟩ := Lib.check_eq_ok.mp hop
    cases hop
    refine ⟨rfl, rfl, rfl, fun a ha => ?_⟩
    rcases Lib.mem_concat.mp ha with ha | rfl
    · exact .inr ⟨a, ha, rfl, rfl⟩
    · exact .inl rfl
  | persistRollback p =>
    cases hop
    exact .of_eq rfl rfl rfl rfl
  | pin ids retentionUntil =>
    cases hop
    refine ⟨rfl, rfl, rfl, fun a ha => ?_⟩
    obtain ⟨x, hx, rfl⟩ := List.mem_map.mp ha
    refine .inr ⟨x, hx, ?_⟩
    split
    · exact ⟨rfl, rfl⟩
    · exact ⟨rfl, rfl⟩
  | wait =>
    cases hop
    exact .of_eq rfl rfl rfl rfl
  | changeWork work =>
    cases hop
    exact .of_eq rfl rfl rfl rfl
  | _ => cases hs

/-! ### Runs -/

/-- A worktree that is cleaned in the run has nothing at its path, rows have the states that the program writes, and a
    directory is about to be removed only under a check. -/
structure SweepSound (s u : Retained) : Prop where
  cleaned : ∀ w ∈ u.worktrees, w.deliveryState = .cleaned →
    (∃ w' ∈ s.worktrees, w'.id = w.id ∧ w'.deliveryState = .cleaned) ∨ u.treeMissing w.path = true
  states : ∀ a ∈ u.artifacts, a.state ≠ .staging ∧ a.state ≠ .quarantined
  checked : ∀ id path seen, u.sweep = .worktreeRemoving id path seen →
    ∃ w ∈ u.worktrees, w.id = id ∧ w.path = path ∧ Unprotected seen w

theorem treeMissing_removeTree {path path' : String} (h : u.treeMissing path = true) :
    (u.removeTree path').treeMissing path = true := by
  simp only [treeMissing, tree?, removeTree, Option.isNone_iff_eq_none, List.find?_eq_none] at h ⊢
  exact fun t ht => h t (List.mem_filter.mp ht).1

theorem ArtifactChange.state {next : SweepAt} (h : ArtifactChange u op a a' next) :
    a'.state = a.state ∨ a'.state = .missing ∨ a'.state = .deleted := by
  cases h with
  | missing => exact .inr (.inl rfl)
  | intends => exact .inl rfl
  | marks => exact .inl rfl
  | deletes => exact .inr (.inr rfl)

theorem ArtifactChange.next {next : SweepAt} (h : ArtifactChange u op a a' next) :
    next = .idle ∨ (∃ id, next = .artifactDeclared id) ∨ ∃ id, next = .artifactFinalizing id := by
  cases h with
  | missing => exact .inl rfl
  | intends => exact .inr (.inl ⟨_, rfl⟩)
  | marks => exact .inr (.inr ⟨_, rfl⟩)
  | deletes => exact .inl rfl

theorem SweepSound.sweepChange (h : SweepSound s u) (hc : SweepChange u op v) : SweepSound s v := by
  cases hc with
  | stays => exact h
  | goesOn hnext =>
    refine ⟨h.cleaned, h.states, fun id path seen hs => ?_⟩
    cases hs
    exact hnext
  | worktree hw hid hpath hclean hnext hno =>
    rename_i w w' next
    refine ⟨fun x hx hxc => ?_, h.states, fun id path seen hs => absurd hs (hno id path seen)⟩
    rcases Lib.mem_or_of_mem_put hx with rfl | hx
    · rcases hclean with hst | hmissing
      · rw [hid, hpath]
        exact h.cleaned w (mem_of_worktree? hw).1 (hst.symm.trans hxc)
      · rw [hpath]
        exact .inr hmissing
    · exact h.cleaned x hx hxc
  | artifact ha hchange =>
    rename_i a a' next
    refine ⟨h.cleaned, fun x hx => ?_, fun id path seen hs => ?_⟩
    swap
    · rcases hchange.next with hn | ⟨_, hn⟩ | ⟨_, hn⟩ <;> cases hn <;> cases hs
    rcases Lib.mem_or_of_mem_put hx with rfl | hx
    · rcases hchange.state with hst | hst | hst <;> rw [hst]
      · exact h.states a (mem_of_artifact? ha).1
      · exact ⟨fun hf => (nomatch hf), fun hf => (nomatch hf)⟩
      · exact ⟨fun hf => (nomatch hf), fun hf => (nomatch hf)⟩
    · exact h.states x hx
  | tree hsweep hnext =>
    refine ⟨fun x hx hxc => (h.cleaned x hx hxc).imp_right treeMissing_removeTree, h.states, fun id path seen hs => ?_⟩
    rcases hnext with rfl | rfl <;> cases hs
  | file hremoval =>
    refine ⟨h.cleaned, h.states, fun id path seen hs => ?_⟩
    cases hremoval <;> cases hs

theorem SweepSound.othersChange (h : SweepSound s u) (hc : OthersChange u v) : SweepSound s v where
  cleaned w hw hcl := by
    rw [hc.worktrees] at hw
    refine (h.cleaned w hw hcl).imp_right fun hm => ?_
    simpa only [treeMissing, tree?, hc.trees] using hm
  states a ha := by
    rcases hc.artifacts a ha with hst | ⟨a', ha', -, hst⟩
    · rw [hst]
      exact ⟨fun hf => (nomatch hf), fun hf => (nomatch hf)⟩
    · rw [← hst]
      exact h.states a' ha'
  checked id path seen hs := by
    rw [hc.worktrees]
    exact h.checked id path seen (hc.sweep.symm.trans hs)

theorem SweepSound.step (h : SweepSound s u) (hop : u.perform op = .ok v) : SweepSound s v := by
  cases hs : op.isSweep with
  | true => exact h.sweepChange (sweepChange_of_step hs hop)
  | false => exact h.othersChange (othersChange_of_step hs hop)

/-! ### Deleted artifacts and removed directories -/

theorem hasAvailablePeer_of_peer (h : SweepSound s u) (hp : u.hasPeer a = true) : u.hasAvailablePeer a = true := by
  obtain ⟨x, hx, hcond⟩ := List.any_eq_true.mp hp
  simp only [Bool.and_eq_true, Bool.or_eq_true, decide_eq_true_eq] at hcond
  obtain ⟨⟨hhash, hid⟩, (hst | hst) | hst⟩ := hcond
  · exact List.any_eq_true.mpr ⟨x, hx, by simp [hhash, hid, hst]⟩
  · exact absurd hst (h.states x hx).1
  · exact absurd hst (h.states x hx).2

def DeletesAbsent (u v : Retained) : Prop :=
  ∀ a ∈ v.artifacts, a.state = .deleted →
    (∃ a' ∈ u.artifacts, a'.id = a.id ∧ a'.state = .deleted) ∨ u.fileMissing a.path = true ∨ u.hasAvailablePeer a = true

theorem DeletesAbsent.of_eq (h : v.artifacts = u.artifacts) : DeletesAbsent u v := by
  intro a ha hd
  rw [h] at ha
  exact .inl ⟨a, ha, rfl, hd⟩

theorem of_finalizesProtected {removed failed : Bool} (hg : u.FinalizesProtected (.proceed removed failed) = true)
    (hsweep : u.sweep = .artifactFinalizing a.id) (ha : u.artifact? a.id = some a) (hintent : a.cleanup = some .intent)
    (hskip : u.artifactSkipReason a true = none) : u.fileMissing a.path = true ∨ u.hasAvailablePeer a = true := by
  simpa only [FinalizesProtected, hsweep, ha, Option.all_some, hintent, hskip, ne_eq, not_true_eq_false, decide_false,
    Option.isSome_none, Bool.false_or, Bool.or_false, Bool.or_eq_true] using hg

theorem deletesAbsent_of_step (h : SweepSound s u) (hg : u.FinalizesProtected op = true) (hop : u.perform op = .ok v) :
    DeletesAbsent u v := by
  cases hs : op.isSweep with
  | false =>
    intro a ha hd
    rcases (othersChange_of_step hs hop).artifacts a ha with hst | ⟨a', ha', hid, hst⟩
    · rw [hst] at hd
      cases hd
    · exact .inl ⟨a', ha', hid, hst.trans hd⟩
  | true =>
    cases sweepChange_of_step hs hop with
    | stays => exact .of_eq rfl
    | goesOn => exact .of_eq rfl
    | worktree => exact .of_eq rfl
    | tree => exact .of_eq rfl
    | file => exact .of_eq rfl
    | artifact ha hchange =>
      rename_i a a' next
      intro x hx hd
      rcases Lib.mem_or_of_mem_put hx with rfl | hx
      · cases hchange with
        | missing => cases hd
        | intends => exact .inl ⟨a, (mem_of_artifact? ha).1, rfl, hd⟩
        | marks => exact .inl ⟨a, (mem_of_artifact? ha).1, rfl, hd⟩
        | deletes hproceed hsweep hcause =>
          rcases hcause with hmissing | ⟨-, hpeer⟩ | ⟨hintent, hskip⟩
          · exact .inr (.inl hmissing)
          · exact .inr (.inr (hasAvailablePeer_of_peer h hpeer))
          · rw [hproceed] at hg
            have hkept := of_finalizesProtected hg hsweep ha hintent hskip
            exact .inr hkept
      · exact .inl ⟨x, hx, rfl, hd⟩

theorem removes_of_step {t : TreeEntry} (ht : t ∈ u.trees) (hgone : t ∉ v.trees) (hop : u.perform op = .ok v) :
    ∃ id seen, u.sweep = .worktreeRemoving id t.path seen := by
  cases hs : op.isSweep with
  | false =>
    rw [(othersChange_of_step hs hop).trees] at hgone
    exact absurd ht hgone
  | true =>
    cases sweepChange_of_step hs hop with
    | stays => exact absurd ht hgone
    | goesOn => exact absurd ht hgone
    | worktree => exact absurd ht hgone
    | artifact => exact absurd ht hgone
    | file => exact absurd ht hgone
    | tree hsweep hnext =>
      rename_i id path seen next
      by_cases hp : t.path = path
      · rw [hp]
        exact ⟨id, seen, hsweep⟩
      · exact absurd (List.mem_filter.mpr ⟨ht, by simpa using hp⟩) hgone

/-- What holds of a run from `s` to `u` and of every step after it. -/
structure CrashSafe (s u : Retained) : Prop where
  cleaned : ∀ w ∈ u.worktrees, w.deliveryState = .cleaned →
    (∃ w' ∈ s.worktrees, w'.id = w.id ∧ w'.deliveryState = .cleaned) ∨ u.treeMissing w.path = true
  deleted : ∀ op v, u.FinalizesProtected op = true → u.perform op = .ok v → DeletesAbsent u v
  removed : ∀ op v, u.perform op = .ok v → ∀ t ∈ u.trees, t ∉ v.trees →
    ∃ id seen, u.sweep = .worktreeRemoving id t.path seen ∧
      ∃ w ∈ u.worktrees, w.id = id ∧ w.path = t.path ∧ Unprotected seen w

/-- From every starting state of the rows and the disk, for every run of sweeps that crash anywhere. -/
theorem retention_crash_safe (s u : Retained) (hidle : s.sweep = .idle)
    (hstates : ∀ a ∈ s.artifacts, a.state ≠ .staging ∧ a.state ≠ .quarantined)
    (h : s.Reaches (fun u op => u.FinalizesProtected op = true) u) : CrashSafe s u := by
  have hstart : SweepSound s s := by
    refine ⟨fun w hw hc => .inl ⟨w, hw, rfl, hc⟩, hstates, fun id path seen hs => ?_⟩
    rw [hidle] at hs
    cases hs
  have hu : SweepSound s u := h.invariant (P := SweepSound s) hstart fun hu _ hop => hu.step hop
  refine ⟨hu.cleaned, fun op v hg hop => deletesAbsent_of_step hu hg hop, ?_⟩
  intro op v hop t ht hgone
  obtain ⟨id, seen, hsweep⟩ := removes_of_step ht hgone hop
  exact ⟨id, seen, hsweep, hu.checked id t.path seen hsweep⟩

/-! ### A sweep over one artifact -/

def finishedWork : WorkRows := { tasks := [{ id := 1, status := .completed }], runs := [⟨2, 1⟩] }

def blockedWork : WorkRows := { finishedWork with steps := [⟨3, 2, .blocked⟩] }

def anArtifact : ArtifactRow where
  id := 5
  taskId := some 1
  runId := some 2
  storageKey := some "k"
  contentHash := "d"
  path := some (.content "d")
  retentionUntil := 0

def expiredStart : Retained := { now := 10, work := finishedWork, artifacts := [anArtifact], files := [{ path := .content "d" }] }

def crashAfterUnlink : List RetentionOp :=
  [.declareArtifact 5, .proceed false false, .proceed false false, .endSweep, .declareArtifact 5, .proceed false false,
    .proceed false false, .proceed false false, .proceed false false]

theorem retention_crash_safe_resumed :
    ∃ u, expiredStart.Reaches (fun u op => u.FinalizesProtected op = true) u ∧
      u.artifacts.map (·.state) = [.deleted] ∧ u.files = [] ∧ CrashSafe expiredStart u := by
  have hrun : Lib.ends (fun u : Retained => u.artifacts.map (·.state) = [.deleted] && u.files = [])
      (Lib.runOps (fun u op => if u.FinalizesProtected op = true then u.perform op else .error "unprotected") expiredStart
        crashAfterUnlink) = true := by decide
  obtain ⟨u, hu, hp⟩ := Lib.exists_of_ends hrun
  simp only [Bool.and_eq_true, decide_eq_true_eq] at hp
  have hr : expiredStart.Reaches (fun u op => u.FinalizesProtected op = true) u := Lib.reach_of_guarded hu
  exact ⟨u, hr, hp.1, hp.2, retention_crash_safe expiredStart u rfl (by decide) hr⟩

def protectedMeanwhile : List RetentionOp :=
  [.declareArtifact 5, .changeWork blockedWork, .proceed false false, .changeWork finishedWork]

/-- The row is deleted with its file in place and no other row. -/
theorem deleted_with_file :
    ∃ u v, expiredStart.Reaches (fun _ _ => True) u ∧ u.perform (.proceed false false) = .ok v ∧
      v.artifacts = [{ anArtifact with state := .deleted }] ∧ v.files = [{ path := .content "d" }] ∧ ¬DeletesAbsent u v := by
  have hrun : Lib.ends (fun u : Retained => u.sweep = .artifactFinalizing 5 && (u.files = [{ path := .content "d" }] &&
      (u.artifacts = [{ anArtifact with cleanup := some .intent }] &&
        u.perform (.proceed false false) = .ok { u with artifacts := [{ anArtifact with state := .deleted }], sweep := .idle })))
      (Lib.runOps perform expiredStart protectedMeanwhile) = true := by decide
  obtain ⟨u, hu, hp⟩ := Lib.exists_of_ends hrun
  simp only [Bool.and_eq_true, decide_eq_true_eq] at hp
  obtain ⟨-, hfiles, hartifacts, hop⟩ := hp
  refine ⟨u, _, Lib.reach_of_runOps (fun _ _ _ => trivial) hu, hop, rfl, hfiles, fun hall => ?_⟩
  rcases hall _ List.mem_cons_self rfl with ⟨x, hx, -, hst⟩ | hmissing | hpeer
  · rw [hartifacts] at hx
    rw [List.mem_singleton.mp hx] at hst
    cases hst
  · simp [fileMissing, file?, hfiles, anArtifact] at hmissing
  · simp [hasAvailablePeer, hartifacts, anArtifact] at hpeer

end Retained

end Vuzol.Ops
