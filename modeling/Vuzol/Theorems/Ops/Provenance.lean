import Vuzol.Ops.Provenance
import Vuzol.Theorems.Ops.Retention

/-! Referenced artifacts under the sweeper. A lookup that passes over locked rows misses the references of those rows, so
    an artifact is kept as long as one row that refers to it is free whenever the sweeper is about to go to the disk or
    to finalize. -/

namespace Vuzol.Ops
namespace Pinned

open Retained (WorktreeRow.pointsAt)

variable {s u v : Pinned} {t : Retained} {op : RetentionOp} {held : Held} {a : ArtifactRow} {w w' : WorktreeRow} {id : Nat}

/-! ### What the skip reason sees -/

theorem isSome_referenceReason (u : Pinned) (held : Held) (id : Nat) :
    (u.referenceReason held id).isSome = u.seesReference held id := by
  unfold referenceReason seesReference
  split
  · rename_i h
    rw [h]
    rfl
  rename_i h
  rw [Bool.not_eq_true] at h
  rw [h, Bool.false_or]
  split
  · rename_i h
    rw [h]
    rfl
  rename_i h
  rw [Bool.not_eq_true] at h
  rw [h, Bool.false_or]
  split
  · rename_i h
    rw [h]
    rfl
  · rename_i h
    rw [Bool.not_eq_true] at h
    rw [h]
    rfl

/-- Past its retention an artifact is skipped where something needs it or a reference to it is seen. -/
theorem isSome_artifactSkipReason (u : Pinned) (held : Held) (a : ArtifactRow) :
    (u.artifactSkipReason held a true).isSome = (u.isNeeded held a || u.seesReference held a.id) := by
  unfold artifactSkipReason Retained.skipReason isNeeded
  cases a.taskId with
  | none => rfl
  | some taskId =>
    simp only [Option.all_some]
    cases u.store.work.task? taskId with
    | none => rfl
    | some task =>
      simp only [Option.all_some]
      split
      · rename_i hblocked
        rw [hblocked]
        rfl
      split
      · rename_i hopen
        rw [Bool.not_eq_true] at hopen
        rw [hopen]
        rfl
      rename_i hfinished
      rw [not_not] at hfinished
      simp only [hfinished, Bool.not_true, Bool.false_or, not_true_eq_false, false_and, if_false]
      rw [Option.isSome_or, isSome_referenceReason]

/-- No row is held. -/
def free : Held := fun _ => []

/-! ### What a step of the sweeper does -/

theorem pointers_putWorktree {t : Retained} (hn : (t.worktrees.map WorktreeRow.key).Nodup) (hw : t.worktree? id = some w)
    (hp : pointers w' = pointers w) : (t.putWorktree w').worktrees.map pointers = t.worktrees.map pointers := by
  refine Lib.map_put fun x hx hk => ?_
  obtain ⟨hmem, -⟩ := Retained.mem_of_worktree? hw
  have hid : w'.id = w.id := congrArg Prod.fst hp
  rw [Lib.eq_of_key_eq hn hx hmem (hk.trans hid), hp]

structure Frame (t t' : Retained) : Prop where
  artifacts : t'.artifacts = t.artifacts
  files : t'.files = t.files
  pointers : t'.worktrees.map pointers = t.worktrees.map pointers

theorem Frame.refl (t : Retained) : Frame t t := ⟨rfl, rfl, rfl⟩

theorem Frame.goOn {t t' : Retained} (h : Frame t t') (next : SweepAt) : Frame t (t'.goOn next) := ⟨h.1, h.2, h.3⟩

theorem Frame.putWorktree {t : Retained} (hn : (t.worktrees.map WorktreeRow.key).Nodup) (hw : t.worktree? id = some w)
    (hp : Pinned.pointers w' = Pinned.pointers w) : Frame t (t.putWorktree w') :=
  ⟨rfl, rfl, pointers_putWorktree hn hw hp⟩

def IsQuiet : SweepAt → Prop
  | .artifactRemoving _ _ _ _ _ | .artifactRemoved _ _ => False
  | _ => True

/-- What a step of the sweeper does to artifacts and files, where the references are seen. -/
inductive StoreChange (u : Pinned) : Retained → Prop
  | other {t : Retained} : Frame u.store t → IsQuiet t.sweep → StoreChange u t
  | missing {a : ArtifactRow} {path : ArtifactPath} : u.store.sweep = .idle → u.store.artifact? a.id = some a → a.path = some path →
      a.cleanup = none → u.store.fileExists path = false → StoreChange u (u.store.putArtifact { a with state := .missing })
  | intends {a : ArtifactRow} : u.store.artifact? a.id = some a → a.state = .available →
      StoreChange u ((u.store.putArtifact { a with cleanup := some .intent }).goOn (.artifactDeclared a.id))
  | removing {a : ArtifactRow} {path : ArtifactPath} {prior : Bool} : u.store.artifact? a.id = some a → a.cleanup ≠ none →
      a.path = some path → (a.cleanup = some .intent → u.refersTo a.id = false) →
      StoreChange u (u.store.goOn (.artifactRemoving a.id path u.store.artifacts (!u.store.hasPeer a) prior))
  | removed {id : Nat} {path : ArtifactPath} {atCheck : List ArtifactRow} {lastPeer fileRemoved fileRemoved' : Bool} :
      u.store.sweep = .artifactRemoving id path atCheck lastPeer fileRemoved →
      StoreChange u (u.store.goOn (.artifactRemoved id fileRemoved'))
  | unlinks {id : Nat} {path : ArtifactPath} {atCheck : List ArtifactRow} {fileRemoved : Bool} :
      u.store.sweep = .artifactRemoving id path atCheck true fileRemoved → u.store.fileExists path = true →
      StoreChange u ((u.store.removeFile path).goOn (.artifactRemoved id true))
  | quarantines {atRead : List ArtifactRow} {path : ArtifactPath} : u.store.sweep = .quarantining atRead path →
      StoreChange u ((u.store.removeFile path).goOn (.orphans atRead))
  | marks {a : ArtifactRow} {fileRemoved fileRemoved' : Bool} : u.store.sweep = .artifactRemoved a.id fileRemoved →
      u.store.artifact? a.id = some a →
      StoreChange u ((u.store.putArtifact { a with cleanup := some (.externalDone fileRemoved') }).goOn
        (.artifactFinalizing a.id))
  | deletes {a : ArtifactRow} : u.store.artifact? a.id = some a → a.cleanup ≠ none →
      (a.cleanup = some .intent → u.refersTo a.id = false) →
      StoreChange u ((u.store.putArtifact { a with cleanup := none, state := .deleted }).rest)

theorem storeChange_of_declare (hidle : u.store.sweep = .idle) (held : Held) (id : Nat) :
    StoreChange u (u.store.declareArtifact (u.artifactSkipReason held) id) := by
  have hquiet : IsQuiet u.store.sweep := by
    rw [hidle]
    trivial
  rcases Retained.declareArtifact_eq u.store (u.artifactSkipReason held) id with
    heq | heq | ⟨a, path, ha, -, hpath, hstate, hphase, ⟨hmissing, heq⟩ | heq⟩
  · rw [heq]
    exact .other (.refl _) hquiet
  · rw [heq]
    exact .other ((Frame.refl _).goOn _) trivial
  · rw [heq]
    obtain rfl := (Retained.mem_of_artifact? ha).2
    exact .missing hidle ha hpath hphase hmissing
  · rw [heq]
    obtain rfl := (Retained.mem_of_artifact? ha).2
    exact .intends ha hstate

theorem not_refersTo_of_skip (hsees : u.refersTo a.id = false ∨ (u.seesReference held a.id || u.isNeeded held a) = true)
    (hskip : u.artifactSkipReason held a true = none) : u.refersTo a.id = false := by
  rcases hsees with h | h
  · exact h
  · rw [← Option.isNone_iff_eq_none, ← Option.not_isSome, isSome_artifactSkipReason, Bool.or_comm, h] at hskip
    cases hskip

variable {removed failed : Bool}

theorem storeChange_of_check (hsweep : u.store.sweep = .artifactDeclared id)
    (hsees : u.SeesReferences (.sweep (.proceed removed failed) held) = true) :
    StoreChange u (u.store.checkArtifact (u.artifactSkipReason held) id) := by
  rcases Retained.checkArtifact_eq u.store (u.artifactSkipReason held) id with heq | heq | ⟨a, path, prior, ha, hphase, hpath, hskip, heq⟩
  · rw [heq]
    exact .other ((Frame.refl _).goOn _) trivial
  · rw [heq]
    exact .other ((Frame.refl _).goOn _) trivial
  · rw [heq]
    simp only [SeesReferences, hsweep, ha, Option.all_some] at hsees
    obtain rfl := (Retained.mem_of_artifact? ha).2
    refine .removing ha hphase hpath fun hintent => not_refersTo_of_skip ?_ (hskip hintent)
    simpa [hintent, or_assoc] using hsees

theorem storeChange_of_finalize (hsweep : u.store.sweep = .artifactFinalizing id)
    (hsees : u.SeesReferences (.sweep (.proceed removed failed) held) = true) :
    StoreChange u (u.store.finalizeArtifact (u.artifactSkipReason held) id) := by
  rcases Retained.finalizeArtifact_eq u.store (u.artifactSkipReason held) id with
    heq | ⟨a, ha, hphase, hcause, heq⟩
  · rw [heq]
    exact .other ((Frame.refl _).goOn _) trivial
  · rw [heq]
    simp only [SeesReferences, hsweep, ha, Option.all_some] at hsees
    obtain rfl := (Retained.mem_of_artifact? ha).2
    refine .deletes ha hphase fun hintent => ?_
    have hsees : u.refersTo a.id = false ∨
        ((u.seesReference held a.id || u.isNeeded held a) = true ∧ u.store.fileMissing a.path = false) := by
      simpa [hintent] using hsees
    rcases hsees with h | ⟨hsees, hthere⟩
    · exact h
    rcases hcause with hmissing | ⟨hother, -⟩ | ⟨-, hskip⟩
    · rw [hthere] at hmissing
      cases hmissing
    · exact absurd hintent hother
    · exact not_refersTo_of_skip (.inr hsees) hskip

section
variable (hn : (u.store.worktrees.map WorktreeRow.key).Nodup)
include hn

theorem storeChange_of_declareWorktree (hidle : u.store.sweep = .idle)
    (id : Nat) (contained : Bool) : StoreChange u (u.store.declareWorktree id contained) := by
  have hquiet : IsQuiet u.store.sweep := by
    rw [hidle]
    trivial
  rcases Retained.declareWorktree_eq u.store id contained with heq | heq | heq | ⟨w, reason, hw, heq | heq⟩
  · rw [heq]
    exact .other (.refl _) hquiet
  · rw [heq]
    exact .other ((Frame.refl _).goOn _) trivial
  · rw [heq]
    exact .other ((Frame.refl _).goOn _) trivial
  · rw [heq]
    exact .other (.putWorktree hn hw rfl) hquiet
  · rw [heq]
    have hframe : Frame u.store (u.store.putWorktree { w with cleanupReason := reason }) := .putWorktree hn hw rfl
    exact .other (hframe.goOn _) trivial

theorem storeChange_of_proceed (hchecked : ∀ id, u.store.sweep ≠ .artifactDeclared id)
    (hfinal : ∀ id, u.store.sweep ≠ .artifactFinalizing id)
    (hop : u.store.proceed removed failed = .ok t) : StoreChange u t := by
  unfold Retained.proceed at hop
  split at hop
  · cases hop
  · cases hop
  · cases hop
    rename_i id hsweep
    rcases Retained.checkWorktree_eq u.store id with heq | ⟨w, task, run, -, -, -, heq⟩
    · rw [heq]
      exact .other ((Frame.refl _).goOn _) trivial
    · rw [heq]
      exact .other ((Frame.refl _).goOn _) trivial
  · cases hop
    unfold Retained.removeWorktree
    split
    · exact .other ((Frame.refl _).goOn _) trivial
    split
    · cases removed with
      | false => exact .other ((Frame.refl _).goOn _) trivial
      | true => exact .other ⟨rfl, rfl, rfl⟩ trivial
    · exact .other ⟨rfl, rfl, rfl⟩ trivial
  · cases hop
    unfold Retained.markWorktree
    split
    · exact .other ((Frame.refl _).goOn _) trivial
    · rename_i w hw
      have hframe : Frame u.store (u.store.putWorktree { w with cleanupReason := some .externalDone }) :=
        .putWorktree hn hw rfl
      exact .other (hframe.goOn _) trivial
  · cases hop
    rename_i id hsweep
    rcases Retained.finalizeWorktree_eq u.store id with heq | ⟨w, hw, -, heq⟩
    · rw [heq]
      exact .other ((Frame.refl _).goOn _) trivial
    · rw [heq]
      have hframe : Frame u.store (u.store.putWorktree (Retained.WorktreeRow.clean w u.store.now)) :=
        .putWorktree hn hw rfl
      exact .other (hframe.goOn _) trivial
  · rename_i id hsweep
    exact absurd hsweep (hchecked id)
  · cases hop
    rename_i id path atCheck lastPeer fileRemoved hsweep
    rcases Retained.removeArtifact_eq u.store id path lastPeer fileRemoved failed with
      heq | ⟨r, heq⟩ | ⟨hlast, -, hexists, heq⟩
    · rw [heq]
      exact .other ((Frame.refl _).goOn _) trivial
    · rw [heq]
      exact .removed hsweep
    · rw [heq]
      rw [hlast] at hsweep
      exact .unlinks hsweep hexists
  · cases hop
    rename_i id fileRemoved hsweep
    rcases Retained.markArtifact_eq u.store id fileRemoved with heq | ⟨a, ha, heq⟩
    · rw [heq]
      exact .other ((Frame.refl _).goOn _) trivial
    · rw [heq]
      obtain rfl := (Retained.mem_of_artifact? ha).2
      exact .marks hsweep ha
  · rename_i id hsweep
    exact absurd hsweep (hfinal id)
  · cases hop
    rename_i atRead path hsweep
    cases failed with
    | true => exact .other ((Frame.refl _).goOn _) trivial
    | false => exact .quarantines hsweep

theorem storeChange_of_step (hs : op.isSweep = true)
    (hsees : u.SeesReferences (.sweep op held) = true) (hop : u.sweepStep op held = .ok t) : StoreChange u t := by
  unfold sweepStep at hop
  split at hop
  · obtain ⟨hidle, hop⟩ := Lib.check_eq_ok.mp hop
    cases hop
    exact storeChange_of_declare hidle held _
  · cases hop
    rename_i hsweep
    exact storeChange_of_check hsweep hsees
  · cases hop
    rename_i hsweep
    exact storeChange_of_finalize hsweep hsees
  rename_i op _ _ hdeclare hchecked hfinal
  cases op with
  | declareWorktree id contained =>
    obtain ⟨hidle, hop⟩ := Lib.check_eq_ok.mp hop
    cases hop
    exact storeChange_of_declareWorktree hn hidle id contained
  | declareArtifact id => exact absurd rfl (hdeclare id)
  | readKnown =>
    obtain ⟨-, hop⟩ := Lib.check_eq_ok.mp hop
    cases hop
    exact .other ((Frame.refl _).goOn _) trivial
  | considerFile path =>
    simp only [Retained.perform] at hop
    split at hop
    · rename_i atRead f hsweep hf
      split at hop
      · cases hop
        exact .other ((Frame.refl _).goOn _) trivial
      · cases hop
        exact .other (.refl _) (by rw [hsweep]; trivial)
    · cases hop
  | proceed removed failed =>
    exact storeChange_of_proceed hn (fun id => hchecked removed failed id rfl) (fun id => hfinal removed failed id rfl) hop
  | endSweep =>
    cases hop
    exact .other ((Frame.refl _).goOn _) trivial
  | _ => cases hs

end

/-! ### References -/

theorem any_pointsAt (rows : List WorktreeRow) (id : Nat) : rows.any (WorktreeRow.pointsAt · id) =
    (rows.map pointers).any fun p => p.2.1 = some id || p.2.2 = some id := by
  rw [List.any_map]
  rfl

theorem refersTo_withStore (h : t.worktrees.map pointers = u.store.worktrees.map pointers) (id : Nat) :
    (u.withStore t).refersTo id = u.refersTo id := by
  show (t.worktrees.any (WorktreeRow.pointsAt · id) || _ || _) = _
  rw [any_pointsAt, h, ← any_pointsAt]
  rfl

theorem keys_of_pointers {rows rows' : List WorktreeRow} (h : rows'.map pointers = rows.map pointers) :
    rows'.map WorktreeRow.key = rows.map WorktreeRow.key := by
  have hkey : ∀ rows : List WorktreeRow, rows.map WorktreeRow.key = (rows.map pointers).map Prod.fst := fun rows => by
    rw [List.map_map]
    rfl
  rw [hkey, hkey, h]

theorem fileExists_removeFile_of_ne {path path' : ArtifactPath} (hne : path ≠ path') :
    (t.removeFile path').fileExists path = t.fileExists path := by
  have hsame : (t.removeFile path').file? path = t.file? path := by
    simp only [Retained.file?, Retained.removeFile, List.find?_filter]
    refine congrArg (List.find? · t.files) (funext fun f => ?_)
    by_cases hf : f.path = path
    · simp [hf, hne]
    · simp [hf]
  simp only [Retained.fileExists, hsame]

theorem fileExists_removeFile {path path' : ArtifactPath} (h : t.fileExists path = false) :
    (t.removeFile path').fileExists path = false := by
  by_cases hp : path = path'
  · have hnone : (t.removeFile path').file? path = none := by
      rw [Retained.file?, List.find?_eq_none]
      intro f hf hfp
      have hne : f.path ≠ path' := by simpa using (List.mem_filter.mp hf).2
      exact hne ((of_decide_eq_true hfp).trans hp)
    simp only [Retained.fileExists, hnone, Option.any_none]
  · rw [fileExists_removeFile_of_ne hp, h]

/-! ### Runs -/

def IsKept (t : Retained) (a : ArtifactRow) : Prop :=
  a.state ≠ .deleted ∧ (∀ removed, a.cleanup ≠ some (.externalDone removed)) ∧
    (a.state = .missing → ∀ path, a.path = some path → t.fileExists path = false)

structure ReferencesSound (u : Pinned) : Prop where
  artifactIds : (u.store.artifacts.map ArtifactRow.key).Nodup
  worktreeIds : (u.store.worktrees.map WorktreeRow.key).Nodup
  addressed : ∀ a ∈ u.store.artifacts, ∀ b ∈ u.store.artifacts, ∀ path, a.path = some path → b.path = some path →
    a.contentHash = b.contentHash
  kept : ∀ a ∈ u.store.artifacts, u.refersTo a.id = true → IsKept u.store a
  removing : ∀ id path atCheck lastPeer removed, u.store.sweep = .artifactRemoving id path atCheck lastPeer removed →
    u.refersTo id = false ∧
      (lastPeer = true → ∀ a ∈ u.store.artifacts, u.refersTo a.id = true → a.path = some path → a.state = .missing)
  removed : ∀ id removed, u.store.sweep = .artifactRemoved id removed → u.refersTo id = false

theorem ReferencesSound.next (h : ReferencesSound u) (hartifacts : t.artifacts = u.store.artifacts)
    (hpointers : t.worktrees.map pointers = u.store.worktrees.map pointers)
    (hfiles : ∀ path, u.store.fileExists path = false → t.fileExists path = false)
    (hremoving : ∀ id path atCheck lastPeer removed, t.sweep = .artifactRemoving id path atCheck lastPeer removed →
      u.refersTo id = false ∧
        (lastPeer = true → ∀ a ∈ u.store.artifacts, u.refersTo a.id = true → a.path = some path → a.state = .missing))
    (hremoved : ∀ id removed, t.sweep = .artifactRemoved id removed → u.refersTo id = false) :
    ReferencesSound (u.withStore t) where
  artifactIds := hartifacts ▸ h.artifactIds
  worktreeIds := by
    show (t.worktrees.map WorktreeRow.key).Nodup
    rw [keys_of_pointers hpointers]
    exact h.worktreeIds
  addressed := hartifacts ▸ h.addressed
  kept a ha hr := by
    rw [refersTo_withStore hpointers] at hr
    obtain ⟨hstate, hcleanup, hmissing⟩ := h.kept a (hartifacts ▸ ha) hr
    exact ⟨hstate, hcleanup, fun hm path hp => hfiles path (hmissing hm path hp)⟩
  removing id path atCheck lastPeer removed hs := by
    obtain ⟨hid, hlast⟩ := hremoving id path atCheck lastPeer removed hs
    rw [refersTo_withStore hpointers]
    refine ⟨hid, fun hl a ha hr => ?_⟩
    rw [refersTo_withStore hpointers] at hr
    exact hlast hl a (hartifacts ▸ ha) hr
  removed id removed hs := by
    rw [refersTo_withStore hpointers]
    exact hremoved id removed hs

theorem ReferencesSound.frame (h : ReferencesSound u) (hf : Frame u.store t)
    (hs : IsQuiet t.sweep ∨ t.sweep = u.store.sweep) : ReferencesSound (u.withStore t) := by
  refine h.next hf.artifacts hf.pointers (fun path hp => ?_) (fun id path atCheck lastPeer removed ht => ?_)
    fun id removed ht => ?_
  · simpa only [Retained.fileExists, Retained.file?, hf.files] using hp
  · rcases hs with hs | hs
    · rw [ht] at hs
      exact hs.elim
    · exact h.removing id path atCheck lastPeer removed (hs.symm.trans ht)
  · rcases hs with hs | hs
    · rw [ht] at hs
      exact hs.elim
    · exact h.removed id removed (hs.symm.trans ht)

theorem ReferencesSound.putArtifact {a' : ArtifactRow} {next : SweepAt} (h : ReferencesSound u)
    (ha : u.store.artifact? a.id = some a) (hid : a'.id = a.id) (hpath : a'.path = a.path)
    (hhash : a'.contentHash = a.contentHash) (hkept : u.refersTo a.id = true → IsKept u.store a') (hquiet : IsQuiet next) :
    ReferencesSound (u.withStore ((u.store.putArtifact a').goOn next)) := by
  have hmem := (Retained.mem_of_artifact? ha).1
  have hfrom : ∀ x ∈ (u.store.putArtifact a').artifacts, ∃ y ∈ u.store.artifacts,
      y.id = x.id ∧ y.path = x.path ∧ y.contentHash = x.contentHash := by
    intro x hx
    rcases Lib.mem_or_of_mem_put hx with rfl | hx
    · exact ⟨a, hmem, hid.symm, hpath.symm, hhash.symm⟩
    · exact ⟨x, hx, rfl, rfl, rfl⟩
  refine ⟨?_, h.worktreeIds, fun x hx y hy path hxp hyp => ?_, fun x hx hr => ?_,
    fun id path atCheck lastPeer removed hs => ?_, fun id removed hs => ?_⟩
  · have hids : (u.store.putArtifact a').artifacts.map ArtifactRow.key = u.store.artifacts.map ArtifactRow.key :=
      Lib.map_put fun _ _ hk => hk
    show ((u.store.putArtifact a').artifacts.map ArtifactRow.key).Nodup
    rw [hids]
    exact h.artifactIds
  · obtain ⟨x0, hx0, -, hxpath, hxhash⟩ := hfrom x hx
    obtain ⟨y0, hy0, -, hypath, hyhash⟩ := hfrom y hy
    rw [← hxhash, ← hyhash]
    exact h.addressed x0 hx0 y0 hy0 path (hxpath.trans hxp) (hypath.trans hyp)
  · have hr : u.refersTo x.id = true := hr
    rcases Lib.mem_or_of_mem_put hx with rfl | hx
    · exact hkept (hid ▸ hr)
    · exact h.kept x hx hr
  · have hs : next = .artifactRemoving id path atCheck lastPeer removed := hs
    rw [hs] at hquiet
    exact hquiet.elim
  · have hs : next = .artifactRemoved id removed := hs
    rw [hs] at hquiet
    exact hquiet.elim

theorem state_of_not_hasPeer {b : ArtifactRow} (hp : t.hasPeer a = false) (hb : b ∈ t.artifacts)
    (hhash : b.contentHash = a.contentHash) (hid : b.id ≠ a.id) : b.state = .missing ∨ b.state = .deleted := by
  have hb := List.any_eq_false.mp hp b hb
  cases hst : b.state <;> simp_all

section
variable (h : ReferencesSound u)
include h

theorem ReferencesSound.storeChange (hc : StoreChange u t) : ReferencesSound (u.withStore t) := by
  cases hc with
  | other hframe hquiet => exact h.frame hframe (.inl hquiet)
  | missing hidle ha hpath hphase hgone =>
    rename_i a path
    have hquiet : IsQuiet u.store.sweep := by
      rw [hidle]
      trivial
    show ReferencesSound (u.withStore ((u.store.putArtifact { a with state := .missing }).goOn u.store.sweep))
    refine h.putArtifact ha rfl rfl rfl (fun _ => ?_) hquiet
    refine ⟨fun hd => (nomatch hd), fun removed hr => ?_, fun _ path' hp => ?_⟩
    · exact absurd (hphase.symm.trans hr) fun hr => (nomatch hr)
    · rw [← Option.some.inj (hpath.symm.trans hp)]
      exact hgone
  | intends ha hstate =>
    refine h.putArtifact ha rfl rfl rfl (fun _ => ⟨fun hd => ?_, fun removed hr => (nomatch hr), fun hm => ?_⟩) trivial
    · exact absurd (hstate.symm.trans hd) fun hd => (nomatch hd)
    · exact absurd (hstate.symm.trans hm) fun hm => (nomatch hm)
  | removing ha hphase hpath hintent =>
    rename_i a path prior
    have hmem := (Retained.mem_of_artifact? ha).1
    have hfree : u.refersTo a.id = false := by
      by_contra hr
      rw [Bool.not_eq_false] at hr
      cases hcleanup : a.cleanup with
      | none => exact hphase hcleanup
      | some phase =>
        cases phase with
        | intent => exact absurd hr (by rw [hintent hcleanup]; exact Bool.false_ne_true)
        | externalDone removed => exact (h.kept a hmem hr).2.1 removed hcleanup
    refine h.next rfl rfl (fun _ hp => hp) (fun id path' atCheck lastPeer removed hs => ?_)
      fun id removed hs => (nomatch hs)
    cases hs
    refine ⟨hfree, fun hlast b hb hr hbp => ?_⟩
    rw [Bool.not_eq_true'] at hlast
    have hid : b.id ≠ a.id := by
      intro hid
      rw [hid, hfree] at hr
      cases hr
    rcases state_of_not_hasPeer hlast hb (h.addressed b hb a hmem path hbp hpath) hid with hst | hst
    · exact hst
    · exact absurd hst (h.kept b hb hr).1
  | removed hsweep =>
    refine h.next rfl rfl (fun _ hp => hp) (fun id path atCheck lastPeer removed hs => (nomatch hs)) fun id removed hs => ?_
    cases hs
    exact (h.removing _ _ _ _ _ hsweep).1
  | unlinks hsweep =>
    refine h.next rfl rfl (fun _ hp => fileExists_removeFile hp) (fun id path atCheck lastPeer removed hs => (nomatch hs))
      fun id removed hs => ?_
    cases hs
    exact (h.removing _ _ _ _ _ hsweep).1
  | quarantines =>
    exact h.next rfl rfl (fun _ hp => fileExists_removeFile hp) (fun id path atCheck lastPeer removed hs => (nomatch hs))
      fun id removed hs => (nomatch hs)
  | marks hsweep ha =>
    refine h.putArtifact ha rfl rfl rfl (fun hr => ?_) trivial
    rw [h.removed _ _ hsweep] at hr
    cases hr
  | deletes ha hphase hintent =>
    rename_i a
    refine h.putArtifact ha rfl rfl rfl (fun hr => ?_) trivial
    cases hcleanup : a.cleanup with
    | none => exact absurd hcleanup hphase
    | some phase =>
      cases phase with
      | intent => exact absurd hr (by rw [hintent hcleanup]; exact Bool.false_ne_true)
      | externalDone removed => exact absurd hcleanup ((h.kept a (Retained.mem_of_artifact? ha).1 hr).2.1 removed)

theorem perform_cases {op : PinnedOp} (hsees : u.SeesReferences op = true)
    (hop : u.perform op = .ok v) : ∃ t, v = u.withStore t ∧
      (StoreChange u t ∨ (Frame u.store t ∧ t.sweep = u.store.sweep)) := by
  cases op with
  | sweep op held =>
    obtain ⟨hs, hop⟩ := Lib.check_eq_ok.mp hop
    obtain ⟨t, ht, rfl⟩ := Lib.map_eq_ok.mp hop
    exact ⟨t, rfl, .inl (storeChange_of_step h.worktreeIds hs hsees ht)⟩
  | updateWorktree w =>
    obtain ⟨hw, hop⟩ := Lib.check_eq_ok.mp hop
    cases hop
    obtain ⟨w0, hw0, hp⟩ := List.mem_map.mp hw
    refine ⟨_, rfl, .inr ⟨⟨rfl, rfl, Lib.map_put fun x hx hk => ?_⟩, rfl⟩⟩
    rw [Lib.eq_of_key_eq h.worktreeIds hx hw0 (hk.trans (congrArg Prod.fst hp).symm), hp]
  | changeWork work =>
    cases hop
    exact ⟨_, rfl, .inr ⟨⟨rfl, rfl, rfl⟩, rfl⟩⟩
  | wait =>
    cases hop
    exact ⟨_, rfl, .inr ⟨⟨rfl, rfl, rfl⟩, rfl⟩⟩

theorem ReferencesSound.step {op : PinnedOp} (hsees : u.SeesReferences op = true)
    (hop : u.perform op = .ok v) : ReferencesSound v := by
  obtain ⟨t, rfl, hc | ⟨hframe, hsweep⟩⟩ := perform_cases h hsees hop
  · exact h.storeChange hc
  · exact h.frame hframe (.inr hsweep)

theorem refersTo_of_step {op : PinnedOp} (hsees : u.SeesReferences op = true)
    (hop : u.perform op = .ok v) (id : Nat) : v.refersTo id = u.refersTo id := by
  obtain ⟨t, rfl, hc | ⟨hframe, -⟩⟩ := perform_cases h hsees hop
  · cases hc with
    | other hframe => exact refersTo_withStore hframe.pointers id
    | _ => rfl
  · exact refersTo_withStore hframe.pointers id

theorem fileExists_of_step {op : PinnedOp} {path : ArtifactPath} (hsees : u.SeesReferences op = true)
    (hop : u.perform op = .ok v) (hp : u.store.fileExists path = true) :
    v.store.fileExists path = true ∨ (∃ atRead, u.store.sweep = .quarantining atRead path) ∨
      ∃ id atCheck removed, u.store.sweep = .artifactRemoving id path atCheck true removed := by
  obtain ⟨t, rfl, hc⟩ := perform_cases h hsees hop
  have hsame : t.files = u.store.files → t.fileExists path = true := fun hf => by
    simpa only [Retained.fileExists, Retained.file?, hf] using hp
  rcases hc with hc | ⟨hframe, -⟩
  · cases hc with
    | other hframe => exact .inl (hsame hframe.files)
    | unlinks hsweep =>
      rename_i id path' atCheck removed hexists
      by_cases hpath : path = path'
      · exact .inr (.inr ⟨id, atCheck, removed, hpath ▸ hsweep⟩)
      · exact .inl ((fileExists_removeFile_of_ne hpath).trans hp)
    | quarantines hsweep =>
      rename_i atRead path'
      by_cases hpath : path = path'
      · exact .inr (.inl ⟨atRead, hpath ▸ hsweep⟩)
      · exact .inl ((fileExists_removeFile_of_ne hpath).trans hp)
    | _ => exact .inl (hsame rfl)
  · exact .inl (hsame hframe.files)

end

/-- The tables at a start. -/
structure Intact (s : Pinned) : Prop where
  artifactIds : (s.store.artifacts.map ArtifactRow.key).Nodup
  worktreeIds : (s.store.worktrees.map WorktreeRow.key).Nodup
  addressed : ∀ a ∈ s.store.artifacts, ∀ b ∈ s.store.artifacts, ∀ path, a.path = some path → b.path = some path →
    a.contentHash = b.contentHash
  kept : ∀ a ∈ s.store.artifacts, s.refersTo a.id = true → IsKept s.store a
  sweep : s.store.sweep = .idle

theorem Intact.sound (h : Intact s) : ReferencesSound s where
  artifactIds := h.artifactIds
  worktreeIds := h.worktreeIds
  addressed := h.addressed
  kept := h.kept
  removing _ _ _ _ _ hs := absurd (h.sweep.symm.trans hs) fun hs => (nomatch hs)
  removed _ _ hs := absurd (h.sweep.symm.trans hs) fun hs => (nomatch hs)

/-- What holds of a run from `s` to `u` and of every step after it. -/
structure Survives (s u : Pinned) : Prop where
  references : ∀ id, u.refersTo id = s.refersTo id
  kept : ∀ a ∈ u.store.artifacts, s.refersTo a.id = true → a.state ≠ .deleted
  unlinked : ∀ op v, u.SeesReferences op = true → u.perform op = .ok v → ∀ a ∈ u.store.artifacts,
    s.refersTo a.id = true → ∀ path, a.path = some path → u.store.fileExists path = true →
      v.store.fileExists path = true ∨ ∃ atRead, u.store.sweep = .quarantining atRead path

/-- In every run whose lookups see the references that are there, an artifact that is referred to keeps its row and its
    bytes. -/
theorem referenced_artifacts_survive (s u : Pinned) (hs : Intact s)
    (h : s.Reaches (fun u op => u.SeesReferences op = true) u) : Survives s u := by
  obtain ⟨hu, hrefers⟩ : ReferencesSound u ∧ ∀ id, u.refersTo id = s.refersTo id :=
    h.invariant (P := fun u => ReferencesSound u ∧ ∀ id, u.refersTo id = s.refersTo id) ⟨hs.sound, fun _ => rfl⟩
      fun hu hsees hop => ⟨hu.1.step hsees hop, fun id => (refersTo_of_step hu.1 hsees hop id).trans (hu.2 id)⟩
  refine ⟨hrefers, fun a ha hr => (hu.kept a ha ((hrefers a.id).trans hr)).1, ?_⟩
  intro op v hsees hop a ha hr path hpath hexists
  rw [← hrefers] at hr
  rcases fileExists_of_step hu hsees hop hexists with hv | hq | ⟨id, atCheck, removed, hsweep⟩
  · exact .inl hv
  · exact .inr hq
  · have hmissing := (hu.removing id path atCheck true removed hsweep).2 rfl a ha hr hpath
    rw [(hu.kept a ha hr).2.2 hmissing path hpath] at hexists
    cases hexists

/-! ### A memory unit that refers to an artifact -/

def rememberedStart : Pinned := { store := Retained.expiredStart, memories := [⟨9, some 5⟩] }

theorem rememberedStart_intact : Intact rememberedStart where
  artifactIds := by decide
  worktreeIds := by decide
  addressed := by decide
  kept a ha _ := by
    rw [List.mem_singleton.mp ha]
    exact ⟨by decide, fun _ hr => (nomatch hr), fun hm => (nomatch hm)⟩
  sweep := rfl

def memoryHeld : Held
  | .memoryUnit => [9]
  | _ => []

/-- The memory unit is held when the artifact is declared and free from then on. -/
theorem referenced_artifacts_survive_remembered :
    ∃ u, rememberedStart.Reaches (fun u op => u.SeesReferences op = true) u ∧
      u.store.artifacts.map (·.state) = [.available] ∧ u.store.files = [{ path := .content "d" }] ∧
        Survives rememberedStart u := by
  have hrun : Lib.ends (fun u : Pinned => u.store.artifacts.map (·.state) = [.available] &&
      u.store.files = [{ path := .content "d" }])
      (Lib.runOps (fun u op => if u.SeesReferences op = true then u.perform op else .error "held") rememberedStart
        [.sweep (.declareArtifact 5) memoryHeld, .sweep (.proceed false false) free, .sweep (.proceed false false) free]) =
      true := by decide
  obtain ⟨u, hu, hp⟩ := Lib.exists_of_ends hrun
  simp only [Bool.and_eq_true, decide_eq_true_eq] at hp
  have hr : rememberedStart.Reaches (fun u op => u.SeesReferences op = true) u := Lib.reach_of_guarded hu
  exact ⟨u, hr, hp.1, hp.2, referenced_artifacts_survive rememberedStart u rememberedStart_intact hr⟩

def sweptWhileHeld : List PinnedOp :=
  .sweep (.declareArtifact 5) memoryHeld :: List.replicate 4 (.sweep (.proceed false false) memoryHeld)

/-- The memory unit names an artifact that is deleted, and its file is gone. -/
theorem held_reference_missed :
    ∃ u, Intact rememberedStart ∧ rememberedStart.Reaches (fun _ _ => True) u ∧ u.memories = [⟨9, some 5⟩] ∧
      u.store.artifacts = [{ Retained.anArtifact with state := .deleted }] ∧ u.store.files = [] ∧
        ¬Survives rememberedStart u := by
  have hrun : Lib.ends (fun u : Pinned => u.memories = [⟨9, some 5⟩] && (u.store.files = [] &&
      u.store.artifacts = [{ Retained.anArtifact with state := .deleted }]))
      (Lib.runOps perform rememberedStart sweptWhileHeld) = true := by decide
  obtain ⟨u, hu, hp⟩ := Lib.exists_of_ends hrun
  simp only [Bool.and_eq_true, decide_eq_true_eq] at hp
  obtain ⟨hmemories, hfiles, hartifacts⟩ := hp
  refine ⟨u, rememberedStart_intact, Lib.reach_of_runOps (fun _ _ _ => trivial) hu, hmemories, hartifacts, hfiles,
    fun hsurvives => ?_⟩
  have hmem : { Retained.anArtifact with state := .deleted } ∈ u.store.artifacts := by
    rw [hartifacts]
    exact List.mem_singleton_self _
  exact hsurvives.kept _ hmem (by decide) rfl

end Pinned
end Vuzol.Ops
