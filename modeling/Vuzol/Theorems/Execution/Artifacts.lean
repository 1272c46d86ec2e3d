import Vuzol.Execution.Artifacts
import Vuzol.Lib.Rows

/-! Files that are named by a hash hold what their name says, as long as `os.write` takes all it is given before a file is
    renamed. -/

namespace Vuzol.Artifacts

open Vuzol.Lib

variable {hashing : Hashing} {store : ArtifactStore}
variable {b : Bytes}

theorem hex_ne_dot {c : Char} (h : IsHex c) : c ≠ '.' ∧ c ≠ '/' := by
  obtain ⟨d, hd, rfl⟩ := h
  exact (show ∀ d < 16, d.digitChar ≠ '.' ∧ d.digitChar ≠ '/' by decide) d hd

theorem relative_injective {d : Text} (h : relative d = relative (hashing.sha256 b)) : d = hashing.sha256 b := by
  have hlength := congrArg List.length h
  have hsha := hashing.length b
  simp only [relative, List.length_append, List.length_take, List.length_cons, hsha] at hlength
  have hdrop := congrArg (List.drop 3) h
  have htake : ∀ t : Text, t.length = 64 → (relative t).drop 3 = t := fun t ht => by
    have htwo : (t.take 2).length = 2 := by
      rw [List.length_take]
      omega
    rw [relative, List.drop_append, htwo, List.drop_eq_nil_of_le (by omega)]
    rfl
  rwa [htake d (by omega), htake _ hsha] at hdrop

theorem temporary_ne_relative (b : Bytes) (uuid : Uuid) (d : Text) : temporary (hashing.sha256 b) uuid ≠ relative d := by
  intro h
  have hsha := hashing.length b
  obtain ⟨x, y, rest, hxy⟩ : ∃ x y rest, hashing.sha256 b = x :: y :: rest := by
    match hs : hashing.sha256 b with
    | [] => simp [hs] at hsha
    | [x] => simp [hs] at hsha
    | x :: y :: rest => exact ⟨x, y, rest, rfl⟩
  have hx : IsHex x := hashing.hex (b := b) (hxy ▸ List.mem_cons_self)
  have hy : IsHex y := hashing.hex (b := b) (hxy ▸ List.mem_cons_of_mem _ List.mem_cons_self)
  rw [temporary, hxy] at h
  match d with
  | [] => simp [relative] at h
  | [z] => simp [relative] at h
  | z :: w :: tail =>
    simp only [relative, List.take_succ_cons, List.take_zero, List.cons_append, List.nil_append, List.cons.injEq, true_and] at h
    obtain ⟨rfl, rfl, rfl, -⟩ := h
    exact (hex_ne_dot hx).1 rfl

def Stored (s : Disk) (a : Artifact) : Prop :=
  a.contentUri = "artifact:".toList ++ relative a.contentHash ∧ (s.files (relative a.contentHash)).isSome = true

structure Sound (hashing : Hashing) (store : ArtifactStore) (s : Disk) : Prop where
  content : ∀ d c, s.files (relative d) = some c → hashing.sha256 c = d ∧ c.length ≤ store.maxBytes
  rows : ∀ a ∈ s.rows, Stored s a

def Extends (s t : Disk) : Prop := ∀ d, (s.files (relative d)).isSome = true → (t.files (relative d)).isSome = true

variable {a : Artifact}

theorem Stored.extends {s t : Disk} (h : Stored s a) (hext : Extends s t) : Stored t a :=
  ⟨h.1, hext _ h.2⟩

@[simp] theorem setFile_files (s : Disk) (path p : Text) (c : Option Bytes) :
    (s.setFile path c).files p = if p = path then c else s.files p := rfl

@[simp] theorem setFile_rows (s : Disk) (path : Text) (c : Option Bytes) : (s.setFile path c).rows = s.rows := rfl

theorem Sound.of_files {s t : Disk} (h : Sound hashing store s) (hfiles : ∀ d, t.files (relative d) = s.files (relative d))
    (hrows : t.rows = s.rows) : Sound hashing store t where
  content d c hc := h.content d c (hfiles d ▸ hc)
  rows a ha := ⟨(h.rows a (hrows ▸ ha)).1, by rw [hfiles]; exact (h.rows a (hrows ▸ ha)).2⟩

theorem setTemporary_files (s : Disk) (b : Bytes) (uuid : Uuid) (c : Option Bytes) (d : Text) :
    (s.setFile (temporary (hashing.sha256 b) uuid) c).files (relative d) = s.files (relative d) :=
  if_neg fun h => temporary_ne_relative b uuid d h.symm

theorem Sound.name {s : Disk} (h : Sound hashing store s) (hlength : b.length ≤ store.maxBytes) :
    Sound hashing store (s.setFile (relative (hashing.sha256 b)) (some b)) where
  content d c hc := by
    rw [setFile_files] at hc
    split at hc
    · rename_i hd
      cases hc
      exact ⟨(relative_injective hd).symm, hlength⟩
    · exact h.content d c hc
  rows a ha := by
    refine ⟨(h.rows a ha).1, ?_⟩
    rw [setFile_files]
    split
    · rfl
    · exact (h.rows a ha).2

theorem extends_name (s : Disk) (d : Text) (c : Bytes) : Extends s (s.setFile (relative d) (some c)) := fun e he => by
  rw [setFile_files]
  split
  · rfl
  · exact he

theorem Sound.flush {s : Disk} (h : Sound hashing store s) (ha : Stored s a) :
    Sound hashing store { s with rows := s.rows ++ [a] } where
  content := h.content
  rows x hx := by
    rcases Lib.mem_concat.mp hx with hx | rfl
    · exact h.rows x hx
    · exact ha

/-- What holds between any two steps, if `os.write` took all it was given before a file was renamed. -/
def Guard (hashing : Hashing) (store : ArtifactStore) (whole : Prop) (s : Disk) (log : List FileOp) (t : Disk) : Prop :=
  (log.any StoreOp.isReplace = true → whole) → Sound hashing store t ∧ Extends s t

section Call
variable {s t : Disk} {whole : Prop} {log : List FileOp}

theorem Guard.of_sound (h : Sound hashing store t) (hext : Extends s t) : Guard hashing store whole s log t :=
  fun _ => ⟨h, hext⟩

theorem Guard.temporary {uuid : Uuid} {c : Option Bytes} (h : Guard hashing store whole s log t) :
    Guard hashing store whole s log (t.setFile (temporary (hashing.sha256 b) uuid) c) := fun hlog => by
  obtain ⟨hsound, hext⟩ := h hlog
  refine ⟨hsound.of_files (setTemporary_files t b uuid c) rfl, fun d hd => ?_⟩
  rw [setTemporary_files]
  exact hext d hd

theorem Guard.name {taken : Bytes} (h : ∀ log, Guard hashing store whole s log t) (hlength : b.length ≤ store.maxBytes)
    (htaken : whole → taken = b) (hreplace : log.any StoreOp.isReplace = true) :
    Guard hashing store whole s log (t.setFile (relative (hashing.sha256 b)) (some taken)) := fun hlog => by
  rw [htaken (hlog hreplace)]
  obtain ⟨hsound, hext⟩ := h [] (fun hnone => by cases hnone)
  exact ⟨hsound.name hlength, fun d hd => extends_name _ _ _ d (hext d hd)⟩

theorem publish_safe {env : CallEnv} (h : Sound hashing store t) (hext : Extends s t) (hlength : b.length ≤ store.maxBytes)
    (hwhole : whole → b.length ≤ env.written) :
    (publish env (hashing.sha256 b) b).Safe FileOp.perform (Guard hashing store whole s) (fun _ _ => True)
      (fun _ log u => Guard hashing store whole s log u ∧ (u.files (relative (hashing.sha256 b))).isSome = true) log t := by
  have hguard : ∀ log, Guard hashing store whole s log t := fun _ => .of_sound h hext
  unfold publish
  dsimp only
  refine ⟨hguard _, trivial, ?_⟩
  dsimp only
  split
  · rename_i hexists
    rw [FileOp.perform, if_pos hexists]
    exact hguard _
  · rename_i hnew
    rw [FileOp.perform, if_neg hnew]
    refine ⟨(hguard _).temporary, trivial, ?_⟩
    rw [FileOp.perform, setFile_files, if_pos rfl, Option.getD_some, List.nil_append]
    have hwritten : ∀ log, Guard hashing store whole s log ((t.setFile (temporary (hashing.sha256 b) env.uuid) (some [])).setFile
        (temporary (hashing.sha256 b) env.uuid) (some (b.take env.written))) := fun _ => (hguard _).temporary.temporary
    refine ⟨hwritten _, trivial, hwritten _, trivial, hwritten _, trivial, ?_⟩
    simp only [FileOp.perform]
    generalize (t.setFile (temporary (hashing.sha256 b) env.uuid) (some [])) = u at hwritten ⊢
    rw [setFile_files, if_pos rfl]
    have hnamed : ∀ log, log.any StoreOp.isReplace = true → Guard hashing store whole s log
        ((u.setFile (temporary (hashing.sha256 b) env.uuid) (some (b.take env.written))).setFile (relative (hashing.sha256 b))
          (some (b.take env.written))) := fun log hreplace =>
      Guard.name hwritten hlength (fun hw => List.take_of_length_le (hwhole hw)) hreplace
    refine ⟨(hnamed _ (by simp [StoreOp.isReplace])).temporary, (hnamed _ (by simp [StoreOp.isReplace])).temporary, ?_⟩
    rw [setTemporary_files, setFile_files, if_pos rfl]
    rfl

theorem persist_safe (h : Sound hashing store s) (args : PersistArgs) (env : CallEnv)
    (hwhole : whole → (store.redact args.content).1.length ≤ env.written) :
    (persist hashing store args env).Safe FileOp.perform (Guard hashing store whole s) (fun _ _ => True)
      (fun a _ t => Stored t a) [] s := by
  have hguard : ∀ log, Guard hashing store whole s log s := fun _ => .of_sound h fun _ hd => hd
  unfold persist
  dsimp only
  split
  · exact hguard []
  · rename_i hlength
    refine ⟨hguard _, trivial, ?_⟩
    dsimp only
    split
    · rename_i existing hexisting
      exact ⟨hguard _, h.rows existing (List.mem_of_find?_eq_some hexisting)⟩
    · refine ⟨hguard _, trivial, hguard _, trivial, ?_⟩
      rw [Program.safe_bind]
      have hflush : ∀ log t, Guard hashing store whole s log t →
          (t.files (relative (hashing.sha256 (store.redact args.content).1))).isSome = true →
          (show Persist from .exec (.flush (newArtifact hashing store args)) fun _ =>
            .ret (newArtifact hashing store args)).Safe FileOp.perform (Guard hashing store whole s) (fun _ _ => True)
              (fun a _ t => Stored t a) log t := fun log t hguard hfile => by
        have hstored : Stored t (newArtifact hashing store args) := ⟨rfl, hfile⟩
        have hflushed : Guard hashing store whole s (log ++ [FileOp.flush (newArtifact hashing store args)])
            { t with rows := t.rows ++ [newArtifact hashing store args] } := fun hlog => by
          obtain ⟨hsound, hext⟩ := hguard fun hreplace => hlog (by rw [List.any_append, hreplace, Bool.true_or])
          exact ⟨hsound.flush hstored, hext⟩
        exact ⟨hguard, trivial, hflushed, hstored⟩
      split
      · rename_i hexists
        exact ⟨hguard _, hflush _ _ (hguard _) hexists⟩
      · refine (publish_safe h (fun _ hd => hd) (by omega) hwhole).mono fun _ log t ht => hflush log t ht.1 ht.2

end Call

theorem pathParts_relative (b : Bytes) :
    pathParts (relative (hashing.sha256 b)) = [(hashing.sha256 b).take 2, hashing.sha256 b] := by
  have hsha := hashing.length b
  have hslash : '/' ∉ hashing.sha256 b := fun h => (hex_ne_dot (hashing.hex h)).2 rfl
  have hdot : '.' ∉ hashing.sha256 b := fun h => (hex_ne_dot (hashing.hex h)).1 rfl
  have hslash' : '/' ∉ (hashing.sha256 b).take 2 := fun h => hslash (List.mem_of_mem_take h)
  have hsplit : (relative (hashing.sha256 b)).splitOn '/' = [(hashing.sha256 b).take 2, hashing.sha256 b] := by
    rw [relative, List.splitOn_append_cons_self, List.splitOn_eq_singleton hslash', List.splitOn_eq_singleton hslash]
    rfl
  have hkeep : ∀ part : Text, '.' ∉ part → part ≠ [] → (decide (part ≠ []) && decide (part ≠ ['.'])) = true :=
    fun part hpart hne => by
      rw [Bool.and_eq_true, decide_eq_true_eq, decide_eq_true_eq]
      exact ⟨hne, fun h => hpart (h ▸ List.mem_cons_self)⟩
  have hne : hashing.sha256 b ≠ [] := List.ne_nil_of_length_pos (by omega)
  have hne' : (hashing.sha256 b).take 2 ≠ [] := List.ne_nil_of_length_pos (by rw [List.length_take]; omega)
  rw [pathParts, hsplit, List.filter_eq_self]
  intro part hpart
  simp only [List.mem_cons, List.not_mem_nil, or_false] at hpart
  rcases hpart with rfl | rfl
  · exact hkeep _ (fun h => hdot (List.mem_of_mem_take h)) hne'
  · exact hkeep _ hdot hne

theorem Stored.readVerified {s : Disk} (h : Stored s a) (hs : Sound hashing store s) :
    ∃ content, readVerified hashing store s a.contentUri a.contentHash = .ok content := by
  obtain ⟨content, hfile⟩ := Option.isSome_iff_exists.mp h.2
  obtain ⟨hhash, hlength⟩ := hs.content _ _ hfile
  have hparts : pathParts (relative a.contentHash) = [a.contentHash.take 2, a.contentHash] := by
    rw [← hhash]
    exact pathParts_relative content
  have hdrop : a.contentUri.drop 9 = relative a.contentHash := by
    rw [h.1]
    rfl
  have hmanaged : ("artifact:".toList).isPrefixOf a.contentUri = true := by
    rw [List.isPrefixOf_iff_prefix, h.1]
    exact List.prefix_append _ _
  have hdot : '.' ∉ a.contentHash := fun hmem => (hex_ne_dot (hashing.hex (hhash ▸ hmem))).1 rfl
  have hparent : ['.', '.'] ∉ pathParts (relative a.contentHash) := fun hmem => by
    rw [hparts] at hmem
    simp only [List.mem_cons, List.not_mem_nil, or_false] at hmem
    rcases hmem with heq | heq
    · exact hdot (List.mem_of_mem_take (heq ▸ List.mem_cons_self))
    · exact hdot (heq ▸ List.mem_cons_self)
  have hfirst : (relative a.contentHash).head? ≠ some '/' := fun hhead => by
    have hlength := hashing.length content
    rw [hhash] at hlength
    obtain ⟨c, rest, hcons⟩ := List.exists_cons_of_ne_nil (List.ne_nil_of_length_pos (l := a.contentHash) (by omega))
    have hc : c = '/' := by
      rw [relative, hcons] at hhead
      exact Option.some.inj hhead
    exact (hex_ne_dot (hashing.hex (b := content) (hhash ▸ hcons ▸ List.mem_cons_self))).2 hc
  have hjoin : ['/'].intercalate [a.contentHash.take 2, a.contentHash] = relative a.contentHash := by
    rw [relative, List.intercalate_cons_cons, List.intercalate_singleton, List.append_assoc]
    rfl
  refine ⟨content, ?_⟩
  unfold Artifacts.readVerified readArtifact
  rw [raiseIf_of_not (by rw [hmanaged]; simp), ok_bind]
  dsimp only
  rw [hdrop, raiseIf_of_not (by
    rintro (hnil | hhead | hmem)
    · simp [relative] at hnil
    · exact hfirst hhead
    · exact hparent hmem), ok_bind, hparts, hjoin, hfile]
  dsimp only
  rw [raiseIf_of_not (by omega), ok_bind, ok_bind, raiseIf_of_not (by rw [hhash]; simp), ok_bind]

def WritesWhole (hashing : Hashing) (store : ArtifactStore) (s : StoreState) (op : StoreOp) : Prop :=
  (op.executed hashing store s).any StoreOp.isReplace = true → op.isWhole store = true

structure StoreSound (hashing : Hashing) (store : ArtifactStore) (s : StoreState) : Prop where
  disk : Sound hashing store s.disk
  returned : ∀ a ∈ s.returned, Stored s.disk a

theorem StoreSound.perform {s t : StoreState} {op : StoreOp} (h : StoreSound hashing store s)
    (hwrites : WritesWhole hashing store s op) (ht : op.perform hashing store s = .ok t) : StoreSound hashing store t := by
  cases op with
  | persist args env =>
    have hsafe := persist_safe h.disk args env (of_decide_eq_true (p := (store.redact args.content).1.length ≤ env.written))
    have hend := hsafe.interrupted ((Artifacts.persist hashing store args env).trace FileOp.perform s.disk).length
    rw [← Program.run_snd, Program.executed_length] at hend
    obtain ⟨hsound, hext⟩ := hend hwrites
    have hreturned : ∀ a ∈ s.returned, Stored ((Artifacts.persist hashing store args env).run FileOp.perform s.disk).2 a :=
      fun a ha => (h.returned a ha).extends hext
    have hrun := fun a (ha : _ = Except.ok a) => hsafe.run_trace (a := a) ha
    simp only [StoreOp.perform] at ht
    split at ht
    · rename_i artifact disk hresult
      cases ht
      rw [hresult] at hsound hreturned hrun
      refine ⟨hsound, fun a ha => ?_⟩
      rcases Lib.mem_concat.mp ha with ha | rfl
      · exact hreturned a ha
      · exact hrun _ rfl
    · rename_i hresult
      cases ht
      rw [hresult] at hsound hreturned
      exact ⟨hsound, hreturned⟩
  | interrupted args env steps =>
    have hsafe := persist_safe h.disk args env (of_decide_eq_true (p := (store.redact args.content).1.length ≤ env.written))
    cases ht
    obtain ⟨hsound, hext⟩ := hsafe.interrupted steps hwrites
    exact ⟨hsound, fun a ha => (h.returned a ha).extends hext⟩
  | rollback kept =>
    cases ht
    exact ⟨⟨h.disk.content, fun a ha => h.disk.rows a (List.mem_of_mem_filter ha)⟩, h.returned⟩

/-- While every file that is renamed was written whole, the files hold what their names say, and what was returned is read
    and verified. -/
theorem artifacts_hold_their_content {hashing : Hashing} {store : ArtifactStore} {s : StoreState}
    (h : Reach (StoreOp.perform hashing store) (WritesWhole hashing store) {} s) :
    (∀ d content, s.disk.files (relative d) = some content → hashing.sha256 content = d) ∧
      ∀ a ∈ s.returned, ∃ content, readVerified hashing store s.disk a.contentUri a.contentHash = .ok content := by
  have hinit : StoreSound hashing store {} :=
    ⟨⟨fun _ _ hc => (by cases hc), fun _ ha => absurd ha List.not_mem_nil⟩, fun _ ha => absurd ha List.not_mem_nil⟩
  have hs := h.invariant hinit fun hs hwrites hstep => hs.perform hwrites hstep
  exact ⟨fun d content hc => (hs.disk.content d content hc).1, fun a ha => (hs.returned a ha).readVerified hs.disk⟩

def sampleHashing : Hashing where
  sha256 b := hexDigits 64 (unpackBE (1 :: b))
  hex := isHex_of_mem_hexDigits
  length _ := length_hexDigits 64 _

def sampleStore : ArtifactStore := .new 100 [] []

def sampleUuid : Uuid := ⟨1, Uuid.one_lt⟩

def sampleArgs : PersistArgs :=
  { taskId := sampleUuid, runId := sampleUuid, stepId := sampleUuid, artifactType := "diff".toList, content := bytes "hi",
    redactionRevision := none }

/-- `os.write` takes the first byte only, and the file is named and returned. -/
theorem short_write_is_named : ∃ s, Reach (StoreOp.perform sampleHashing sampleStore) (fun _ _ => True) {} s ∧
    (∃ d content, s.disk.files (relative d) = some content ∧ sampleHashing.sha256 content ≠ d) ∧
      ∃ a ∈ s.returned, readVerified sampleHashing sampleStore s.disk a.contentUri a.contentHash = .error .hashMismatch := by
  have hrun : ends (fun s : StoreState =>
      s.disk.files (relative (sampleHashing.sha256 (bytes "hi"))) = some (bytes "h") &&
        s.returned = [newArtifact sampleHashing sampleStore sampleArgs] &&
        raises .hashMismatch (readVerified sampleHashing sampleStore s.disk
          (newArtifact sampleHashing sampleStore sampleArgs).contentUri
          (newArtifact sampleHashing sampleStore sampleArgs).contentHash))
      (runOps (StoreOp.perform sampleHashing sampleStore) {} [.persist sampleArgs ⟨sampleUuid, 1⟩]) = true := by
    decide +kernel
  obtain ⟨s, hs, hend⟩ := exists_of_ends hrun
  simp only [Bool.and_eq_true, decide_eq_true_eq] at hend
  obtain ⟨⟨hfile, hreturned⟩, hread⟩ := hend
  exact ⟨s, reach_of_runOps (fun _ _ _ => trivial) hs, ⟨_, _, hfile, by decide +kernel⟩, _,
    hreturned ▸ List.mem_singleton_self _, eq_error_of_raises hread⟩

instance (s : StoreState) (op : StoreOp) : Decidable (WritesWhole sampleHashing sampleStore s op) :=
  inferInstanceAs (Decidable (_ → _))

/-- A call is interrupted before the file is renamed, and made again. -/
theorem artifacts_hold_their_content_example : ∃ s : StoreState, s.returned = [newArtifact sampleHashing sampleStore sampleArgs] ∧
    (∀ d content, s.disk.files (relative d) = some content → sampleHashing.sha256 content = d) ∧
      ∀ a ∈ s.returned, ∃ content, readVerified sampleHashing sampleStore s.disk a.contentUri a.contentHash = .ok content := by
  have hrun : ends (fun s : StoreState => s.returned = [newArtifact sampleHashing sampleStore sampleArgs])
      (runOps (fun s op => if WritesWhole sampleHashing sampleStore s op then StoreOp.perform sampleHashing sampleStore s op
        else .error .missing) {}
        [.interrupted sampleArgs ⟨sampleUuid, 1⟩ 6, .persist sampleArgs ⟨⟨2, by decide⟩, 2⟩]) = true := by
    decide +kernel
  obtain ⟨s, hs, hend⟩ := exists_of_ends hrun
  exact ⟨s, of_decide_eq_true hend, artifacts_hold_their_content (reach_of_guarded hs)⟩

end Vuzol.Artifacts
