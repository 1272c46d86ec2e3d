import Mathlib.Data.List.Infix
import Vuzol.Backup.Staging
import Vuzol.Lib.Rows

/-! A published backup is complete, and only pruning takes it away. The capture and the collector meet on three signals
    (STATE, the files and the age of the directory); the collector is kept off a run while it looks at it early enough,
    the handler off a published run while nothing raises after the publication, and a removal that starts with STATE is
    never seen half done. -/

namespace Vuzol.Backup

open Vuzol.Lib

variable {cfg : BackupConfig} {c c' : Capture} {d d' : RunDir} {rest : List Action} {a : Action} {now : Nat}
  {bytes : Bytes} {n m : FileName}

/-! ### Contents -/

/-- A file is what the manifest with this result records of it. -/
def Holds (cfg : BackupConfig) (run : RunId) (result : Option EncryptResult) : FileName → Content → Prop
  | .dump, x => ∃ b, x = .bytes b ∧ result = some { sha256Ciphertext := cfg.sha256 b, sizeCiphertext := b.length }
  | .wrap, x => ∃ b, x = .bytes b
  | .manifest, x => ∃ q, result = some q ∧ x = .manifest { runId := run, postgres := q }
  | .manifestSha, x => ∃ q, result = some q ∧ x = .digest (cfg.manifestSha256 { runId := run, postgres := q })

/-- `publish/` has all four files, with the contents whose hashes the manifest records. -/
def RunDir.Complete (cfg : BackupConfig) (run : RunId) (d : RunDir) : Prop :=
  ∃ fs result, d.publish = some fs ∧ ∀ n, ∃ x, fs n = some x ∧ Holds cfg run result n x

def RunDir.HasFile (d : RunDir) (rest : List Action) (n : FileName) (x : Content) : Prop :=
  (.replace n ∈ rest → ∃ fs, d.tmp = some fs ∧ fs n = some x) ∧
    (.replace n ∉ rest → ∃ fs, d.publish = some fs ∧ fs n = some x)

def RunDir.Written (cfg : BackupConfig) (c : Capture) (rest : List Action) (d : RunDir) : Prop :=
  ∀ n, .write n ∉ rest → ∃ x, Holds cfg c.run c.result n x ∧ d.HasFile rest n x

def inOrder : List Action → Bool
  | [] => true
  | .write n :: rest => .replace n ∈ rest && (n ≠ .dump || FileName.all.all fun m => m = n || .write m ∈ rest) && rest ≠ []
  | .replace n :: rest => .replace n ∉ rest && rest ≠ []
  | .putState state :: rest => (state = .published ↔ rest = []) && state ≠ .failed && state ≠ .cancelled
  | .openState :: rest => rest ≠ []
  | _ :: rest => (FileName.all.all fun m => .write m ∈ rest) && rest ≠ []

theorem inOrder_of_suffix (h : rest <:+ captureActions) : inOrder rest = true := by
  have hall : ∀ l ∈ captureActions.tails, inOrder l = true := by decide
  exact hall rest (List.mem_tails _ _ |>.mpr h)

theorem FileName.mem_all (n : FileName) : n ∈ FileName.all := by cases n <;> decide

theorem after_run : (c.after cfg bytes a).run = c.run := by
  unfold Capture.after
  split <;> rfl

theorem after_result (h : a ≠ .write .dump) : (c.after cfg bytes a).result = c.result := by
  unfold Capture.after
  split
  · rfl
  · exact absurd rfl h
  · rfl

theorem act_state {o : Option RunDir} (h : c.act cfg o now bytes a = some d') :
    (∃ state, a = .putState state ∧ d'.state = some (some state)) ∨ d'.state = none ∨ d'.state = some none ∨
      ∃ d, o = some d ∧ d'.state = d.state := by
  cases a with
  | mkdirRun =>
    simp only [Capture.act] at h
    split at h
    · cases h
    · cases h
      exact Or.inr (Or.inl rfl)
  | mkdirTmp | mkdirPublish =>
    obtain ⟨d, hd, h⟩ := Option.bind_eq_some_iff.mp h
    split at h
    · cases h
    · cases h
      exact Or.inr (Or.inr (Or.inr ⟨d, hd, rfl⟩))
  | openState =>
    obtain ⟨d, hd, rfl⟩ := Option.map_eq_some_iff.mp h
    exact Or.inr (Or.inr (Or.inl rfl))
  | putState state =>
    obtain ⟨d, hd, h⟩ := Option.bind_eq_some_iff.mp h
    split at h
    · cases h
      exact Or.inl ⟨state, rfl, rfl⟩
    · cases h
  | write n =>
    obtain ⟨d, hd, h⟩ := Option.bind_eq_some_iff.mp h
    split at h
    · cases h
      exact Or.inr (Or.inr (Or.inr ⟨d, hd, rfl⟩))
    · cases h
  | replace n =>
    obtain ⟨d, hd, h⟩ := Option.bind_eq_some_iff.mp h
    split at h
    · split at h
      · cases h
        exact Or.inr (Or.inr (Or.inr ⟨d, hd, rfl⟩))
      · cases h
    · cases h

theorem RunDir.Written.keep (hw : d.Written cfg c (a :: rest)) (hwrite : ∀ n, a ≠ .write n) (hreplace : ∀ n, a ≠ .replace n)
    (htmp : d'.tmp = d.tmp) (hpublish : d'.publish = d.publish) : d'.Written cfg (c.after cfg bytes a) rest := by
  intro n hn
  obtain ⟨x, hx, hfile⟩ := hw n (by simp only [List.mem_cons, not_or]; exact ⟨(hwrite n).symm, hn⟩)
  refine ⟨x, ?_, ?_, ?_⟩
  · rw [after_run, after_result (hwrite .dump)]
    exact hx
  · rw [htmp]
    exact fun hmem => hfile.1 (List.mem_cons_of_mem _ hmem)
  · rw [hpublish]
    exact fun hmem => hfile.2 (by simp only [List.mem_cons, not_or]; exact ⟨(hreplace n).symm, hmem⟩)

theorem content_holds {x : Content} (h : c.content cfg bytes n = some x) :
    Holds cfg c.run (c.after cfg bytes (.write n)).result n x := by
  cases n with
  | dump =>
    cases h
    exact ⟨bytes, rfl, rfl⟩
  | wrap =>
    cases h
    exact ⟨bytes, rfl⟩
  | manifest | manifestSha =>
    obtain ⟨q, hq, rfl⟩ := Option.map_eq_some_iff.mp h
    exact ⟨q, hq, rfl⟩

theorem RunDir.Written.write {fs : Files} {x : Content} (hw : d.Written cfg c (.write n :: rest))
    (hlater : .replace n ∈ rest) (hfirst : n = .dump → ∀ m, m ≠ n → .write m ∈ rest) (hfs : d.tmp = some fs)
    (hx : c.content cfg bytes n = some x) :
    { d with tmp := some (Function.update fs n (some x)) }.Written cfg (c.after cfg bytes (.write n)) rest := by
  intro m hm
  by_cases hmn : m = n
  · subst hmn
    refine ⟨x, ?_, fun _ => ⟨_, rfl, Function.update_self ..⟩, fun hno => absurd hlater hno⟩
    rw [after_run]
    exact content_holds hx
  · have hnd : n ≠ .dump := fun hd => hm (hfirst hd m hmn)
    obtain ⟨y, hy, hfile⟩ := hw m (by simp only [List.mem_cons, Action.write.injEq, not_or]; exact ⟨hmn, hm⟩)
    refine ⟨y, ?_, fun hmem => ?_, fun hmem => hfile.2 (by simpa using hmem)⟩
    · rw [after_run, after_result (by simpa using hnd)]
      exact hy
    · obtain ⟨gs, hgs, hget⟩ := hfile.1 (List.mem_cons_of_mem _ hmem)
      rw [hfs] at hgs
      cases hgs
      exact ⟨_, rfl, by rw [Function.update_of_ne hmn]; exact hget⟩

theorem RunDir.Written.replace {fs gs : Files} {x : Content} (hw : d.Written cfg c (.replace n :: rest))
    (honce : .replace n ∉ rest) (hfs : d.tmp = some fs) (hgs : d.publish = some gs) (hx : fs n = some x) :
    { d with tmp := some (Function.update fs n none), publish := some (Function.update gs n (some x)) }.Written cfg
      (c.after cfg bytes (.replace n)) rest := by
  intro m hm
  obtain ⟨y, hy, hfile⟩ := hw m (by simpa using hm)
  refine ⟨y, hy, fun hmem => ?_, fun hmem => ?_⟩
  · have hmn : m ≠ n := fun h => honce (h ▸ hmem)
    obtain ⟨fs', hfs', hget⟩ := hfile.1 (List.mem_cons_of_mem _ hmem)
    rw [hfs] at hfs'
    cases hfs'
    exact ⟨_, rfl, by rw [Function.update_of_ne hmn]; exact hget⟩
  · by_cases hmn : m = n
    · subst hmn
      obtain ⟨fs', hfs', hget⟩ := hfile.1 List.mem_cons_self
      rw [hfs] at hfs'
      cases hfs'
      rw [hx] at hget
      cases hget
      exact ⟨_, rfl, Function.update_self ..⟩
    · obtain ⟨gs', hgs', hget⟩ := hfile.2 (by simp only [List.mem_cons, Action.replace.injEq, not_or]; exact ⟨hmn, hmem⟩)
      rw [hgs] at hgs'
      cases hgs'
      exact ⟨_, rfl, by rw [Function.update_of_ne hmn]; exact hget⟩

theorem RunDir.Written.none (h : ∀ m, .write m ∈ rest) : d.Written cfg c rest := fun m hm => absurd (h m) hm

theorem RunDir.Written.act {o : Option RunDir} (hw : ∀ d, o = some d → d.Written cfg c (a :: rest))
    (horder : inOrder (a :: rest) = true) (h : c.act cfg o now bytes a = some d') :
    d'.Written cfg (c.after cfg bytes a) rest := by
  cases a with
  | mkdirRun | mkdirTmp | mkdirPublish =>
    simp only [inOrder, Bool.and_eq_true, List.all_eq_true, decide_eq_true_eq] at horder
    exact .none fun m => horder.1 m m.mem_all
  | openState =>
    obtain ⟨d, hd, rfl⟩ := Option.map_eq_some_iff.mp h
    exact (hw d hd).keep (by simp) (by simp) rfl rfl
  | putState state =>
    obtain ⟨d, hd, h⟩ := Option.bind_eq_some_iff.mp h
    split at h
    · cases h
      exact (hw d hd).keep (by simp) (by simp) rfl rfl
    · cases h
  | write n =>
    simp only [inOrder, Bool.and_eq_true, Bool.or_eq_true, List.all_eq_true, decide_eq_true_eq] at horder
    obtain ⟨⟨hlater, hfirst⟩, -⟩ := horder
    obtain ⟨d, hd, h⟩ := Option.bind_eq_some_iff.mp h
    split at h
    · rename_i fs x hfs hx
      cases h
      refine (hw d hd).write hlater (fun hn m hm => ?_) hfs hx
      exact ((hfirst.resolve_left fun hne => hne hn) m m.mem_all).resolve_left hm
    · cases h
  | replace n =>
    simp only [inOrder, Bool.and_eq_true, decide_eq_true_eq] at horder
    obtain ⟨d, hd, h⟩ := Option.bind_eq_some_iff.mp h
    split at h
    · rename_i fs gs hfs hgs
      split at h
      · rename_i x hx
        cases h
        exact (hw d hd).replace horder.1 hfs hgs hx
      · cases h
    · cases h

theorem RunDir.Written.complete (h : d.Written cfg c []) : d.Complete cfg c.run := by
  obtain ⟨x, -, hfile⟩ := h .dump (List.not_mem_nil)
  obtain ⟨fs, hfs, -⟩ := hfile.2 List.not_mem_nil
  refine ⟨fs, c.result, hfs, fun n => ?_⟩
  obtain ⟨y, hy, hfile⟩ := h n List.not_mem_nil
  obtain ⟨gs, hgs, hn⟩ := hfile.2 List.not_mem_nil
  rw [hfs] at hgs
  cases hgs
  exact ⟨y, hn, hy⟩

/-! ### The condition -/

def CapturePhase.fails : CapturePhase → Bool
  | .failing _ _ | .discarding _ => true
  | _ => false

def CapturePhase.prunes : CapturePhase → Bool
  | .scanning _ _ | .pruning _ | .removing _ _ => true
  | _ => false

namespace Staging

variable {s u v : Staging} {op : StagingOp} {run x : RunId} {phase : CapturePhase} {gc : Nat} {p : GcPhase}
  {o : Option RunDir}

def inProgress (s : Staging) (run : RunId) : Bool := s.capture.any fun c => c.run = run && !c.phase.fails

/-- The collector reads the STATE of the run in progress only when there is one, and checks the age of a run that is in
    progress, or published by now, before it is too old; nothing raises after the publication; and the removal of a
    published run begins with STATE. -/
def isOrderly (cfg : BackupConfig) (s : Staging) : StagingOp → Bool
  | .gcLook _ run => !s.inProgress run || (s.stateOf run).isSome
  | .gcAge gc now =>
    match s.gcs gc with
    | .looked run _ => !(s.inProgress run || s.isPublished run) || now < s.mtime run + cfg.maxAgeSeconds
    | _ => true
  | .raises => s.capture.all fun c => !c.phase.prunes
  | .remove _ entry => s.capture.all fun c =>
    match c.phase with
    | .removing victim _ => entry = .state || (s.stateOf victim).isNone
    | _ => true
  | _ => true

/-! ### The invariant -/

structure Queue (s : Staging) (published : List RunId) : Prop where
  nodup : published.Nodup
  all : ∀ x ∈ published, s.isPublished x = true
  sorted : published.Pairwise fun x y => s.mtime x ≤ s.mtime y

def PhaseSound (cfg : BackupConfig) (s : Staging) (c : Capture) : CapturePhase → Prop
  | .running rest => rest ≠ [] ∧ rest <:+ captureActions ∧ s.isPublished c.run = false ∧
      ∀ d, s.dirs c.run = some d → d.Written cfg c rest
  | .scanning todo found => (found ++ todo).Nodup ∧ ∀ x ∈ found, s.isPublished x = true
  | .pruning published => s.Queue published
  | .removing victim published => s.Queue published ∧ victim ∉ published ∧ cfg.keepLocalRuns ≤ published.length ∧
      (s.isPublished victim = true → ∀ x ∈ published, s.mtime victim ≤ s.mtime x)
  | .failing rest _ => s.isPublished c.run = false ∧ ∀ a ∈ rest, a = .openState ∨ a = .putState .failed
  | .discarding _ => s.isPublished c.run = false

def Spared (state : StateFile) : Prop := state ≠ some (some .failed) ∧ state ≠ some (some .cancelled)

structure CaptureSound (cfg : BackupConfig) (s : Staging) (c : Capture) : Prop where
  issued : c.run ∈ s.issued
  phase : s.PhaseSound cfg c c.phase
  spared : c.phase.fails = false → Spared (s.stateOf c.run)

def Live (s : Staging) (run : RunId) : Prop := s.inProgress run = true ∨ s.isPublished run = true

def GcSound (s : Staging) : GcPhase → Prop
  | .idle => True
  | .looked run state => run ∈ s.issued ∧ state ≠ some (some .published) ∧ (s.Live run → state ≠ none ∧ Spared state)
  | .removing run => run ∈ s.issued ∧ ¬s.Live run

structure Sound (cfg : BackupConfig) (s : Staging) : Prop where
  ids : s.issued.Nodup
  dirs : ∀ run, (s.dirs run).isSome = true → run ∈ s.issued
  complete : ∀ run d, s.dirs run = some d → s.isPublished run = true → d.Complete cfg run
  capture : ∀ c, s.capture = some c → s.CaptureSound cfg c
  gcs : ∀ gc, s.GcSound (s.gcs gc)

/-! ### Elementary updates -/

theorem stateOf_of (h : s.dirs run = some d) : s.stateOf run = d.state := by
  unfold stateOf
  rw [h]
  rfl

theorem stateOf_setDir_self : (s.setDir run o).stateOf run = o.bind RunDir.state := by
  simp only [stateOf, setDir, Function.update_self]

theorem stateOf_setDir_of_ne (h : x ≠ run) : (s.setDir run o).stateOf x = s.stateOf x := by
  simp only [stateOf, setDir, Function.update_of_ne h]

theorem isPublished_setDir_of_ne (h : x ≠ run) : (s.setDir run o).isPublished x = s.isPublished x := by
  simp only [isPublished, stateOf_setDir_of_ne h]

theorem mtime_setDir_of_ne (h : x ≠ run) : (s.setDir run o).mtime x = s.mtime x := by
  simp only [mtime, setDir, Function.update_of_ne h]

theorem isPublished_eq : s.isPublished run = true ↔ s.stateOf run = some (some .published) := by
  simp only [isPublished, decide_eq_true_eq]

theorem dirs_of_isPublished (h : s.isPublished run = true) : ∃ d, s.dirs run = some d := by
  rw [isPublished_eq, stateOf, Option.bind_eq_some_iff] at h
  obtain ⟨d, hd, -⟩ := h
  exact ⟨d, hd⟩

theorem inProgress_eq : s.inProgress run = true ↔ ∃ c, s.capture = some c ∧ c.run = run ∧ c.phase.fails = false := by
  simp only [inProgress, Option.any_eq_true, Bool.and_eq_true, decide_eq_true_eq, Bool.not_eq_true']

theorem isPublished_of_dirs (hd : v.dirs = s.dirs) (x : RunId) : v.isPublished x = s.isPublished x := by
  unfold isPublished stateOf
  rw [hd]

theorem Queue.of_dirs {l : List RunId} (h : s.Queue l) (hd : v.dirs = s.dirs) : v.Queue l := by
  have hpub := isPublished_of_dirs hd
  have hmtime : ∀ x, v.mtime x = s.mtime x := fun x => by simp only [mtime, hd]
  refine ⟨h.nodup, fun x hx => ?_, ?_⟩
  · rw [hpub]
    exact h.all x hx
  · simp only [hmtime]
    exact h.sorted

theorem PhaseSound.of_dirs (h : s.PhaseSound cfg c phase) (hd : v.dirs = s.dirs) (hrun : c'.run = c.run)
    (hresult : c'.result = c.result) : v.PhaseSound cfg c' phase := by
  have hpub := isPublished_of_dirs hd
  have hmtime : ∀ x, v.mtime x = s.mtime x := fun x => by simp only [mtime, hd]
  cases phase with
  | running rest =>
    obtain ⟨hne, hsuffix, hn, hw⟩ := h
    refine ⟨hne, hsuffix, by rw [hrun, hpub]; exact hn, fun d hdir => ?_⟩
    rw [hrun, hd] at hdir
    unfold RunDir.Written
    rw [hrun, hresult]
    exact hw d hdir
  | scanning todo found => exact ⟨h.1, fun x hx => by rw [hpub]; exact h.2 x hx⟩
  | pruning published => exact Queue.of_dirs h hd
  | removing victim published =>
    refine ⟨h.1.of_dirs hd, h.2.1, h.2.2.1, fun hv x hx => ?_⟩
    rw [hmtime, hmtime]
    exact h.2.2.2 (hpub victim ▸ hv) x hx
  | failing rest encrypting => exact ⟨by rw [hrun, hpub]; exact h.1, h.2⟩
  | discarding encrypting =>
    change v.isPublished c'.run = false
    rw [hrun, hpub]
    exact h

theorem GcSound.mono (h : s.GcSound p) (hissued : ∀ x ∈ s.issued, x ∈ v.issued)
    (hlive : ∀ x ∈ s.issued, v.Live x → s.Live x) : v.GcSound p := by
  cases p with
  | idle => trivial
  | looked run state => exact ⟨hissued _ h.1, h.2.1, fun hl => h.2.2 (hlive _ h.1 hl)⟩
  | removing run => exact ⟨hissued _ h.1, fun hl => h.2 (hlive _ h.1 hl)⟩

theorem Sound.setGc (h : s.Sound cfg) (hp : s.GcSound p) : (s.setGc gc p).Sound cfg where
  ids := h.ids
  dirs := h.dirs
  complete := h.complete
  capture c hc := ⟨(h.capture c hc).issued, (h.capture c hc).phase.of_dirs rfl rfl rfl, (h.capture c hc).spared⟩
  gcs gc' := by
    by_cases hg : gc' = gc
    · rw [hg]
      change s.GcSound (Function.update s.gcs gc p gc)
      rw [Function.update_self]
      exact hp
    · change s.GcSound (Function.update s.gcs gc p gc')
      rw [Function.update_of_ne hg]
      exact h.gcs gc'

theorem Sound.finish (h : s.Sound cfg) : s.finish.Sound cfg where
  ids := h.ids
  dirs := h.dirs
  complete := h.complete
  capture c hc := nomatch hc
  gcs gc := (h.gcs gc).mono (fun _ hx => hx) fun x _ hl => by
    rcases hl with hl | hl
    · cases hl
    · exact Or.inr hl

theorem Sound.goOn (h : s.Sound cfg) (hc : s.capture = some c) (hphase : s.PhaseSound cfg c phase)
    (hfails : phase.fails = false → c.phase.fails = false) : (s.goOn c phase).Sound cfg := by
  have C := h.capture c hc
  refine ⟨h.ids, h.dirs, h.complete, ?_, fun gc => (h.gcs gc).mono (fun _ hx => hx) fun x _ hl => ?_⟩
  · rintro _ ⟨⟩
    exact ⟨C.issued, hphase.of_dirs rfl rfl rfl, fun hf => C.spared (hfails hf)⟩
  · rcases hl with hl | hl
    · obtain ⟨c', ⟨⟩, hrun, hf⟩ := inProgress_eq.mp hl
      exact Or.inl (inProgress_eq.mpr ⟨c, hc, hrun, hfails hf⟩)
    · exact Or.inr hl

/-! ### Updates of a directory -/

def queued : CapturePhase → List RunId
  | .scanning _ found => found
  | .pruning published | .removing _ published => published
  | _ => []

theorem PhaseSound.queued_published (h : s.PhaseSound cfg c phase) : ∀ x ∈ queued phase, s.isPublished x = true := by
  cases phase with
  | scanning todo found => exact h.2
  | pruning published => exact Queue.all h
  | removing victim published => exact h.1.all
  | running rest | failing rest encrypting | discarding encrypting => exact fun x hx => nomatch hx

theorem Queue.setDir {l : List RunId} (h : s.Queue l) (hout : ∀ x ∈ l, x ≠ run) : (s.setDir run o).Queue l where
  nodup := h.nodup
  all x hx := by
    rw [isPublished_setDir_of_ne (hout x hx)]
    exact h.all x hx
  sorted := by
    refine h.sorted.imp_of_mem fun {x y} hx hy hle => ?_
    rw [mtime_setDir_of_ne (hout x hx), mtime_setDir_of_ne (hout y hy)]
    exact hle

theorem PhaseSound.setDir (h : s.PhaseSound cfg c phase) (hpub : (s.setDir run o).isPublished run = false)
    (hrun : c.run = run → phase.fails = true ∨ phase.prunes = true) (hout : ∀ x ∈ queued phase, x ≠ run) :
    (s.setDir run o).PhaseSound cfg c phase := by
  have hown (hn : s.isPublished c.run = false) : (s.setDir run o).isPublished c.run = false := by
    by_cases hr : c.run = run
    · rw [hr]
      exact hpub
    · rw [isPublished_setDir_of_ne hr]
      exact hn
  cases phase with
  | running rest =>
    have hr : c.run ≠ run := fun hr => (hrun hr).elim nofun nofun
    refine ⟨h.1, h.2.1, hown h.2.2.1, fun d hd => h.2.2.2 d ?_⟩
    simpa only [Staging.setDir, Function.update_of_ne hr] using hd
  | scanning todo found =>
    refine ⟨h.1, fun x hx => ?_⟩
    rw [isPublished_setDir_of_ne (hout x hx)]
    exact h.2 x hx
  | pruning published => exact Queue.setDir h hout
  | removing victim published =>
    refine ⟨h.1.setDir hout, h.2.1, h.2.2.1, fun hv x hx => ?_⟩
    have hne : victim ≠ run := fun he => by
      rw [he, hpub] at hv
      cases hv
    rw [isPublished_setDir_of_ne hne] at hv
    rw [mtime_setDir_of_ne hne, mtime_setDir_of_ne (hout x hx)]
    exact h.2.2.2 hv x hx
  | failing rest encrypting => exact ⟨hown h.1, h.2⟩
  | discarding encrypting => exact hown h

theorem live_setDir (hpub : (s.setDir run o).isPublished run = false) (hl : (s.setDir run o).Live x) : s.Live x := by
  rcases hl with hl | hl
  · exact Or.inl hl
  · by_cases hx : x = run
    · rw [hx, hpub] at hl
      cases hl
    · rw [isPublished_setDir_of_ne hx] at hl
      exact Or.inr hl

theorem Sound.setDir (h : s.Sound cfg) (hissued : run ∈ s.issued) (hpub : (s.setDir run o).isPublished run = false)
    (hcapture : ∀ c, s.capture = some c → (c.run = run → c.phase.fails = true ∨ c.phase.prunes = true) ∧
      (∀ x ∈ queued c.phase, x ≠ run) ∧ (c.run = run → c.phase.fails = false → Spared ((s.setDir run o).stateOf run))) :
    (s.setDir run o).Sound cfg where
  ids := h.ids
  dirs x hx := by
    by_cases he : x = run
    · rw [he]
      exact hissued
    · exact h.dirs x (by simpa only [Staging.setDir, Function.update_of_ne he] using hx)
  complete x d hd hx := by
    have he : x ≠ run := fun he => by
      rw [he, hpub] at hx
      cases hx
    rw [isPublished_setDir_of_ne he] at hx
    exact h.complete x d (by simpa only [Staging.setDir, Function.update_of_ne he] using hd) hx
  capture c hc := by
    have C := h.capture c hc
    obtain ⟨hrun, hout, hspared⟩ := hcapture c hc
    refine ⟨C.issued, C.phase.setDir hpub hrun hout, fun hf => ?_⟩
    by_cases he : c.run = run
    · rw [he]
      exact hspared he hf
    · rw [stateOf_setDir_of_ne he]
      exact C.spared hf
  gcs gc := (h.gcs gc).mono (fun _ hx => hx) fun x _ hl => live_setDir hpub hl

variable {entry : Entry}

theorem remove_state (h : d.remove now entry = some d') :
    (entry = .state ∧ d'.state = none) ∨ (entry ≠ .state ∧ d'.state = d.state) := by
  cases entry with
  | state =>
    simp only [RunDir.remove] at h
    split at h
    · cases h
      exact Or.inl ⟨rfl, rfl⟩
    · cases h
  | tmpFile n | tmp | publishFile n | publish =>
    simp only [RunDir.remove] at h
    split at h
    · split at h
      · cases h
        exact Or.inr ⟨nofun, rfl⟩
      · cases h
    · cases h

theorem removeEntry_ok (h : s.removeEntry run now entry = .ok v) :
    ∃ d d', s.dirs run = some d ∧ d.remove now entry = some d' ∧ v = s.setDir run (some d') := by
  unfold removeEntry at h
  split at h
  · rename_i d' hd'
    obtain ⟨d, hd, hremove⟩ := Option.bind_eq_some_iff.mp hd'
    exact ⟨d, d', hd, hremove, (Except.ok.inj h).symm⟩
  · cases h

theorem removeDir_ok (h : s.removeDir run = .ok v) :
    v = s ∨ ∃ d, s.dirs run = some d ∧ d.state = none ∧ v = s.setDir run none := by
  unfold removeDir at h
  split at h
  · rename_i d hd
    split at h
    · rename_i hempty
      simp only [RunDir.isEmpty, Bool.and_eq_true, Option.isNone_iff_eq_none] at hempty
      exact Or.inr ⟨d, hd, hempty.1.1, (Except.ok.inj h).symm⟩
    · cases h
  · exact Or.inl (Except.ok.inj h).symm

theorem Sound.removal (h : s.Sound cfg) (hd : s.dirs run = some d) (hst : o.bind RunDir.state = none ∨
      (o.bind RunDir.state = d.state ∧ s.isPublished run = false))
    (hcapture : ∀ c, s.capture = some c → (c.run = run → c.phase.fails = true ∨ c.phase.prunes = true) ∧
      ∀ x ∈ queued c.phase, x ≠ run) : (s.setDir run o).Sound cfg := by
  have hpub : (s.setDir run o).isPublished run = false := by
    rcases hst with hst | ⟨hst, hn⟩
    · rw [isPublished, stateOf_setDir_self, hst]
      rfl
    · rw [isPublished, stateOf_setDir_self, hst]
      rwa [isPublished, stateOf_of hd] at hn
  refine h.setDir (h.dirs run (by rw [hd]; rfl)) hpub fun c hc => ⟨(hcapture c hc).1, (hcapture c hc).2, fun he hf => ?_⟩
  rw [stateOf_setDir_self]
  rcases hst with hst | ⟨hst, -⟩
  · rw [hst]
    exact ⟨nofun, nofun⟩
  · have hspared := (h.capture c hc).spared hf
    rwa [he, stateOf_of hd, ← hst] at hspared

/-! ### One step -/

section
variable (h : s.Sound cfg) (hc : s.capture = some c)
include h hc

theorem Sound.handle (hn : s.isPublished c.run = false) : (s.handle c).Sound cfg := by
  unfold Staging.handle
  split
  · refine h.goOn hc ⟨hn, fun a ha => ?_⟩ nofun
    simpa [writeState] using ha
  · exact h.finish

theorem Sound.raise (hearly : c.phase.prunes = false) : (s.raise c).Sound cfg := by
  have hphase := (h.capture c hc).phase
  unfold Staging.raise
  split
  · exact h.finish
  · exact h.finish
  · refine h.handle hc ?_
    cases hp : c.phase with
    | running rest =>
      rw [hp] at hphase
      exact hphase.2.2.1
    | failing rest encrypting =>
      rw [hp] at hphase
      exact hphase.1
    | discarding encrypting =>
      rw [hp] at hphase
      exact hphase
    | scanning todo found | pruning published | removing victim published =>
      rw [hp] at hearly
      cases hearly

theorem Sound.acted (hphase : c.phase = .running (a :: rest))
    (hact : c.act cfg (s.dirs c.run) now bytes a = some d') {todo : List RunId} (htodo : todo.Nodup) :
    ((s.setDir c.run (some d')).goOn (c.after cfg bytes a)
      (if rest = [] then .scanning todo [] else .running rest)).Sound cfg := by
  have C := h.capture c hc
  have hprogress : s.inProgress c.run = true := inProgress_eq.mpr ⟨c, hc, rfl, by rw [hphase]; rfl⟩
  have hspared := C.spared (by rw [hphase]; rfl)
  have hsound := C.phase
  rw [hphase] at hsound
  obtain ⟨-, hsuffix, hn, hw⟩ := hsound
  have horder := inOrder_of_suffix hsuffix
  have hwritten := RunDir.Written.act hw horder hact
  have hrun : (c.after cfg bytes a).run = c.run := after_run
  have hput : ∀ state, a = .putState state → (state = .published ↔ rest = []) ∧ state ≠ .failed ∧ state ≠ .cancelled := by
    rintro state rfl
    simpa only [inOrder, Bool.and_eq_true, decide_eq_true_eq, and_assoc] using horder
  have hstate : (s.setDir c.run (some d')).stateOf c.run = d'.state := stateOf_setDir_self
  have hlast : (s.setDir c.run (some d')).isPublished c.run = true → rest = [] := by
    rw [isPublished_eq, hstate]
    intro hp
    rcases act_state hact with ⟨state, ha, hst⟩ | hst | hst | ⟨d, hd, hst⟩
    · rw [hst] at hp
      exact (hput state ha).1.mp (Option.some.inj (Option.some.inj hp))
    · rw [hst] at hp
      cases hp
    · rw [hst] at hp
      cases hp
    · rw [isPublished, stateOf_of hd, ← hst, hp] at hn
      simp at hn
  refine ⟨h.ids, fun x hx => ?_, fun x d hd hx => ?_, ?_, fun gc => (h.gcs gc).mono (fun _ hx => hx) fun x _ hl => ?_⟩
  · by_cases he : x = c.run
    · rw [he]
      exact C.issued
    · exact h.dirs x (by simpa only [Staging.goOn, Staging.setDir, Function.update_of_ne he] using hx)
  · change (s.setDir c.run (some d')).isPublished x = true at hx
    by_cases he : x = c.run
    · rw [he] at hx
      have hd' : d' = d := by simpa only [Staging.goOn, Staging.setDir, he, Function.update_self, Option.some.injEq] using hd
      rw [hlast hx, hd'] at hwritten
      rw [he, ← hrun]
      exact hwritten.complete
    · rw [isPublished_setDir_of_ne he] at hx
      exact h.complete x d (by simpa only [Staging.goOn, Staging.setDir, Function.update_of_ne he] using hd) hx
  · rintro _ ⟨⟩
    refine ⟨by rw [hrun]; exact C.issued, ?_, fun _ => ?_⟩
    · dsimp only
      split
      · refine ⟨?_, fun x hx => nomatch hx⟩
        rw [List.nil_append]
        exact htodo
      · rename_i hmore
        refine ⟨hmore, (List.suffix_cons a rest).trans hsuffix, ?_, fun d hd => ?_⟩
        · rw [Bool.eq_false_iff]
          intro hp
          dsimp only at hp
          rw [hrun] at hp
          exact hmore (hlast hp)
        · have hd' : d' = d := by
            dsimp only at hd
            rw [hrun] at hd
            simpa only [Staging.goOn, Staging.setDir, Function.update_self, Option.some.injEq] using hd
          rw [← hd']
          exact hwritten
    · dsimp only
      rw [hrun]
      change Spared ((s.setDir c.run (some d')).stateOf c.run)
      rw [hstate]
      rcases act_state hact with ⟨state, ha, hst⟩ | hst | hst | ⟨d, hd, hst⟩
      · obtain ⟨-, hfailed, hcancelled⟩ := hput state ha
        rw [hst]
        exact ⟨by simpa using hfailed, by simpa using hcancelled⟩
      · rw [hst]
        exact ⟨nofun, nofun⟩
      · rw [hst]
        exact ⟨nofun, nofun⟩
      · rw [hst, ← stateOf_of hd]
        exact hspared
  · rcases hl with hl | hl
    · obtain ⟨_, ⟨⟩, hx, -⟩ := inProgress_eq.mp hl
      rw [← hx]
      dsimp only
      rw [hrun]
      exact Or.inl hprogress
    · change (s.setDir c.run (some d')).isPublished x = true at hl
      by_cases he : x = c.run
      · rw [he]
        exact Or.inl hprogress
      · rw [isPublished_setDir_of_ne he] at hl
        exact Or.inr hl

theorem Sound.failed {encrypting : Bool} (hphase : c.phase = .failing (a :: rest) encrypting)
    (hact : c.act cfg (s.dirs c.run) now bytes a = some d') :
    (s.setDir c.run (some d')).Sound cfg ∧ (s.setDir c.run (some d')).isPublished c.run = false ∧
      ∀ a ∈ rest, a = .openState ∨ a = .putState .failed := by
  have C := h.capture c hc
  have hsound := C.phase
  rw [hphase] at hsound
  obtain ⟨hn, hactions⟩ := hsound
  have hpub : (s.setDir c.run (some d')).isPublished c.run = false := by
    rw [Bool.eq_false_iff]
    intro hp
    rw [isPublished_eq, stateOf_setDir_self] at hp
    change d'.state = _ at hp
    rcases act_state hact with ⟨state, rfl, hst⟩ | hst | hst | ⟨d, hd, hst⟩
    · rw [hst] at hp
      rcases hactions _ List.mem_cons_self with ha | ha
      · cases ha
      · cases ha
        cases hp
    · rw [hst] at hp
      cases hp
    · rw [hst] at hp
      cases hp
    · rw [isPublished, stateOf_of hd, ← hst, hp] at hn
      simp at hn
  refine ⟨h.setDir C.issued hpub ?_, hpub, fun a ha => hactions a (List.mem_cons_of_mem _ ha)⟩
  intro c' hc'
  rw [hc] at hc'
  cases hc'
  rw [hphase]
  exact ⟨fun _ => Or.inl rfl, fun x hx => (nomatch hx), fun _ hf => (nomatch hf)⟩

theorem Sound.act (hop : s.act cfg c now bytes = .ok v) : v.Sound cfg := by
  unfold Staging.act at hop
  split at hop
  · rename_i a rest hphase
    split at hop
    · cases hop
      exact h.raise hc (by rw [hphase]; rfl)
    · rename_i d' hact
      cases hop
      exact h.acted hc hphase hact (h.ids.filter _)
  · rename_i a rest encrypting hphase
    split at hop
    · cases hop
      exact h.raise hc (by rw [hphase]; rfl)
    · rename_i d' hact
      obtain ⟨hv, hn, hactions⟩ := h.failed hc hphase hact
      have hc' : (s.setDir c.run (some d')).capture = some c := hc
      dsimp only at hop
      split at hop
      · cases hop
        exact hv.goOn hc' ⟨hn, hactions⟩ nofun
      · split at hop
        · cases hop
          exact hv.goOn hc' hn nofun
        · cases hop
          exact hv.finish
  · cases hop

theorem Sound.encryptFails (hop : s.encryptFails c = .ok v) : v.Sound cfg := by
  have hphase := (h.capture c hc).phase
  have hfail (hn : s.isPublished c.run = false) : (s.goOn c (.failing (writeState .failed) true)).Sound cfg := by
    refine h.goOn hc ⟨hn, fun a ha => ?_⟩ nofun
    simpa [writeState] using ha
  unfold Staging.encryptFails at hop
  split at hop
  · rename_i hp
    rw [hp] at hphase
    cases hop
    exact hfail hphase.2.2.1
  · rename_i hp
    rw [hp] at hphase
    cases hop
    exact hfail hphase.2.2.1
  · cases hop

theorem Sound.scan (hop : s.scan c = .ok v) : v.Sound cfg := by
  have hphase := (h.capture c hc).phase
  unfold Staging.scan at hop
  split at hop
  · rename_i r todo found hp
    rw [hp] at hphase
    obtain ⟨hnodup, hfound⟩ := hphase
    cases hop
    refine h.goOn hc ?_ (fun _ => by rw [hp]; rfl)
    split
    · rename_i hr
      refine ⟨by rw [List.append_assoc]; exact hnodup, fun x hx => ?_⟩
      rcases Lib.mem_concat.mp hx with hx | rfl
      · exact hfound x hx
      · exact hr
    · exact ⟨hnodup.sublist (List.Sublist.append_left (List.sublist_cons_self r todo) found), hfound⟩
  · cases hop

theorem Sound.sort (hop : s.sort c = .ok v) : v.Sound cfg := by
  have hphase := (h.capture c hc).phase
  unfold Staging.sort at hop
  split at hop
  · rename_i found hp
    rw [hp] at hphase
    obtain ⟨hnodup, hfound⟩ := hphase
    rw [List.append_nil] at hnodup
    split at hop
    · cases hop
      refine h.goOn hc ⟨?_, fun x hx => ?_, ?_⟩ (fun _ => by rw [hp]; rfl)
      · exact (List.perm_insertionSort _ found).nodup_iff.mpr hnodup
      · exact hfound x (List.mem_insertionSort _ |>.mp hx)
      · have htotal : Std.Total fun a b : RunId => s.mtime a ≤ s.mtime b := ⟨fun a b => Nat.le_total _ _⟩
        have htrans : IsTrans RunId fun a b => s.mtime a ≤ s.mtime b := ⟨fun a b c => Nat.le_trans⟩
        exact List.pairwise_insertionSort _ found
    · rename_i hgone
      exfalso
      apply hgone
      rw [List.all_eq_true]
      intro x hx
      obtain ⟨d, hd⟩ := dirs_of_isPublished (hfound x hx)
      rw [hd]
      rfl
  · cases hop

theorem Sound.next (hop : s.next cfg c = .ok v) : v.Sound cfg := by
  have hphase := (h.capture c hc).phase
  unfold Staging.next at hop
  split at hop
  · rename_i published hp
    rw [hp] at hphase
    split at hop
    · rename_i victim rest
      split at hop
      · rename_i hkeep
        cases hop
        obtain ⟨hnodup, hall, hsorted⟩ := hphase
        rw [List.nodup_cons] at hnodup
        rw [List.pairwise_cons] at hsorted
        refine h.goOn hc ⟨⟨hnodup.2, fun x hx => hall x (List.mem_cons_of_mem _ hx), hsorted.2⟩, hnodup.1, ?_,
          fun _ => hsorted.1⟩ (fun _ => by rw [hp]; rfl)
        rw [List.length_cons] at hkeep
        omega
      · cases hop
        exact h.finish
    · cases hop
      exact h.finish
  · cases hop

theorem Sound.remove (htarget : target c = some run)
    (horder : s.isOrderly cfg (.remove now entry) = true) (hop : s.removeEntry run now entry = .ok v) : v.Sound cfg := by
  obtain ⟨d, d', hd, hremove, rfl⟩ := removeEntry_ok hop
  have hphase := (h.capture c hc).phase
  simp only [isOrderly, hc, Option.all_some] at horder
  have hstate := remove_state hremove
  refine h.removal hd ?_ fun c' hc' => ?_
  · change d'.state = none ∨ _
    unfold target at htarget
    split at htarget
    · rename_i victim published hp
      cases htarget
      rw [hp] at horder
      simp only [Bool.or_eq_true, decide_eq_true_eq, Option.isNone_iff_eq_none, stateOf_of hd] at horder
      rcases hstate with ⟨-, hst⟩ | ⟨hentry, hst⟩
      · exact Or.inl hst
      · rw [hst]
        exact Or.inl (horder.resolve_left hentry)
    · rename_i encrypting hp
      cases htarget
      rw [hp] at hphase
      rcases hstate with ⟨-, hst⟩ | ⟨-, hst⟩
      · exact Or.inl hst
      · exact Or.inr ⟨hst, hphase⟩
    · cases htarget
  · rw [hc] at hc'
    cases hc'
    unfold target at htarget
    split at htarget
    · rename_i victim published hp
      cases htarget
      rw [hp] at hphase ⊢
      exact ⟨fun _ => Or.inr rfl, fun x hx he => hphase.2.1 (he ▸ hx)⟩
    · rename_i encrypting hp
      rw [hp]
      exact ⟨fun _ => Or.inl rfl, fun x hx => nomatch hx⟩
    · cases htarget

theorem Sound.afterRemoval : (s.afterRemoval c).Sound cfg := by
  have hphase := (h.capture c hc).phase
  unfold Staging.afterRemoval
  split
  · rename_i victim published hp
    rw [hp] at hphase
    exact h.goOn hc hphase.1 (fun _ => by rw [hp]; rfl)
  · exact h.finish

theorem Sound.removed (htarget : target c = some run)
    (hop : s.removeDir run = .ok v) : (v.afterRemoval c).Sound cfg := by
  rcases removeDir_ok hop with rfl | ⟨d, hd, hst, rfl⟩
  · exact h.afterRemoval hc
  · have hphase := (h.capture c hc).phase
    have hv : (s.setDir run none).Sound cfg := by
      refine h.removal hd (Or.inl rfl) fun c' hc' => ?_
      rw [hc] at hc'
      cases hc'
      unfold target at htarget
      split at htarget
      · rename_i victim published hp
        cases htarget
        rw [hp] at hphase ⊢
        exact ⟨fun _ => Or.inr rfl, fun x hx he => hphase.2.1 (he ▸ hx)⟩
      · rename_i encrypting hp
        rw [hp]
        exact ⟨fun _ => Or.inl rfl, fun x hx => nomatch hx⟩
      · cases htarget
    exact hv.afterRemoval hc

end

theorem Sound.collected (h : s.Sound cfg) (hgc : s.gcs gc = .removing run) (hd : s.dirs run = some d)
    (hst : o.bind RunDir.state = none ∨ o.bind RunDir.state = d.state) : (s.setDir run o).Sound cfg := by
  have hgone := (h.gcs gc)
  rw [hgc] at hgone
  obtain ⟨-, hdead⟩ := hgone
  have hn : s.isPublished run = false := by
    rw [Bool.eq_false_iff]
    exact fun hp => hdead (Or.inr hp)
  refine h.removal hd (hst.imp_right fun hst => ⟨hst, hn⟩) fun c hc => ⟨fun he => ?_, fun x hx he => ?_⟩
  · by_contra hf
    rw [not_or, Bool.not_eq_true] at hf
    exact hdead (Or.inl (inProgress_eq.mpr ⟨c, hc, he, hf.1⟩))
  · have hp := (h.capture c hc).phase.queued_published x hx
    rw [he, hn] at hp
    cases hp

theorem Sound.gcLook (h : s.Sound cfg) (hd : s.dirs run = some d) (hn : d.state ≠ some (some .published))
    (horder : s.isOrderly cfg (.gcLook gc run) = true) : s.GcSound (.looked run d.state) := by
  refine ⟨h.dirs run (by rw [hd]; rfl), hn, fun hl => ?_⟩
  have hprogress : s.inProgress run = true := by
    rcases hl with hl | hl
    · exact hl
    · rw [isPublished_eq, stateOf_of hd] at hl
      exact absurd hl hn
  simp only [isOrderly, hprogress, Bool.not_true, Bool.false_or, stateOf_of hd] at horder
  obtain ⟨c, hc, rfl, hf⟩ := inProgress_eq.mp hprogress
  have hspared := (h.capture c hc).spared hf
  rw [stateOf_of hd] at hspared
  exact ⟨Option.isSome_iff_ne_none.mp horder, hspared⟩

theorem Sound.gcAge (h : s.Sound cfg) (horder : s.isOrderly cfg (.gcAge gc now) = true)
    (hop : s.gcAge cfg gc now = .ok v) : v.Sound cfg := by
  have hgc := h.gcs gc
  unfold Staging.gcAge at hop
  split at hop
  · rename_i run state hlooked
    rw [hlooked] at hgc
    simp only [isOrderly, hlooked, Bool.or_eq_true, Bool.not_eq_true', Bool.or_eq_false_iff, decide_eq_true_eq] at horder
    split at hop
    · cases hop
      exact h.setGc trivial
    · rename_i d hd
      split at hop
      · rename_i hold
        cases hop
        refine h.setGc ⟨hgc.1, fun hl => ?_⟩
        obtain ⟨hnone, hfailed, hcancelled⟩ := hgc.2.2 hl
        have hage : d.mtime + cfg.maxAgeSeconds ≤ now := by
          rcases hold with hage | hst | hst | hst
          · exact hage
          · exact absurd hst hnone
          · exact absurd hst hfailed
          · exact absurd hst hcancelled
        rcases horder with ⟨hprogress, hn⟩ | hyoung
        · rcases hl with hl | hl
          · rw [hprogress] at hl
            cases hl
          · rw [hn] at hl
            cases hl
        · simp only [mtime, hd, Option.map_some, Option.getD_some] at hyoung
          omega
      · cases hop
        exact h.setGc trivial
  · cases hop

theorem Sound.begin (h : s.Sound cfg) (hnew : run ∉ s.issued) :
    { s with issued := s.issued ++ [run], capture := some { run := run } }.Sound cfg := by
  have hnone : s.dirs run = none := by
    by_contra hsome
    exact hnew (h.dirs run (Option.isSome_iff_ne_none.mpr hsome))
  refine ⟨?_, fun x hx => List.mem_append_left _ (h.dirs x hx), h.complete, ?_, fun gc => ?_⟩
  · rw [List.nodup_append]
    exact ⟨h.ids, List.nodup_singleton _, fun x hx y hy he => hnew (by rwa [he, List.mem_singleton.mp hy] at hx)⟩
  · rintro _ ⟨⟩
    refine ⟨List.mem_append_right _ (List.mem_singleton_self _), ⟨by decide, List.suffix_rfl, ?_, fun d hd => ?_⟩, fun _ => ?_⟩
    · simp only [isPublished, stateOf, hnone]
      rfl
    · rw [hnone] at hd
      cases hd
    · simp only [stateOf, hnone]
      exact ⟨nofun, nofun⟩
  · refine (h.gcs gc).mono (fun x hx => List.mem_append_left _ hx) fun x hx hl => ?_
    rcases hl with hl | hl
    · obtain ⟨_, ⟨⟩, hrun, -⟩ := inProgress_eq.mp hl
      rw [← hrun] at hx
      exact absurd hx hnew
    · exact Or.inr hl

theorem withCapture_ok {f : Capture → Except String Staging} (h : s.withCapture f = .ok v) :
    ∃ c, s.capture = some c ∧ f c = .ok v := by
  unfold withCapture at h
  split at h
  · rename_i c hc
    exact ⟨c, hc, h⟩
  · cases h

theorem Sound.step (h : s.Sound cfg) (horder : s.isOrderly cfg op = true) (hop : s.perform cfg op = .ok v) :
    v.Sound cfg := by
  cases op with
  | begin run =>
    simp only [perform] at hop
    split at hop
    · rename_i hnew
      cases hop
      exact h.begin hnew.2
    · cases hop
  | act now bytes =>
    obtain ⟨c, hc, hop⟩ := withCapture_ok hop
    exact h.act hc hop
  | encryptFails =>
    obtain ⟨c, hc, hop⟩ := withCapture_ok hop
    exact h.encryptFails hc hop
  | raises =>
    obtain ⟨c, hc, hop⟩ := withCapture_ok hop
    cases hop
    simp only [isOrderly, hc, Option.all_some, Bool.not_eq_true'] at horder
    exact h.raise hc horder
  | crash =>
    obtain ⟨c, hc, hop⟩ := withCapture_ok hop
    cases hop
    exact h.finish
  | scan =>
    obtain ⟨c, hc, hop⟩ := withCapture_ok hop
    exact h.scan hc hop
  | sort =>
    obtain ⟨c, hc, hop⟩ := withCapture_ok hop
    exact h.sort hc hop
  | next =>
    obtain ⟨c, hc, hop⟩ := withCapture_ok hop
    exact h.next hc hop
  | remove now entry =>
    obtain ⟨c, hc, hop⟩ := withCapture_ok hop
    split at hop
    · rename_i run htarget
      exact h.remove hc htarget horder hop
    · cases hop
  | removed =>
    obtain ⟨c, hc, hop⟩ := withCapture_ok hop
    split at hop
    · rename_i run htarget
      obtain ⟨w, hw, hop⟩ := bind_eq_ok.mp hop
      cases hop
      exact h.removed hc htarget hw
    · cases hop
  | gcLook gc run =>
    simp only [perform] at hop
    split at hop
    · rename_i d hidle hd
      split at hop
      · cases hop
        exact h
      · rename_i hn
        cases hop
        exact h.setGc (h.gcLook hd hn horder)
    · cases hop
  | gcAge gc now => exact h.gcAge horder hop
  | gcRemove gc now entry =>
    simp only [perform] at hop
    split at hop
    · rename_i run hgc
      obtain ⟨d, d', hd, hremove, rfl⟩ := removeEntry_ok hop
      exact h.collected hgc hd ((remove_state hremove).imp And.right And.right)
    · cases hop
  | gcRemoved gc =>
    simp only [perform] at hop
    split at hop
    · rename_i run hgc
      obtain ⟨w, hw, hop⟩ := bind_eq_ok.mp hop
      cases hop
      rcases removeDir_ok hw with rfl | ⟨d, hd, -, rfl⟩
      · exact h.setGc trivial
      · exact (h.collected hgc hd (Or.inl rfl)).setGc trivial
    · cases hop
  | gcEnds gc =>
    cases hop
    exact h.setGc trivial

theorem sound_init : ({ } : Staging).Sound cfg where
  ids := List.nodup_nil
  dirs _ hx := nomatch hx
  complete _ _ hd := nomatch hd
  capture _ hc := nomatch hc
  gcs _ := trivial

theorem Sound.kept (h : s.Sound cfg) (hop : s.perform cfg op = .ok v) (hp : s.isPublished run = true) :
    v.dirs run = s.dirs run ∨ ∃ c newer, s.capture = some c ∧ c.phase = .removing run newer := by
  have hother {x : RunId} {o : Option RunDir} (hn : s.isPublished x = false) : (s.setDir x o).dirs run = s.dirs run := by
    have hne : run ≠ x := fun he => by
      rw [he, hn] at hp
      cases hp
    simp only [Staging.setDir, Function.update_of_ne hne]
  have hraise (c : Capture) : (s.raise c).dirs run = s.dirs run := by
    unfold Staging.raise Staging.handle
    split
    · rfl
    · rfl
    · split
      · rfl
      · rfl
  have hgone {gc : Nat} {x : RunId} (hgc : s.gcs gc = .removing x) : s.isPublished x = false := by
    have hdead := h.gcs gc
    rw [hgc] at hdead
    rw [Bool.eq_false_iff]
    exact fun hx => hdead.2 (Or.inr hx)
  have htarget {c : Capture} {x : RunId} (hc : s.capture = some c) (ht : target c = some x) :
      s.isPublished x = false ∨ ∃ newer, c.phase = .removing x newer := by
    have hphase := (h.capture c hc).phase
    unfold target at ht
    split at ht
    · rename_i victim published hv
      cases ht
      exact Or.inr ⟨published, hv⟩
    · rename_i encrypting hv
      cases ht
      rw [hv] at hphase
      exact Or.inl hphase
    · cases ht
  cases op with
  | begin run =>
    simp only [perform] at hop
    split at hop
    · cases hop
      exact Or.inl rfl
    · cases hop
  | act now bytes =>
    obtain ⟨c, hc, hop⟩ := withCapture_ok hop
    have hphase := (h.capture c hc).phase
    unfold Staging.act at hop
    split at hop
    · rename_i a rest hr
      rw [hr] at hphase
      split at hop
      · cases hop
        exact Or.inl (hraise c)
      · cases hop
        exact Or.inl (hother hphase.2.2.1)
    · rename_i a rest encrypting hr
      rw [hr] at hphase
      split at hop
      · cases hop
        exact Or.inl (hraise c)
      · dsimp only at hop
        split at hop
        · cases hop
          exact Or.inl (hother hphase.1)
        · split at hop
          · cases hop
            exact Or.inl (hother hphase.1)
          · cases hop
            exact Or.inl (hother hphase.1)
    · cases hop
  | encryptFails =>
    obtain ⟨c, hc, hop⟩ := withCapture_ok hop
    unfold Staging.encryptFails at hop
    split at hop
    · cases hop
      exact Or.inl rfl
    · cases hop
      exact Or.inl rfl
    · cases hop
  | raises =>
    obtain ⟨c, hc, hop⟩ := withCapture_ok hop
    cases hop
    exact Or.inl (hraise c)
  | crash =>
    obtain ⟨c, hc, hop⟩ := withCapture_ok hop
    cases hop
    exact Or.inl rfl
  | scan =>
    obtain ⟨c, hc, hop⟩ := withCapture_ok hop
    unfold Staging.scan at hop
    split at hop
    · cases hop
      exact Or.inl rfl
    · cases hop
  | sort =>
    obtain ⟨c, hc, hop⟩ := withCapture_ok hop
    unfold Staging.sort at hop
    split at hop
    · split at hop
      · cases hop
        exact Or.inl rfl
      · cases hop
        exact Or.inl (hraise c)
    · cases hop
  | next =>
    obtain ⟨c, hc, hop⟩ := withCapture_ok hop
    unfold Staging.next at hop
    split at hop
    · split at hop
      · split at hop
        · cases hop
          exact Or.inl rfl
        · cases hop
          exact Or.inl rfl
      · cases hop
        exact Or.inl rfl
    · cases hop
  | remove now entry =>
    obtain ⟨c, hc, hop⟩ := withCapture_ok hop
    split at hop
    · rename_i x ht
      obtain ⟨d, d', -, -, rfl⟩ := removeEntry_ok hop
      rcases htarget hc ht with hn | ⟨newer, hphase⟩
      · exact Or.inl (hother hn)
      · by_cases hx : x = run
        · rw [hx] at hphase
          exact Or.inr ⟨c, newer, hc, hphase⟩
        · left
          simp only [Staging.setDir, Function.update_of_ne (Ne.symm hx)]
    · cases hop
  | removed =>
    obtain ⟨c, hc, hop⟩ := withCapture_ok hop
    split at hop
    · rename_i x ht
      obtain ⟨w, hw, hop⟩ := bind_eq_ok.mp hop
      cases hop
      have hafter : (w.afterRemoval c).dirs = w.dirs := by
        unfold Staging.afterRemoval
        split
        · rfl
        · rfl
      rw [hafter]
      rcases removeDir_ok hw with rfl | ⟨d, -, -, rfl⟩
      · exact Or.inl rfl
      · rcases htarget hc ht with hn | ⟨newer, hphase⟩
        · exact Or.inl (hother hn)
        · by_cases hx : x = run
          · rw [hx] at hphase
            exact Or.inr ⟨c, newer, hc, hphase⟩
          · left
            simp only [Staging.setDir, Function.update_of_ne (Ne.symm hx)]
    · cases hop
  | gcLook gc x =>
    simp only [perform] at hop
    split at hop
    · split at hop
      · cases hop
        exact Or.inl rfl
      · cases hop
        exact Or.inl rfl
    · cases hop
  | gcAge gc now =>
    simp only [perform, Staging.gcAge] at hop
    split at hop
    · split at hop
      · cases hop
        exact Or.inl rfl
      · split at hop
        · cases hop
          exact Or.inl rfl
        · cases hop
          exact Or.inl rfl
    · cases hop
  | gcRemove gc now entry =>
    simp only [perform] at hop
    split at hop
    · rename_i x hgc
      obtain ⟨d, d', -, -, rfl⟩ := removeEntry_ok hop
      exact Or.inl (hother (hgone hgc))
    · cases hop
  | gcRemoved gc =>
    simp only [perform] at hop
    split at hop
    · rename_i x hgc
      obtain ⟨w, hw, hop⟩ := bind_eq_ok.mp hop
      cases hop
      rcases removeDir_ok hw with rfl | ⟨d, -, -, rfl⟩
      · exact Or.inl rfl
      · exact Or.inl (hother (o := none) (hgone hgc))
    · cases hop
  | gcEnds gc =>
    cases hop
    exact Or.inl rfl

/-! ### Whole runs -/

/-- What holds of the staged runs in every state. -/
structure KeepsBackups (cfg : BackupConfig) (u : Staging) : Prop where
  complete : ∀ run d, u.dirs run = some d → u.isPublished run = true → d.Complete cfg run
  spared : ∀ gc run, u.gcs gc = .removing run → u.inProgress run = false
  kept : ∀ op v run, u.isOrderly cfg op = true → u.perform cfg op = .ok v → u.isPublished run = true →
    v.dirs run = u.dirs run ∨ ∃ c newer, u.capture = some c ∧ c.phase = .removing run newer ∧ newer.Nodup ∧
      run ∉ newer ∧ cfg.keepLocalRuns ≤ newer.length ∧
      ∀ x ∈ newer, u.isPublished x = true ∧ u.mtime run ≤ u.mtime x

def Reaches (cfg : BackupConfig) (allow : Staging → StagingOp → Prop) (u : Staging) : Prop :=
  Reach (perform cfg) allow { } u

/-- In every orderly run a backup that was published stays whole, until a capture that has published enough newer ones
    removes it. -/
theorem published_backups_kept (cfg : BackupConfig) (u : Staging)
    (h : Reaches cfg (fun s op => s.isOrderly cfg op = true) u) : KeepsBackups cfg u := by
  have hu : u.Sound cfg := Reach.invariant h sound_init fun hs horder hop => hs.step horder hop
  refine ⟨hu.complete, fun gc run hgc => ?_, fun op v run _ hop hp => ?_⟩
  · have hdead := hu.gcs gc
    rw [hgc] at hdead
    rw [Bool.eq_false_iff]
    exact fun hl => hdead.2 (Or.inl hl)
  · rcases hu.kept hop hp with hsame | ⟨c, newer, hc, hphase⟩
    · exact Or.inl hsame
    · have hsound := (hu.capture c hc).phase
      rw [hphase] at hsound
      obtain ⟨hqueue, hout, hkeep, hold⟩ := hsound
      exact Or.inr ⟨c, newer, hc, hphase, hqueue.nodup, hout, hkeep, fun x hx => ⟨hqueue.all x hx, hold hp x hx⟩⟩

/-! ### Two runs -/

def oneKept : BackupConfig where
  sha256 b := toString b.length
  manifestSha256 m := m.postgres.sha256Ciphertext
  keepLocalRuns := 1
  keepFailedRuns := false
  maxAgeSeconds := 3600

def runId (i : UInt8) : RunId := { bytes := List.replicate 15 0 ++ [i], length_eq := rfl }

def acts (k now : Nat) : List StagingOp := List.replicate k (.act now [])

/-- The second capture is pruning the first run; the collector has looked at the second while it was written. -/
theorem published_backups_kept_pruning :
    ∃ u, Reaches oneKept (fun s op => s.isOrderly oneKept op = true) u ∧
      u.capture.map Capture.phase = some (.removing (runId 1) [runId 2]) ∧ u.isPublished (runId 1) = true ∧
        KeepsBackups oneKept u := by
  have hrun : ends (fun u : Staging => u.capture.map Capture.phase = some (.removing (runId 1) [runId 2]) &&
      u.isPublished (runId 1))
      (runOps (fun u op => if u.isOrderly oneKept op = true then u.perform oneKept op else .error "early") { }
        ([.begin (runId 1)] ++ acts 19 0 ++ [.scan, .sort, .next, .begin (runId 2)] ++ acts 10 10 ++
          [.gcLook 0 (runId 2), .gcAge 0 20] ++ acts 9 30 ++ [.scan, .scan, .sort, .next])) = true := by
    decide
  obtain ⟨u, hu, hp⟩ := exists_of_ends hrun
  simp only [Bool.and_eq_true, decide_eq_true_eq] at hp
  have hr : Reaches oneKept (fun s op => s.isOrderly oneKept op = true) u := reach_of_guarded hu
  exact ⟨u, hr, hp.1, hp.2, published_backups_kept oneKept u hr⟩

/-- A dump that takes an hour: the collector deletes the run while its capture publishes it. -/
theorem running_capture_collected :
    ∃ u, Reaches oneKept (fun _ _ => True) u ∧ u.gcs 0 = .removing (runId 1) ∧ u.inProgress (runId 1) = true ∧
      u.isPublished (runId 1) = true ∧
        ((u.dirs (runId 1)).bind RunDir.publish).bind (fun fs => fs .dump) = none ∧ ¬KeepsBackups oneKept u := by
  have hrun : ends (fun u : Staging => u.gcs 0 = .removing (runId 1) && (u.inProgress (runId 1) &&
      (u.isPublished (runId 1) && ((u.dirs (runId 1)).bind RunDir.publish).bind (fun fs => fs .dump) = none)))
      (runOps (perform oneKept) { } ([.begin (runId 1)] ++ acts 7 0 ++ [.gcLook 0 (runId 1), .gcAge 0 3600] ++
        acts 12 3600 ++ [.gcRemove 0 3600 (.publishFile .dump)])) = true := by
    decide
  obtain ⟨u, hu, hp⟩ := exists_of_ends hrun
  simp only [Bool.and_eq_true, decide_eq_true_eq] at hp
  obtain ⟨hgc, hprogress, hpublished, hdump⟩ := hp
  refine ⟨u, reach_of_runOps (fun _ _ _ => trivial) hu, hgc, hprogress, hpublished, hdump, fun hkeeps => ?_⟩
  rw [hkeeps.spared 0 (runId 1) hgc] at hprogress
  cases hprogress

end Staging

end Vuzol.Backup
