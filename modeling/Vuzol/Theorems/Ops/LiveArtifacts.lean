import Vuzol.Theorems.Ops.Retention

/-! An artifact that is kept has its file. A row without an intended cleanup relies on the file at its content
    address, as does a `persist` that has found or written it; a cleanup is intended for expired rows only, and a file is
    removed only where the rows that the sweep read show no other row with its content. -/

namespace Vuzol.Ops

variable {s u v : Retained} {op : RetentionOp} {a a' : ArtifactRow} {p q : Persist} {id : Nat} {path : ArtifactPath}

namespace Retained

/-! ### Files -/

def IsPresent (u : Retained) (path : ArtifactPath) : Prop := ∃ f ∈ u.files, f.path = path

theorem IsPresent.of_eq (h : v.files = u.files) (hp : u.IsPresent path) : v.IsPresent path := by
  unfold IsPresent
  rw [h]
  exact hp

theorem isPresent_removeFile {path' : ArtifactPath} (h : u.IsPresent path) (hne : path ≠ path') :
    (u.removeFile path').IsPresent path := by
  obtain ⟨f, hf, rfl⟩ := h
  exact ⟨f, List.mem_filter.mpr ⟨hf, by simpa using hne⟩, rfl⟩

theorem isPresent_of_exists (h : u.fileExists path = true) : u.IsPresent path := by
  unfold fileExists at h
  rw [Option.any_eq_true] at h
  obtain ⟨f, hf, -⟩ := h
  exact ⟨f, List.mem_of_find?_eq_some hf, by simpa using List.find?_some hf⟩

theorem isPresent_store (content : String) : (u.store content).IsPresent (.content content) := by
  unfold store
  split
  · rename_i h
    exact isPresent_of_exists h
  · exact ⟨_, List.mem_append_right _ (List.mem_singleton_self _), rfl⟩

theorem IsPresent.store (h : u.IsPresent path) (content : String) : (u.store content).IsPresent path := by
  by_cases hp : path = .content content
  · rw [hp]
    exact isPresent_store content
  · unfold Retained.store
    split
    · exact h
    · obtain ⟨f, hf, hfp⟩ := isPresent_removeFile h hp
      exact ⟨f, List.mem_append_left _ hf, hfp⟩

theorem mem_files_store {f : FileEntry} {content : String} (h : f ∈ (u.store content).files) :
    f ∈ u.files ∨ f = { path := .content content } := by
  unfold store at h
  split at h
  · exact .inl h
  · rcases List.mem_append.mp h with h | h
    · exact .inl (List.mem_filter.mp h).1
    · exact .inr (List.mem_singleton.mp h)

/-! ### What a sweep has read -/

variable {now later rows : List ArtifactRow}

/-- The rows that were read are still there, with the content and the state that they had. -/
structure Seen (now rows : List ArtifactRow) : Prop where
  kept : ∀ x ∈ rows, ∃ a ∈ now, a.id = x.id
  same : ∀ a ∈ now, ∀ x ∈ rows, x.id = a.id → x.contentHash = a.contentHash ∧ x.state = a.state

/-- No row of those that were read shares the content of the row. -/
def NoPeer (rows : List ArtifactRow) (a : ArtifactRow) : Prop :=
  ∀ x ∈ rows, x.contentHash = a.contentHash → x.id ≠ a.id → x.state ≠ .available

def ReadSound (now : List ArtifactRow) : SweepAt → Prop
  | .artifactRemoving id path atCheck lastPeer _ => Seen now atCheck ∧
      ∃ a ∈ now, a.id = id ∧ a.cleanup ≠ none ∧ a.path = some path ∧ (lastPeer = true → NoPeer atCheck a)
  | .artifactRemoved id _ => ∃ a ∈ now, a.id = id ∧ a.cleanup ≠ none
  | .orphans atRead => Seen now atRead
  | .quarantining atRead path => Seen now atRead ∧
      ∀ content, path = .content content → ∀ x ∈ atRead, x.contentHash ≠ content
  | _ => True

/-- Rows stay where others work: a new one has an id of its own. -/
structure RowsKept (now later : List ArtifactRow) : Prop where
  kept : ∀ a ∈ now, ∃ b ∈ later, b.id = a.id ∧ b.contentHash = a.contentHash ∧ b.path = a.path ∧
    b.cleanup = a.cleanup
  origin : ∀ b ∈ later, (∃ a ∈ now, a.id = b.id ∧ a.contentHash = b.contentHash ∧ a.state = b.state) ∨
    ∀ a ∈ now, a.id ≠ b.id

theorem RowsKept.of_eq (h : later = now) : RowsKept now later where
  kept a ha := ⟨a, h ▸ ha, rfl, rfl, rfl, rfl⟩
  origin b hb := .inl ⟨b, h ▸ hb, rfl, rfl, rfl⟩

theorem Seen.mono (h : Seen now rows) (hk : RowsKept now later) : Seen later rows where
  kept x hx := by
    obtain ⟨a, ha, hid⟩ := h.kept x hx
    obtain ⟨b, hb, hbid, -⟩ := hk.kept a ha
    exact ⟨b, hb, hbid.trans hid⟩
  same b hb x hx hid := by
    rcases hk.origin b hb with ⟨a, ha, haid, hhash, hstate⟩ | hnew
    · rw [← hhash, ← hstate]
      exact h.same a ha x hx (hid.trans haid.symm)
    · obtain ⟨a, ha, haid⟩ := h.kept x hx
      exact absurd (haid.trans hid) (hnew a ha)

theorem ReadSound.mono {sweep : SweepAt} (h : ReadSound now sweep) (hk : RowsKept now later) : ReadSound later sweep := by
  have hrow : ∀ a ∈ now, a.cleanup ≠ none → ∃ b ∈ later, b.id = a.id ∧ b.contentHash = a.contentHash ∧
      b.path = a.path ∧ b.cleanup ≠ none := by
    intro a ha hcleanup
    obtain ⟨b, hb, hid, hhash, hpath, hphase⟩ := hk.kept a ha
    exact ⟨b, hb, hid, hhash, hpath, by rw [hphase]; exact hcleanup⟩
  cases sweep with
  | artifactRemoving id path atCheck lastPeer fileRemoved =>
    obtain ⟨hseen, a, ha, hid, hcleanup, hpath, hpeer⟩ := h
    obtain ⟨b, hb, hbid, hhash, hbpath, hbcleanup⟩ := hrow a ha hcleanup
    refine ⟨hseen.mono hk, b, hb, hbid.trans hid, hbcleanup, hbpath.trans hpath, fun hlast x hx => ?_⟩
    rw [hhash, hbid]
    exact hpeer hlast x hx
  | artifactRemoved id fileRemoved =>
    obtain ⟨a, ha, hid, hcleanup⟩ := h
    obtain ⟨b, hb, hbid, -, -, hbcleanup⟩ := hrow a ha hcleanup
    exact ⟨b, hb, hbid.trans hid, hbcleanup⟩
  | orphans atRead => exact Seen.mono h hk
  | quarantining atRead path => exact ⟨h.1.mono hk, h.2⟩
  | _ => trivial

/-! ### The store -/

structure StoreSound (u : Retained) : Prop where
  ids : (u.artifacts.map ArtifactRow.key).Nodup
  addressed : ∀ a ∈ u.artifacts, a.path = some (.content a.contentHash)
  plain : ∀ f ∈ u.files, ∀ content, f.path = .content content → f.kind = .regular ∧ f.links = 1
  held : ∀ a ∈ u.artifacts, a.state = .available → a.cleanup = none → u.IsPresent (.content a.contentHash)
  expired : ∀ a ∈ u.artifacts, a.cleanup ≠ none → a.retentionUntil ≤ u.now
  relied : ∀ p ∈ u.persists, p.phase ≠ .looked → u.IsPresent (.content p.content)
  fresh : ∀ p ∈ u.persists, p.phase = .flushed → ∀ a ∈ u.artifacts, a.id ≠ p.id
  distinct : u.persists.Pairwise fun p q => p.phase = .flushed → q.phase = .flushed → p.id ≠ q.id
  sweep : ReadSound u.artifacts u.sweep

theorem expired_of_skip (h : u.artifactSkipReason a false = none) (hphase : a.cleanup = none) : a.retentionUntil ≤ u.now := by
  unfold artifactSkipReason skipReason at h
  split at h
  · cases h
  split at h
  · cases h
  split at h
  · cases h
  split at h
  · cases h
  split at h
  · cases h
  · rename_i hret
    by_contra hlate
    exact hret ⟨by decide, by omega, hphase⟩

theorem StoreSound.artifactChange {next : SweepAt} (h : StoreSound u) (ha : u.artifact? a.id = some a)
    (hc : ArtifactChange u op a a' next) :
    a'.id = a.id ∧ a'.contentHash = a.contentHash ∧ a'.path = a.path ∧
      (a'.state = .available → a'.cleanup = none → a.state = .available ∧ a.cleanup = none) ∧
      (a'.cleanup ≠ none → a'.retentionUntil ≤ u.now) := by
  have hmem := (mem_of_artifact? ha).1
  cases hc with
  | missing => exact ⟨rfl, rfl, rfl, fun hs => (nomatch hs), h.expired a hmem⟩
  | intends hphase hskip =>
    have hexpired := expired_of_skip hskip hphase
    exact ⟨rfl, rfl, rfl, fun _ hn => (nomatch hn), fun _ => hexpired⟩
  | marks hsweep =>
    have hremoved := h.sweep
    rw [hsweep] at hremoved
    obtain ⟨x, hx, hid, hcleanup⟩ := hremoved
    have hxa : x = a := Lib.eq_of_key_eq h.ids hx hmem hid
    rw [hxa] at hcleanup
    exact ⟨rfl, rfl, rfl, fun _ hn => (nomatch hn), fun _ => h.expired a hmem hcleanup⟩
  | deletes => exact ⟨rfl, rfl, rfl, fun hs => (nomatch hs), fun hn => absurd rfl hn⟩

theorem of_persistedSince {content : String} (h : u.persistedSince rows content = false) :
    (∀ a ∈ u.artifacts, a.contentHash = content → ∃ x ∈ rows, x.id = a.id) ∧
      ∀ p ∈ u.persists, p.phase ≠ .looked → p.content ≠ content := by
  simp only [persistedSince, Bool.or_eq_false_iff, List.any_eq_false, Bool.and_eq_true, decide_eq_true_eq,
    List.all_eq_true, not_and] at h
  refine ⟨fun a ha hcontent => ?_, fun p hp hl => h.2 p hp hl⟩
  by_contra hnone
  exact h.1 a ha hcontent fun x hx hid => hnone ⟨x, hx, hid⟩

section
variable (h : StoreSound u)
include h

/-- The rows that the sweep read tell that nothing relies on the file; what came since is excluded. -/
theorem StoreSound.released {next : SweepAt} (hk : u.KeepsContent op = true)
    (hr : FileRemoval u op path next) :
    (∀ p ∈ u.persists, p.phase ≠ .looked → .content p.content ≠ path) ∧
      ∀ a ∈ u.artifacts, a.state = .available → a.cleanup = none → a.path ≠ some path := by
  have hsound := h.sweep
  cases hr with
  | lastPeer hproceed hsweep =>
    rename_i id atCheck fileRemoved removed
    rw [hsweep] at hsound
    obtain ⟨hseen, x, hx, hid, hcleanup, hpath, hpeer⟩ := hsound
    obtain rfl : path = .content x.contentHash := Option.some.inj (hpath.symm.trans (h.addressed x hx))
    simp only [hproceed, KeepsContent, hsweep, Bool.not_eq_true'] at hk
    obtain ⟨hrows, hpersists⟩ := of_persistedSince hk
    refine ⟨fun p hp hl heq => hpersists p hp hl (ArtifactPath.content.inj heq), fun a ha hst hnone hap => ?_⟩
    have hcontent : a.contentHash = x.contentHash :=
      ArtifactPath.content.inj (Option.some.inj ((h.addressed a ha).symm.trans hap))
    have hne : a.id ≠ x.id := by
      intro heq
      rw [Lib.eq_of_key_eq h.ids ha hx heq] at hnone
      exact hcleanup hnone
    obtain ⟨y, hy, hya⟩ := hrows a ha hcontent
    obtain ⟨hyhash, hystate⟩ := hseen.same a ha y hy hya
    exact hpeer rfl y hy (hyhash.trans hcontent) (by rw [hya]; exact hne) (hystate.trans hst)
  | orphan hproceed hsweep =>
    rename_i atRead removed
    rw [hsweep] at hsound
    obtain ⟨hseen, hunknown⟩ := hsound
    cases path with
    | other name =>
      refine ⟨fun p _ _ heq => (nomatch heq), fun a ha _ _ hap => ?_⟩
      rw [h.addressed a ha] at hap
      cases hap
    | content content =>
      simp only [hproceed, KeepsContent, hsweep, Bool.not_eq_true'] at hk
      obtain ⟨hrows, hpersists⟩ := of_persistedSince hk
      refine ⟨fun p hp hl heq => hpersists p hp hl (ArtifactPath.content.inj heq), fun a ha _ _ hap => ?_⟩
      have hcontent : a.contentHash = content :=
        ArtifactPath.content.inj (Option.some.inj ((h.addressed a ha).symm.trans hap))
      obtain ⟨y, hy, hya⟩ := hrows a ha hcontent
      exact hunknown content rfl y hy ((hseen.same a ha y hy hya).1.trans hcontent)

theorem StoreSound.next (hnow : v.now = u.now) (ha : v.artifacts = u.artifacts) (hf : v.files = u.files)
    (hp : v.persists = u.persists) (hsweep : ReadSound u.artifacts v.sweep) : StoreSound v := by
  constructor
  · rw [ha]
    exact h.ids
  · rw [ha]
    exact h.addressed
  · rw [hf]
    exact h.plain
  · rw [ha]
    exact fun a hm hst hn => (h.held a hm hst hn).of_eq hf
  · rw [ha, hnow]
    exact h.expired
  · rw [hp]
    exact fun p hm hl => (h.relied p hm hl).of_eq hf
  · rw [ha, hp]
    exact h.fresh
  · rw [hp]
    exact h.distinct
  · exact hsweep.mono (.of_eq ha)

theorem StoreSound.seen : Seen u.artifacts u.artifacts where
  kept x hx := ⟨x, hx, rfl⟩
  same a ha x hx hid := by
    rw [Lib.eq_of_key_eq h.ids hx ha hid]
    exact ⟨rfl, rfl⟩

/-- What comes next follows from what the sweep sees now, or saw before. -/
theorem StoreSound.nextSound {next : SweepAt} (hnext : NextSound u next) : ReadSound u.artifacts next := by
  have hsound := h.sweep
  cases next with
  | artifactRemoving id path atCheck lastPeer fileRemoved =>
    obtain ⟨rfl, a, ha, hcleanup, hpath, rfl⟩ := hnext
    obtain ⟨hmem, hid⟩ := mem_of_artifact? ha
    refine ⟨h.seen, a, hmem, hid, hcleanup, hpath, fun hlast x hx hhash hne hst => ?_⟩
    have hpeer : u.hasPeer a = true := List.any_eq_true.mpr ⟨x, hx, by simp [hhash, hne, hst]⟩
    rw [hpeer] at hlast
    cases hlast
  | artifactRemoved id fileRemoved =>
    obtain ⟨path, atCheck, lastPeer, r, hs⟩ := hnext
    rw [hs] at hsound
    obtain ⟨-, a, ha, hid, hcleanup, -⟩ := hsound
    exact ⟨a, ha, hid, hcleanup⟩
  | orphans atRead =>
    rcases hnext with rfl | hs | ⟨path, hs⟩
    · exact h.seen
    · rw [hs] at hsound
      exact hsound
    · rw [hs] at hsound
      exact hsound.1
  | quarantining atRead path =>
    obtain ⟨hs, f, hf, rfl, horphan⟩ := hnext
    rw [hs] at hsound
    refine ⟨hsound, fun content hcontent x hx hhash => ?_⟩
    obtain ⟨hkind, hlinks⟩ := h.plain f hf content hcontent
    have hunknown : content ∉ knownContentHashes atRead := by
      simpa [isOrphan, hcontent, hkind, hlinks, EntryKind.isSymlink] using horphan
    exact hunknown (List.mem_map.mpr ⟨x, hx, hhash⟩)
  | _ => trivial

theorem StoreSound.goOn {next : SweepAt} (hnext : NextSound u next) : StoreSound (u.goOn next) :=
  h.next rfl rfl rfl rfl (h.nextSound hnext)

theorem StoreSound.putArtifact {next : SweepAt} (ha : u.artifact? a.id = some a)
    (hc : ArtifactChange u op a a' next) : StoreSound ((u.putArtifact a').goOn next) := by
  obtain ⟨hid, hhash, hpath, hheld, hexpired⟩ := h.artifactChange ha hc
  have hmem := (mem_of_artifact? ha).1
  have hnext := hc.next
  constructor
  · show ((Lib.put ArtifactRow.key a' u.artifacts).map ArtifactRow.key).Nodup
    rw [Lib.map_put fun _ _ hk => hk]
    exact h.ids
  · intro x hx
    rcases Lib.mem_or_of_mem_put hx with rfl | hx
    · rw [hpath, hhash]
      exact h.addressed a hmem
    · exact h.addressed x hx
  · exact h.plain
  · intro x hx hst hnone
    rcases Lib.mem_or_of_mem_put hx with rfl | hx
    · obtain ⟨hast, hanone⟩ := hheld hst hnone
      rw [hhash]
      exact h.held a hmem hast hanone
    · exact h.held x hx hst hnone
  · intro x hx
    rcases Lib.mem_or_of_mem_put hx with rfl | hx
    · exact hexpired
    · exact h.expired x hx
  · exact h.relied
  · intro p hp hfl x hx
    rcases Lib.mem_or_of_mem_put hx with rfl | hx
    · rw [hid]
      exact h.fresh p hp hfl a hmem
    · exact h.fresh p hp hfl x hx
  · exact h.distinct
  · rcases hnext with rfl | ⟨_, rfl⟩ | ⟨_, rfl⟩
    · trivial
    · trivial
    · trivial

theorem StoreSound.removeFile {next : SweepAt} (hk : u.KeepsContent op = true)
    (hr : FileRemoval u op path next) : StoreSound ((u.removeFile path).goOn next) := by
  obtain ⟨hpersists, hrows⟩ := h.released hk hr
  refine ⟨h.ids, h.addressed, fun f hf => h.plain f (List.mem_filter.mp hf).1, ?_, h.expired, ?_, h.fresh, h.distinct, ?_⟩
  · intro a ha hst hnone
    refine isPresent_removeFile (h.held a ha hst hnone) fun hp => hrows a ha hst hnone ?_
    rw [h.addressed a ha, hp]
  · intro p hp hl
    exact isPresent_removeFile (h.relied p hp hl) (hpersists p hp hl)
  · have hsound := h.sweep
    cases hr with
    | lastPeer _ hsweep =>
      rw [hsweep] at hsound
      obtain ⟨-, a, ha, hid, hcleanup, -⟩ := hsound
      exact ⟨a, ha, hid, hcleanup⟩
    | orphan _ hsweep =>
      rw [hsweep] at hsound
      exact hsound.1

theorem StoreSound.sweepChange (hk : u.KeepsContent op = true) (hc : SweepChange u op v) : StoreSound v := by
  cases hc with
  | stays => exact h
  | goesOn hnext => exact h.goOn hnext
  | worktree _ _ _ _ hnext _ => exact { h.goOn hnext with }
  | artifact ha hchange => exact h.putArtifact ha hchange
  | tree _ hnext =>
    rcases hnext with rfl | rfl
    · have hrest : StoreSound (u.goOn .idle) := h.goOn trivial
      exact { hrest with }
    · rename_i id path seen _
      have hremoved : StoreSound (u.goOn (.worktreeRemoved id)) := h.goOn trivial
      exact { hremoved with }
  | file hremoval => exact h.removeFile hk hremoval

end

/-! ### What others do -/

section
variable (h : StoreSound u)
include h

/-- A `persist` comes to a phase: it has its file, and its row where it is flushed. -/
theorem StoreSound.persistGoOn {phase : PersistPhase} (hv : v.artifacts = u.artifacts)
    (hnow : v.now = u.now) (hsweep : v.sweep = u.sweep)
    (hpersists : v.persists = { p with phase := phase } :: u.persists.erase p)
    (hplain : ∀ f ∈ v.files, f ∈ u.files ∨ f = { path := .content p.content })
    (hfiles : ∀ path, u.IsPresent path → v.IsPresent path) (hstored : v.IsPresent (.content p.content))
    (hflushed : phase = .flushed → (∀ a ∈ u.artifacts, a.id ≠ p.id) ∧
      ∀ q ∈ u.persists, q.phase = .flushed → q.id ≠ p.id) : StoreSound v := by
  constructor
  · rw [hv]
    exact h.ids
  · rw [hv]
    exact h.addressed
  · intro f hf
    rcases hplain f hf with hf | rfl
    · exact h.plain f hf
    · exact fun _ _ => ⟨rfl, rfl⟩
  · rw [hv]
    exact fun a ha hst hn => hfiles _ (h.held a ha hst hn)
  · rw [hv, hnow]
    exact h.expired
  · rw [hpersists]
    intro q hq hl
    rcases List.mem_cons.mp hq with rfl | hq
    · exact hstored
    · exact hfiles _ (h.relied q (List.mem_of_mem_erase hq) hl)
  · rw [hpersists, hv]
    intro q hq hfl
    rcases List.mem_cons.mp hq with rfl | hq
    · exact (hflushed hfl).1
    · exact h.fresh q (List.mem_of_mem_erase hq) hfl
  · rw [hpersists]
    refine List.pairwise_cons.mpr ⟨fun q hq hfl hqfl => ?_, h.distinct.sublist List.erase_sublist⟩
    exact ((hflushed hfl).2 q (List.mem_of_mem_erase hq) hqfl).symm
  · rw [hv, hsweep]
    exact h.sweep

theorem StoreSound.persistLook (hop : u.perform (.persistLook p) = .ok v) : StoreSound v := by
  simp only [perform] at hop
  split at hop
  · cases hop
    exact h
  · cases hop
    refine ⟨h.ids, h.addressed, h.plain, h.held, h.expired, ?_, ?_, ?_, h.sweep⟩
    · intro q hq hl
      rcases List.mem_cons.mp hq with rfl | hq
      · exact absurd rfl hl
      · exact h.relied q hq hl
    · intro q hq hfl
      rcases List.mem_cons.mp hq with rfl | hq
      · cases hfl
      · exact h.fresh q hq hfl
    · refine List.pairwise_cons.mpr ⟨fun _ _ hfl => ?_, h.distinct⟩
      cases hfl

theorem StoreSound.persistStore (hop : u.perform (.persistStore p) = .ok v) : StoreSound v := by
  obtain ⟨-, hop⟩ := Lib.check_eq_ok.mp hop
  cases hop
  have hkept : (u.store p.content).artifacts = u.artifacts ∧ (u.store p.content).now = u.now ∧
      (u.store p.content).sweep = u.sweep ∧ (u.store p.content).persists = u.persists := by
    unfold store
    split
    · exact ⟨rfl, rfl, rfl, rfl⟩
    · exact ⟨rfl, rfl, rfl, rfl⟩
  obtain ⟨hv, hnow, hsweep, hpersists⟩ := hkept
  have hput : ((u.store p.content).persistGoOn p .stored).persists = { p with phase := .stored } :: u.persists.erase p := by
    rw [← hpersists]
    rfl
  refine h.persistGoOn hv hnow hsweep hput (fun f hf => mem_files_store hf) ?_ ?_ fun hf => (nomatch hf)
  · exact fun path hp => (hp.store p.content).of_eq rfl
  · exact (isPresent_store p.content).of_eq rfl

theorem StoreSound.persistFlush (hop : u.perform (.persistFlush p) = .ok v) : StoreSound v := by
  obtain ⟨⟨hp, hphase⟩, hop⟩ := Lib.check_eq_ok.mp hop
  obtain ⟨hunique, hop⟩ := Lib.guard_eq_ok.mp hop
  cases hop
  have hstored := h.relied p hp (by rw [hphase]; decide)
  refine h.persistGoOn rfl rfl rfl rfl (fun f hf => .inl hf) (fun path hp => hp.of_eq rfl) (hstored.of_eq rfl)
    fun _ => ⟨?_, ?_⟩
  · intro a ha hid
    refine hunique (.inr (.inl ?_))
    exact List.find?_isSome.mpr ⟨a, ha, by simpa using hid⟩
  · intro q hq hfl hid
    refine hunique (.inr (.inr ?_))
    exact List.any_eq_true.mpr ⟨q, hq, by simp [hfl, hid]⟩

/-- The row of a `persist` is added beside the others, with its file. -/
theorem StoreSound.persistCommit (hop : u.perform (.persistCommit p) = .ok v) : StoreSound v := by
  obtain ⟨⟨hp, hphase⟩, hop⟩ := Lib.check_eq_ok.mp hop
  cases hop
  have hfresh := h.fresh p hp hphase
  have hstored := h.relied p hp (by rw [hphase]; decide)
  have hothers : ∀ q ∈ u.persists.erase p, q.phase = .flushed → p.id ≠ q.id := by
    have hperm : u.persists.Perm (p :: u.persists.erase p) := List.perm_cons_erase hp
    have hpairs := (hperm.pairwise_iff fun hab ha hb => (hab hb ha).symm).mp h.distinct
    exact fun q hq hfl => (List.pairwise_cons.mp hpairs).1 q hq hphase hfl
  constructor
  · exact Lib.nodup_map_append h.ids hfresh
  · intro a ha
    rcases Lib.mem_concat.mp ha with ha | rfl
    · exact h.addressed a ha
    · rfl
  · exact h.plain
  · intro a ha hst hn
    rcases Lib.mem_concat.mp ha with ha | rfl
    · exact (h.held a ha hst hn).of_eq rfl
    · exact hstored.of_eq rfl
  · intro a ha hn
    rcases Lib.mem_concat.mp ha with ha | rfl
    · exact h.expired a ha hn
    · exact absurd rfl hn
  · exact fun q hq hl => (h.relied q (List.mem_of_mem_erase hq) hl).of_eq rfl
  · intro q hq hfl a ha
    rcases Lib.mem_concat.mp ha with ha | rfl
    · exact h.fresh q (List.mem_of_mem_erase hq) hfl a ha
    · exact hothers q hq hfl
  · exact h.distinct.sublist List.erase_sublist
  · refine h.sweep.mono ⟨fun a ha => ⟨a, List.mem_append_left _ ha, rfl, rfl, rfl, rfl⟩, fun b hb => ?_⟩
    rcases Lib.mem_concat.mp hb with hb | rfl
    · exact .inl ⟨b, hb, rfl, rfl, rfl⟩
    · exact .inr hfresh

theorem StoreSound.persistRollback (hop : u.perform (.persistRollback p) = .ok v) : StoreSound v := by
  cases hop
  refine ⟨h.ids, h.addressed, h.plain, h.held, h.expired, ?_, ?_, h.distinct.sublist List.erase_sublist, h.sweep⟩
  · exact fun q hq => h.relied q (List.mem_of_mem_erase hq)
  · exact fun q hq => h.fresh q (List.mem_of_mem_erase hq)

theorem StoreSound.pin {ids : List Nat} {retentionUntil : Nat} (hk : u.KeepsContent (.pin ids retentionUntil) = true)
    (hop : u.perform (.pin ids retentionUntil) = .ok v) : StoreSound v := by
  cases hop
  simp only [KeepsContent, List.all_eq_true, Bool.or_eq_true, decide_eq_true_eq] at hk
  have hrow : ∀ x ∈ (u.pinArtifacts ids retentionUntil).artifacts, ∃ a ∈ u.artifacts,
      x.id = a.id ∧ x.contentHash = a.contentHash ∧ x.path = a.path ∧ x.state = a.state ∧ x.cleanup = a.cleanup ∧
        (a.cleanup ≠ none → x.retentionUntil = a.retentionUntil) := by
    intro x hx
    obtain ⟨a, ha, rfl⟩ := List.mem_map.mp hx
    refine ⟨a, ha, ?_⟩
    split
    · rename_i hpinned
      refine ⟨rfl, rfl, rfl, rfl, rfl, fun hn => ?_⟩
      rcases hk a ha with (hid | hlate) | hnone
      · exact absurd hpinned.1 hid
      · omega
      · exact absurd hnone hn
    · exact ⟨rfl, rfl, rfl, rfl, rfl, fun _ => rfl⟩
  have hkept : RowsKept u.artifacts (u.pinArtifacts ids retentionUntil).artifacts := by
    refine ⟨fun a ha => ⟨_, List.mem_map_of_mem ha, ?_⟩, fun x hx => ?_⟩
    · split
      · exact ⟨rfl, rfl, rfl, rfl⟩
      · exact ⟨rfl, rfl, rfl, rfl⟩
    · obtain ⟨a, ha, hid, hhash, -, hstate, -⟩ := hrow x hx
      exact .inl ⟨a, ha, hid.symm, hhash.symm, hstate.symm⟩
  constructor
  · have hids : (u.pinArtifacts ids retentionUntil).artifacts.map ArtifactRow.key = u.artifacts.map ArtifactRow.key := by
      simp only [pinArtifacts, List.map_map]
      refine List.map_congr_left fun a _ => ?_
      simp only [Function.comp_apply]
      split
      · rfl
      · rfl
    rw [hids]
    exact h.ids
  · intro x hx
    obtain ⟨a, ha, -, hhash, hpath, -⟩ := hrow x hx
    rw [hpath, hhash]
    exact h.addressed a ha
  · exact h.plain
  · intro x hx hst hn
    obtain ⟨a, ha, -, hhash, -, hstate, hcleanup, -⟩ := hrow x hx
    rw [hhash]
    exact (h.held a ha (hstate.symm.trans hst) (hcleanup.symm.trans hn)).of_eq rfl
  · intro x hx hn
    obtain ⟨a, ha, -, -, -, -, hcleanup, hret⟩ := hrow x hx
    rw [hcleanup] at hn
    rw [hret hn]
    exact h.expired a ha hn
  · exact fun q hq hl => (h.relied q hq hl).of_eq rfl
  · intro q hq hfl x hx
    obtain ⟨a, ha, hid, -⟩ := hrow x hx
    rw [hid]
    exact h.fresh q hq hfl a ha
  · exact h.distinct
  · exact h.sweep.mono hkept

theorem StoreSound.step (hk : u.KeepsContent op = true) (hop : u.perform op = .ok v) : StoreSound v := by
  cases hs : op.isSweep with
  | true => exact h.sweepChange hk (sweepChange_of_step hs hop)
  | false =>
    cases op with
    | persistLook => exact h.persistLook hop
    | persistStore => exact h.persistStore hop
    | persistFlush => exact h.persistFlush hop
    | persistCommit => exact h.persistCommit hop
    | persistRollback => exact h.persistRollback hop
    | pin => exact h.pin hk hop
    | wait =>
      cases hop
      refine { h with expired := fun a ha hn => ?_ }
      have hexpired := h.expired a ha hn
      show a.retentionUntil ≤ u.now + 1
      omega
    | changeWork =>
      cases hop
      exact { h with }
    | _ => cases hs

end

/-! ### Runs -/

/-- Rows with their files at a start: no sweep and no `persist` is under way. -/
structure Consistent (s : Retained) : Prop where
  ids : (s.artifacts.map ArtifactRow.key).Nodup
  addressed : ∀ a ∈ s.artifacts, a.path = some (.content a.contentHash)
  plain : ∀ f ∈ s.files, ∀ content, f.path = .content content → f.kind = .regular ∧ f.links = 1
  held : ∀ a ∈ s.artifacts, a.state = .available → a.cleanup = none → s.IsPresent (.content a.contentHash)
  expired : ∀ a ∈ s.artifacts, a.cleanup ≠ none → a.retentionUntil ≤ s.now
  sweep : s.sweep = .idle
  persists : s.persists = []

theorem Consistent.sound (h : Consistent s) : StoreSound s where
  ids := h.ids
  addressed := h.addressed
  plain := h.plain
  held := h.held
  expired := h.expired
  relied p hp := by
    rw [h.persists] at hp
    cases hp
  fresh p hp := by
    rw [h.persists] at hp
    cases hp
  distinct := by
    rw [h.persists]
    exact .nil
  sweep := by
    rw [h.sweep]
    trivial

theorem StoreSound.returns_present {returned : Option ArtifactPath} (h : StoreSound u) (hk : u.KeepsContent op = true)
    (hop : u.perform op = .ok v) (hr : u.returns op = some returned) : ∃ path, returned = some path ∧ v.IsPresent path := by
  cases op with
  | persistLook p =>
    obtain ⟨a, ha, rfl⟩ := Option.map_eq_some_iff.mp hr
    simp only [KeepsContent, ha, Option.all_some, List.any_eq_true, Bool.and_eq_true, decide_eq_true_eq] at hk
    obtain ⟨x, hx, ⟨hhash, hst⟩, hn⟩ := hk
    have hv : v = u := by
      simp only [perform, ha, Option.isSome_some, if_true] at hop
      cases hop
      rfl
    rw [hv]
    refine ⟨.content a.contentHash, h.addressed a (List.mem_of_find?_eq_some ha), ?_⟩
    rw [← hhash]
    exact h.held x hx hst hn
  | persistFlush p =>
    cases hr
    obtain ⟨⟨hp, hphase⟩, hop⟩ := Lib.check_eq_ok.mp hop
    obtain ⟨-, hop⟩ := Lib.guard_eq_ok.mp hop
    cases hop
    exact ⟨_, rfl, (h.relied p hp (by rw [hphase]; decide)).of_eq rfl⟩
  | _ => cases hr

structure KeepsBytes (u : Retained) : Prop where
  live : ∀ a ∈ u.artifacts, a.state = .available → u.now < a.retentionUntil → ∃ path, a.path = some path ∧ u.IsPresent path
  /-- A row that `persist` returns has its file. -/
  returned : ∀ op v path, u.KeepsContent op = true → u.perform op = .ok v → u.returns op = some path →
    ∃ p, path = some p ∧ v.IsPresent p

theorem live_artifacts_keep_bytes (s u : Retained) (hs : Consistent s)
    (h : s.Reaches (fun u op => u.KeepsContent op = true) u) : KeepsBytes u := by
  have hu : StoreSound u := h.invariant (P := StoreSound) hs.sound fun hu hk hop => hu.step hk hop
  refine ⟨fun a ha hst hlater => ?_, fun op v path hk hop hr => hu.returns_present hk hop hr⟩
  have hn : a.cleanup = none := by
    by_contra hn
    have hexpired := hu.expired a ha hn
    omega
  exact ⟨_, hu.addressed a ha, hu.held a ha hst hn⟩

/-! ### One artifact -/

def aPersist : Persist where
  id := 5
  taskId := 1
  runId := 2
  storageKey := "k"
  content := "d"
  retentionUntil := 1

def emptyStore : Retained := { work := finishedWork }

def persistAll (p : Persist) : List RetentionOp :=
  [.persistLook p, .persistStore p, .persistFlush { p with phase := .stored }, .persistCommit { p with phase := .flushed }]

theorem emptyStore_consistent : Consistent emptyStore where
  ids := List.nodup_nil
  addressed _ ha := nomatch ha
  plain _ hf := nomatch hf
  held _ ha := nomatch ha
  expired _ ha := nomatch ha
  sweep := rfl
  persists := rfl

/-- The same content under another key. -/
def aCopy : Persist := { aPersist with id := 6, storageKey := "l" }

/-- Content of a transaction that is rolled back. -/
def aDraft : Persist := { aPersist with id := 7, storageKey := "m", content := "e" }

/-- A pinned artifact outlives a sweep that deletes the expired row of its copy and quarantines a file that no row knows. -/
theorem live_artifacts_keep_bytes_pinned :
    ∃ u, emptyStore.Reaches (fun u op => u.KeepsContent op = true) u ∧
      u.artifacts = [{ Persist.row aPersist with retentionUntil := 100 }, { Persist.row aCopy with state := .deleted }] ∧
        u.files = [{ path := .content "d" }] ∧ u.now = 2 ∧ KeepsBytes u := by
  have hrun : Lib.ends (fun u : Retained => u.now = 2 && (u.files = [{ path := .content "d" }] &&
      u.artifacts = [{ Persist.row aPersist with retentionUntil := 100 }, { Persist.row aCopy with state := .deleted }]))
      (Lib.runOps (fun u op => if u.KeepsContent op = true then u.perform op else .error "released") emptyStore
        (persistAll aPersist ++ persistAll aCopy ++ [.persistLook aDraft, .persistStore aDraft,
          .persistRollback { aDraft with phase := .stored }, .pin [5] 100, .wait, .wait, .declareArtifact 6,
          .proceed false false, .proceed false false, .proceed false false, .proceed false false, .readKnown,
          .considerFile (.content "d"), .considerFile (.content "e"), .proceed false false, .endSweep])) = true := by
    decide
  obtain ⟨u, hu, hp⟩ := Lib.exists_of_ends hrun
  simp only [Bool.and_eq_true, decide_eq_true_eq] at hp
  have hr : emptyStore.Reaches (fun u op => u.KeepsContent op = true) u := Lib.reach_of_guarded hu
  exact ⟨u, hr, hp.2.2, hp.2.1, hp.1, live_artifacts_keep_bytes emptyStore u emptyStore_consistent hr⟩

def pinnedAfterIntent : List RetentionOp :=
  persistAll aPersist ++ [.wait, .wait, .declareArtifact 5, .endSweep, .pin [5] 100, .declareArtifact 5, .proceed false false,
    .proceed false false]

/-- The file of an available artifact is removed within its retention. -/
theorem pinned_artifact_removed :
    ∃ u, Consistent emptyStore ∧ emptyStore.Reaches (fun _ _ => True) u ∧
      u.artifacts = [{ Persist.row aPersist with retentionUntil := 100, cleanup := some .intent }] ∧ u.now = 2 ∧
        u.files = [] ∧ ¬KeepsBytes u := by
  have hrun : Lib.ends (fun u : Retained => u.now = 2 && (u.files = [] &&
      u.artifacts = [{ Persist.row aPersist with retentionUntil := 100, cleanup := some .intent }]))
      (Lib.runOps perform emptyStore pinnedAfterIntent) = true := by decide
  obtain ⟨u, hu, hp⟩ := Lib.exists_of_ends hrun
  simp only [Bool.and_eq_true, decide_eq_true_eq] at hp
  obtain ⟨hnow, hfiles, hartifacts⟩ := hp
  refine ⟨u, emptyStore_consistent, Lib.reach_of_runOps (fun _ _ _ => trivial) hu, hartifacts, hnow, hfiles, fun hkeeps => ?_⟩
  obtain ⟨_, -, f, hf, -⟩ := hkeeps.live _ (by rw [hartifacts]; exact List.mem_cons_self) rfl (by rw [hnow]; decide)
  rw [hfiles] at hf
  cases hf

end Retained

end Vuzol.Ops
