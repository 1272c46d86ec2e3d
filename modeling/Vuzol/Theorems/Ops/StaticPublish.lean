import Vuzol.Lib.Rows
import Vuzol.Ops.StaticPublish

/-! The live release of a static site is whole, and the release before it can be restored, in every run whose activations
    meet two conditions: what is activated is whole, and an activation of the live release finds the previous one among the
    releases that it keeps. -/

namespace Vuzol.Ops

open Vuzol.Lib SiteProgram
open Vuzol.Lib.Program (Keeps run_observe_bind run_failIf_bind)

variable {sha256 : Bytes → Digest} {s t : Site} {α β : Type}
variable {j : Journal} {id : Nat} {r : Release} {name release : ReleaseName}

/-! ### What a file operation leaves alone -/

namespace Site

def fallback (s : Site) : Option ReleaseName :=
  s.journal.bind fun j => if s.current = some j.current then j.previous else none

theorem fallback_eq_some :
    s.fallback = some name ↔ ∃ j, s.journal = some j ∧ s.current = some j.current ∧ j.previous = some name := by
  rw [fallback, Option.bind_eq_some_iff]
  constructor
  · rintro ⟨j, hj, hprevious⟩
    split at hprevious
    · next hcurrent => exact ⟨j, hj, hcurrent, hprevious⟩
    · cases hprevious
  · rintro ⟨j, hj, hcurrent, hprevious⟩
    exact ⟨j, hj, by rw [if_pos hcurrent, hprevious]⟩

theorem mem_of_find (h : s.find name = some r) : r ∈ s.releases ∧ r.name = name :=
  ⟨List.mem_of_find?_eq_some h, by simpa using List.find?_some h⟩

theorem find_unlink {name other : ReleaseName} {path : RelPath} {mtime : Nat} (h : other ≠ name) :
    (FileOp.perform (.unlink name path mtime) s).find other = s.find other := by
  have hkey : ∀ r : Release,
      (if r.name = name then { r with tree := r.tree.unlink path, mtime } else r).name = r.name := fun r => by
    split <;> rfl
  rw [find, find, FileOp.perform, List.find?_map]
  simp only [Function.comp_def, hkey]
  cases hfind : s.releases.find? (·.name == other) with
  | none => rfl
  | some r =>
    have hname : r.name ≠ name := fun heq => h ((mem_of_find hfind).2.symm.trans heq)
    rw [Option.map_some, if_neg hname]

theorem find_rmdir {other : ReleaseName} (h : other ≠ name) : (FileOp.perform (.rmdir name) s).find other = s.find other := by
  rw [find, find, FileOp.perform, List.find?_filter]
  refine congrArg (List.find? · s.releases) (funext fun r => ?_)
  by_cases hname : r.name = other
  · simp [hname, h]
  · simp [hname]

theorem find_rename {place : Nat} (h : r.name ≠ name) : (FileOp.perform (.rename r place) s).find name = s.find name := by
  rw [find, find, FileOp.perform, List.find?_append, List.find?_cons, beq_eq_false_iff_ne.mpr h, ← List.find?_append,
    List.take_append_drop]

end Site

/-! ### The invariant -/

/-- `name` is a release from which nothing was removed. -/
def Whole (s : Site) (name : ReleaseName) (r : Release) : Prop := s.find name = some r ∧ r.tree = r.made

structure Sound (sha256 : Bytes → Digest) (s : Site) : Prop where
  nodup : (s.releases.map (·.name)).Nodup
  named : ∀ r ∈ s.releases, releaseName sha256 r.made = r.name
  distinct : ∀ j, s.journal = some j → j.previous ≠ some j.current
  live : ∀ name, s.current = some name → ∃ r, Whole s name r
  fallback : ∀ name, s.fallback = some name → ∃ r, Whole s name r ∧ s.before = some (name, r.tree)

theorem Sound.frame (h : Sound sha256 s) (hnodup : (t.releases.map (·.name)).Nodup)
    (hnamed : ∀ r ∈ t.releases, releaseName sha256 r.made = r.name) (hcurrent : t.current = s.current)
    (hjournal : t.journal = s.journal) (hbefore : t.before = s.before)
    (hfind : ∀ name, s.current = some name ∨ s.fallback = some name → t.find name = s.find name) : Sound sha256 t where
  nodup := hnodup
  named := hnamed
  distinct := hjournal ▸ h.distinct
  live name hname := by
    rw [hcurrent] at hname
    obtain ⟨r, hr, hwhole⟩ := h.live name hname
    exact ⟨r, (hfind name (Or.inl hname)).trans hr, hwhole⟩
  fallback name hname := by
    rw [Site.fallback, hcurrent, hjournal, ← Site.fallback] at hname
    obtain ⟨r, ⟨hr, hwhole⟩, hb⟩ := h.fallback name hname
    exact ⟨r, ⟨(hfind name (Or.inr hname)).trans hr, hwhole⟩, hbefore.trans hb⟩

def Needed (s : Site) (name : ReleaseName) : Prop := s.current = some name ∨ s.fallback = some name

section
variable (h : Sound sha256 s)
include h

theorem Sound.unlink (hneeded : ¬Needed s name) (path : RelPath) (mtime : Nat) :
    Sound sha256 (FileOp.perform (.unlink name path mtime) s) := by
  have hkey : ∀ r : Release,
      (if r.name = name then { r with tree := r.tree.unlink path, mtime } else r).name = r.name := fun r => by
    split <;> rfl
  refine h.frame ?_ ?_ rfl rfl rfl fun other hother => Site.find_unlink fun heq => hneeded (heq ▸ hother)
  · simp only [FileOp.perform, List.map_map, Function.comp_def, hkey]
    exact h.nodup
  · intro r' hr'
    obtain ⟨r, hr, rfl⟩ := List.mem_map.mp hr'
    rw [hkey, ← h.named r hr]
    split <;> rfl

theorem Sound.rmdir (hneeded : ¬Needed s name) : Sound sha256 (FileOp.perform (.rmdir name) s) := by
  refine h.frame ?_ ?_ rfl rfl rfl fun other hother => Site.find_rmdir fun heq => hneeded (heq ▸ hother)
  · exact h.nodup.sublist (List.Sublist.map _ List.filter_sublist)
  · exact fun r hr => h.named r (List.mem_of_mem_filter hr)

theorem Sound.rename (place : Nat) (hnew : s.find r.name = none)
    (hnamed : releaseName sha256 r.made = r.name) : Sound sha256 (FileOp.perform (.rename r place) s) := by
  have hmem : ∀ r', r' ∈ (FileOp.perform (.rename r place) s).releases ↔ r' = r ∨ r' ∈ s.releases := fun r' => by
    rw [FileOp.perform, List.mem_append, List.mem_cons, or_left_comm, ← List.mem_append, List.take_append_drop]
  have hne : ∀ r' ∈ s.releases, r'.name ≠ r.name := fun r' hr' heq =>
    List.find?_eq_none.mp hnew r' hr' (beq_iff_eq.mpr heq)
  refine h.frame ?_ ?_ rfl rfl rfl fun other hother => Site.find_rename fun heq => ?_
  · have hperm : (FileOp.perform (.rename r place) s).releases.Perm (s.releases ++ [r]) := by
      refine List.perm_middle.trans ?_
      rw [List.take_append_drop]
      exact (List.perm_append_singleton _ _).symm
    exact (hperm.map _).nodup_iff.mpr (nodup_map_append h.nodup hne)
  · intro r' hr'
    rcases (hmem r').mp hr' with rfl | hr'
    · exact hnamed
    · exact h.named r' hr'
  · -- The live release and its fallback are there already.
    have hsome : ∃ r', s.find other = some r' := by
      rcases hother with hother | hother
      · obtain ⟨r', hr', -⟩ := h.live other hother
        exact ⟨r', hr'⟩
      · obtain ⟨r', ⟨hr', -⟩, -⟩ := h.fallback other hother
        exact ⟨r', hr'⟩
    obtain ⟨r', hr'⟩ := hsome
    rw [← heq, hnew] at hr'
    cases hr'

theorem Sound.replaceJournal (hcurrent : s.current ≠ some j.current)
    (hdistinct : j.previous ≠ some j.current) : Sound sha256 (FileOp.perform (.replaceJournal j) s) where
  nodup := h.nodup
  named := h.named
  distinct j' hj' := by
    cases hj'
    exact hdistinct
  live := h.live
  fallback name hname := by
    obtain ⟨j', hj', hcurrent', -⟩ := Site.fallback_eq_some.mp hname
    cases hj'
    exact absurd hcurrent' hcurrent

theorem Sound.replaceCurrent (hj : s.journal = some j) (hprevious : j.previous = s.current)
    (hwhole : ∃ r, Whole s j.current r) : Sound sha256 (FileOp.perform (.replaceCurrent j.current) s) where
  nodup := h.nodup
  named := h.named
  distinct := h.distinct
  live name hname := by
    cases hname
    exact hwhole
  fallback name hname := by
    obtain ⟨j', hj', -, hname⟩ := Site.fallback_eq_some.mp hname
    cases hj.symm.trans hj'
    rw [hprevious] at hname
    obtain ⟨r, hr, hwhole⟩ := h.live name hname
    refine ⟨r, ⟨hr, hwhole⟩, ?_⟩
    show s.live = _
    rw [Site.live, hname, Option.bind_some, hr, Option.map_some]

theorem Sound.unlinkCurrent : Sound sha256 (FileOp.perform .unlinkCurrent s) where
  nodup := h.nodup
  named := h.named
  distinct := h.distinct
  live name hname := by cases hname
  fallback name hname := by
    obtain ⟨j, -, hcurrent, -⟩ := Site.fallback_eq_some.mp hname
    cases hcurrent

end

/-! ### The sections -/

section Rules
variable {I : Site → Prop} {Q : β → Site → Prop}

theorem currentRelease_keeps {f : ReleaseName → SiteProgram β} (hI : I s)
    (hf : ∀ name, s.current = some name → Keeps FileOp.perform I Q (f name) s) :
    Keeps FileOp.perform I Q (SiteProgram.currentRelease >>= f) s := by
  rw [SiteProgram.currentRelease, Program.bind_assoc]
  refine .observe_bind rfl hI ?_
  cases hcurrent : s.current with
  | none => exact .raise hI
  | some name =>
    rw [Program.bind_assoc]
    exact .failIf_bind hI fun _ => hf name hcurrent

theorem optionalCurrent_keeps {f : Option ReleaseName → SiteProgram β} (hI : I s) (hf : Keeps FileOp.perform I Q (f s.current) s) :
    Keeps FileOp.perform I Q (SiteProgram.optionalCurrent >>= f) s := by
  rw [SiteProgram.optionalCurrent, Program.bind_assoc]
  refine .observe_bind rfl hI ?_
  by_cases hcurrent : s.current = none
  · rw [if_pos hcurrent]
    exact hcurrent ▸ hf
  · rw [if_neg hcurrent, Program.bind_assoc]
    exact currentRelease_keeps hI fun name hname => hname ▸ hf

theorem activationJournal_keeps {f : Journal → SiteProgram β} (hI : I s)
    (hf : ∀ j, s.journal = some j → Keeps FileOp.perform I Q (f j) s) :
    Keeps FileOp.perform I Q (SiteProgram.activationJournal >>= f) s := by
  rw [SiteProgram.activationJournal, Program.bind_assoc]
  refine .observe_bind rfl hI ?_
  cases hjournal : s.journal with
  | none => exact .raise hI
  | some j => exact hf j hjournal

end Rules

/-- A section of the id `id` leaves a sound site, whose journal is the one it found or its own. -/
structure Within (sha256 : Bytes → Digest) (id : Nat) (s t : Site) : Prop where
  sound : Sound sha256 t
  journal : t.journal = s.journal ∨ ∃ j, t.journal = some j ∧ j.activationId = id

theorem Sound.within (h : Sound sha256 s) (id : Nat) : Within sha256 id s s := ⟨h, Or.inl rfl⟩

def activated (s : Site) (id : Nat) (release : ReleaseName) : Site :=
  { s with journal := some { current := release, previous := s.current, activationId := id },
           current := some release, before := s.live }

theorem activateRelease_keeps (id : Nat) (h : Sound sha256 s) (hne : s.current ≠ some release)
    (hwhole : ∀ r, s.find release = some r → r.tree = r.made) :
    Keeps FileOp.perform (Within sha256 id s) (fun _ t => Sound sha256 t ∧ t = activated s id release)
      (activateRelease id release) s := by
  have hI := h.within id
  rw [activateRelease]
  refine .observe_bind rfl hI (.failIf_bind hI fun hfound => optionalCurrent_keeps hI (.command_bind hI ?_))
  obtain ⟨r, hr⟩ : ∃ r, s.find release = some r :=
    Option.ne_none_iff_exists'.mp fun hnone => hfound (Option.isNone_iff_eq_none.mpr hnone)
  have hjournal := h.replaceJournal (j := { current := release, previous := s.current, activationId := id }) hne hne
  have hdone := hjournal.replaceCurrent rfl rfl ⟨r, hr, hwhole r hr⟩
  exact fun _ => ⟨⟨hjournal, Or.inr ⟨_, rfl, rfl⟩⟩, trivial, ⟨hdone, Or.inr ⟨_, rfl, rfl⟩⟩, hdone, rfl⟩

structure Pruned (sha256 : Bytes → Digest) (s t : Site) : Prop where
  sound : Sound sha256 t
  current : t.current = s.current
  journal : t.journal = s.journal

theorem Pruned.needed (h : Pruned sha256 s t) : Needed t name ↔ Needed s name := by
  rw [Needed, Needed, Site.fallback, Site.fallback, h.current, h.journal]

theorem prune_keeps {I : Site → Prop} {touched : RelPath → Nat} {current : ReleaseName} {keep : Nat}
    {previous : Option ReleaseName} (h : Sound sha256 s) (hI : ∀ t, Pruned sha256 s t → I t)
    (hvictims : ∀ r ∈ victims s current keep previous, ¬Needed s r.name) :
    Keeps FileOp.perform I (fun _ => Pruned sha256 s) (prune touched current keep previous) s := by
  have hs : Pruned sha256 s s := ⟨h, rfl, rfl⟩
  refine .observe_bind rfl (hI s hs) (.forM hI (fun r hr t ht => ?_) hs)
  refine .bind (R := fun _ => Pruned sha256 s) (.forM hI (fun f _ u hu => ?_) ht) fun _ u hu => ?_
  · have hkept : Pruned sha256 s (FileOp.perform (.unlink r.name f.1 (touched f.1)) u) :=
      ⟨hu.sound.unlink (fun hneeded => hvictims r hr (hu.needed.mp hneeded)) _ _, hu.current, hu.journal⟩
    exact fun _ => ⟨hI u hu, trivial, hI _ hkept, hkept⟩
  · have hkept : Pruned sha256 s (FileOp.perform (.rmdir r.name) u) :=
      ⟨hu.sound.rmdir (fun hneeded => hvictims r hr (hu.needed.mp hneeded)), hu.current, hu.journal⟩
    exact fun _ => ⟨hI u hu, trivial, hI _ hkept, hkept⟩

/-! ### The conditions -/

/-- What is activated is whole, unless it is live; an activation of the live release finds the release that the journal
    names for a rollback among the newest ones. -/
def Activates (s : Site) (prepared : PreparedRelease) : Prop :=
  (s.current ≠ some prepared.release → ∀ r, s.find prepared.release = some r → r.tree = r.made) ∧
    (s.current = some prepared.release → ∀ name, s.fallback = some name → name ∈ newest s prepared.keepReleases)

def PublishResult.Books (result : PublishResult) (id : Nat) (t : Site) : Prop :=
  result.activationId = none ∨ result.activationId = some id ∧ result.changed = true ∧
    t.journal = some { current := result.release, previous := result.previousRelease, activationId := id }

theorem activate_keeps {touched : RelPath → Nat} {prepared : PreparedRelease} (h : Sound sha256 s)
    (hallow : Activates s prepared) :
    Keeps FileOp.perform (Within sha256 id s) (fun result t => Within sha256 id s t ∧ result.Books id t)
      (activate id touched prepared) s := by
  rw [activate]
  refine optionalCurrent_keeps (h.within id) ?_
  by_cases hchanged : s.current = some prepared.release
  · have hI : ∀ t, Pruned sha256 s t → Within sha256 id s t := fun t ht => ⟨ht.sound, Or.inl ht.journal⟩
    rw [if_neg (not_not_intro hchanged), Program.ret_bind]
    refine .bind (prune_keeps h hI fun r hr => ?_) fun _ t ht => ?_
    · -- The live release is the one that is published, and its fallback is kept by the condition.
      have hkept := (List.mem_filter.mp hr).2
      simp only [decide_eq_true_eq, not_or] at hkept
      rintro (hlive | hfallback)
      · exact hkept.2.1 hlive.symm
      · exact hkept.2.2 (hallow.2 hchanged _ hfallback)
    · exact .ret (hI t ht) ⟨hI t ht, Or.inl (if_neg (not_not_intro hchanged))⟩
  · rw [if_pos hchanged]
    refine .bind (activateRelease_keeps _ h hchanged (hallow.1 hchanged)) fun _ t ht => ?_
    obtain ⟨ht, rfl⟩ := ht
    have hI : ∀ u, Pruned sha256 (activated s id prepared.release) u → Within sha256 id s u := fun u hu =>
      ⟨hu.sound, Or.inr ⟨_, hu.journal, rfl⟩⟩
    refine .bind (prune_keeps ht hI fun r hr => ?_) fun _ u hu => ?_
    · have hkept := (List.mem_filter.mp hr).2
      simp only [decide_eq_true_eq, not_or] at hkept
      rintro (hlive | hfallback)
      · exact hkept.1 (Option.some.inj hlive).symm
      · obtain ⟨j, hj, -, hprevious⟩ := Site.fallback_eq_some.mp hfallback
        cases hj
        exact hkept.2.1 hprevious.symm
    · exact .ret (hI u hu) ⟨hI u hu, Or.inr ⟨if_pos hchanged, decide_eq_true hchanged, hu.journal⟩⟩

theorem rollback_keeps {id : Nat} (h : Sound sha256 s) :
    Keeps FileOp.perform (Within sha256 id s) (fun result t => Within sha256 id s t ∧ result.Books id t) (rollback id) s := by
  have hI := h.within id
  rw [rollback]
  refine currentRelease_keeps hI fun current hcurrent => activationJournal_keeps hI fun j hj => ?_
  cases hprevious : j.previous with
  | none => exact .raise hI
  | some previous =>
    refine .failIf_bind hI fun heq => ?_
    have heq : j.current = current := not_not.mp heq
    have hfallback : s.fallback = some previous :=
      Site.fallback_eq_some.mpr ⟨j, hj, hcurrent.trans (congrArg some heq.symm), hprevious⟩
    obtain ⟨r, hwhole, -⟩ := h.fallback previous hfallback
    have hne : s.current ≠ some previous := fun hsame => by
      refine h.distinct j hj ?_
      rw [hprevious, ← hsame, hcurrent, heq]
    refine .bind (activateRelease_keeps _ h hne fun r' hr' => ?_) fun _ t ht => ?_
    · cases hwhole.1.symm.trans hr'
      exact hwhole.2
    · obtain ⟨ht, rfl⟩ := ht
      have hW : Within sha256 id s (activated s id previous) := ⟨ht, Or.inr ⟨_, rfl, rfl⟩⟩
      exact .observe_bind rfl hW (.ret hW ⟨hW, Or.inr ⟨rfl, rfl, by rw [activated, hcurrent]⟩⟩)

variable {result : PublishResult}

theorem compensate_keeps {id : Nat} (h : Sound sha256 s)
    (hbooked : ∀ j, s.journal = some j → result.activationId = some j.activationId → j.current = result.release ∧
      j.previous = result.previousRelease) :
    Keeps FileOp.perform (Within sha256 id s) (fun _ => Within sha256 id s) (compensate id result) s := by
  have hI := h.within id
  rw [compensate]
  split
  · exact .ret hI hI
  refine activationJournal_keeps hI fun j hj => optionalCurrent_keeps hI (.failIf_bind hI fun hsame => ?_)
  obtain ⟨hid, hcurrent⟩ := not_or.mp hsame
  obtain ⟨hrelease, hprevious⟩ := hbooked j hj (not_not.mp hid).symm
  have hlive : s.current = some j.current := (not_not.mp hcurrent).trans (congrArg some hrelease.symm)
  cases hback : result.previousRelease with
  | none =>
    have hW : Within sha256 id s (FileOp.perform .unlinkCurrent s) := ⟨h.unlinkCurrent, Or.inl rfl⟩
    exact fun _ => ⟨hI, trivial, hW, hW⟩
  | some previous =>
    rw [hback] at hprevious
    obtain ⟨r, hwhole, -⟩ := h.fallback previous (Site.fallback_eq_some.mpr ⟨j, hj, hlive, hprevious⟩)
    have hne : s.current ≠ some previous := fun hsame => by
      refine h.distinct j hj ?_
      rw [hprevious, ← hsame, hlive]
    have hkeeps := activateRelease_keeps id h hne fun r' hr' => by
      cases hwhole.1.symm.trans hr'
      exact hwhole.2
    refine fun log => (hkeeps log).mono fun _ _ t ht => ?_
    obtain ⟨ht, rfl⟩ := ht
    exact ⟨ht, Or.inr ⟨_, rfl, rfl⟩⟩

theorem prepare_keeps {id : Nat} {staged : StaticTree} {keepReleases mtime place : Nat} (h : Sound sha256 s) :
    Keeps FileOp.perform (Within sha256 id s) (fun _ => Within sha256 id s) (prepare sha256 staged keepReleases mtime place) s := by
  have hI := h.within id
  rw [prepare]
  refine .observe_bind rfl hI ?_
  cases hfind : s.find (releaseName sha256 staged) with
  | some r => exact .failIf_bind hI fun _ => .ret hI hI
  | none =>
    have hW : Within sha256 id s (FileOp.perform (.rename
        { name := releaseName sha256 staged, tree := staged, made := staged, mtime } place) s) :=
      ⟨h.rename place hfind rfl, Or.inl rfl⟩
    exact .command_bind hI (.ret hW hW)

/-! ### Runs -/

structure World.Sound (sha256 : Bytes → Digest) (w : World) : Prop where
  site : Ops.Sound sha256 w.site
  fresh : ∀ j, w.site.journal = some j → j.activationId < w.nextId
  results : ∀ r ∈ w.results, ∀ id, r.activationId = some id → id < w.nextId ∧ r.changed = true ∧
    ∀ j, w.site.journal = some j → j.activationId = id → j.current = r.release ∧ j.previous = r.previousRelease

variable {w : World}

theorem World.Sound.within (h : w.Sound sha256) {t : Site} (ht : Within sha256 w.nextId w.site t) :
    World.Sound sha256 { w with site := t, nextId := w.nextId + 1 } where
  site := ht.sound
  fresh j hj := by
    rcases ht.journal with heq | ⟨j', hj', hid⟩
    · exact (h.fresh j (heq ▸ hj)).trans (Nat.lt_succ_self _)
    · cases hj'.symm.trans hj
      exact hid ▸ Nat.lt_succ_self _
  results r hr id hid := by
    obtain ⟨hlt, hchanged, hbooked⟩ := h.results r hr id hid
    refine ⟨hlt.trans (Nat.lt_succ_self _), hchanged, fun j hj heq => ?_⟩
    rcases ht.journal with hsame | ⟨j', hj', hid'⟩
    · exact hbooked j (hsame ▸ hj) heq
    · -- A journal that was written just now has an id of its own.
      cases hj'.symm.trans hj
      exact absurd (heq.symm.trans hid') hlt.ne

theorem World.Sound.returns (h : w.Sound sha256) {t : Site}
    (ht : Within sha256 w.nextId w.site t) (hbooks : result.Books w.nextId t) :
    World.Sound sha256 { w with site := t, nextId := w.nextId + 1, results := result :: w.results } where
  site := ht.sound
  fresh := (h.within ht).fresh
  results r hr id hid := by
    rcases List.mem_cons.mp hr with rfl | hr
    · rcases hbooks with hnone | ⟨hsome, hchanged, hjournal⟩
      · rw [hnone] at hid
        cases hid
      · cases hsome.symm.trans hid
        refine ⟨Nat.lt_succ_self _, hchanged, fun j hj _ => ?_⟩
        cases hjournal.symm.trans hj
        exact ⟨rfl, rfl⟩
    · exact (h.within ht).results r hr id hid

theorem World.Sound.section (h : w.Sound sha256) {program : SiteProgram α} {Q : α → Site → Prop}
    {returned : World → α → World} (hkeeps : Keeps FileOp.perform (Within sha256 w.nextId w.site) Q program w.site)
    (hreturned : ∀ a t, Q a t → (returned { w with site := t, nextId := w.nextId + 1 } a).Sound sha256)
    (crash : Option Nat) : (w.section program returned crash).Sound sha256 := by
  cases crash with
  | some n => exact h.within ((hkeeps []).interrupted n)
  | none =>
    obtain ⟨hI, hQ⟩ := hkeeps.run
    rw [World.section]
    cases hrun : program.run FileOp.perform w.site with
    | mk result t =>
      rw [hrun] at hI hQ
      cases result with
      | error e => exact h.within hI
      | ok a => exact hreturned a t (hQ a rfl)

def Allowed (w : World) : SiteOp → Prop
  | .activate prepared _ _ => Activates w.site prepared
  | _ => True

theorem World.Sound.step {w w' : World} {op : SiteOp} (h : w.Sound sha256) (hallow : Allowed w op)
    (hstep : w.step sha256 op = .ok w') : w'.Sound sha256 := by
  cases op with
  | prepare staged keepReleases mtime place crash =>
    cases hstep
    refine h.section (prepare_keeps h.site) (fun p t ht => ?_) crash
    obtain ⟨hsite, hfresh, hresults⟩ := h.within ht
    exact ⟨hsite, hfresh, hresults⟩
  | activate prepared touched crash =>
    simp only [World.step, bind_eq_ok, raiseIf_eq_ok] at hstep
    obtain ⟨-, -, hstep⟩ := hstep
    cases hstep
    exact h.section (activate_keeps h.site hallow) (fun result t ht => h.returns ht.1 ht.2) crash
  | compensate result crash =>
    simp only [World.step, bind_eq_ok, raiseIf_eq_ok, not_not] at hstep
    obtain ⟨-, hresult, hstep⟩ := hstep
    cases hstep
    refine h.section (compensate_keeps h.site fun j hj hid => ?_) (fun _ t ht => h.within ht) crash
    exact (h.results result hresult j.activationId hid).2.2 j hj rfl
  | rollback crash =>
    cases hstep
    exact h.section (rollback_keeps h.site) (fun result t ht => h.returns ht.1 ht.2) crash

theorem World.sound_init : World.Sound sha256 { } where
  site := {
    nodup := List.nodup_nil
    named := fun r hr => by cases hr
    distinct := fun j hj => by cases hj
    live := fun name hname => by cases hname
    fallback := fun name hname => by cases hname }
  fresh := fun j hj => by cases hj
  results := fun r hr => by cases hr

/-! ### Restoring -/

section Run

theorem run_currentRelease {f : ReleaseName → SiteProgram β} (hlive : s.current = some name) (hr : s.find name = some r) :
    (currentRelease >>= f).run FileOp.perform s = (f name).run FileOp.perform s := by
  rw [currentRelease, Program.bind_assoc, run_observe_bind rfl, hlive]
  dsimp only
  rw [Program.bind_assoc, run_failIf_bind (by rw [hr]; exact Bool.false_ne_true)]
  rfl

theorem run_optionalCurrent {f : Option ReleaseName → SiteProgram β} (hlive : s.current = some name)
    (hr : s.find name = some r) : (optionalCurrent >>= f).run FileOp.perform s = (f (some name)).run FileOp.perform s := by
  rw [optionalCurrent, Program.bind_assoc, run_observe_bind rfl, if_neg (by rw [hlive]; exact Option.some_ne_none _),
    Program.bind_assoc, run_currentRelease hlive hr]
  rfl

theorem run_activationJournal {f : Journal → SiteProgram β} (hj : s.journal = some j) :
    (activationJournal >>= f).run FileOp.perform s = (f j).run FileOp.perform s := by
  rw [activationJournal, Program.bind_assoc, run_observe_bind rfl, hj]
  rfl

variable {r' : Release}

theorem run_activateRelease (hr : s.find release = some r) (hlive : s.current = some name)
    (hr' : s.find name = some r') : (activateRelease id release).run FileOp.perform s = (.ok (), activated s id release) := by
  rw [activateRelease, run_observe_bind rfl, run_failIf_bind (by rw [hr]; exact Bool.false_ne_true),
    run_optionalCurrent hlive hr', activated,
    hlive]
  rfl

theorem live_activated (hr : s.find release = some r) : (activated s id release).live = some (release, r.tree) :=
  congrArg (Option.map fun r : Release => (release, r.tree)) hr

theorem run_rollback (id : Nat) (hj : s.journal = some j) (hlive : s.current = some j.current)
    (hr' : s.find j.current = some r') (hname : j.previous = some name) (hr : s.find name = some r) :
    ∃ result, (rollback id).run FileOp.perform s = (.ok result, activated s id name) := by
  rw [rollback, run_currentRelease hlive hr', run_activationJournal hj, hname]
  dsimp only
  rw [run_failIf_bind (not_not_intro rfl), Program.run_bind, run_activateRelease hr hlive hr']
  exact ⟨_, rfl⟩

theorem run_compensate (hj : s.journal = some j) (hlive : s.current = some j.current)
    (hr' : s.find j.current = some r') (hid : result.activationId = some j.activationId) (hchanged : result.changed = true)
    (hcurrent : j.current = result.release) (hname : result.previousRelease = some name) (hr : s.find name = some r) :
    (compensate id result).run FileOp.perform s = (.ok (), activated s id name) := by
  have hsame : ¬(some j.activationId ≠ result.activationId ∨ some j.current ≠ some result.release) := by
    rw [hid, hcurrent, not_or, not_not, not_not]
    exact ⟨rfl, rfl⟩
  rw [compensate, if_neg (not_not_intro hchanged), run_activationJournal hj, run_optionalCurrent hlive hr', run_failIf_bind hsame,
    hname]
  exact run_activateRelease hr hlive hr'

end Run

/-- The live release has the digest it is named after. While the journal names it and the release before it, that release
    is whole, and a rollback and a compensation of the latest activation bring it back. -/
theorem live_release_restorable (h : Reach (World.step sha256) Allowed { } w) :
    (∀ name, w.site.current = some name → ∃ r, w.site.find name = some r ∧ releaseName sha256 r.tree = name) ∧
      ∀ j name, w.site.journal = some j → w.site.current = some j.current → j.previous = some name →
        (∃ r, w.site.find name = some r ∧ r.tree = r.made ∧ w.site.before = some (name, r.tree)) ∧
        (∀ id, ∃ result t, (rollback id).run FileOp.perform w.site = (.ok result, t) ∧ t.live = w.site.before) ∧
        ∀ result ∈ w.results, result.activationId = some j.activationId → ∀ id,
          ∃ t, (compensate id result).run FileOp.perform w.site = (.ok (), t) ∧ t.live = w.site.before := by
  have S : w.Sound sha256 := h.invariant World.sound_init fun hu ha hs => hu.step ha hs
  refine ⟨fun name hname => ?_, fun j name hj hlive hprevious => ?_⟩
  · obtain ⟨r, hr, hwhole⟩ := S.site.live name hname
    obtain ⟨hmem, hkey⟩ := Site.mem_of_find hr
    exact ⟨r, hr, by rw [hwhole, S.site.named r hmem, hkey]⟩
  · obtain ⟨r, ⟨hr, hwhole⟩, hbefore⟩ := S.site.fallback name (Site.fallback_eq_some.mpr ⟨j, hj, hlive, hprevious⟩)
    obtain ⟨r', hr', -⟩ := S.site.live j.current hlive
    have hback : ∀ id, (activated w.site id name).live = w.site.before := fun id => (live_activated hr).trans hbefore.symm
    refine ⟨⟨r, hr, hwhole, hbefore⟩, fun id => ?_, fun result hresult hid id => ?_⟩
    · obtain ⟨result, hrun⟩ := run_rollback id hj hlive hr' hprevious hr
      exact ⟨result, _, hrun, hback id⟩
    · obtain ⟨-, hchanged, hbooked⟩ := S.results result hresult j.activationId hid
      obtain ⟨hcurrent, hback'⟩ := hbooked j hj rfl
      exact ⟨_, run_compensate hj hlive hr' hid hchanged hcurrent (hback'.symm.trans hprevious) hr, hback id⟩

/-! ### Two runs -/

/-- SHA-256 of what a site of one page feeds, for the pages `A`, `B` and `C`, and of nothing. -/
def digestA : Digest where
  digits :=
    [10, 2, 15, 11, 1, 13, 2, 1, 8, 0, 4, 13, 4, 4, 3, 6, 15, 7, 3, 6, 9, 5, 1, 6, 4, 9, 15, 11, 5, 6, 1, 1, 3, 15,
      7, 9, 11, 6, 11, 14, 6, 11, 12, 12, 9, 6, 4, 13, 6, 5, 9, 8, 3, 6, 11, 3, 1, 9, 7, 10, 2, 1, 12, 6]
  length_digits := rfl

def digestB : Digest where
  digits :=
    [7, 1, 1, 6, 0, 2, 1, 13, 9, 3, 8, 10, 11, 12, 2, 3, 0, 11, 1, 0, 6, 12, 7, 3, 5, 15, 9, 12, 8, 11, 10, 5, 14, 9,
      4, 2, 13, 4, 14, 9, 4, 11, 6, 11, 5, 0, 11, 12, 14, 15, 1, 4, 13, 10, 6, 4, 5, 11, 6, 14, 3, 10, 5, 11]
  length_digits := rfl

def digestC : Digest where
  digits :=
    [15, 2, 5, 14, 12, 8, 9, 1, 2, 12, 3, 12, 7, 4, 14, 9, 14, 3, 14, 6, 7, 11, 10, 5, 2, 8, 14, 14, 15, 8, 10, 5, 1,
      2, 2, 10, 1, 4, 2, 15, 9, 14, 0, 9, 12, 13, 14, 5, 10, 14, 5, 15, 3, 10, 10, 2, 14, 8, 15, 7, 2, 13, 4, 15]
  length_digits := rfl

def digestEmpty : Digest where
  digits :=
    [14, 3, 11, 0, 12, 4, 4, 2, 9, 8, 15, 12, 1, 12, 1, 4, 9, 10, 15, 11, 15, 4, 12, 8, 9, 9, 6, 15, 11, 9, 2, 4, 2,
      7, 10, 14, 4, 1, 14, 4, 6, 4, 9, 11, 9, 3, 4, 12, 10, 4, 9, 5, 9, 9, 1, 11, 7, 8, 5, 2, 11, 8, 5, 5]
  length_digits := rfl

def pageOf (letter : Char) : StaticTree where
  files := [(indexHtml, [letter.toNat.toUInt8])]
  apart := List.pairwise_singleton _ _

def pageHash (b : Bytes) : Digest :=
  if b = (pageOf 'A').feed then digestA
  else if b = (pageOf 'B').feed then digestB
  else if b = (pageOf 'C').feed then digestC
  else digestEmpty

def preparedPage (letter : Char) : PreparedRelease where
  release := releaseName pageHash (pageOf letter)
  keepReleases := 2
  files := 1
  bytes := 1

/-- `publish`. -/
def publishOps (letter : Char) (mtime : Nat) : List SiteOp :=
  [.prepare (pageOf letter) 2 mtime 0 none, .activate (preparedPage letter) (fun _ => 0) none]

/-- `A` and `B` are published, `B` is rolled back, and `C` is published twice. -/
def republished : List SiteOp :=
  publishOps 'A' 1 ++ publishOps 'B' 2 ++ [.rollback none] ++ publishOps 'C' 3 ++ publishOps 'C' 4

/-- `A` is prepared once more, and activated after a pruning that died while it removed `A`. -/
def interruptedPruning : List SiteOp :=
  publishOps 'A' 1 ++ publishOps 'B' 2 ++
    [.prepare (pageOf 'A') 2 3 0 none, .prepare (pageOf 'C') 2 4 0 none,
     .activate (preparedPage 'C') (fun _ => 0) (some 9), .activate (preparedPage 'A') (fun _ => 0) none]

def lostFallback (w : World) : Bool :=
  w.site.current = some (preparedPage 'C').release &&
    (w.site.journal.map fun j => (j.current, j.previous)) = some ((preparedPage 'C').release, some (preparedPage 'A').release) &&
    (w.site.find (preparedPage 'A').release).isNone &&
    raises "activation target is not a retained release" ((rollback w.nextId).run FileOp.perform w.site).1

def brokenLive (w : World) : Bool :=
  w.site.current = some (preparedPage 'A').release &&
    (w.site.find (preparedPage 'A').release).any fun r => releaseName pageHash r.tree ≠ (preparedPage 'A').release

theorem reach_of_ends (ops : List SiteOp) (p : World → Bool) (h : ends p (runOps (World.step pageHash) { } ops) = true) :
    ∃ w, Reach (World.step pageHash) (fun _ _ => True) { } w ∧ p w = true := by
  obtain ⟨w, hw, hp⟩ := exists_of_ends h
  exact ⟨w, reach_of_runOps (fun _ _ _ => trivial) hw, hp⟩

/-- The second publication of the live release prunes the one that a rollback needs; a release that a pruning left broken
    goes live. -/
theorem live_release_lost :
    (∃ w : World, Reach (World.step pageHash) (fun _ _ => True) { } w ∧ ∃ j name, w.site.journal = some j ∧
      w.site.current = some j.current ∧ j.previous = some name ∧ w.site.find name = none ∧
      ((rollback w.nextId).run FileOp.perform w.site).1 = .error "activation target is not a retained release") ∧
    ∃ w : World, Reach (World.step pageHash) (fun _ _ => True) { } w ∧ ∃ name r, w.site.current = some name ∧
      w.site.find name = some r ∧ releaseName pageHash r.tree ≠ name := by
  constructor
  · obtain ⟨w, hw, hlost⟩ := reach_of_ends republished lostFallback (by decide +kernel)
    simp only [lostFallback, Bool.and_eq_true, decide_eq_true_eq, Option.isNone_iff_eq_none] at hlost
    obtain ⟨⟨⟨hcurrent, hjournal⟩, hfind⟩, hraises⟩ := hlost
    obtain ⟨j, hj, hnames⟩ := Option.map_eq_some_iff.mp hjournal
    obtain ⟨hname, hprevious⟩ := Prod.mk.inj hnames
    exact ⟨w, hw, j, _, hj, hname ▸ hcurrent, hprevious, hfind, eq_error_of_raises hraises⟩
  · obtain ⟨w, hw, hbroken⟩ := reach_of_ends interruptedPruning brokenLive (by decide +kernel)
    simp only [brokenLive, Bool.and_eq_true, decide_eq_true_eq, Option.any_eq_true] at hbroken
    obtain ⟨hcurrent, r, hr, hne⟩ := hbroken
    exact ⟨w, hw, _, r, hcurrent, hr, hne⟩

instance : DecidableEq StaticTree := fun tree tree' =>
  decidable_of_iff (tree.files = tree'.files) ⟨fun h => by cases tree; cases tree'; cases h; rfl, congrArg _⟩

instance (s : Site) (prepared : PreparedRelease) : Decidable (Activates s prepared) :=
  inferInstanceAs (Decidable
    ((s.current ≠ some prepared.release → ∀ r ∈ s.find prepared.release, r.tree = r.made) ∧
      (s.current = some prepared.release → ∀ name ∈ s.fallback, name ∈ newest s prepared.keepReleases)))

instance (w : World) : (op : SiteOp) → Decidable (Allowed w op)
  | .activate prepared _ _ => inferInstanceAs (Decidable (Activates w.site prepared))
  | .prepare .. | .compensate .. | .rollback _ => isTrue trivial

def servesB (w : World) : Bool :=
  w.site.current = some (preparedPage 'B').release &&
    (w.site.journal.map fun j => (j.current, j.previous)) = some ((preparedPage 'B').release, some (preparedPage 'A').release) &&
    w.results.any fun result => result.activationId = w.site.journal.map (·.activationId)

/-- A site that published `A` and then `B`, and can go back to `A`. -/
theorem live_release_restorable_pages :
    ∃ (w : World) (r : Release), w.site.current = some (preparedPage 'B').release ∧
      w.site.find (preparedPage 'B').release = some r ∧ releaseName pageHash r.tree = (preparedPage 'B').release ∧
      (∀ id, ∃ result t, (rollback id).run FileOp.perform w.site = (.ok result, t) ∧ t.live = w.site.before) ∧
      ∃ result ∈ w.results, ∀ id, ∃ t, (compensate id result).run FileOp.perform w.site = (.ok (), t) ∧ t.live = w.site.before := by
  have hrun : ends servesB (runOps (fun w op => if Allowed w op then World.step pageHash w op else .error ()) { }
      (publishOps 'A' 1 ++ publishOps 'B' 2)) = true := by decide +kernel
  obtain ⟨w, hw, hserves⟩ := exists_of_ends hrun
  simp only [servesB, Bool.and_eq_true, decide_eq_true_eq, List.any_eq_true] at hserves
  obtain ⟨⟨hcurrent, hjournal⟩, result, hresult, hid⟩ := hserves
  obtain ⟨j, hj, hnames⟩ := Option.map_eq_some_iff.mp hjournal
  obtain ⟨hname, hprevious⟩ := Prod.mk.inj hnames
  obtain ⟨hwhole, hback⟩ := live_release_restorable (reach_of_guarded hw)
  obtain ⟨r, hr, hdigest⟩ := hwhole _ hcurrent
  obtain ⟨-, hrollback, hcompensate⟩ := hback j _ hj (hname ▸ hcurrent) hprevious
  exact ⟨w, r, hcurrent, hr, hdigest, hrollback, result, hresult, hcompensate result hresult (by rw [hid, hj]; rfl)⟩

end Vuzol.Ops
