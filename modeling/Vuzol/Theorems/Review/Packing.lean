import Mathlib.Data.List.Sort
import Vuzol.Review.Partitions

/-! The partitions of a manifest are a bounded exact cover of the changed files, and they say whether their content is cut.
    Only the name that stands for a diff without headers is not free for a file. -/

namespace Vuzol.Review

open Vuzol.Lib
open Vuzol.Discussion (RiskLevel)

theorem sorted_perm (paths : List Path) : (sorted paths).Perm paths := List.mergeSort_perm _ _

theorem sorted_pairwise (paths : List Path) : (sorted paths).Pairwise (· ≤ ·) := List.pairwise_mergeSort' (· ≤ ·) paths

theorem sorted_of_pairwise {paths : List Path} (h : paths.Pairwise (· ≤ ·)) : sorted paths = paths :=
  List.mergeSort_of_pairwise (h.imp fun hab => decide_eq_true hab)

theorem sorted_congr {paths paths' : List Path} (h : paths.Perm paths') : sorted paths = sorted paths' :=
  List.Perm.eq_of_pairwise (fun _ _ _ _ => le_antisymm) (sorted_pairwise paths) (sorted_pairwise paths')
    ((sorted_perm paths).trans (h.trans (sorted_perm paths').symm))

variable {path : Path}

theorem slice_eq_nil_of_not_mem {perFile : Slices} (h : path ∉ perFile.map (·.1)) : slice perFile path = [] := by
  rw [slice, List.lookup_eq_none_iff.mpr]
  · rfl
  · intro entry hentry
    have hne : path ≠ entry.1 := fun heq => h (List.mem_map.mpr ⟨entry, hentry, heq.symm⟩)
    simpa using hne

theorem any_of_slice {perFile : Slices} (h : slice perFile path ≠ []) : perFile.any (·.1 == path) = true := by
  by_contra hany
  refine h (slice_eq_nil_of_not_mem fun hmem => hany ?_)
  obtain ⟨entry, hentry, rfl⟩ := List.mem_map.mp hmem
  exact List.any_eq_true.mpr ⟨entry, hentry, beq_self_eq_true _⟩

structure Attributable (inspection : GitInspection) (perFile : Slices) : Prop where
  split : splitDiffByFile inspection.diff = .ok perFile
  header : ∃ line ∈ inspection.diff.splitOn 0x0A, diffGitPrefix.isPrefixOf line = true
  delivered : ∀ path ∈ inspection.changedFiles, slice perFile path ≠ []

/-- The partitions are a bounded exact cover of the changed files. -/
structure BoundedCover {δ : Type} (changedFiles : List Path) (perFile : Slices) (maxFiles maxChars : Nat)
    (m : PartitionManifest δ) : Prop where
  ordered : ∀ p ∈ m.partitions, p.files.Pairwise (· ≤ ·)
  disjoint : m.partitions.Pairwise fun p q => p.files.Disjoint q.files
  cover : (m.partitions.flatMap (·.files)).Perm changedFiles
  files : ∀ p ∈ m.partitions, p.files.length ≤ maxFiles
  bytes : ∀ p ∈ m.partitions, (p.files.map fun path => (slice perFile path).length).sum ≤ maxChars ∨ p.files.length = 1
  truncated : ∀ p ∈ m.partitions,
    p.diffTruncated = true ↔ maxChars < charCount (p.files.map (slice perFile)).flatten

section Manifest
variable {δ : Type} {digest : Bytes → δ} {lower : CodePoints → CodePoints} {inspection : GitInspection} {risk : RiskLevel}
  {maxFiles maxChars : Nat} {l1Enabled : Bool} {perFile : Slices} {base result policy : String} {p : Partition δ}

theorem buckets_bounded (hmax : 1 ≤ maxFiles) : ∀ b ∈ bucketsOf inspection maxFiles maxChars perFile,
    b.items.length ≤ maxFiles ∧ (b.load ≤ maxChars ∨ b.items.length = 1) := by
  refine firstFit_forall (fun path _ => ⟨hmax, Or.inr rfl⟩) fun b path _ _ hfits => ?_
  simp only [takes, Bool.and_eq_true, Bool.or_eq_true, decide_eq_true_eq, List.isEmpty_iff] at hfits
  refine ⟨?_, Or.inl (hfits.2.resolve_right b.items_ne_nil)⟩
  show (b.items ++ [path]).length ≤ maxFiles
  rw [List.length_append]
  exact hfits.1

theorem mem_partitions (h : p ∈ (manifestOf digest lower inspection risk maxFiles maxChars l1Enabled perFile base result
    policy).partitions) :
    ∃ b ∈ bucketsOf inspection maxFiles maxChars perFile, ∃ number,
      p = partitionOf digest lower risk maxChars l1Enabled perFile
        (bucketsOf inspection maxFiles maxChars perFile).length number b.items := by
  obtain ⟨⟨b, number⟩, hb, rfl⟩ := List.mem_map.mp h
  exact ⟨b, List.fst_mem_of_mem_zipIdx hb, number, rfl⟩

theorem partitions_files : (manifestOf digest lower inspection risk maxFiles maxChars l1Enabled perFile base result
    policy).partitions.map (·.files) = (bucketsOf inspection maxFiles maxChars perFile).map (·.items) := by
  show (((bucketsOf inspection maxFiles maxChars perFile).zipIdx).map _).map _ = _
  rw [List.map_map]
  conv_rhs => rw [← List.zipIdx_map_fst 0 (bucketsOf inspection maxFiles maxChars perFile), List.map_map]
  rfl

theorem partitions_cover : ((manifestOf digest lower inspection risk maxFiles maxChars l1Enabled perFile base result
    policy).partitions.flatMap (·.files)).Perm inspection.changedFiles := by
  rw [List.flatMap_def, partitions_files, ← List.flatMap_def]
  exact firstFit_perm.trans (sorted_perm _)

theorem partition_ordered (h : p ∈ (manifestOf digest lower inspection risk maxFiles maxChars l1Enabled perFile base result
    policy).partitions) : p.files.Pairwise (· ≤ ·) := by
  obtain ⟨b, hb, number, rfl⟩ := mem_partitions h
  exact (sorted_pairwise _).sublist (firstFit_sublist b hb)

theorem validateManifest_manifestOf (hnodup : inspection.changedFiles.Nodup)
    (hslices : isSingleBlob perFile = false → ∀ path ∈ inspection.changedFiles, slice perFile path ≠ []) :
    validateManifest (manifestOf digest lower inspection risk maxFiles maxChars l1Enabled perFile base result policy)
      (sorted inspection.changedFiles) (some perFile) = .ok () := by
  generalize hm : manifestOf digest lower inspection risk maxFiles maxChars l1Enabled perFile base result policy = m
  have hcover : (m.partitions.flatMap (·.files)).Perm inspection.changedFiles := hm ▸ partitions_cover
  have hordered : ∀ p ∈ m.partitions, p.files.Pairwise (· ≤ ·) := fun p hp => partition_ordered (hm ▸ hp)
  have hseen : (m.partitions.flatMap (·.files)).Nodup := hcover.nodup_iff.mpr hnodup
  have hforM : m.partitions.forM (fun p => raiseIf (sorted p.files ≠ p.files) (Error.notOrdered p.partitionId)) = .ok () :=
    forM_ok fun p hp => raiseIf_of_not (not_not.mpr (sorted_of_pairwise (hordered p hp))) _
  have hsorted : ¬sorted (m.partitions.flatMap (·.files)) ≠ sorted (sorted inspection.changedFiles) :=
    not_not.mpr (sorted_congr (hcover.trans (sorted_perm _).symm))
  rw [validateManifest, hforM, ok_bind]
  dsimp only
  rw [raiseIf_of_not hsorted, ok_bind, raiseIf_of_not (not_not.mpr hseen), ok_bind]
  split
  · rfl
  · rename_i hblob
    refine raiseIf_of_not (not_not.mpr (List.filter_eq_nil_iff.mpr fun path hpath => ?_)) _
    simpa using hslices (Bool.eq_false_iff.mpr hblob) path (hcover.mem_iff.mp hpath)

theorem buildManifest_eq (hsplit : splitDiffByFile inspection.diff = .ok perFile) (hnodup : inspection.changedFiles.Nodup)
    (hslices : isSingleBlob perFile = false → ∀ path ∈ inspection.changedFiles, slice perFile path ≠ []) :
    buildManifest digest lower inspection risk maxFiles maxChars l1Enabled base result policy =
      .ok (manifestOf digest lower inspection risk maxFiles maxChars l1Enabled perFile base result policy) := by
  unfold buildManifest
  rw [hsplit, ok_bind]
  dsimp only
  rw [raiseIf_of_not, ok_bind, validateManifest_manifestOf hnodup hslices, ok_bind]
  rintro ⟨hblob, hmissing⟩
  refine hmissing (List.filter_eq_nil_iff.mpr fun path hpath => ?_)
  rw [any_of_slice (hslices hblob path ((sorted_perm _).mem_iff.mp hpath))]
  decide

theorem partitions_disjoint (hnodup : inspection.changedFiles.Nodup) :
    (manifestOf digest lower inspection risk maxFiles maxChars l1Enabled perFile base result policy).partitions.Pairwise
      fun p q => p.files.Disjoint q.files :=
  (List.nodup_flatMap.mp (partitions_cover.nodup_iff.mpr hnodup)).2

theorem boundedCover_manifestOf (hnodup : inspection.changedFiles.Nodup) (hmax : 1 ≤ maxFiles)
    (hbytes : ∀ b ∈ bucketsOf inspection maxFiles maxChars perFile, b.items.length ≠ 1 →
      b.load = (b.items.map fun path => (slice perFile path).length).sum)
    (htruncated : ∀ p ∈ (manifestOf digest lower inspection risk maxFiles maxChars l1Enabled perFile base result
      policy).partitions, p.diffTruncated = true ↔ maxChars < charCount (p.files.map (slice perFile)).flatten) :
    BoundedCover inspection.changedFiles perFile maxFiles maxChars
      (manifestOf digest lower inspection risk maxFiles maxChars l1Enabled perFile base result policy) where
  ordered _ := partition_ordered
  disjoint := partitions_disjoint hnodup
  cover := partitions_cover
  files p hp := by
    obtain ⟨b, hb, number, rfl⟩ := mem_partitions hp
    exact (buckets_bounded hmax b hb).1
  bytes p hp := by
    obtain ⟨b, hb, number, rfl⟩ := mem_partitions hp
    show (b.items.map fun path => (slice perFile path).length).sum ≤ maxChars ∨ b.items.length = 1
    by_cases hone : b.items.length = 1
    · exact Or.inr hone
    · exact (buckets_bounded hmax b hb).2.imp_left fun hload => hbytes b hb hone ▸ hload
  truncated := htruncated

theorem boundedCover_of_slices (hblob : isSingleBlob perFile = false) (hnodup : inspection.changedFiles.Nodup)
    (hmax : 1 ≤ maxFiles) :
    BoundedCover inspection.changedFiles perFile maxFiles maxChars
      (manifestOf digest lower inspection risk maxFiles maxChars l1Enabled perFile base result policy) := by
  refine boundedCover_manifestOf hnodup hmax (fun b _ _ => ?_) fun p hp => ?_
  · rw [b.load_eq]
    exact congrArg (fun size => (b.items.map size).sum) (funext fun path => if_neg (by simp [hblob]))
  · obtain ⟨b, hb, number, rfl⟩ := mem_partitions hp
    simp [partitionOf, blobOf, hblob]

theorem changed_of_singleBlob (hblob : isSingleBlob perFile = true) (hnodup : inspection.changedFiles.Nodup)
    (hslices : ∀ path ∈ inspection.changedFiles, slice perFile path ≠ []) :
    inspection.changedFiles = [] ∨ inspection.changedFiles = [full] := by
  have hfull : ∀ path ∈ inspection.changedFiles, path = full := by
    intro path hpath
    by_contra hne
    refine hslices path hpath (slice_eq_nil_of_not_mem ?_)
    rw [eq_of_beq hblob, List.mem_singleton]
    exact hne
  cases hc : inspection.changedFiles with
  | nil => exact Or.inl rfl
  | cons path rest =>
    rw [hc] at hfull hnodup
    have hpath := hfull path List.mem_cons_self
    cases rest with
    | nil => exact Or.inr (by rw [hpath])
    | cons next rest =>
      have hnext := hfull next (List.mem_cons_of_mem _ List.mem_cons_self)
      rw [hpath, hnext] at hnodup
      simp at hnodup

theorem buckets_of_singleton (maxFiles maxChars : Nat) (perFile : Slices) (hc : inspection.changedFiles = [path]) :
    (bucketsOf inspection maxFiles maxChars perFile).map (·.items) = [[path]] := by
  rw [bucketsOf, hc, sorted_of_pairwise (List.pairwise_singleton _ _)]
  rfl

theorem buckets_of_nil (hc : inspection.changedFiles = []) : bucketsOf inspection maxFiles maxChars perFile = [] := by
  rw [bucketsOf, hc, sorted_of_pairwise List.Pairwise.nil]
  rfl

theorem boundedCover_of_full (hblob : isSingleBlob perFile = true) (hc : inspection.changedFiles = [full]) (hmax : 1 ≤ maxFiles) :
    BoundedCover inspection.changedFiles perFile maxFiles maxChars
        (manifestOf digest lower inspection risk maxFiles maxChars l1Enabled perFile base result policy) ↔
      ¬maxChars < charCount (slice perFile full) := by
  have hbuckets := buckets_of_singleton maxFiles maxChars perFile hc
  have hlength : (bucketsOf inspection maxFiles maxChars perFile).length = 1 := by
    rw [← List.length_map (·.items), hbuckets, List.length_singleton]
  have hitems : ∀ b ∈ bucketsOf inspection maxFiles maxChars perFile, b.items = [full] := fun b hb =>
    List.mem_singleton.mp (hbuckets ▸ List.mem_map_of_mem hb)
  have hpartition : ∀ p ∈ (manifestOf digest lower inspection risk maxFiles maxChars l1Enabled perFile base result
      policy).partitions, p.files = [full] ∧ p.diffTruncated = false := by
    intro p hp
    obtain ⟨b, hb, number, rfl⟩ := mem_partitions hp
    refine ⟨hitems b hb, ?_⟩
    rw [partitionOf, hlength]
    simp [hblob]
  have hcontent : charCount ([full].map (slice perFile)).flatten = charCount (slice perFile full) := by simp
  constructor
  · intro h hover
    obtain ⟨p, hp⟩ : ∃ p, p ∈ (manifestOf digest lower inspection risk maxFiles maxChars l1Enabled perFile base result
        policy).partitions := by
      apply List.exists_mem_of_length_pos
      rw [← List.length_map (·.files), partitions_files, hbuckets]
      exact Nat.one_pos
    have hflag := (h.truncated p hp).mpr (by rw [(hpartition p hp).1, hcontent]; exact hover)
    rw [(hpartition p hp).2] at hflag
    cases hflag
  · intro hover
    refine boundedCover_manifestOf (by rw [hc]; exact List.nodup_singleton _) hmax (fun b hb hone => ?_) fun p hp => ?_
    · exact absurd (by rw [hitems b hb]; rfl) hone
    · rw [(hpartition p hp).1, (hpartition p hp).2, hcontent]
      exact ⟨fun h => absurd h Bool.false_ne_true, fun h => absurd h hover⟩

theorem boundedCover_of_nil (hc : inspection.changedFiles = []) :
    BoundedCover inspection.changedFiles perFile maxFiles maxChars
      (manifestOf digest lower inspection risk maxFiles maxChars l1Enabled perFile base result policy) := by
  have hnone : (manifestOf digest lower inspection risk maxFiles maxChars l1Enabled perFile base result
      policy).partitions = [] := by
    rw [← List.map_eq_nil_iff (f := (·.files)), partitions_files, buckets_of_nil hc]
    rfl
  constructor
  case disjoint => rw [hnone]; exact List.Pairwise.nil
  case cover => exact partitions_cover
  all_goals
    intro p hp
    rw [hnone] at hp
    cases hp

theorem manifestOf_congr {files : List Path} (h : files.Perm inspection.changedFiles) :
    manifestOf digest lower { inspection with changedFiles := files } risk maxFiles maxChars l1Enabled perFile base result
        policy =
      manifestOf digest lower inspection risk maxFiles maxChars l1Enabled perFile base result policy := by
  have hsize : sizeOf { inspection with changedFiles := files } perFile = sizeOf inspection perFile := by
    funext path
    simp only [sizeOf, h.length_eq]
  unfold manifestOf bucketsOf
  simp only [sorted_congr h]
  rw [hsize]

theorem buildManifest_congr {files : List Path} (h : files.Perm inspection.changedFiles) :
    buildManifest digest lower { inspection with changedFiles := files } risk maxFiles maxChars l1Enabled base result policy =
      buildManifest digest lower inspection risk maxFiles maxChars l1Enabled base result policy := by
  unfold buildManifest
  simp only [sorted_congr h, manifestOf_congr h]

/-- For attributable slices of distinct files the manifest is a bounded exact cover, in whatever order the files are listed,
    unless the only file is called `__full__` and is over the limit. -/
theorem packing_bounded_exact_cover (hattr : Attributable inspection perFile) (hnodup : inspection.changedFiles.Nodup)
    (hmax : 1 ≤ maxFiles) :
    (∃ m, buildManifest digest lower inspection risk maxFiles maxChars l1Enabled base result policy = .ok m ∧
        BoundedCover inspection.changedFiles perFile maxFiles maxChars m ∧
        ∀ files : List Path, files.Perm inspection.changedFiles →
          buildManifest digest lower { inspection with changedFiles := files } risk maxFiles maxChars l1Enabled base result
            policy = .ok m) ↔
      ¬(inspection.changedFiles = [full] ∧ isSingleBlob perFile = true ∧ maxChars < charCount (slice perFile full)) := by
  have hbuild : buildManifest digest lower inspection risk maxFiles maxChars l1Enabled base result policy =
      .ok (manifestOf digest lower inspection risk maxFiles maxChars l1Enabled perFile base result policy) :=
    buildManifest_eq hattr.split hnodup fun _ => hattr.delivered
  constructor
  · rintro ⟨m, hm, hcover, -⟩ ⟨hc, hblob, hover⟩
    rw [hbuild] at hm
    cases hm
    exact (boundedCover_of_full hblob hc hmax).mp hcover hover
  · intro hcond
    refine ⟨_, hbuild, ?_, fun files hfiles => (buildManifest_congr hfiles).trans hbuild⟩
    cases hblob : isSingleBlob perFile with
    | false => exact boundedCover_of_slices hblob hnodup hmax
    | true =>
      rcases changed_of_singleBlob hblob hnodup hattr.delivered with hc | hc
      · exact boundedCover_of_nil hc
      · exact (boundedCover_of_full hblob hc hmax).mpr fun hover => hcond ⟨hc, hblob, hover⟩

end Manifest

def bareHeader (path : String) : Bytes := ascii ("diff --git a/" ++ path ++ " b/" ++ path ++ "\n")

def twoFiles : GitInspection where
  changedFiles := [codePoints "b", codePoints "a"]
  diff := bareHeader "a" ++ bareHeader "b"

def twoSlices : Slices := [(codePoints "a", bareHeader "a"), (codePoints "b", bareHeader "b")]

theorem packing_bounded_exact_cover_two :
    ∃ m, buildManifest id id twoFiles .low 1 100 true "" "" "" = .ok m ∧
      BoundedCover twoFiles.changedFiles twoSlices 1 100 m := by
  have hattr : Attributable twoFiles twoSlices :=
    ⟨by decide +kernel, ⟨ascii "diff --git a/a b/a", by decide +kernel⟩, by decide +kernel⟩
  obtain ⟨m, hm, hcover, -⟩ :=
    (@packing_bounded_exact_cover _ id id _ .low _ 100 true _ "" "" "" hattr (by decide) (Nat.le_refl 1)).mpr
      (by decide +kernel)
  exact ⟨m, hm, hcover⟩

def fullFile : GitInspection where
  changedFiles := [full]
  diff := bareHeader "__full__"

def fullSlices : Slices := [(full, bareHeader "__full__")]

/-- The header of this file has more than ten characters, but the partition of the file is not marked as cut. -/
theorem full_file_unmarked :
    Attributable fullFile fullSlices ∧ fullFile.changedFiles.Nodup ∧
      ∃ m, buildManifest id id fullFile .low 1 10 true "" "" "" = .ok m ∧
        ¬BoundedCover fullFile.changedFiles fullSlices 1 10 m := by
  have hattr : Attributable fullFile fullSlices :=
    ⟨by decide +kernel, ⟨ascii "diff --git a/__full__ b/__full__", by decide +kernel⟩, by decide +kernel⟩
  have hnodup : fullFile.changedFiles.Nodup := List.nodup_singleton _
  refine ⟨hattr, hnodup, _, buildManifest_eq hattr.split hnodup fun _ => hattr.delivered, fun hcover => ?_⟩
  exact (boundedCover_of_full (by decide +kernel) rfl (Nat.le_refl 1)).mp hcover (by decide +kernel)

end Vuzol.Review
