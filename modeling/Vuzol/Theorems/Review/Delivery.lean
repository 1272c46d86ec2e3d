import Mathlib.Data.List.Perm.Subperm
import Vuzol.Theorems.Review.Headers
import Vuzol.Theorems.Review.Packing

/-! The slices of a diff by files: every section of the diff reaches a reviewer unless a path has two of them, or a character
    that the reader of headers does not know. -/

namespace Vuzol.Review

open Vuzol.Lib
open Vuzol.Discussion (RiskLevel)

structure FileSection where
  path : Bytes
  lines : List Bytes
  whole : ∀ line ∈ lines, 0x0A ∉ line
  body : ∀ line ∈ lines, diffGitPrefix.isPrefixOf line = false

namespace FileSection

def file (s : FileSection) : Path := decode surrogateescape s.path

def readAs (s : FileSection) : Path := decode surrogateescape (s.path.map misread)

def Readable (s : FileSection) : Prop := ∀ b ∈ s.path, misread b = b

def rows (q : Bool) (s : FileSection) : List Bytes := gitHeader q s.path :: s.lines

def bytes (q : Bool) (s : FileSection) : Bytes := (s.rows q).flatMap (· ++ [0x0A])

end FileSection

def diffOf (q : Bool) (ss : List FileSection) : Bytes := ss.flatMap (FileSection.bytes q)

section Sections
variable {q : Bool} {ss : List FileSection} {s : FileSection} {starts : List (Nat × Path)} {offset : Nat} {diff : Bytes}

theorem FileSection.bytes_ne_nil : s.bytes q ≠ [] := by
  rw [FileSection.bytes, FileSection.rows, List.flatMap_cons]
  simp

theorem FileSection.newline_notMem : ∀ row ∈ s.rows q, 0x0A ∉ row := by
  rw [FileSection.rows, List.forall_mem_cons]
  exact ⟨newline_notMem_gitHeader, s.whole⟩

theorem splitOn_rows {rows : List Bytes} (h : ∀ row ∈ rows, 0x0A ∉ row) :
    (rows.flatMap (· ++ [0x0A])).splitOn 0x0A = rows ++ [[]] := by
  induction rows with
  | nil => rfl
  | cons row rows ih =>
    rw [List.flatMap_cons, List.append_assoc, List.singleton_append]
    have hrow : ∀ b ∈ row, (b == 0x0A) = false := by
      intro b hb
      rw [beq_eq_false_iff_ne]
      rintro rfl
      exact h row List.mem_cons_self hb
    rw [List.splitOn, List.splitOnP_append_cons_of_forall_mem (p := (· == 0x0A)) hrow 0x0A (by decide)]
    exact congrArg (row :: ·) (ih fun r hr => h r (List.mem_cons_of_mem _ hr))

theorem splitOn_diffOf : (diffOf q ss).splitOn 0x0A = ss.flatMap (FileSection.rows q) ++ [[]] := by
  have hrows : diffOf q ss = (ss.flatMap (FileSection.rows q)).flatMap (· ++ [0x0A]) := List.flatMap_assoc.symm
  rw [hrows]
  refine splitOn_rows fun row hrow => ?_
  obtain ⟨s, -, hrow⟩ := List.mem_flatMap.mp hrow
  exact FileSection.newline_notMem row hrow

def startsFrom (q : Bool) : Nat → List FileSection → List (Nat × Path)
  | _, [] => []
  | offset, s :: ss => (offset, s.readAs) :: startsFrom q (offset + (s.bytes q).length) ss

theorem startsOf_lines {lines more : List Bytes} (h : ∀ line ∈ lines, diffGitPrefix.isPrefixOf line = false) :
    startsOf offset (lines ++ more) = startsOf (offset + (lines.flatMap (· ++ [0x0A])).length) more := by
  induction lines generalizing offset with
  | nil => rfl
  | cons line lines ih =>
    rw [List.cons_append, startsOf, h line List.mem_cons_self, if_neg Bool.false_ne_true,
      ih fun l hl => h l (List.mem_cons_of_mem _ hl), List.flatMap_cons, List.length_append, List.length_append,
      List.length_singleton, Nat.add_assoc, Nat.add_assoc, Nat.add_assoc]

theorem startsOf_sections : startsOf offset (ss.flatMap (FileSection.rows q) ++ [[]]) = .ok (startsFrom q offset ss) := by
  induction ss generalizing offset with
  | nil =>
    rw [List.flatMap_nil, List.nil_append, startsOf, if_neg (by decide)]
    rfl
  | cons s ss ih =>
    rw [List.flatMap_cons, FileSection.rows, List.cons_append, List.cons_append, startsOf, if_pos diffGitPrefix_isPrefixOf,
      parseHeaderPath_gitHeader, ok_bind, List.append_assoc, startsOf_lines s.body, ih, ok_bind]
    have hlength : offset + (gitHeader q s.path).length + 1 + (s.lines.flatMap (· ++ [0x0A])).length =
        offset + (s.bytes q).length := by
      rw [FileSection.bytes, FileSection.rows, List.flatMap_cons, List.length_append, List.length_append,
        List.length_singleton, Nat.add_assoc, Nat.add_assoc, Nat.add_assoc]
    rw [hlength]
    rfl

theorem slicesOf_sections (q : Bool) (ss : List FileSection) (pre : Bytes) :
    slicesOf (pre ++ diffOf q ss) (startsFrom q pre.length ss) = ss.map fun s => (s.readAs, s.bytes q) := by
  induction ss generalizing pre with
  | nil => rfl
  | cons s ss ih =>
    have hdiff : pre ++ diffOf q (s :: ss) = (pre ++ s.bytes q) ++ diffOf q ss := by
      rw [List.append_assoc]
      rfl
    have hrest := ih (pre ++ s.bytes q)
    rw [← hdiff, List.length_append] at hrest
    cases ss with
    | nil =>
      show [(s.readAs, (pre ++ diffOf q [s]).drop pre.length)] = _
      rw [List.drop_left, diffOf, List.flatMap_cons, List.flatMap_nil, List.append_nil]
      rfl
    | cons next ss =>
      rw [startsFrom, startsFrom, slicesOf, ← startsFrom, hrest, List.map_cons, Nat.add_sub_cancel_left, List.drop_left,
        diffOf, List.flatMap_cons, List.take_left]
      rfl

end Sections

section Dict
variable {out items : Slices} {item : Path × Bytes}

theorem keys_setItem : (setItem out item).map (·.1) =
    if item.1 ∈ out.map (·.1) then out.map (·.1) else out.map (·.1) ++ [item.1] := by
  have hany : out.any (·.1 == item.1) = true ↔ item.1 ∈ out.map (·.1) := by
    simp only [List.any_eq_true, beq_iff_eq, List.mem_map]
  unfold setItem
  by_cases h : item.1 ∈ out.map (·.1)
  · rw [if_pos (hany.mpr h), if_pos h, List.map_map]
    refine List.map_congr_left fun entry _ => ?_
    by_cases hkey : entry.1 = item.1
    · simp [hkey]
    · simp [hkey]
  · rw [if_neg fun h' => h (hany.mp h'), if_neg h, List.map_append, List.map_singleton]

theorem keys_foldl_setItem (items out : Slices) (hout : (out.map (·.1)).Nodup) :
    ((items.foldl setItem out).map (·.1)).Nodup ∧
      (items.foldl setItem out).map (·.1) ⊆ out.map (·.1) ++ items.map (·.1) := by
  induction items generalizing out with
  | nil => exact ⟨hout, by simp⟩
  | cons item items ih =>
    have hset : ((setItem out item).map (·.1)).Nodup ∧ (setItem out item).map (·.1) ⊆ out.map (·.1) ++ [item.1] := by
      rw [keys_setItem]
      split
      · exact ⟨hout, List.subset_append_left _ _⟩
      · rename_i hnew
        refine ⟨?_, List.Subset.refl _⟩
        rw [List.nodup_append_comm, List.singleton_append, List.nodup_cons]
        exact ⟨hnew, hout⟩
    obtain ⟨hnodup, hsubset⟩ := ih _ hset.1
    refine ⟨hnodup, List.Subset.trans hsubset ?_⟩
    rw [List.map_cons, List.append_cons]
    exact List.append_subset.mpr
      ⟨List.Subset.trans hset.2 (List.subset_append_left _ _), List.subset_append_right _ _⟩

theorem foldl_setItem_of_nodup (h : ((out ++ items).map (·.1)).Nodup) : items.foldl setItem out = out ++ items := by
  induction items generalizing out with
  | nil => rw [List.append_nil]; rfl
  | cons item items ih =>
    have hnew : out.any (·.1 == item.1) = false := by
      rw [List.map_append, List.map_cons] at h
      rw [List.any_eq_false]
      intro entry hentry hkey
      exact (List.nodup_append.mp h).2.2 entry.1 (List.mem_map_of_mem hentry) item.1 List.mem_cons_self (eq_of_beq hkey)
    rw [List.append_cons] at h
    rw [List.foldl_cons, setItem, hnew, if_neg Bool.false_ne_true, ih h, ← List.append_cons]

theorem nodup_of_foldl_setItem (h : items.length ≤ (items.foldl setItem []).length) : (items.map (·.1)).Nodup := by
  obtain ⟨hnodup, hsubset⟩ := keys_foldl_setItem items [] List.nodup_nil
  have hperm := (List.Nodup.subperm hnodup hsubset).perm_of_length_le (by simpa using h)
  exact hperm.nodup_iff.mp hnodup

theorem slice_of_mem (hnodup : (items.map (·.1)).Nodup) (h : item ∈ items) : slice items item.1 = item.2 := by
  have hlookup : items.lookup item.1 = some item.2 := by
    obtain ⟨before, after, rfl⟩ := List.append_of_mem h
    refine List.lookup_eq_some_iff.mpr ⟨before, after, rfl, fun entry hentry => ?_⟩
    rw [List.map_append, List.map_cons] at hnodup
    have hne := (List.nodup_append.mp hnodup).2.2 entry.1 (List.mem_map_of_mem hentry) item.1 List.mem_cons_self
    simpa using Ne.symm hne
  rw [slice, hlookup, Option.getD_some]

end Dict

theorem FileSection.Readable.readAs_eq {s : FileSection} (h : s.Readable) : s.readAs = s.file := by
  rw [FileSection.readAs, List.map_congr_left h, List.map_id', FileSection.file]

theorem FileSection.readable_of_eq_readAs {s s' : FileSection} (h : s.file = s'.readAs) : s.Readable :=
  misread_eq_of_decode_eq h

def Delivered {δ : Type} (q : Bool) (ss : List FileSection) (out : Slices) (m : PartitionManifest δ) : Prop :=
  ((out.map (·.2)).filter (· ≠ [])).Perm (ss.map (FileSection.bytes q)) ∧
    ∃ order : List Bytes, order.Perm (ss.map (FileSection.bytes q)) ∧
      (m.partitions.map fun p => blobOf out p.files).flatten = order.flatten

section Delivery
variable {δ : Type} {digest : Bytes → δ} {lower : CodePoints → CodePoints} {inspection : GitInspection} {risk : RiskLevel}
  {maxFiles maxChars : Nat} {l1Enabled : Bool} {out : Slices} {base result policy : String} {m : PartitionManifest δ}
  {q : Bool} {ss : List FileSection}

def pairs (q : Bool) (ss : List FileSection) : Slices := ss.map fun s => (s.readAs, s.bytes q)

theorem keys_pairs : (pairs q ss).map (·.1) = ss.map FileSection.readAs := List.map_map

theorem splitDiffByFile_diffOf (hss : ss ≠ []) : splitDiffByFile (diffOf q ss) = .ok ((pairs q ss).foldl setItem []) := by
  rw [splitDiffByFile, splitOn_diffOf, startsOf_sections, ok_bind, if_neg]
  · have hslices := slicesOf_sections q ss []
    rw [List.nil_append] at hslices
    rw [← List.length_nil (α := UInt8), hslices]
    rfl
  · cases ss with
    | nil => exact absurd rfl hss
    | cons s ss => exact List.cons_ne_nil _ _

theorem splitDiffByFile_nil : splitDiffByFile (diffOf q []) = .ok [(full, [])] := rfl

theorem buildManifest_ok (hsplit : splitDiffByFile inspection.diff = .ok out)
    (h : buildManifest digest lower inspection risk maxFiles maxChars l1Enabled base result policy = .ok m) :
    m = manifestOf digest lower inspection risk maxFiles maxChars l1Enabled out base result policy ∧
      (isSingleBlob out = true ∨ ∀ path ∈ inspection.changedFiles, path ∈ out.map (·.1)) := by
  unfold buildManifest at h
  simp only [hsplit, ok_bind, bind_eq_ok, raiseIf_eq_ok, Except.ok.injEq] at h
  obtain ⟨-, hmissing, -, -, rfl⟩ := h
  refine ⟨rfl, ?_⟩
  cases hblob : isSingleBlob out with
  | true => exact Or.inl rfl
  | false =>
    refine Or.inr fun path hpath => ?_
    have hnone := not_not.mp fun hne => hmissing ⟨hblob, hne⟩
    have hany := List.filter_eq_nil_iff.mp hnone path ((sorted_perm _).mem_iff.mpr hpath)
    rw [Bool.not_eq_true, Bool.not_eq_false', List.any_eq_true] at hany
    obtain ⟨entry, hentry, hkey⟩ := hany
    exact List.mem_map.mpr ⟨entry, hentry, eq_of_beq hkey⟩

theorem changed_of_singleton {s : FileSection} (hnodup : inspection.changedFiles.Nodup)
    (hfiles : ∀ path, path ∈ inspection.changedFiles ↔ ∃ t ∈ [s], t.file = path) : inspection.changedFiles = [s.file] := by
  have hperm : inspection.changedFiles.Perm [s.file] := by
    refine (List.perm_ext_iff_of_nodup hnodup (List.nodup_singleton _)).mpr fun path => ?_
    rw [hfiles, List.mem_singleton]
    constructor
    · rintro ⟨t, ht, rfl⟩
      rw [List.mem_singleton.mp ht]
    · rintro rfl
      exact ⟨s, List.mem_singleton_self s, rfl⟩
  exact List.perm_singleton.mp hperm

theorem blobs_of_singleton {path : Path} (hblob : isSingleBlob out = true) (hc : inspection.changedFiles = [path]) :
    ((manifestOf digest lower inspection risk maxFiles maxChars l1Enabled out base result policy).partitions.map fun p =>
      blobOf out p.files) = [slice out full] := by
  have hblobs : ((manifestOf digest lower inspection risk maxFiles maxChars l1Enabled out base result
      policy).partitions.map (·.files)).map (blobOf out) = [slice out full] := by
    rw [partitions_files, buckets_of_singleton _ _ _ hc, List.map_singleton, blobOf, if_pos hblob]
  rw [← hblobs, List.map_map]
  rfl

theorem blobs_of_slices (hblob : isSingleBlob out = false) :
    ((manifestOf digest lower inspection risk maxFiles maxChars l1Enabled out base result policy).partitions.map fun p =>
      blobOf out p.files).flatten =
      (((manifestOf digest lower inspection risk maxFiles maxChars l1Enabled out base result
        policy).partitions.flatMap (·.files)).map (slice out)).flatten := by
  generalize (manifestOf digest lower inspection risk maxFiles maxChars l1Enabled out base result policy).partitions = ps
  induction ps with
  | nil => rfl
  | cons p ps ih =>
    rw [List.map_cons, List.flatten_cons, ih, List.flatMap_cons, List.map_append, List.flatten_append, blobOf, hblob,
      if_neg Bool.false_ne_true]

theorem delivered_of_pairs (hdiff : inspection.diff = diffOf q ss) (hnodup : inspection.changedFiles.Nodup)
    (hfiles : ∀ path, path ∈ inspection.changedFiles ↔ ∃ s ∈ ss, s.file = path)
    (hsplit : splitDiffByFile inspection.diff = .ok (pairs q ss)) (hkeys : (ss.map FileSection.readAs).Nodup)
    (hread : (∀ s ∈ ss, s.Readable) ∨ ss.map FileSection.readAs = [full]) :
    ∃ m, buildManifest digest lower inspection risk maxFiles maxChars l1Enabled base result policy = .ok m ∧
      Delivered q ss (pairs q ss) m := by
  have hslice : ∀ s ∈ ss, slice (pairs q ss) s.readAs = s.bytes q := fun s hs =>
    slice_of_mem (keys_pairs ▸ hkeys) (List.mem_map_of_mem hs : (s.readAs, s.bytes q) ∈ pairs q ss)
  have hvalues : (((pairs q ss).map (·.2)).filter (· ≠ [])).Perm (ss.map (FileSection.bytes q)) := by
    have hmap : (pairs q ss).map (·.2) = ss.map (FileSection.bytes q) := List.map_map
    rw [hmap, List.filter_eq_self.mpr]
    intro blob hblob
    obtain ⟨s, -, rfl⟩ := List.mem_map.mp hblob
    exact decide_eq_true FileSection.bytes_ne_nil
  cases hblob : isSingleBlob (pairs q ss) with
  | true =>
    have hone : ss.map FileSection.readAs = [full] := keys_pairs.symm.trans (eq_of_beq hblob)
    obtain ⟨s, rfl⟩ := List.length_eq_one_iff.mp (by simpa using congrArg List.length hone)
    have hs : s.readAs = full := by simpa using hone
    refine ⟨_, buildManifest_eq hsplit hnodup fun h => absurd (hblob.symm.trans h) (by decide), hvalues, [s.bytes q],
      List.Perm.refl _, ?_⟩
    rw [blobs_of_singleton hblob (changed_of_singleton hnodup hfiles), ← hs, hslice s (List.mem_singleton_self s)]
  | false =>
    have hreadable : ∀ s ∈ ss, s.readAs = s.file := fun s hs =>
      (hread.resolve_right fun hone => by
        have htrue : isSingleBlob (pairs q ss) = true := by rw [isSingleBlob, keys_pairs, hone]; decide
        rw [hblob] at htrue
        cases htrue) s hs |>.readAs_eq
    have hfile : ∀ s ∈ ss, slice (pairs q ss) s.file = s.bytes q := fun s hs => hreadable s hs ▸ hslice s hs
    have hfilesPerm : inspection.changedFiles.Perm (ss.map FileSection.file) := by
      have hnodup' : (ss.map FileSection.file).Nodup := by
        rw [← List.map_congr_left hreadable]
        exact hkeys
      refine (List.perm_ext_iff_of_nodup hnodup hnodup').mpr fun path => ?_
      rw [hfiles, List.mem_map]
    refine ⟨_, buildManifest_eq hsplit hnodup fun _ path hpath => ?_, hvalues, _, ?_, blobs_of_slices hblob⟩
    · obtain ⟨s, hs, rfl⟩ := (hfiles path).mp hpath
      rw [hfile s hs]
      exact FileSection.bytes_ne_nil
    · refine ((partitions_cover.trans hfilesPerm).map _).trans ?_
      rw [List.map_map]
      exact List.Perm.of_eq (List.map_congr_left hfile)

/-- For every diff that is a concatenation of sections of the changed files: its slices are the sections and the partitions
    deliver each of them once exactly when no path has two sections and none has one of the five characters that are
    misread, unless the only header is read as the name that stands for a diff without headers. -/
theorem review_delivers_iff (hdiff : inspection.diff = diffOf q ss) (hnodup : inspection.changedFiles.Nodup)
    (hfiles : ∀ path, path ∈ inspection.changedFiles ↔ ∃ s ∈ ss, s.file = path) :
    (∃ out m, splitDiffByFile inspection.diff = .ok out ∧
        buildManifest digest lower inspection risk maxFiles maxChars l1Enabled base result policy = .ok m ∧
        Delivered q ss out m) ↔
      (ss.map FileSection.file).Nodup ∧ ((∀ s ∈ ss, s.Readable) ∨ ss.map FileSection.readAs = [full]) := by
  by_cases hss : ss = []
  · subst hss
    refine iff_of_true ?_ ⟨List.nodup_nil, Or.inl (by simp)⟩
    have hc : inspection.changedFiles = [] := by
      rw [List.eq_nil_iff_forall_not_mem]
      intro path hpath
      obtain ⟨s, hs, -⟩ := (hfiles path).mp hpath
      cases hs
    have hsplit : splitDiffByFile inspection.diff = .ok [(full, [])] := by rw [hdiff, splitDiffByFile_nil]
    refine ⟨_, _, hsplit, buildManifest_eq hsplit hnodup fun h => absurd h (by decide), List.Perm.refl _, [],
      List.Perm.refl _, ?_⟩
    have hnone : (manifestOf digest lower inspection risk maxFiles maxChars l1Enabled [(full, [])] base result
        policy).partitions = [] := by
      rw [← List.map_eq_nil_iff (f := (·.files)), partitions_files, buckets_of_nil hc]
      rfl
    rw [hnone]
    rfl
  have hsplit : splitDiffByFile inspection.diff = .ok ((pairs q ss).foldl setItem []) := by
    rw [hdiff, splitDiffByFile_diffOf hss]
  have hpairs (hkeys : (ss.map FileSection.readAs).Nodup) : (pairs q ss).foldl setItem [] = pairs q ss :=
    foldl_setItem_of_nodup (by rw [List.nil_append, keys_pairs]; exact hkeys)
  constructor
  · rintro ⟨out, m, hout, hbuild, hvalues, -⟩
    rw [hsplit, Except.ok.injEq] at hout
    -- A lost section would leave fewer slices than sections.
    have hkeys : (ss.map FileSection.readAs).Nodup := by
      rw [← keys_pairs (q := q)]
      refine nodup_of_foldl_setItem ?_
      have hlength := hvalues.length_eq
      have hle := List.length_filter_le (fun blob => decide (blob ≠ [])) (out.map (·.2))
      rw [List.length_map] at hlength hle
      rw [hout, pairs, List.length_map, ← hlength]
      exact hle
    rw [hpairs hkeys] at hout
    subst hout
    rcases (buildManifest_ok (hpairs hkeys ▸ hsplit) hbuild).2 with hblob | hall
    · have hone : ss.map FileSection.readAs = [full] := keys_pairs.symm.trans (eq_of_beq hblob)
      obtain ⟨s, rfl⟩ := List.length_eq_one_iff.mp (by simpa using congrArg List.length hone)
      exact ⟨List.nodup_singleton _, Or.inr hone⟩
    · have hreadable : ∀ s ∈ ss, s.Readable := by
        intro s hs
        have hmem := hall s.file ((hfiles s.file).mpr ⟨s, hs, rfl⟩)
        rw [keys_pairs, List.mem_map] at hmem
        obtain ⟨s', -, hs'⟩ := hmem
        exact FileSection.readable_of_eq_readAs hs'.symm
      refine ⟨?_, Or.inl hreadable⟩
      rw [← List.map_congr_left fun s hs => (hreadable s hs).readAs_eq]
      exact hkeys
  · rintro ⟨hdistinct, hread⟩
    have hkeys : (ss.map FileSection.readAs).Nodup := by
      rcases hread with hreadable | hone
      · rw [List.map_congr_left fun s hs => (hreadable s hs).readAs_eq]
        exact hdistinct
      · rw [hone]
        exact List.nodup_singleton _
    rw [hpairs hkeys] at hsplit
    obtain ⟨m, hm, hdelivered⟩ := delivered_of_pairs hdiff hnodup hfiles hsplit hkeys hread
    exact ⟨_, m, hsplit, hm, hdelivered⟩

end Delivery

/-- A section of one line after its header. -/
def shortSection (path : Bytes) (line : String) (h : 0x0A ∉ ascii line ∧ diffGitPrefix.isPrefixOf (ascii line) = false) :
    FileSection where
  path := path
  lines := [ascii line]
  whole := by simpa using h.1
  body := by simpa using h.2

def deleted : FileSection := shortSection (ascii "x") "deleted file mode 100644" (by decide +kernel)

def createdLink : FileSection := shortSection (ascii "x") "new file mode 120000" (by decide +kernel)

def createdOther : FileSection := shortSection (ascii "y") "new file mode 100644" (by decide +kernel)

def renamed : GitInspection where
  changedFiles := [codePoints "x", codePoints "y"]
  diff := diffOf true [deleted, createdOther]

theorem review_delivers_iff_renamed :
    ∃ out m, splitDiffByFile renamed.diff = .ok out ∧ buildManifest id id renamed .low 1 100 true "" "" "" = .ok m ∧
      Delivered true [deleted, createdOther] out m := by
  have hfiles : ∀ path, path ∈ renamed.changedFiles ↔ ∃ s ∈ [deleted, createdOther], s.file = path := by
    intro path
    have hnames : renamed.changedFiles = [deleted.file, createdOther.file] := by decide +kernel
    rw [hnames]
    simp [eq_comm]
  exact (@review_delivers_iff _ id id _ .low 1 100 true "" "" "" _ _ rfl (by decide) hfiles).mpr
    ⟨by decide +kernel, Or.inl (by simp only [FileSection.Readable]; decide +kernel)⟩

def typeChange : GitInspection where
  changedFiles := [codePoints "x"]
  diff := diffOf true [deleted, createdLink]

theorem type_change_loses_section :
    splitDiffByFile typeChange.diff = .ok [(codePoints "x", createdLink.bytes true)] ∧
      ¬∃ out m, splitDiffByFile typeChange.diff = .ok out ∧
        buildManifest id id typeChange .low 1 100 true "" "" "" = .ok m ∧ Delivered true [deleted, createdLink] out m := by
  have hsplit : splitDiffByFile typeChange.diff = .ok [(codePoints "x", createdLink.bytes true)] := by decide +kernel
  refine ⟨hsplit, ?_⟩
  rintro ⟨out, m, hout, -, hvalues, -⟩
  rw [hsplit, Except.ok.injEq] at hout
  subst hout
  have hlength := hvalues.length_eq
  have hle := List.length_filter_le (· ≠ []) [createdLink.bytes true]
  simp only [List.map_cons, List.map_nil, List.length_cons, List.length_nil] at hlength hle
  omega

end Vuzol.Review
