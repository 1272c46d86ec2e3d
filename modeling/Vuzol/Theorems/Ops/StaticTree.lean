import Vuzol.Ops.StaticTree

/-! Which trees their digest identifies. A file is fed without its length, so that the end of a content can be read as the
    next file, and a next file as the end of a content. -/

namespace Vuzol.Ops

open Vuzol.Lib

namespace RelPath

theorem ext_parts {p q : RelPath} (h : p.parts = q.parts) : p = q := by
  cases p
  cases q
  cases h
  rfl

theorem encode_inj {p q : RelPath} (h : p.encode = q.encode) : p = q := by
  have htext : ['/'].intercalate p.parts = ['/'].intercalate q.parts := by
    have hstring := congrArg decodeUtf8 h
    rw [encode, encode, encodeParts, encodeParts, decodeUtf8_utf8, decodeUtf8_utf8] at hstring
    exact String.ofList_injective (Option.some.inj hstring)
  refine ext_parts ?_
  rw [← List.splitOn_intercalate '/' p.slash_not_mem p.parts_ne_nil, htext,
    List.splitOn_intercalate '/' q.slash_not_mem q.parts_ne_nil]

theorem Apart.symm {p q : RelPath} (h : p.Apart q) : q.Apart p := ⟨h.2, h.1⟩

theorem Apart.ne {p q : RelPath} (h : p.Apart q) : p.parts ≠ q.parts := fun heq => h.1 (heq ▸ List.prefix_refl _)

end RelPath

def pathFeed (path : RelPath) : Bytes := packBE 4 path.encode.length ++ path.encode

theorem fileFeed_eq (f : File) : StaticTree.fileFeed f = pathFeed f.1 ++ f.2 := rfl

theorem pathFeed_append_inj {p q : RelPath} {x y : Bytes} (h : pathFeed p ++ x = pathFeed q ++ y) : p = q ∧ x = y := by
  rw [pathFeed, pathFeed, List.append_assoc, List.append_assoc] at h
  obtain ⟨hlen, h⟩ := List.append_inj h (by rw [length_packBE, length_packBE])
  obtain ⟨hpath, hrest⟩ := List.append_inj h (packBE_inj p.length_lt q.length_lt hlen)
  exact ⟨RelPath.encode_inj hpath, hrest⟩

theorem pathFeed_ne_nil (path : RelPath) (x : Bytes) : pathFeed path ++ x ≠ [] := fun h => by
  have hlen := congrArg List.length h
  rw [pathFeed, List.length_append, List.length_append, length_packBE] at hlen
  cases (Nat.add_eq_zero_iff.mp (Nat.add_eq_zero_iff.mp hlen).1).1

namespace StaticTree

variable {files : List File}

abbrev Before (f g : File) : Prop := f.1.parts ≤ g.1.parts

instance : Std.Total Before := ⟨fun _ _ => le_total _ _⟩
instance : IsTrans File Before := ⟨fun _ _ _ => le_trans⟩

theorem sortedFiles_perm (files : List File) : (sortedFiles files).Perm files := List.perm_insertionSort _ _

theorem sortedFiles_eq (h : files.Pairwise Before) : sortedFiles files = files :=
  List.Pairwise.insertionSort_eq h

theorem sortedFiles_pairwise (tree : StaticTree) :
    (sortedFiles tree.files).Pairwise fun f g => f.1.parts < g.1.parts ∧ f.1.Apart g.1 := by
  have hsorted : (sortedFiles tree.files).Pairwise Before := List.pairwise_insertionSort Before tree.files
  have hapart : (sortedFiles tree.files).Pairwise fun f g => f.1.Apart g.1 :=
    tree.apart.perm (sortedFiles_perm tree.files).symm RelPath.Apart.symm
  exact hsorted.and hapart |>.imp fun ⟨hle, hapart⟩ => ⟨lt_of_le_of_ne hle hapart.ne, hapart⟩

def ofSorted (files : List File) (h : files.Pairwise fun f g => f.1.parts < g.1.parts ∧ f.1.Apart g.1) : StaticTree where
  files := files
  apart := h.imp And.right

theorem feed_ofSorted (h : files.Pairwise fun f g => f.1.parts < g.1.parts ∧ f.1.Apart g.1) :
    (ofSorted files h).feed = files.flatMap fileFeed := by
  rw [feed, ofSorted, sortedFiles_eq (h.imp fun ⟨hlt, _⟩ => hlt.le)]

/-- The content of `path` can be cut where it reads like a later file. -/
def Hides (path : RelPath) (content : Bytes) : Prop :=
  ∃ x q y, content = x ++ (pathFeed q ++ y) ∧ path.parts < q.parts ∧ path.Apart q

def Identified (tree : StaticTree) : Prop :=
  tree.files = [] ∨ ∃ f, tree.files = [f] ∧ ¬Hides f.1 f.2

theorem perm_of_feed_nil {tree : StaticTree} (h : tree.feed = []) : tree.files = [] := by
  cases hfiles : sortedFiles tree.files with
  | nil => exact (hfiles ▸ sortedFiles_perm tree.files).symm.eq_nil
  | cons f rest =>
    rw [feed, hfiles, List.flatMap_cons, fileFeed_eq, List.append_assoc] at h
    exact absurd h (pathFeed_ne_nil _ _)

theorem eq_or_hides {tree : StaticTree} {f : File} (h : tree.feed = fileFeed f) : tree.files = [f] ∨ Hides f.1 f.2 := by
  have hpair := tree.sortedFiles_pairwise
  cases hfiles : sortedFiles tree.files with
  | nil =>
    rw [feed, hfiles, List.flatMap_nil, fileFeed_eq] at h
    exact absurd h.symm (pathFeed_ne_nil _ _)
  | cons g rest =>
    rw [hfiles] at hpair
    rw [feed, hfiles, List.flatMap_cons, fileFeed_eq, fileFeed_eq, List.append_assoc] at h
    obtain ⟨hpath, hcontent⟩ := pathFeed_append_inj h
    cases rest with
    | nil =>
      rw [List.flatMap_nil, List.append_nil] at hcontent
      have hone : sortedFiles tree.files = [f] := by
        rw [hfiles]
        exact congrArg (· :: []) (Prod.ext hpath hcontent)
      exact Or.inl (hone ▸ sortedFiles_perm tree.files).singleton_eq.symm
    | cons q rest =>
      obtain ⟨hlt, hapart⟩ := (List.pairwise_cons.mp hpair).1 q List.mem_cons_self
      rw [List.flatMap_cons, fileFeed_eq, List.append_assoc] at hcontent
      rw [← hpath]
      exact Or.inr ⟨g.2, q.1, _, hcontent.symm, hlt, hapart⟩

theorem merged {f g : File} (h : (files ++ [f, g]).Pairwise fun f g => f.1.parts < g.1.parts ∧ f.1.Apart g.1) :
    ∃ tree : StaticTree, tree.feed = (files ++ [f, g]).flatMap fileFeed ∧ tree.files.length = files.length + 1 := by
  have hinit : (files ++ [(f.1, f.2 ++ fileFeed g)]).Pairwise fun f g => f.1.parts < g.1.parts ∧ f.1.Apart g.1 := by
    rw [List.pairwise_append] at h ⊢
    exact ⟨h.1, List.pairwise_singleton _ _, fun e he e' he' =>
      List.mem_singleton.mp he' ▸ h.2.2 e he f List.mem_cons_self⟩
  refine ⟨ofSorted _ hinit, ?_, ?_⟩
  · rw [feed_ofSorted, List.flatMap_append, List.flatMap_append, List.flatMap_cons, List.flatMap_cons, List.flatMap_cons,
      fileFeed_eq, fileFeed_eq f, List.append_assoc, List.append_assoc, List.append_assoc]
  · exact List.length_append

theorem hides_collides {f : File} (h : Hides f.1 f.2) :
    ∃ tree : StaticTree, tree.feed = fileFeed f ∧ tree.files.length = 2 := by
  obtain ⟨x, q, y, hcontent, hlt, hapart⟩ := h
  refine ⟨ofSorted [(f.1, x), (q, y)] (List.pairwise_pair.mpr ⟨hlt, hapart⟩), ?_, rfl⟩
  rw [feed_ofSorted, List.flatMap_cons, List.flatMap_cons, List.flatMap_nil, List.append_nil, fileFeed_eq, fileFeed_eq,
    fileFeed_eq, hcontent, List.append_assoc]

theorem identified_iff (tree : StaticTree) :
    (∀ tree' : StaticTree, tree'.feed = tree.feed → tree'.files.Perm tree.files) ↔ tree.Identified := by
  have hperm := sortedFiles_perm tree.files
  constructor
  · intro hsame
    rcases List.eq_nil_or_concat (sortedFiles tree.files) with hnil | ⟨init, g, hlast⟩
    · exact Or.inl (hnil ▸ hperm).symm.eq_nil
    rw [List.concat_eq_append] at hlast
    rcases List.eq_nil_or_concat init with rfl | ⟨files, f, rfl⟩
    · have hfiles : tree.files = [g] := (hlast ▸ hperm).singleton_eq.symm
      have hfeed : tree.feed = fileFeed g := by rw [feed, hlast, List.nil_append, List.flatMap_singleton]
      refine Or.inr ⟨g, hfiles, fun hhides => ?_⟩
      obtain ⟨tree', hfeed', hlen⟩ := hides_collides hhides
      rw [(hsame tree' (hfeed'.trans hfeed.symm)).length_eq, hfiles] at hlen
      cases hlen
    · -- The last two files can always be read as one.
      have htwo : sortedFiles tree.files = files ++ [f, g] := by
        rw [hlast, List.concat_eq_append, List.append_assoc]
        rfl
      obtain ⟨tree', hfeed', hlen⟩ := merged (htwo ▸ tree.sortedFiles_pairwise)
      have hlen' := (hsame tree' (by rw [hfeed', feed, htwo])).length_eq
      rw [hlen, ← hperm.length_eq, htwo, List.length_append] at hlen'
      cases Nat.add_left_cancel hlen'
  · rintro (hnil | ⟨f, hfiles, hhides⟩) tree' hfeed
    · have hempty : tree.feed = [] := by rw [feed, hnil]; rfl
      rw [hnil, perm_of_feed_nil (hfeed.trans hempty)]
    · have hone : tree.feed = fileFeed f := by
        rw [feed, hfiles, sortedFiles_eq (List.pairwise_singleton _ _), List.flatMap_singleton]
      rcases eq_or_hides (hfeed.trans hone) with heq | hhides'
      · rw [hfiles, heq]
      · exact absurd hhides' hhides

end StaticTree

theorem stage_ok {sha256 : Bytes → Digest} {closed : StaticTree → RelPath → Except StaticPublishError Unit} {source : Source}
    {entrypoint : RelPath} {include_ : List RelPath} {expected : Digest} {staged : StaticTree}
    (h : stage sha256 closed source entrypoint include_ (some expected) = .ok staged) :
    staged.treeDigest sha256 = expected := by
  simp only [stage, bind_eq_ok, raiseIf_eq_ok] at h
  obtain ⟨staging, -, -, -, -, hhash, h⟩ := h
  cases h
  exact Classical.not_not.mp fun hne => hhash ⟨expected, rfl, hne⟩

/-- Two byte strings that a hash function does not tell apart. -/
def Collides (hash : Bytes → Digest) (x y : Bytes) : Prop := x ≠ y ∧ hash x = hash y

/-- The digest of a measured tree identifies it exactly if the tree is `Identified`. A publisher that was given the digest
    of such a tree publishes this tree, or the bytes that the two trees feed to SHA-256 collide. -/
theorem tree_digest_identifies (tree : StaticTree) :
    ((∀ tree' : StaticTree, tree'.feed = tree.feed → tree'.files.Perm tree.files) ↔ tree.Identified) ∧
      (tree.Identified → ∀ (sha256 : Bytes → Digest) closed source entrypoint include_ staged,
        stage sha256 closed source entrypoint include_ (some (tree.treeDigest sha256)) = .ok staged →
        staged.files.Perm tree.files ∨ Collides sha256 staged.feed tree.feed) := by
  refine ⟨tree.identified_iff, fun hid sha256 closed source entrypoint include_ staged hstage => ?_⟩
  by_cases hfeed : staged.feed = tree.feed
  · exact Or.inl (tree.identified_iff.mpr hid staged hfeed)
  · exact Or.inr ⟨hfeed, stage_ok hstage⟩

def robotsTxt : RelPath where
  parts := [['r', 'o', 'b', 'o', 't', 's', '.', 't', 'x', 't']]
  parts_ne_nil := by decide
  part_ne_nil := by decide
  slash_not_mem := by decide
  length_lt := by decide

def approvedTree : StaticTree where
  files := [(indexHtml, utf8 "<h1>Shop</h1>"), (robotsTxt, utf8 "Disallow: /")]
  apart := by decide

def forgedTree : StaticTree where
  files := [(indexHtml, utf8 "<h1>Shop</h1>" ++ pathFeed robotsTxt ++ utf8 "Disallow: /")]
  apart := by decide

def sourceOf (tree : StaticTree) : Source where
  item path := (tree.files.find? (·.1 = path)).map fun f => .file f.2
  below _ := tree.files.map (·.1)

/-- The approved site has two files; a source with one file has its digest, and the publisher takes it. -/
theorem static_digest_collides :
    measuredTree (fun _ _ => .ok ()) (sourceOf approvedTree) indexHtml (some [indexHtml, robotsTxt]) = .ok approvedTree ∧
      forgedTree.feed = approvedTree.feed ∧ ¬forgedTree.files.Perm approvedTree.files ∧
      ∀ sha256 : Bytes → Digest, stage sha256 (fun _ _ => .ok ()) (sourceOf forgedTree) indexHtml [indexHtml, robotsTxt]
        (some (approvedTree.treeDigest sha256)) = .ok forgedTree := by
  have hfeed : forgedTree.feed = approvedTree.feed := by decide +kernel
  have hcopy : copyAllowlist (sourceOf forgedTree) [indexHtml, robotsTxt] = .ok forgedTree := by rfl
  refine ⟨rfl, hfeed, fun hperm => ?_, fun sha256 => ?_⟩
  · cases hperm.length_eq
  · have hhash : forgedTree.treeDigest sha256 = approvedTree.treeDigest sha256 := congrArg sha256 hfeed
    have hentry : requireEntrypoint (fun _ _ => .ok ()) forgedTree indexHtml = .ok () := by rfl
    rw [stage, hcopy, ok_bind, hentry, ok_bind, raiseIf_of_not, ok_bind]
    rintro ⟨expected, hexpected, hne⟩
    cases hexpected
    exact hne hhash

end Vuzol.Ops
