import Vuzol.Review.Chunks
import Vuzol.Review.Partitions

/-! A batch of chunks is accepted exactly when it is complete, and the batch that a request is cut into is. -/

namespace Vuzol.Review

open Vuzol.Lib

/-- The reference ends in `:part-i-of-n`, for two texts of decimal digits; a newline may follow. -/
structure IsPart (decimal : Char → Option (Fin 10)) (reference index total : Text) : Prop where
  index_ne_nil : index ≠ []
  total_ne_nil : total ≠ []
  index_decimal : ∀ c ∈ index, isDecimal decimal c = true
  total_decimal : ∀ c ∈ total, isDecimal decimal c = true
  ends : ∃ start ending : Text, (ending = [] ∨ ending = ['\n']) ∧
    reference = start ++ ":part-".toList ++ index ++ "-of-".toList ++ total ++ ending

section Batches
variable {δ : Type} [DecidableEq δ] (decimal : Char → Option (Fin 10)) (digest : Text → δ)

/-- The chunk is part `p.1` of `p.2`, and its hash is the one of its content. -/
structure Valid (c : ContextItem δ) (p : Int × Int) : Prop where
  hash : c.contentHash = digest c.content
  part : ∃ index total, IsPart decimal c.reference index total ∧ int decimal index = .ok p.1 ∧ int decimal total = .ok p.2

/-- The chunks are `n` parts of `n`, and every index occurs once. -/
structure CompleteBatch (chunks : List (ContextItem δ)) (n : Nat) : Prop where
  positive : 1 ≤ n
  length : chunks.length = n
  parts : ∃ indices : List Int, List.Forall₂ (fun c i => Valid decimal digest c (i, n)) chunks indices ∧
    indices.Perm ((List.range n).map fun k : Nat => (k : Int) + 1)

end Batches

section Ends
variable {decimal : Char → Option (Fin 10)} {p : Char → Bool} {t u ending digits start reference index total : Text} {c : Char}

theorem dropEnd?_eq_some : dropEnd? ending t = some u ↔ t = u ++ ending := by
  unfold dropEnd?
  constructor
  · intro h
    split at h
    · rename_i hsuffix
      obtain ⟨start, rfl⟩ := List.isSuffixOf_iff_suffix.mp hsuffix
      cases h
      rw [List.length_append, Nat.add_sub_cancel, List.take_left]
    · cases h
  · rintro rfl
    rw [if_pos (List.isSuffixOf_iff_suffix.mpr (List.suffix_append _ _)), List.length_append, Nat.add_sub_cancel,
      List.take_left]

theorem rdropWhile_append_rtakeWhile (t : Text) : t.rdropWhile p ++ t.rtakeWhile p = t := by
  rw [List.rdropWhile, List.rtakeWhile, ← List.reverse_append, List.takeWhile_append_dropWhile, List.reverse_reverse]

theorem rtakeWhile_append (start : Text) (hc : p c = false) (hd : ∀ x ∈ digits, p x = true) :
    (start ++ c :: digits).rtakeWhile p = digits ∧ (start ++ c :: digits).rdropWhile p = start ++ [c] := by
  have hreverse : (start ++ c :: digits).reverse = digits.reverse ++ c :: start.reverse := by simp
  have hd' : ∀ x ∈ digits.reverse, p x = true := fun x hx => hd x (List.mem_reverse.mp hx)
  rw [List.rtakeWhile, List.rdropWhile, hreverse, List.takeWhile_append_of_pos hd', List.dropWhile_append_of_pos hd',
    List.takeWhile_cons_of_neg (by rw [hc]; decide), List.dropWhile_cons_of_neg (by rw [hc]; decide)]
  simp

theorem isDecimal_newline : isDecimal decimal '\n' = false := by simp [isDecimal, Char.isDigit]

theorem isDecimal_hyphen (decimal : Char → Option (Fin 10)) : isDecimal decimal '-' = false := by simp [isDecimal, Char.isDigit]

theorem partGroups_eq_some : partGroups decimal reference = some (index, total) ↔ IsPart decimal reference index total := by
  have hpart : ":part-".toList = [':', 'p', 'a', 'r', 't'] ++ ['-'] := by decide
  have hof : "-of-".toList = ['-', 'o', 'f'] ++ ['-'] := by decide
  constructor
  · intro h
    simp only [partGroups, Option.bind_eq_bind, Option.bind_eq_some_iff] at h
    generalize hline : (if reference.getLast? = some '\n' then reference.dropLast else reference) = line at h
    obtain ⟨before, hbefore, start, hstart, h⟩ := h
    split at h
    · cases h
    · rename_i hne
      rw [not_or] at hne
      cases h
      refine ⟨hne.2, hne.1, fun c => List.mem_rtakeWhile_imp, fun c => List.mem_rtakeWhile_imp, start, ?_⟩
      have hjoined : line = start ++ ":part-".toList ++ before.rtakeWhile (isDecimal decimal) ++ "-of-".toList ++
          line.rtakeWhile (isDecimal decimal) := by
        rw [← dropEnd?_eq_some.mp hstart, rdropWhile_append_rtakeWhile, ← dropEnd?_eq_some.mp hbefore,
          rdropWhile_append_rtakeWhile]
      split at hline
      · rename_i hlast
        obtain ⟨init, rfl⟩ := List.getLast?_eq_some_iff.mp hlast
        rw [List.dropLast_concat] at hline
        exact ⟨['\n'], Or.inr rfl, by rw [← hjoined, hline]⟩
      · exact ⟨[], Or.inl rfl, by rw [List.append_nil, ← hjoined, hline]⟩
  · rintro ⟨hindex, htotal, hdi, hdt, start, ending, hending, rfl⟩
    have hline : (if (start ++ ":part-".toList ++ index ++ "-of-".toList ++ total ++ ending).getLast? = some '\n' then
        (start ++ ":part-".toList ++ index ++ "-of-".toList ++ total ++ ending).dropLast
        else start ++ ":part-".toList ++ index ++ "-of-".toList ++ total ++ ending) =
        start ++ ":part-".toList ++ index ++ "-of-".toList ++ total := by
      rcases hending with rfl | rfl
      · rw [List.append_nil, if_neg]
        rw [List.getLast?_append_of_ne_nil _ htotal]
        intro hlast
        have hdecimal := hdt '\n' (List.mem_of_getLast? hlast)
        rw [isDecimal_newline] at hdecimal
        cases hdecimal
      · rw [List.getLast?_concat, if_pos rfl, List.dropLast_concat]
    have htotals := rtakeWhile_append (start ++ ":part-".toList ++ index ++ ['-', 'o', 'f'])
      (isDecimal_hyphen decimal) hdt
    have hindices := rtakeWhile_append (start ++ [':', 'p', 'a', 'r', 't']) (isDecimal_hyphen decimal) hdi
    have hjoin : start ++ ":part-".toList ++ index ++ "-of-".toList ++ total =
        (start ++ ":part-".toList ++ index ++ ['-', 'o', 'f']) ++ '-' :: total := by
      rw [hof]
      simp
    have hjoin' : start ++ ":part-".toList ++ index = (start ++ [':', 'p', 'a', 'r', 't']) ++ '-' :: index := by
      rw [hpart]
      simp
    have hbefore : dropEnd? "-of-".toList (start ++ ":part-".toList ++ index ++ ['-', 'o', 'f'] ++ ['-']) =
        some (start ++ ":part-".toList ++ index) := by
      rw [dropEnd?_eq_some, hof, List.append_assoc _ ['-', 'o', 'f'] ['-']]
    have hstart : dropEnd? ":part-".toList (start ++ [':', 'p', 'a', 'r', 't'] ++ ['-']) = some start := by
      rw [dropEnd?_eq_some, hpart, List.append_assoc]
    unfold partGroups
    rw [hline, hjoin]
    dsimp only [Option.bind_eq_bind]
    rw [htotals.1, htotals.2, hbefore, Option.bind_some, hjoin', hindices.1, hindices.2, hstart, Option.bind_some,
      if_neg (by simp [hindex, htotal])]

theorem IsPart.unique {index' total' : Text} (h : IsPart decimal reference index total)
    (h' : IsPart decimal reference index' total') : index = index' ∧ total = total' := by
  have heq := (partGroups_eq_some.mpr h).symm.trans (partGroups_eq_some.mpr h')
  exact Prod.mk.inj (Option.some.inj heq)

theorem IsPart.length_le (h : IsPart decimal reference index total) : index.length + total.length ≤ reference.length := by
  obtain ⟨start, ending, -, rfl⟩ := h.ends
  simp only [List.length_append]
  omega

theorem int_of_decimal (ht : ∀ c ∈ t, isDecimal decimal c = true) (hne : t ≠ []) (hlength : t.length ≤ 4300) :
    ∃ n, int decimal t = .ok n := by
  have hdigits : ∀ c ∈ t, (toAscii (fun c => (decimal c).map Fin.val) c).isDigit = true := by
    intro c hc
    have hdecimal := ht c hc
    simp only [isDecimal, Bool.or_eq_true, Bool.and_eq_true, decide_eq_true_eq, Bool.not_eq_true'] at hdecimal
    rcases hdecimal with hdigit | ⟨⟨hlarge, hspace⟩, hsome⟩
    · rw [toAscii, if_pos (isDigit_plain hdigit).2.2.2.2]
      exact hdigit
    · obtain ⟨d, hd⟩ := Option.isSome_iff_exists.mp hsome
      rw [toAscii, if_neg (Nat.not_lt.mpr hlarge), hspace, if_neg Bool.false_ne_true, hd]
      have hall : ∀ e : Fin 10, (Nat.digitChar e.val).isDigit = true := by decide
      exact hall d
  exact ⟨_, by rw [int, intOfText_decimal hdigits hne hlength]⟩

end Ends

section Loop
variable {δ : Type} [DecidableEq δ] {decimal : Char → Option (Fin 10)} {digest : Text → δ} {r r' : Receipts}
  {c : ContextItem δ} {chunks : List (ContextItem δ)} {p p' : Int × Int} {ps : List (Int × Int)} {n : Nat}

omit [DecidableEq δ] in
theorem Valid.unique (h : Valid decimal digest c p) (h' : Valid decimal digest c p') : p = p' := by
  obtain ⟨index, total, hpart, hindex, htotal⟩ := h.part
  obtain ⟨index', total', hpart', hindex', htotal'⟩ := h'.part
  obtain ⟨rfl, rfl⟩ := hpart.unique hpart'
  exact Prod.ext (Except.ok.inj (hindex.symm.trans hindex')) (Except.ok.inj (htotal.symm.trans htotal'))

theorem receive_eq_ok : receive decimal digest r c = .ok r' ↔
    c.reference ∉ r.seen ∧ ∃ p, Valid decimal digest c p ∧ r' = r.add c.reference p.1 p.2 := by
  unfold receive
  simp only [bind_eq_ok, raiseIf_eq_ok, ne_eq, not_not]
  constructor
  · rintro ⟨_, hnew, _, hhash, h⟩
    refine ⟨hnew, ?_⟩
    split at h
    · cases h
    · rename_i index total hgroups
      simp only [bind_eq_ok, Except.ok.injEq] at h
      obtain ⟨i, hi, t, ht, rfl⟩ := h
      exact ⟨(i, t), ⟨hhash, index, total, partGroups_eq_some.mp hgroups, hi, ht⟩, rfl⟩
  · rintro ⟨hnew, p, hvalid, rfl⟩
    obtain ⟨index, total, hpart, hindex, htotal⟩ := hvalid.part
    refine ⟨(), hnew, (), hvalid.hash, ?_⟩
    rw [partGroups_eq_some.mpr hpart]
    simp only [hindex, htotal, ok_bind]

theorem foldlM_receive (h : chunks.foldlM (receive decimal digest) r = .ok r') :
    ∃ ps, List.Forall₂ (Valid decimal digest) chunks ps ∧
      (∀ t, t ∈ r'.totals ↔ t ∈ r.totals ∨ t ∈ ps.map Prod.snd) ∧ (r.totals.Nodup → r'.totals.Nodup) ∧
      ∀ i, i ∈ r'.indices ↔ i ∈ r.indices ∨ i ∈ ps.map Prod.fst := by
  induction chunks generalizing r with
  | nil =>
    cases h
    exact ⟨[], .nil, by simp, id, by simp⟩
  | cons c chunks ih =>
    rw [List.foldlM_cons, bind_eq_ok] at h
    obtain ⟨r1, hr1, h⟩ := h
    obtain ⟨-, p, hvalid, rfl⟩ := receive_eq_ok.mp hr1
    obtain ⟨ps, hps, htotals, hnodup, hindices⟩ := ih h
    refine ⟨p :: ps, .cons hvalid hps, fun t => ?_, fun hr => hnodup (hr.insert), fun i => ?_⟩
    · rw [htotals, List.map_cons, List.mem_cons]
      show t ∈ r.totals.insert p.2 ∨ _ ↔ _
      rw [List.mem_insert_iff, or_assoc, or_left_comm]
    · rw [hindices, List.map_cons, List.mem_cons]
      show i ∈ insert p.1 r.indices ∨ _ ↔ _
      rw [Finset.mem_insert, or_assoc, or_left_comm]

theorem exists_foldlM_receive (h : List.Forall₂ (Valid decimal digest) chunks ps)
    (hnodup : (r.seen ++ chunks.map (·.reference)).Nodup) : ∃ r', chunks.foldlM (receive decimal digest) r = .ok r' := by
  induction h generalizing r with
  | nil => exact ⟨r, rfl⟩
  | @cons c p chunks ps hvalid _ ih =>
    rw [List.map_cons] at hnodup
    have hnew : c.reference ∉ r.seen := fun hmem =>
      (List.nodup_append.mp hnodup).2.2 _ hmem _ List.mem_cons_self rfl
    rw [List.append_cons] at hnodup
    obtain ⟨r', hr'⟩ := ih (r := r.add c.reference p.1 p.2) hnodup
    exact ⟨r', by rw [List.foldlM_cons, receive_eq_ok.mpr ⟨hnew, p, hvalid, rfl⟩, ok_bind, hr']⟩

omit [DecidableEq δ] in
theorem nodup_references {indices : List Int} (h : List.Forall₂ (fun c i => Valid decimal digest c (i, n)) chunks indices)
    (hnodup : indices.Nodup) : (chunks.map (·.reference)).Nodup := by
  induction h with
  | nil => exact List.nodup_nil
  | @cons c i chunks indices hvalid hrest ih =>
    rw [List.nodup_cons] at hnodup
    rw [List.map_cons, List.nodup_cons]
    refine ⟨fun hmem => ?_, ih hnodup.2⟩
    obtain ⟨c', hc', hreference⟩ := List.mem_map.mp hmem
    obtain ⟨i', hi', hvalid'⟩ := forall₂_mem hrest hc'
    obtain ⟨index, total, hpart, hindex, -⟩ := hvalid.part
    obtain ⟨index', total', hpart', hindex', -⟩ := hvalid'.part
    rw [hreference] at hpart'
    obtain ⟨rfl, -⟩ := hpart.unique hpart'
    have heq : i = i' := Except.ok.inj (hindex.symm.trans hindex')
    exact hnodup.1 (heq ▸ hi')

theorem mem_indices {k : Int} : k ∈ (List.range n).map (fun k : Nat => (k : Int) + 1) ↔ k ∈ oneTo n := by
  simp [oneTo]

theorem nodup_indices : ((List.range n).map fun k : Nat => (k : Int) + 1).Nodup :=
  List.nodup_range.map fun a b h => by simpa using h

/-- An accepted batch is complete: as many indices as chunks cover all of them, so none occurs twice. -/
theorem completeBatch_of_verify (h : verifyChunkReceipts decimal digest chunks = .ok ()) :
    CompleteBatch decimal digest chunks chunks.length := by
  unfold verifyChunkReceipts at h
  simp only [bind_eq_ok, raiseIf_eq_ok] at h
  obtain ⟨_, hne, r, hr, h⟩ := h
  obtain ⟨ps, hps, htotals, -, hindices⟩ := foldlM_receive hr
  split at h
  · rename_i total htotal
    simp only [raiseIf_eq_ok, not_or, ne_eq, not_not] at h
    obtain ⟨rfl, hcover⟩ := h
    have hsnd : ∀ p ∈ ps, p.2 = (chunks.length : Int) := by
      intro p hp
      have hmem := (htotals p.2).mpr (Or.inr (List.mem_map_of_mem hp))
      rw [htotal] at hmem
      exact List.mem_singleton.mp hmem
    refine ⟨?_, rfl, ps.map Prod.fst, ?_, ?_⟩
    · exact List.length_pos_of_ne_nil fun hnil => hne (by rw [hnil]; rfl)
    · rw [List.forall₂_map_right_iff]
      refine (forall₂_and_mem hps).imp fun c p hvalid => ?_
      rw [← hsnd p hvalid.2]
      exact hvalid.1
    · refine (List.Subperm.perm_of_length_le (List.Nodup.subperm nodup_indices fun k hk => ?_) ?_).symm
      · rw [mem_indices, ← hcover, hindices] at hk
        exact hk.resolve_left (by simp)
      · rw [List.length_map, List.length_map, List.length_range, hps.length_eq]
  · cases h

theorem verify_of_completeBatch (h : CompleteBatch decimal digest chunks n) :
    verifyChunkReceipts decimal digest chunks = .ok () := by
  obtain ⟨hpositive, hlength, indices, hvalid, hperm⟩ := h
  have hpairs : List.Forall₂ (Valid decimal digest) chunks (indices.map fun i => (i, (n : Int))) :=
    List.forall₂_map_right_iff.mpr hvalid
  obtain ⟨r, hr⟩ := exists_foldlM_receive (r := {}) hpairs
    (by rw [List.nil_append]; exact nodup_references hvalid (hperm.nodup_iff.mpr nodup_indices))
  obtain ⟨ps, hps, htotals, hnodup, hindices⟩ := foldlM_receive hr
  have hsame : ps = indices.map fun i => (i, (n : Int)) :=
    forall₂_unique (R := Valid decimal digest) (fun _ _ _ => Valid.unique) hps hpairs
  subst hsame
  have hnonempty : indices ≠ [] := by
    rintro rfl
    have hzero := hvalid.length_eq
    rw [List.length_nil] at hzero
    omega
  have htotal : r.totals = [(n : Int)] := by
    have hmem : ∀ t, t ∈ r.totals ↔ t ∈ [(n : Int)] := by
      intro t
      rw [htotals, List.map_map, List.mem_singleton]
      constructor
      · rintro (h | h)
        · cases h
        · obtain ⟨i, -, rfl⟩ := List.mem_map.mp h
          rfl
      · rintro rfl
        obtain ⟨i, hi⟩ := List.exists_mem_of_ne_nil indices hnonempty
        exact Or.inr (List.mem_map.mpr ⟨i, hi, rfl⟩)
    exact List.perm_singleton.mp
      ((List.perm_ext_iff_of_nodup (hnodup List.nodup_nil) (List.nodup_singleton _)).mpr hmem)
  have hcover : r.indices = oneTo n := by
    ext k
    rw [hindices, List.map_map, ← mem_indices, ← hperm.mem_iff]
    simp
  unfold verifyChunkReceipts
  rw [raiseIf_of_not, ok_bind, hr, ok_bind, htotal]
  · exact raiseIf_of_not (by simp [hlength, hcover]) _
  · rw [List.isEmpty_iff]
    rintro rfl
    rw [← hlength, List.length_nil] at hpositive
    omega

end Loop

section Errors
variable {δ : Type} [DecidableEq δ] {decimal : Char → Option (Fin 10)} {digest : Text → δ} {c : ContextItem δ}
  {chunks : List (ContextItem δ)} {r : Receipts} {cond : Prop} [Decidable cond] {e : ChunkError}

theorem meets_raiseIf (he : e.isReviewError = true) :
    Meets (fun _ => True) (fun e => e.isReviewError = true) (raiseIf cond e) := by
  unfold raiseIf
  split
  · exact he
  · trivial

omit [DecidableEq δ] in
theorem exists_int_of_isPart {index total : Text} (h : IsPart decimal c.reference index total) :
    (∃ i, int decimal index = .ok i) ∧ ∃ t, int decimal total = .ok t := by
  have hlength := h.length_le.trans c.reference_le
  exact ⟨int_of_decimal h.index_decimal h.index_ne_nil (by omega), int_of_decimal h.total_decimal h.total_ne_nil (by omega)⟩

theorem meets_receive : Meets (fun _ => True) (fun e => e.isReviewError = true) (receive decimal digest r c) := by
  unfold receive
  refine (meets_raiseIf rfl).bind fun _ _ => (meets_raiseIf rfl).bind fun _ _ => ?_
  split
  · rfl
  · rename_i index total hgroups
    obtain ⟨⟨i, hi⟩, t, ht⟩ := exists_int_of_isPart (partGroups_eq_some.mp hgroups)
    rw [hi, ok_bind, ht, ok_bind]
    trivial

theorem meets_verify :
    Meets (fun _ => True) (fun e => e.isReviewError = true) (verifyChunkReceipts decimal digest chunks) := by
  unfold verifyChunkReceipts
  refine (meets_raiseIf rfl).bind fun _ _ => ?_
  refine (Meets.foldlM (I := fun _ => True) trivial fun c _ r _ => meets_receive).bind fun r _ => ?_
  split
  · exact meets_raiseIf rfl
  · rfl

end Errors

section Cut
variable {t : Text} {w : Nat}

theorem flatten_windows (t : Text) (w m : Nat) :
    ((List.range m).map fun k => (t.drop (k * w)).take w).flatten = t.take (m * w) := by
  induction m with
  | zero => simp
  | succ m ih =>
    rw [List.range_succ, List.map_append, List.flatten_append, ih, List.map_singleton, List.flatten_singleton,
      Nat.succ_mul, List.take_add]

theorem flatten_cut (hw : 0 < w) : (cut w t).flatten = t := by
  rw [cut, flatten_windows, List.take_of_length_le]
  have hlt := Nat.lt_div_mul_add hw (a := t.length + w - 1)
  omega

theorem length_cut : (cut w t).length = (t.length + w - 1) / w := by rw [cut, List.length_map, List.length_range]

theorem length_le_of_mem_cut {window : Text} (h : window ∈ cut w t) : window.length ≤ w := by
  obtain ⟨k, -, rfl⟩ := List.mem_map.mp h
  exact List.length_take_le _ _

theorem length_cut_pos (hw : 0 < w) (ht : t ≠ []) : 0 < (cut w t).length := by
  have hpos := List.length_pos_of_ne_nil ht
  rw [length_cut]
  exact Nat.div_pos (by omega) hw

end Cut

section Built
variable {δ : Type} {decimal : Char → Option (Fin 10)} {digest : Text → δ} {resultCommit encoded : Text}
  {partitionId : Option Text} {index total n : Nat} {c : ContextItem δ} {batch : List (ContextItem δ)} {reference content : Text}
  {contentHash : δ}

theorem construct_eq_ok (h : ContextItem.construct reference content contentHash = .ok c) :
    c.reference = reference ∧ c.content = content ∧ c.contentHash = contentHash := by
  unfold ContextItem.construct at h
  split at h
  · cases h
    exact ⟨rfl, rfl, rfl⟩
  · cases h

theorem isDecimal_of_mem_str {x : Char} (h : x ∈ str n) : isDecimal decimal x = true := by
  rw [isDecimal, Nat.isDigit_of_mem_toDigits (by decide) (by decide) h]
  rfl

theorem isPart_referenceOf : IsPart decimal (referenceOf resultCommit partitionId index total) (str index) (str total) where
  index_ne_nil := Nat.toDigits_ne_nil
  total_ne_nil := Nat.toDigits_ne_nil
  index_decimal := fun _ => isDecimal_of_mem_str
  total_decimal := fun _ => isDecimal_of_mem_str
  ends := ⟨_, [], Or.inl rfl, (List.append_nil _).symm⟩

theorem int_str (h : (str n).length ≤ 4300) : int decimal (str n) = .ok (n : Int) := by
  rw [int, str, intOfText_toDigits h]

theorem valid_of_construct (h : ContextItem.construct (referenceOf resultCommit partitionId index total) content
    (digest content) = .ok c) : Valid decimal digest c (index, total) := by
  obtain ⟨hreference, hcontent, hhash⟩ := construct_eq_ok h
  have hpart : IsPart decimal c.reference (str index) (str total) := by
    rw [hreference]
    exact isPart_referenceOf
  have hlength := hpart.length_le.trans c.reference_le
  exact ⟨by rw [hhash, hcontent], _, _, hpart, int_str (by omega), int_str (by omega)⟩

theorem forall₂_of_buildChunks (decimal : Char → Option (Fin 10)) (h : buildChunks digest resultCommit partitionId encoded = .ok batch) :
    List.Forall₂ (fun c w => Valid decimal digest c (((w.2 + 1 : Nat) : Int), (cut maxContextItemChars encoded).length) ∧
      c.content = w.1) batch (cut maxContextItemChars encoded).zipIdx := by
  unfold buildChunks at h
  refine (forall₂_of_mapM h).flip.imp fun c w hc => ?_
  exact ⟨valid_of_construct hc, (construct_eq_ok hc).2.1⟩

theorem completeBatch_of_buildChunks (decimal : Char → Option (Fin 10)) (hne : encoded ≠ [])
    (h : buildChunks digest resultCommit partitionId encoded = .ok batch) :
    CompleteBatch decimal digest batch batch.length ∧
      List.Forall₂ (fun c k => Valid decimal digest c (((k + 1 : Nat) : Int), batch.length)) batch (List.range batch.length) ∧
      (batch.map (·.content)).flatten = encoded := by
  have hpairs := forall₂_of_buildChunks decimal h
  have hlength : batch.length = (cut maxContextItemChars encoded).length := by
    rw [hpairs.length_eq, List.length_zipIdx]
  rw [← hlength] at hpairs
  have horder : List.Forall₂ (fun c k => Valid decimal digest c (((k + 1 : Nat) : Int), batch.length)) batch
      (List.range batch.length) := by
    rw [List.range_eq_range', hlength, ← List.zipIdx_map_snd, ← hlength]
    exact List.forall₂_map_right_iff.mpr (hpairs.imp fun _ _ hw => hw.1)
  refine ⟨⟨?_, rfl, _, List.forall₂_map_right_iff.mpr horder, ?_⟩, horder, ?_⟩
  · rw [hlength]
    exact length_cut_pos (by decide) hne
  · exact .rfl
  · have hcontents : batch.map (·.content) = cut maxContextItemChars encoded := by
      rw [← List.zipIdx_map_fst 0 (cut maxContextItemChars encoded), ← List.forall₂_eq_eq_eq,
        List.forall₂_map_left_iff, List.forall₂_map_right_iff]
      exact hpairs.imp fun _ _ hw => hw.2
    rw [hcontents, flatten_cut (by decide)]

theorem length_str_le (h : n < 10 ^ 19) : (str n).length ≤ 19 := (Nat.length_toDigits_le_iff (by decide) (by decide)).mpr h

theorem length_partitionIdOf_le (h : n < 10 ^ 19) : (partitionIdOf n).toList.length ≤ 21 := by
  have hstr : (toString n).toList = str n := by
    show (Nat.repr n).toList = _
    rw [Nat.repr_eq_ofList_toDigits, String.toList_ofList]
    rfl
  have hle := length_str_le h
  unfold partitionIdOf
  split
  · rw [String.toList_append, hstr, List.length_append]
    exact Nat.add_le_add (by decide : ("p0".toList).length ≤ 2) hle
  · rw [String.toList_append, hstr, List.length_append]
    have hp : ("p".toList).length ≤ 2 := by decide
    omega

theorem length_referenceOf_le (resultCommit : Text) (hid : ∀ id ∈ partitionId, id.length ≤ 21) (hindex : index < 10 ^ 19)
    (htotal : total < 10 ^ 19) : (referenceOf resultCommit partitionId index total).length ≤ 500 := by
  have hcommit : (resultCommit.take 12).length ≤ 12 := List.length_take_le _ _
  have hpartition : (((partitionId.filter (· ≠ [])).map (':' :: ·)).getD []).length ≤ 22 := by
    cases hsome : partitionId.filter (· ≠ []) with
    | none => simp
    | some id =>
      have hmem := hid id (Option.mem_filter_iff.mp hsome).1
      simp only [Option.map_some, Option.getD_some, List.length_cons]
      omega
  have hi := length_str_le hindex
  have ht := length_str_le htotal
  have h1 : ("worktree-diff:".toList).length = 14 := by decide
  have h2 : (":part-".toList).length = 6 := by decide
  have h3 : ("-of-".toList).length = 4 := by decide
  unfold referenceOf
  simp only [List.length_append, h1, h2, h3]
  generalize (str index).length = i at hi ⊢
  generalize (str total).length = t at ht ⊢
  omega

theorem exists_buildChunks (hlength : encoded.length < 2 ^ 63)
    (hid : ∀ id ∈ partitionId, ∃ number < 2 ^ 63, id = (partitionIdOf number).toList) :
    ∃ batch, buildChunks digest resultCommit partitionId encoded = .ok batch := by
  have hids : ∀ id ∈ partitionId, id.length ≤ 21 := by
    intro id hmem
    obtain ⟨number, hnumber, rfl⟩ := hid id hmem
    exact length_partitionIdOf_le (by omega)
  have hcount : (cut maxContextItemChars encoded).length < 10 ^ 19 := by
    rw [length_cut]
    refine (Nat.div_le_self _ _).trans_lt ?_
    simp only [maxContextItemChars]
    omega
  unfold buildChunks
  refine exists_mapM fun w hw => ?_
  obtain ⟨hwindow, hindex⟩ : w.1 ∈ cut maxContextItemChars encoded ∧ w.2 < (cut maxContextItemChars encoded).length := by
    have h := List.mem_zipIdx (x := w.1) (i := w.2) (k := 0) hw
    exact ⟨h.2.2 ▸ List.getElem_mem _, by omega⟩
  have hreference := length_referenceOf_le resultCommit hids (by omega : w.2 + 1 < 10 ^ 19) hcount
  refine ⟨_, dif_pos ⟨?_, hreference, length_le_of_mem_cut hwindow⟩⟩
  exact List.append_ne_nil_of_right_ne_nil _ Nat.toDigits_ne_nil

end Built

end Vuzol.Review
