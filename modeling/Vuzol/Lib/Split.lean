import Vuzol.Lib.Url

/-! Texts that are split at separators, and joined again. -/

namespace Vuzol.Lib

variable {α : Type} {p : α → Bool} {c : α} {xs : List α}

theorem exists_mem_splitOnP : (∃ part ∈ xs.splitOnP p, c ∈ part) ↔ c ∈ xs ∧ p c = false := by
  induction xs with
  | nil => simp
  | cons x xs ih =>
    rw [List.splitOnP_cons_eq_if_modifyHead]
    cases hx : p x with
    | true =>
      simp only [if_true, List.mem_cons, exists_eq_or_imp, List.not_mem_nil, false_or, ih]
      constructor
      · exact fun h => ⟨Or.inr h.1, h.2⟩
      · rintro ⟨rfl | hc, hp⟩
        · rw [hx] at hp
          cases hp
        · exact ⟨hc, hp⟩
    | false =>
      obtain ⟨part, parts, hparts⟩ := List.exists_cons_of_ne_nil (List.splitOnP_ne_nil p xs)
      rw [hparts] at ih ⊢
      simp only [Bool.false_eq_true, if_false, List.modifyHead_cons, List.mem_cons, exists_eq_or_imp] at ih ⊢
      constructor
      · rintro ((rfl | hc) | hrest)
        · exact ⟨Or.inl rfl, hx⟩
        · exact ⟨Or.inr (ih.mp (Or.inl hc)).1, (ih.mp (Or.inl hc)).2⟩
        · exact ⟨Or.inr (ih.mp (Or.inr hrest)).1, (ih.mp (Or.inr hrest)).2⟩
      · rintro ⟨rfl | hc, hp⟩
        · exact Or.inl (Or.inl rfl)
        · rcases ih.mpr ⟨hc, hp⟩ with h | h
          · exact Or.inl (Or.inr h)
          · exact Or.inr h

theorem mem_of_mem_splitOn [BEq α] {a : α} {part : List α} (hpart : part ∈ xs.splitOn a) (hc : c ∈ part) : c ∈ xs :=
  (exists_mem_splitOnP.mp ⟨part, hpart, hc⟩).1

theorem exists_mem_splitOn [BEq α] [LawfulBEq α] {a : α} (hc : c ∈ xs) (hne : c ≠ a) : ∃ part ∈ xs.splitOn a, c ∈ part := by
  exact exists_mem_splitOnP.mpr ⟨hc, beq_eq_false_iff_ne.mpr hne⟩

theorem nil_mem_splitOn_of_double [BEq α] [LawfulBEq α] {a : α} (h : [a, a] <:+: xs) : [] ∈ xs.splitOn a := by
  obtain ⟨pre, post, rfl⟩ := h
  have hsplit : pre ++ [a, a] ++ post = pre ++ a :: ([] ++ a :: post) := by simp
  rw [hsplit, List.splitOn_append_cons_self, List.splitOn_append_cons_self]
  simp

theorem splitOnP_congr {q : α → Bool} (h : ∀ c ∈ xs, p c = q c) : xs.splitOnP p = xs.splitOnP q := by
  induction xs with
  | nil => rfl
  | cons x xs ih =>
    rw [List.splitOnP_cons_eq_if_modifyHead, List.splitOnP_cons_eq_if_modifyHead, h x List.mem_cons_self,
      ih fun c hc => h c (List.mem_cons_of_mem x hc)]

section Join
variable {a : α} {ls : List (List α)}

theorem mem_intercalate {l : List α} (hl : l ∈ ls) (hc : c ∈ l) : c ∈ [a].intercalate ls := by
  induction ls with
  | nil => cases hl
  | cons l' ls ih =>
    cases ls with
    | nil =>
      rw [List.intercalate_singleton]
      exact List.mem_singleton.mp hl ▸ hc
    | cons l'' ls =>
      rw [List.intercalate_cons_cons, List.mem_append, List.mem_append]
      rcases List.mem_cons.mp hl with rfl | hl
      · exact Or.inl (Or.inl hc)
      · exact Or.inr (ih hl)

theorem of_mem_intercalate (hc : c ∈ [a].intercalate ls) : c = a ∨ ∃ l ∈ ls, c ∈ l := by
  induction ls with
  | nil => cases hc
  | cons l ls ih =>
    cases ls with
    | nil =>
      rw [List.intercalate_singleton] at hc
      exact Or.inr ⟨l, List.mem_cons_self, hc⟩
    | cons l' ls =>
      rw [List.intercalate_cons_cons, List.mem_append, List.mem_append, List.mem_singleton] at hc
      rcases hc with (hc | hc) | hc
      · exact Or.inr ⟨l, List.mem_cons_self, hc⟩
      · exact Or.inl hc
      · rcases ih hc with hc | ⟨k, hk, hc⟩
        · exact Or.inl hc
        · exact Or.inr ⟨k, List.mem_cons_of_mem l hk, hc⟩

theorem map_intercalate {β : Type} {f : α → β} : ([a].intercalate ls).map f = [f a].intercalate (ls.map (List.map f)) := by
  induction ls with
  | nil => rfl
  | cons l ls ih =>
    cases ls with
    | nil => simp
    | cons l' ls =>
      rw [List.intercalate_cons_cons, List.map_append, List.map_append, ih]
      simp

end Join

variable {x : α}

theorem suffix_of_not_mem {s l d : List α} (h : s <:+ l ++ x :: d) (hx : x ∉ s) : s <:+ d := by
  rcases List.suffix_or_suffix_of_suffix h (List.suffix_append l (x :: d)) with hs | hd
  · rcases List.suffix_cons_iff.mp hs with rfl | hs
    · exact absurd List.mem_cons_self hx
    · exact hs
  · exact absurd (hd.subset List.mem_cons_self) hx

theorem cons_suffix_append_iff {w l d : List α} (hw : x ∉ w) : x :: w <:+ l ++ x :: d ↔ x :: w <:+ x :: d := by
  refine ⟨fun h => ?_, fun h => h.trans (List.suffix_append l (x :: d))⟩
  rcases List.suffix_or_suffix_of_suffix h (List.suffix_append l (x :: d)) with hs | hd
  · exact hs
  · rcases List.suffix_cons_iff.mp hd with heq | hd
    · exact heq.symm ▸ List.suffix_refl _
    · exact absurd (hd.subset List.mem_cons_self) hw

section Partition
variable {sep : Char} {l r : Text}

section
variable (hl : sep ∉ l)
include hl

theorem forall_ne : ∀ c ∈ l, decide (c ≠ sep) = true := fun _ hc => decide_eq_true fun h => hl (h ▸ hc)

theorem dropWhile_ne_append : (l ++ sep :: r).dropWhile (· ≠ sep) = sep :: r := by
  rw [List.dropWhile_append_of_pos (forall_ne hl)]
  simp

theorem before_append : before sep (l ++ sep :: r) = l := by
  rw [before, List.takeWhile_append_of_pos (forall_ne hl)]
  simp

theorem after_append : after sep (l ++ sep :: r) = r := by
  rw [after, dropWhile_ne_append hl]
  rfl

theorem before_of_not_mem : before sep l = l := List.takeWhile_eq_self_iff.mpr (forall_ne hl)

theorem after_of_not_mem : after sep l = [] := by
  rw [after, List.dropWhile_eq_nil_iff.mpr (forall_ne hl)]
  rfl

end

theorem before_append_after (h : sep ∈ l) : before sep l ++ sep :: after sep l = l := by
  obtain ⟨l1, l2, rfl, hl⟩ := List.eq_append_cons_of_mem h
  rw [before_append hl, after_append hl]

theorem not_mem_before : sep ∉ before sep l := by
  intro h
  have hne := List.mem_takeWhile_imp h
  simp at hne

theorem afterLast_append (hr : sep ∉ r) : afterLast sep (l ++ sep :: r) = r := by
  rw [afterLast, List.reverse_append, List.reverse_cons, List.append_assoc,
    List.takeWhile_append_of_pos (forall_ne fun h => hr (List.mem_reverse.mp h))]
  simp

theorem afterLast_of_not_mem (hl : sep ∉ l) : afterLast sep l = l := by
  rw [afterLast, List.takeWhile_eq_self_iff.mpr (forall_ne fun h => hl (List.mem_reverse.mp h)), List.reverse_reverse]

theorem exists_of_count_eq_one {s : Text} (h : s.count sep = 1) : ∃ l r, s = l ++ sep :: r ∧ sep ∉ l ∧ sep ∉ r := by
  obtain ⟨l, r, rfl, hl⟩ := List.eq_append_cons_of_mem (List.count_pos_iff.mp (by omega : 0 < s.count sep))
  rw [List.count_append, List.count_cons_self, List.count_eq_zero.mpr hl] at h
  exact ⟨l, r, rfl, hl, List.count_eq_zero.mp (by omega)⟩

theorem strip_of_forall {s : Text} (h : ∀ c ∈ s, isSpace c = false) : strip s = s := by
  rw [strip_eq, List.dropWhile_eq_self_iff.mpr fun _ => by simp [h _ (List.getElem_mem _)],
    List.rdropWhile_eq_self_iff.mpr fun _ => by simp [h _ (List.getLast_mem _)]]

theorem isAlphanum_range {c : Char} (h : c.isAlphanum = true) :
    (48 ≤ c.toNat ∧ c.toNat ≤ 57) ∨ (65 ≤ c.toNat ∧ c.toNat ≤ 90) ∨ (97 ≤ c.toNat ∧ c.toNat ≤ 122) := by
  delta Char.isAlphanum Char.isAlpha Char.isUpper Char.isLower Char.isDigit at h
  simp only [Bool.or_eq_true, Bool.and_eq_true, decide_eq_true_eq, UInt32.le_iff_toNat_le, ge_iff_le, Char.reduceVal,
    UInt32.reduceToNat, Char.toNat_val] at h
  omega

end Partition

section MapM
variable {β : Type} {f : α → Option β} {ys : List β}

theorem forall₂_of_mapM_some (h : xs.mapM f = some ys) : List.Forall₂ (fun x y => f x = some y) xs ys := by
  induction xs generalizing ys with
  | nil =>
    cases h
    exact .nil
  | cons x xs ih =>
    rw [List.mapM_cons] at h
    obtain ⟨y, hy, h⟩ := Option.bind_eq_some_iff.mp h
    obtain ⟨rest, hrest, h⟩ := Option.bind_eq_some_iff.mp h
    cases h
    exact .cons hy (ih hrest)

theorem exists_of_mapM_some (h : xs.mapM f = some ys) (hx : x ∈ xs) : ∃ y, f x = some y ∧ y ∈ ys := by
  have hall := forall₂_of_mapM_some h
  clear h
  induction hall with
  | nil => cases hx
  | cons hy _ ih =>
    rcases List.mem_cons.mp hx with rfl | hx
    · exact ⟨_, hy, List.mem_cons_self⟩
    · obtain ⟨y, hy, hmem⟩ := ih hx
      exact ⟨y, hy, List.mem_cons_of_mem _ hmem⟩

theorem isSome_of_mapM_some (h : xs.mapM f = some ys) (hx : x ∈ xs) : (f x).isSome = true := by
  obtain ⟨y, hy, -⟩ := exists_of_mapM_some h hx
  rw [hy]
  rfl

end MapM

end Vuzol.Lib
