import Vuzol.Execution.Inspection

/-! What the normalization of white space leaves behind. Lines are split at CR, LF and CRLF but stripped before LF and CRLF
    only, so a CR may end up before the LF of a line that was stripped to nothing, or of the line end that is put back. -/

namespace Vuzol.Execution

open Vuzol.Lib

def blank (x : UInt8) : Bool := x = 32 || x = 9

def lineEnds : Bytes → Bool
  | [] => true
  | x :: rest => x = 10 || (x = 13 && rest.head? = some 10) || (blank x && lineEnds rest)

def stripped : Bytes → Bytes
  | [] => []
  | x :: rest => if blank x && lineEnds rest then stripped rest else x :: stripped rest

def bodyOf (bytes : Bytes) : Bytes := (dropLineEnds bytes.reverse).reverse

def IsLineEnd (t : Bytes) : Prop := t = [10] ∨ t = [13, 10]

section Lines
variable {content body rest front ws : Bytes} {x b : UInt8}

theorem blank_eq (h : blank b = true) : b = 32 ∨ b = 9 := by
  simpa [blank] using h

theorem not_blank_lf : blank 10 = false := by decide

theorem not_blank_cr : blank 13 = false := by decide

/-! ### Lines of the content -/

def Unbroken (body : Bytes) : Prop := ∀ x ∈ body, x ≠ 10 ∧ x ≠ 13

theorem splitLines_cons (h : ∀ tail, x = 13 → rest = 10 :: tail → False) : splitLines (x :: rest) =
    if x = 10 ∨ x = 13 then [x] :: splitLines rest
    else match splitLines rest with
      | [] => [[x]]
      | line :: lines => (x :: line) :: lines := splitLines.eq_3 x rest h

variable {lines : List Bytes}

theorem splitLines_cons_of_ne (hlf : x ≠ 10) (hcr : x ≠ 13) {line : Bytes}
    (h : splitLines rest = line :: lines) : splitLines (x :: rest) = (x :: line) :: lines := by
  rw [splitLines_cons (fun _ hx _ => hcr hx), if_neg (by simp [hlf, hcr]), h]

theorem splitLines_unbroken (hbody : Unbroken body) (hne : body ≠ []) : splitLines body = [body] := by
  induction body with
  | nil => exact absurd rfl hne
  | cons x body ih =>
    obtain ⟨⟨hlf, hcr⟩, hrest⟩ := List.forall_mem_cons.mp hbody
    cases body with
    | nil =>
      rw [splitLines_cons (fun _ hx _ => hcr hx), if_neg (by simp [hlf, hcr])]
      rfl
    | cons y body => exact splitLines_cons_of_ne hlf hcr (ih hrest (List.cons_ne_nil _ _))

theorem splitLines_append (hbody : Unbroken body) {line : Bytes}
    (h : splitLines rest = line :: lines) : splitLines (body ++ rest) = (body ++ line) :: lines := by
  induction body with
  | nil => exact h
  | cons x body ih =>
    obtain ⟨⟨hlf, hcr⟩, hrest⟩ := List.forall_mem_cons.mp hbody
    exact splitLines_cons_of_ne hlf hcr (ih hrest)

theorem splitLines_crlf : splitLines (13 :: 10 :: rest) = [13, 10] :: splitLines rest := splitLines.eq_2 _

theorem splitLines_lf : splitLines (10 :: rest) = [10] :: splitLines rest := by
  rw [splitLines_cons (fun _ hx _ => absurd hx (by decide)), if_pos (.inl rfl)]

theorem splitLines_cr (h : rest.head? ≠ some 10) : splitLines (13 :: rest) = [13] :: splitLines rest := by
  rw [splitLines_cons, if_pos (.inr rfl)]
  rintro tail - rfl
  exact h rfl

theorem lines_cases (content : Bytes) : ∃ body, Unbroken body ∧
    (content = body ∨ (∃ rest, content = body ++ 10 :: rest) ∨ (∃ rest, content = body ++ 13 :: 10 :: rest) ∨
      ∃ rest, content = body ++ 13 :: rest ∧ rest.head? ≠ some 10) := by
  induction content with
  | nil => exact ⟨[], by simp [Unbroken], .inl rfl⟩
  | cons x content ih =>
    by_cases hlf : x = 10
    · exact ⟨[], by simp [Unbroken], .inr (.inl ⟨content, by rw [hlf]; rfl⟩)⟩
    by_cases hcr : x = 13
    · refine ⟨[], by simp [Unbroken], .inr (.inr ?_)⟩
      by_cases hnext : content.head? = some 10
      · obtain ⟨rest, rfl⟩ := List.head?_eq_some_iff.mp hnext
        exact .inl ⟨rest, by rw [hcr]; rfl⟩
      · exact .inr ⟨content, by rw [hcr]; rfl, hnext⟩
    obtain ⟨body, hbody, hcases⟩ := ih
    refine ⟨x :: body, List.forall_mem_cons.mpr ⟨⟨hlf, hcr⟩, hbody⟩, ?_⟩
    rcases hcases with rfl | ⟨rest, rfl⟩ | ⟨rest, rfl⟩ | ⟨rest, rfl, hrest⟩
    · exact .inl rfl
    · exact .inr (.inl ⟨rest, rfl⟩)
    · exact .inr (.inr (.inl ⟨rest, rfl⟩))
    · exact .inr (.inr (.inr ⟨rest, rfl, hrest⟩))

theorem splitLines_flatten (content : Bytes) : (splitLines content).flatten = content := by
  fun_induction splitLines content with
  | case1 => rfl
  | case2 rest ih => rw [List.flatten_cons, ih]; rfl
  | case3 x rest hne hx ih => rw [List.flatten_cons, ih]; rfl
  | case4 x rest hne hx hnil ih =>
    rw [hnil] at ih
    rw [← ih]
    rfl
  | case5 x rest hne hx line lines hlines ih =>
    rw [hlines] at ih
    rw [← ih]
    rfl

/-! ### Stripping -/

theorem stripBlanks_cons : stripBlanks (x :: body) =
    if body.all blank then (if blank x then [] else [x]) else x :: stripBlanks body := by
  have hblank : (fun x : UInt8 => (decide (x = 32) || decide (x = 9))) = blank := rfl
  rw [stripBlanks, hblank, List.rdropWhile, List.reverse_cons, List.dropWhile_append]
  by_cases hall : body.all blank = true
  · have hdrop : body.reverse.dropWhile blank = [] := by
      rw [List.dropWhile_eq_nil_iff]
      intro y hy
      exact List.all_eq_true.mp hall y (List.mem_reverse.mp hy)
    rw [if_pos hall, hdrop, List.isEmpty_nil, if_pos rfl]
    by_cases hx : blank x = true
    · rw [if_pos hx, List.dropWhile_cons_of_pos hx]
      rfl
    · rw [if_neg hx, List.dropWhile_cons_of_neg hx]
      rfl
  · have hdrop : (body.reverse.dropWhile blank).isEmpty = false := by
      rw [List.isEmpty_eq_false_iff]
      intro hnil
      rw [List.dropWhile_eq_nil_iff] at hnil
      exact hall (List.all_eq_true.mpr fun y hy => hnil y (List.mem_reverse.mpr hy))
    rw [if_neg hall, hdrop, if_neg Bool.false_ne_true, List.reverse_append]
    rfl

theorem lineEnds_append (hbody : Unbroken body) : lineEnds (body ++ rest) = (body.all blank && lineEnds rest) := by
  induction body with
  | nil => rfl
  | cons x body ih =>
    obtain ⟨⟨hlf, hcr⟩, hrest⟩ := List.forall_mem_cons.mp hbody
    rw [List.cons_append, lineEnds, ih hrest, List.all_cons, Bool.and_assoc]
    simp [hlf, hcr]

theorem stripped_append (hbody : Unbroken body) (hends : lineEnds rest = true) :
    stripped (body ++ rest) = stripBlanks body ++ stripped rest := by
  induction body with
  | nil => rfl
  | cons x body ih =>
    obtain ⟨-, hrest⟩ := List.forall_mem_cons.mp hbody
    rw [List.cons_append, stripped, lineEnds_append hrest, hends, Bool.and_true, ih hrest, stripBlanks_cons]
    by_cases hall : body.all blank = true
    · have hnil : stripBlanks body = [] := by
        rw [stripBlanks, List.rdropWhile_eq_nil_iff]
        exact fun y hy => List.all_eq_true.mp hall y hy
      rw [if_pos hall, hall, Bool.and_true, hnil]
      split <;> rfl
    · rw [if_neg hall, Bool.eq_false_iff.mpr hall, Bool.and_false, if_neg Bool.false_ne_true]
      rfl

theorem lineEnds_cr (hrest : rest.head? ≠ some 10) : lineEnds (13 :: rest) = false := by
  simp [lineEnds, hrest, not_blank_cr]

theorem stripped_append_cr (hbody : Unbroken body) (hrest : rest.head? ≠ some 10) :
    stripped (body ++ 13 :: rest) = body ++ 13 :: stripped rest := by
  have hends := lineEnds_cr hrest
  induction body with
  | nil => rw [List.nil_append, stripped, not_blank_cr]; rfl
  | cons x body ih =>
    obtain ⟨-, hbody⟩ := List.forall_mem_cons.mp hbody
    rw [List.cons_append, stripped, lineEnds_append hbody, hends, Bool.and_false, Bool.and_false,
      if_neg Bool.false_ne_true, ih hbody]
    rfl

/-! ### The normalized lines -/

theorem normalizeLine_crlf : normalizeLine (body ++ [13, 10]) = stripBlanks body ++ [13, 10] := by
  rw [normalizeLine, if_pos (List.isSuffixOf_iff_suffix.mpr (List.suffix_append _ _)), List.length_append]
  exact congrArg (stripBlanks · ++ [13, 10]) (List.take_left' rfl)

theorem normalizeLine_lf (hbody : Unbroken body) : normalizeLine (body ++ [10]) = stripBlanks body ++ [10] := by
  rw [normalizeLine, if_neg, if_pos (List.isSuffixOf_iff_suffix.mpr (List.suffix_append _ _)), List.length_append]
  · exact congrArg (stripBlanks · ++ [10]) (List.take_left' rfl)
  · rw [List.isSuffixOf_iff_suffix]
    rintro ⟨front, heq⟩
    have hfront : front ++ [13] ++ [10] = body ++ [10] := by rw [List.append_assoc]; exact heq
    exact (hbody 13 (List.append_cancel_right hfront ▸ by simp)).2 rfl

theorem normalizeLine_of_not (h : ∀ front, body ≠ front ++ [10]) : normalizeLine body = stripBlanks body := by
  rw [normalizeLine, if_neg, if_neg]
  · rw [List.isSuffixOf_iff_suffix]
    rintro ⟨front, rfl⟩
    exact h front rfl
  · rw [List.isSuffixOf_iff_suffix]
    rintro ⟨front, rfl⟩
    exact h (front ++ [13]) (by simp)

theorem normalizeLine_cr : normalizeLine (body ++ [13]) = body ++ [13] := by
  rw [normalizeLine_of_not]
  · rw [stripBlanks, List.rdropWhile_concat]
    rfl
  · intro front heq
    have h := (List.append_inj' heq rfl).2
    cases h

theorem flatten_normalizeLine (content : Bytes) : ((splitLines content).map normalizeLine).flatten = stripped content := by
  induction hn : content.length using Nat.strong_induction_on generalizing content with
  | _ n ih =>
    obtain ⟨body, hbody, rfl | ⟨rest, rfl⟩ | ⟨rest, rfl⟩ | ⟨rest, rfl, hrest⟩⟩ := lines_cases content
    · by_cases hne : content = []
      · rw [hne]
        rfl
      · have hnot : ∀ front, content ≠ front ++ [10] := by
          rintro front rfl
          exact (hbody 10 (by simp)).1 rfl
        have hstripped : stripped (content ++ []) = stripBlanks content ++ stripped [] := stripped_append hbody rfl
        rw [List.append_nil] at hstripped
        rw [splitLines_unbroken hbody hne, hstripped, List.map_singleton, List.flatten_singleton,
          normalizeLine_of_not hnot]
        exact (List.append_nil _).symm
    · rw [splitLines_append hbody splitLines_lf, List.map_cons, List.flatten_cons, normalizeLine_lf hbody,
        ih rest.length (by rw [← hn]; simp only [List.length_append, List.length_cons]; omega) rest rfl,
        stripped_append hbody rfl, List.append_assoc]
      rfl
    · rw [splitLines_append hbody splitLines_crlf, List.map_cons, List.flatten_cons, normalizeLine_crlf,
        ih rest.length (by rw [← hn]; simp only [List.length_append, List.length_cons]; omega) rest rfl,
        stripped_append hbody rfl, List.append_assoc]
      rfl
    · rw [splitLines_append hbody (splitLines_cr hrest), List.map_cons, List.flatten_cons, normalizeLine_cr,
        ih rest.length (by rw [← hn]; simp only [List.length_append, List.length_cons]; omega) rest rfl,
        stripped_append_cr hbody hrest, List.append_assoc]
      rfl

/-! ### What stripping keeps -/

theorem stripped_sublist (content : Bytes) : (stripped content).Sublist content := by
  induction content with
  | nil => exact .slnil
  | cons x content ih =>
    rw [stripped]
    split
    · exact ih.cons x
    · exact ih.cons_cons x

def substance (x : UInt8) : Bool := !blank x && x != 10 && x != 13

theorem filter_stripped (content : Bytes) : (stripped content).filter substance = content.filter substance := by
  induction content with
  | nil => rfl
  | cons x content ih =>
    rw [stripped]
    split
    · rename_i hx
      rw [Bool.and_eq_true] at hx
      rw [ih, List.filter_cons_of_neg (by simp [substance, hx.1])]
    · rw [List.filter_cons, List.filter_cons, ih]

theorem exists_stripped_append (front rest : Bytes) : ∃ kept, stripped (front ++ rest) = kept ++ stripped rest := by
  induction front with
  | nil => exact ⟨[], rfl⟩
  | cons x front ih =>
    obtain ⟨kept, hkept⟩ := ih
    rw [List.cons_append, stripped, hkept]
    split
    · exact ⟨kept, rfl⟩
    · exact ⟨x :: kept, rfl⟩

theorem stripped_eq_append (h : stripped content = front ++ x :: rest) :
    ∃ before after, content = before ++ x :: after ∧ stripped after = rest ∧ (blank x && lineEnds after) = false := by
  induction content generalizing front with
  | nil => simp [stripped] at h
  | cons y content ih =>
    rw [stripped] at h
    split at h
    · obtain ⟨before, after, rfl, hrest⟩ := ih h
      exact ⟨y :: before, after, rfl, hrest⟩
    · rename_i hy
      cases front with
      | nil =>
        rw [List.nil_append, List.cons.injEq] at h
        obtain ⟨rfl, h⟩ := h
        exact ⟨[], content, rfl, h, Bool.eq_false_iff.mpr hy⟩
      | cons z front =>
        rw [List.cons_append, List.cons.injEq] at h
        obtain ⟨before, after, rfl, hrest⟩ := ih h.2
        exact ⟨y :: before, after, rfl, hrest⟩

/-! ### Blanks before a line end -/

theorem lineEnds_blanks (hws : ∀ x ∈ ws, blank x) (h : lineEnds rest = true) : lineEnds (ws ++ rest) = true := by
  induction ws with
  | nil => exact h
  | cons x ws ih =>
    obtain ⟨hx, hws⟩ := List.forall_mem_cons.mp hws
    rw [List.cons_append, lineEnds, hx, ih hws, Bool.and_self, Bool.or_true]

theorem stripped_blanks (hws : ∀ x ∈ ws, blank x) (h : lineEnds rest = true) : stripped (ws ++ rest) = stripped rest := by
  induction ws with
  | nil => rfl
  | cons x ws ih =>
    obtain ⟨hx, hws⟩ := List.forall_mem_cons.mp hws
    rw [List.cons_append, stripped, hx, lineEnds_blanks hws h, Bool.and_self, if_pos rfl, ih hws]

theorem stripped_eq_nil (h : stripped content = []) : ∀ x ∈ content, blank x := by
  induction content with
  | nil => simp
  | cons x content ih =>
    rw [stripped] at h
    split at h
    · rename_i hx
      rw [Bool.and_eq_true] at hx
      exact List.forall_mem_cons.mpr ⟨hx.1, ih h⟩
    · cases h

theorem stripped_eq_cons (h : stripped content = x :: rest) : ∃ ws after, content = ws ++ x :: after ∧
    (∀ y ∈ ws, blank y) ∧ stripped after = rest ∧ (ws ≠ [] → lineEnds (x :: after) = true) := by
  induction content with
  | nil => cases h
  | cons y content ih =>
    rw [stripped] at h
    split at h
    · rename_i hy
      rw [Bool.and_eq_true] at hy
      obtain ⟨ws, after, rfl, hws, hrest, hends⟩ := ih h
      refine ⟨y :: ws, after, rfl, List.forall_mem_cons.mpr ⟨hy.1, hws⟩, hrest, fun _ => ?_⟩
      cases ws with
      | nil => exact hy.2
      | cons z ws => exact hends (List.cons_ne_nil _ _)
    · rw [List.cons.injEq] at h
      obtain ⟨rfl, h⟩ := h
      exact ⟨[], content, rfl, by simp, h, fun hne => absurd rfl hne⟩

inductive Emptied : Bytes → Bytes → Prop where
  | lf {ws : Bytes} : (∀ x ∈ ws, blank x) → Emptied (ws ++ [10]) [10]
  | crlf {ws : Bytes} : (∀ x ∈ ws, blank x) → Emptied (ws ++ [13, 10]) [13, 10]
  | joined {ws : Bytes} : ws ≠ [] → (∀ x ∈ ws, blank x) → Emptied (13 :: (ws ++ [10])) [13, 10]

theorem lineEnds_lf : lineEnds (10 :: rest) = true := rfl

theorem stripped_cr : stripped (13 :: rest) = 13 :: stripped rest := rfl

theorem not_lineEnds_blanks (hne : ws ≠ []) (hws : ∀ x ∈ ws, blank x) : lineEnds (13 :: (ws ++ rest)) = false := by
  cases ws with
  | nil => exact absurd rfl hne
  | cons x ws =>
    have hx : x ≠ 10 := by
      rintro rfl
      exact absurd (hws 10 List.mem_cons_self) (by decide)
    simp [lineEnds, not_blank_cr, hx]

theorem stripped_emptied {line t : Bytes} (h : Emptied line t) : stripped (line ++ rest) = t ++ stripped rest := by
  cases h with
  | lf hws =>
    rw [List.append_assoc, List.singleton_append, stripped_blanks hws lineEnds_lf]
    rfl
  | crlf hws =>
    rw [List.append_assoc]
    exact stripped_blanks hws rfl
  | joined _ hws =>
    rw [List.cons_append, stripped_cr, List.append_assoc, List.singleton_append, stripped_blanks hws lineEnds_lf]
    rfl

theorem emptied_of_stripped {t : Bytes} (ht : IsLineEnd t) (h : stripped content = t ++ rest) :
    ∃ line after, content = line ++ after ∧ Emptied line t ∧ stripped after = rest := by
  rcases ht with rfl | rfl
  · obtain ⟨ws, after, rfl, hws, hrest, -⟩ := stripped_eq_cons h
    exact ⟨ws ++ [10], after, by simp, .lf hws, hrest⟩
  · obtain ⟨ws, after, rfl, hws, hrest, hends⟩ := stripped_eq_cons h
    obtain ⟨ws', after', rfl, hws', hrest', -⟩ := stripped_eq_cons hrest
    by_cases hnil : ws' = []
    · subst hnil
      exact ⟨ws ++ [13, 10], after', by simp, .crlf hws, hrest'⟩
    · have hws : ws = [] := by
        by_contra hne
        have h := hends hne
        rw [not_lineEnds_blanks hnil hws'] at h
        cases h
      subst hws
      exact ⟨13 :: (ws' ++ [10]), after', by simp, .joined hnil hws', hrest'⟩

/-! ### A line end that is joined -/

def JoinsLine (content : Bytes) : Prop :=
  ∃ before b ws after, content = before ++ b :: 13 :: (ws ++ 10 :: after) ∧ blank b ∧ ws ≠ [] ∧ ∀ x ∈ ws, blank x

/-- A CR after a blank or LF comes before blank lines at the end, of which the first is left as CRLF and the last as LF. -/
def JoinsEnd (content : Bytes) : Prop :=
  ∃ (before : Bytes) (c : UInt8) (first : Bytes) (mids : List Bytes) (last ws : Bytes),
    content = before ++ c :: 13 :: (first ++ (mids.flatten ++ (last ++ ws))) ∧
    (blank c ∨ c = 10) ∧ Emptied first [13, 10] ∧ (∀ line ∈ mids, ∃ t, Emptied line t) ∧ Emptied last [10] ∧
    ∀ x ∈ ws, blank x

def Trailing (bytes : Bytes) : Prop := ∃ before b t after, bytes = before ++ b :: (t ++ after) ∧ blank b ∧ IsLineEnd t

theorem trailing_stripped_iff : Trailing (stripped content) ↔ JoinsLine content := by
  constructor
  · rintro ⟨before, b, t, after, h, hb, ht⟩
    obtain ⟨front, rest, rfl, hrest, hends⟩ := stripped_eq_append h
    rw [hb, Bool.true_and] at hends
    obtain ⟨line, tail, rfl, hline, -⟩ := emptied_of_stripped ht hrest
    cases hline with
    | lf hws =>
      rw [List.append_assoc, List.singleton_append, lineEnds_blanks hws lineEnds_lf] at hends
      cases hends
    | crlf hws =>
      rw [List.append_assoc, lineEnds_blanks hws rfl] at hends
      cases hends
    | @joined ws hne hws => exact ⟨front, b, ws, tail, by simp, hb, hne, hws⟩
  · rintro ⟨before, b, ws, after, rfl, hb, hne, hws⟩
    obtain ⟨kept, hkept⟩ := exists_stripped_append before (b :: 13 :: (ws ++ 10 :: after))
    refine ⟨kept, b, [13, 10], stripped after, ?_, hb, .inr rfl⟩
    rw [hkept, stripped, not_lineEnds_blanks hne hws, Bool.and_false, if_neg Bool.false_ne_true, stripped_cr,
      stripped_blanks hws lineEnds_lf]
    rfl

theorem stripped_not_blank (hb : blank b = true) : stripped content ≠ front ++ [b] := by
  intro h
  obtain ⟨before, after, rfl, hnil, hends⟩ := stripped_eq_append h
  have hafter : lineEnds (after ++ []) = true := lineEnds_blanks (stripped_eq_nil hnil) rfl
  rw [List.append_nil] at hafter
  rw [hb, hafter] at hends
  cases hends

/-! ### Line ends at the end -/

structure Ended (bytes body : Bytes) (ends : List Bytes) : Prop where
  whole : bytes = body ++ ends.flatten
  isLineEnd : ∀ t ∈ ends, IsLineEnd t
  body_ne : ∀ front, body ≠ front ++ [10]
  head_ne : ∀ front, body = front ++ [13] → ends.head? ≠ some [10]

theorem bodyOf_crlf (front : Bytes) : bodyOf (front ++ [13, 10]) = bodyOf front := by
  rw [bodyOf, List.reverse_append]
  exact congrArg List.reverse (dropLineEnds.eq_1 _)

theorem bodyOf_lf (h : ∀ before, front ≠ before ++ [13]) : bodyOf (front ++ [10]) = bodyOf front := by
  rw [bodyOf, List.reverse_append]
  refine congrArg List.reverse (dropLineEnds.eq_2 _ fun tail htail => h tail.reverse ?_)
  have hfront : front.reverse = 13 :: tail := htail
  rw [← List.reverse_reverse front, hfront, List.reverse_cons]

theorem bodyOf_self (h : ∀ front, body ≠ front ++ [10]) : bodyOf body = body := by
  rw [bodyOf, dropLineEnds.eq_3, List.reverse_reverse]
  · intro tail htail
    exact h (13 :: tail).reverse (by rw [← List.reverse_reverse body, htail, List.reverse_cons])
  · intro tail htail
    exact h tail.reverse (by rw [← List.reverse_reverse body, htail, List.reverse_cons])

theorem exists_ended (bytes : Bytes) : ∃ body ends, Ended bytes body ends := by
  induction hn : bytes.length using Nat.strong_induction_on generalizing bytes with
  | _ n ih =>
    by_cases hlf : ∃ front, bytes = front ++ [10]
    · obtain ⟨front, rfl⟩ := hlf
      by_cases hcr : ∃ before, front = before ++ [13]
      · obtain ⟨before, rfl⟩ := hcr
        obtain ⟨body, ends, E⟩ := ih before.length (by rw [← hn]; simp) before rfl
        refine ⟨body, ends ++ [[13, 10]], ?_, ?_, E.body_ne, ?_⟩
        · rw [E.whole, List.flatten_append]
          simp
        · intro t ht
          rcases List.mem_append.mp ht with ht | ht
          · exact E.isLineEnd t ht
          · exact .inr (List.mem_singleton.mp ht)
        · intro front hfront
          have hhead := E.head_ne front hfront
          cases ends with
          | nil => simp
          | cons t ends => exact hhead
      · obtain ⟨body, ends, E⟩ := ih front.length (by rw [← hn]; simp) front rfl
        refine ⟨body, ends ++ [[10]], ?_, ?_, E.body_ne, ?_⟩
        · rw [E.whole, List.flatten_append]
          simp
        · intro t ht
          rcases List.mem_append.mp ht with ht | ht
          · exact E.isLineEnd t ht
          · exact .inl (List.mem_singleton.mp ht)
        · intro before hbefore
          cases ends with
          | nil => exact absurd ⟨before, by rw [E.whole, hbefore]; simp⟩ hcr
          | cons t ends => exact E.head_ne before hbefore
    · exact ⟨bytes, [], by simp, by simp, fun front h => hlf ⟨front, h⟩, by simp⟩

variable {bytes t : Bytes} {ends : List Bytes}

theorem Ended.before_lf (E : Ended bytes body (ends ++ [[10]])) : ∀ before, body ++ ends.flatten ≠ before ++ [13] := by
  intro before h
  rcases List.eq_nil_or_concat ends with rfl | ⟨es, t, rfl⟩
  · rw [List.flatten_nil, List.append_nil] at h
    exact E.head_ne before h rfl
  · have ht : IsLineEnd t := E.isLineEnd t (by simp)
    rw [List.concat_eq_append, List.flatten_append, List.flatten_singleton, ← List.append_assoc] at h
    rcases ht with rfl | rfl
    · cases (List.append_inj' h rfl).2
    · have hlast := congrArg List.getLast? h
      simp at hlast

theorem Ended.bodyOf_eq (E : Ended bytes body ends) : bodyOf bytes = body := by
  induction hn : ends.length generalizing ends bytes with
  | zero =>
    rw [List.length_eq_zero_iff] at hn
    rw [E.whole, hn, List.flatten_nil, List.append_nil, bodyOf_self E.body_ne]
  | succ n ih =>
    obtain ⟨es, t, rfl⟩ : ∃ es t, ends = es ++ [t] := by
      rcases List.eq_nil_or_concat ends with rfl | ⟨es, t, rfl⟩
      · cases hn
      · exact ⟨es, t, List.concat_eq_append⟩
    have E' : Ended (body ++ es.flatten) body es := by
      refine ⟨rfl, fun u hu => E.isLineEnd u (List.mem_append_left _ hu), E.body_ne, fun front hfront => ?_⟩
      have hhead := E.head_ne front hfront
      cases es with
      | nil => simp
      | cons u es => exact hhead
    have hbody := ih E' (by simpa using hn)
    rw [E.whole, List.flatten_append, List.flatten_singleton, ← List.append_assoc]
    rcases E.isLineEnd t (by simp) with rfl | rfl
    · rw [bodyOf_lf E.before_lf, hbody]
    · rw [bodyOf_crlf, hbody]

def finished (bytes : Bytes) : Bytes :=
  if [10].isSuffixOf bytes then bodyOf bytes ++ if [13, 10].isSuffixOf bytes then [13, 10] else [10] else bytes

theorem normalizeBytes_eq (content : Bytes) : normalizeBytes content = finished (stripped content) := by
  rw [normalizeBytes, flatten_normalizeLine]
  rfl

theorem finished_of_not (h : ∀ front, bytes ≠ front ++ [10]) : finished bytes = bytes := by
  rw [finished, if_neg]
  rw [List.isSuffixOf_iff_suffix]
  rintro ⟨front, rfl⟩
  exact h front rfl

theorem Ended.finished_eq (E : Ended bytes body (ends ++ [t])) : finished bytes = body ++ t := by
  have hwhole : bytes = body ++ ends.flatten ++ t := by
    rw [E.whole, List.flatten_append, List.flatten_singleton, List.append_assoc]
  rw [finished, E.bodyOf_eq]
  rcases E.isLineEnd t (by simp) with rfl | rfl
  · rw [if_pos, if_neg]
    · rw [List.isSuffixOf_iff_suffix]
      rintro ⟨front, heq⟩
      rw [hwhole] at heq
      have h : front ++ [13] ++ [10] = body ++ ends.flatten ++ [10] := by simpa using heq
      exact E.before_lf front (List.append_inj' h rfl).1.symm
    · rw [List.isSuffixOf_iff_suffix, hwhole]
      exact List.suffix_append _ _
  · rw [if_pos, if_pos]
    · rw [List.isSuffixOf_iff_suffix, hwhole]
      exact List.suffix_append _ _
    · rw [List.isSuffixOf_iff_suffix, hwhole]
      exact ⟨body ++ ends.flatten ++ [13], by simp⟩

/-! ### Trailing blanks -/

def startsEnd : Bytes → Bool
  | [] => false
  | x :: rest => x = 10 || (x = 13 && rest.head? = some 10)

theorem startsEnd_iff : startsEnd rest = true ↔ ∃ t after, IsLineEnd t ∧ rest = t ++ after := by
  constructor
  · intro h
    cases rest with
    | nil => cases h
    | cons x rest =>
      simp only [startsEnd, Bool.or_eq_true, Bool.and_eq_true, decide_eq_true_eq] at h
      rcases h with rfl | ⟨rfl, h⟩
      · exact ⟨[10], rest, .inl rfl, rfl⟩
      · obtain ⟨after, rfl⟩ := List.head?_eq_some_iff.mp h
        exact ⟨[13, 10], after, .inr rfl, rfl⟩
  · rintro ⟨t, after, rfl | rfl, rfl⟩ <;> rfl

theorem trailing_iff : Trailing bytes ↔ ∃ before b rest, bytes = before ++ b :: rest ∧ blank b ∧ startsEnd rest = true := by
  constructor
  · rintro ⟨before, b, t, after, rfl, hb, ht⟩
    exact ⟨before, b, t ++ after, rfl, hb, startsEnd_iff.mpr ⟨t, after, ht, rfl⟩⟩
  · rintro ⟨before, b, rest, rfl, hb, hrest⟩
    obtain ⟨t, after, ht, rfl⟩ := startsEnd_iff.mp hrest
    exact ⟨before, b, t, after, rfl, hb, ht⟩

theorem IsLineEnd.not_blank (ht : IsLineEnd t) : ∀ x ∈ t, blank x = false := by
  rcases ht with rfl | rfl <;> simp [not_blank_lf, not_blank_cr]

theorem trailing_append {tail : Bytes} (htail : ∀ x ∈ tail, blank x = false) : Trailing (body ++ tail) ↔
    ∃ before b mid, body = before ++ b :: mid ∧ blank b ∧ startsEnd (mid ++ tail) = true := by
  rw [trailing_iff]
  constructor
  · rintro ⟨before, b, rest, h, hb, hrest⟩
    rcases List.append_eq_append_iff.mp h with ⟨mid, -, rfl⟩ | ⟨mid, rfl, hmid⟩
    · have hnot := htail b (by simp)
      rw [hb] at hnot
      cases hnot
    · cases mid with
      | nil =>
        have hnot := htail b (by rw [← List.nil_append tail, ← hmid]; simp)
        rw [hb] at hnot
        cases hnot
      | cons y mid =>
        rw [List.cons_append, List.cons.injEq] at hmid
        obtain ⟨rfl, rfl⟩ := hmid
        exact ⟨before, b, mid, rfl, hb, hrest⟩
  · rintro ⟨before, b, mid, rfl, hb, hrest⟩
    exact ⟨before, b, mid ++ tail, by simp, hb, hrest⟩

/-- The line end that is put back gives a trailing blank where LF takes the place of CRLF after CR. -/
theorem Ended.trailing_iff (E : Ended bytes body (ends ++ [t])) : Trailing (body ++ t) ↔
    Trailing bytes ∨ ∃ front b, body = front ++ [b, 13] ∧ blank b ∧ t = [10] := by
  have ht : IsLineEnd t := E.isLineEnd t (by simp)
  have htail : ∀ x ∈ (ends ++ [t]).flatten, blank x = false := by
    intro x hx
    obtain ⟨u, hu, hx⟩ := List.mem_flatten.mp hx
    exact (E.isLineEnd u hu).not_blank x hx
  obtain ⟨first, others, hends⟩ : ∃ first others, ends ++ [t] = first :: others := by
    cases ends with
    | nil => exact ⟨t, [], rfl⟩
    | cons u ends => exact ⟨u, ends ++ [t], rfl⟩
  have hfirst : IsLineEnd first := E.isLineEnd first (by rw [hends]; simp)
  rw [E.whole, trailing_append ht.not_blank, trailing_append htail]
  -- The bytes after the blank: none, one, or two that decide.
  have hstart : ∀ before b mid, body = before ++ b :: mid →
      (startsEnd (mid ++ t) = true ↔ startsEnd (mid ++ (ends ++ [t]).flatten) = true ∨ mid = [13] ∧ t = [10]) := by
    intro before b mid hbody
    have hhead := E.head_ne
    rw [hends, List.head?_cons] at hhead
    rw [hends, List.flatten_cons]
    match mid, hbody with
    | [], _ =>
      refine iff_of_true (startsEnd_iff.mpr ⟨t, [], ht, by simp⟩) (.inl (startsEnd_iff.mpr ?_))
      exact ⟨first, others.flatten, hfirst, rfl⟩
    | [x], hbody =>
      by_cases hx : x = 13
      · subst hx
        have hne := hhead (before ++ [b]) (by rw [hbody]; simp)
        obtain rfl : first = [13, 10] := hfirst.resolve_left fun h => hne (congrArg some h)
        rcases ht with rfl | rfl <;> simp [startsEnd]
      · simp [startsEnd, hx]
    | x :: y :: mid, _ => simp [startsEnd]
  constructor
  · rintro ⟨before, b, mid, hbody, hb, hmid⟩
    rcases (hstart before b mid hbody).mp hmid with h | ⟨rfl, ht⟩
    · exact .inl ⟨before, b, mid, hbody, hb, h⟩
    · exact .inr ⟨before, b, hbody, hb, ht⟩
  · rintro (⟨before, b, mid, hbody, hb, hmid⟩ | ⟨before, b, hbody, hb, ht⟩)
    · exact ⟨before, b, mid, hbody, hb, (hstart before b mid hbody).mpr (.inl hmid)⟩
    · exact ⟨before, b, [13], hbody, hb, (hstart before b [13] hbody).mpr (.inr ⟨rfl, ht⟩)⟩

theorem trailing_lines : Trailing bytes ↔
    ∃ line ∈ splitLines bytes, ∃ before b t, blank b ∧ IsLineEnd t ∧ line = before ++ b :: t := by
  constructor
  · rintro ⟨before, b, t, after, h, hb, ht⟩
    fun_induction splitLines bytes generalizing before with
    | case1 => simp at h
    | case2 rest ih =>
      match before, h with
      | [], h => exact absurd (blank_eq hb) (by rw [← (List.cons.inj h).1]; decide)
      | [x], h => exact absurd (blank_eq hb) (by rw [← (List.cons.inj (List.cons.inj h).2).1]; decide)
      | x :: y :: before, h =>
        obtain ⟨line, hline, hshape⟩ := ih before (List.cons.inj (List.cons.inj h).2).2
        exact ⟨line, List.mem_cons_of_mem _ hline, hshape⟩
    | case3 x rest hne hx ih =>
      match before, h with
      | [], h =>
        obtain rfl := (List.cons.inj h).1
        rcases hx with rfl | rfl
        · exact absurd hb (by decide)
        · exact absurd hb (by decide)
      | y :: before, h =>
        obtain ⟨line, hline, hshape⟩ := ih before (List.cons.inj h).2
        exact ⟨line, List.mem_cons_of_mem _ hline, hshape⟩
    | case4 x rest hne hx hnil ih =>
      have hrest := splitLines_flatten rest
      rw [hnil] at hrest
      have hlength := congrArg List.length h
      rw [← hrest] at hlength
      rcases ht with rfl | rfl <;> simp at hlength <;> omega
    | case5 x rest hne hx line lines hlines ih =>
      match before, h with
      | [], h =>
        obtain ⟨rfl, rfl⟩ := List.cons.inj h
        have hline : line = t := by
          rcases ht with rfl | rfl
          · exact (List.cons.inj (hlines.symm.trans splitLines_lf)).1
          · exact (List.cons.inj (hlines.symm.trans splitLines_crlf)).1
        exact ⟨x :: line, List.mem_cons_self, [], x, t, hb, ht, by rw [hline]; rfl⟩
      | y :: before, h =>
        obtain ⟨line', hline', before', b', t', hb', ht', rfl⟩ := ih before (List.cons.inj h).2
        rw [hlines] at hline'
        rcases List.mem_cons.mp hline' with rfl | hmem
        · exact ⟨_, List.mem_cons_self, x :: before', b', t', hb', ht', rfl⟩
        · exact ⟨_, List.mem_cons_of_mem _ hmem, before', b', t', hb', ht', rfl⟩
  · rintro ⟨line, hline, before, b, t, hb, ht, rfl⟩
    obtain ⟨front, back, h⟩ := List.append_of_mem hline
    have hwhole := splitLines_flatten bytes
    rw [h] at hwhole
    exact ⟨front.flatten ++ before, b, t, back.flatten, by rw [← hwhole]; simp, hb, ht⟩

/-! ### The end that is put back -/

theorem lines_of_stripped {ends : List Bytes} (hends : ∀ t ∈ ends, IsLineEnd t)
    (h : stripped content = ends.flatten ++ rest) :
    ∃ (lines : List Bytes) (after : Bytes), content = lines.flatten ++ after ∧ (∀ line ∈ lines, ∃ t, Emptied line t) ∧
      stripped after = rest := by
  induction ends generalizing content with
  | nil => exact ⟨[], content, rfl, by simp, h⟩
  | cons t ends ih =>
    obtain ⟨ht, hends⟩ := List.forall_mem_cons.mp hends
    rw [List.flatten_cons, List.append_assoc] at h
    obtain ⟨line, tail, rfl, hline, htail⟩ := emptied_of_stripped ht h
    obtain ⟨lines, after, rfl, hlines, hafter⟩ := ih hends htail
    exact ⟨line :: lines, after, by simp, List.forall_mem_cons.mpr ⟨⟨t, hline⟩, hlines⟩, hafter⟩

theorem stripped_lines (hlines : ∀ line ∈ lines, ∃ t, Emptied line t) :
    ∃ ends : List Bytes, (∀ t ∈ ends, IsLineEnd t) ∧ stripped (lines.flatten ++ rest) = ends.flatten ++ stripped rest := by
  induction lines with
  | nil => exact ⟨[], by simp, rfl⟩
  | cons line lines ih =>
    obtain ⟨⟨t, ht⟩, hlines⟩ := List.forall_mem_cons.mp hlines
    obtain ⟨ends, hends, hstripped⟩ := ih hlines
    refine ⟨t :: ends, List.forall_mem_cons.mpr ⟨?_, hends⟩, ?_⟩
    · cases ht with
      | lf => exact .inl rfl
      | crlf => exact .inr rfl
      | joined => exact .inr rfl
    · rw [List.flatten_cons, List.append_assoc, stripped_emptied ht, hstripped, List.flatten_cons, List.append_assoc]

theorem Ended.joinsEnd {front : Bytes} {c : UInt8} (E : Ended (stripped content) (front ++ [c, 13]) (ends ++ [[10]]))
    (hc : blank c ∨ c = 10) : JoinsEnd content := by
  obtain ⟨mids, rfl⟩ : ∃ mids, ends = [13, 10] :: mids := by
    have hhead := E.head_ne (front ++ [c]) (by simp)
    cases ends with
    | nil => exact absurd rfl hhead
    | cons t mids =>
      obtain rfl := (E.isLineEnd t (by simp)).resolve_left fun h => hhead (congrArg some h)
      exact ⟨mids, rfl⟩
  have hwhole : stripped content = front ++ c :: 13 :: ([13, 10] ++ (mids.flatten ++ [10])) := by
    rw [E.whole]
    simp
  obtain ⟨before, after, rfl, hafter, -⟩ := stripped_eq_append hwhole
  obtain ⟨ws, rest, rfl, hws, hrest, hends⟩ := stripped_eq_cons hafter
  have hnil : ws = [] := by
    by_contra hne
    -- Blanks in front of the CR are taken away only if LF follows, but CR follows.
    have hnext := hends hne
    simp only [lineEnds, not_blank_cr, Bool.false_and, Bool.or_false, Bool.or_eq_true, Bool.and_eq_true,
      decide_eq_true_eq] at hnext
    obtain ⟨tail, rfl⟩ := List.head?_eq_some_iff.mp (hnext.resolve_left (by decide)).2
    cases hrest
  subst hnil
  obtain ⟨first, tail, rfl, hfirst, htail⟩ := emptied_of_stripped (.inr rfl) hrest
  obtain ⟨lines, tail, rfl, hlines, htail⟩ := lines_of_stripped (fun t ht => E.isLineEnd t (by simp [ht])) htail
  obtain ⟨last, ws, rfl, hlast, hws⟩ := emptied_of_stripped (.inl rfl) (htail.trans (List.append_nil _).symm)
  exact ⟨before, c, first, lines, last, ws, rfl, hc, hfirst, hlines, hlast, stripped_eq_nil hws⟩

theorem JoinsEnd.ended (h : JoinsEnd content) :
    ∃ front c ends, Ended (stripped content) (front ++ [c, 13]) (ends ++ [[10]]) ∧ (blank c ∨ c = 10) := by
  obtain ⟨before, c, first, mids, last, ws, rfl, hc, hfirst, hmids, hlast, hws⟩ := h
  obtain ⟨kept, hkept⟩ := exists_stripped_append before (c :: 13 :: (first ++ (mids.flatten ++ (last ++ ws))))
  obtain ⟨ends, hends, hstripped⟩ : ∃ ends : List Bytes, (∀ t ∈ ends, IsLineEnd t) ∧
      stripped (mids.flatten ++ (last ++ ws)) = ends.flatten ++ stripped (last ++ ws) := stripped_lines hmids
  have hblank : stripped ws = [] := by
    rw [← List.append_nil ws, stripped_blanks hws rfl]
    rfl
  have hfirst' : (first ++ (mids.flatten ++ (last ++ ws))).head? ≠ some 10 := by
    cases hfirst with
    | @crlf ws hws =>
      cases ws with
      | nil => simp
      | cons x ws =>
        intro hx
        obtain rfl : x = 10 := by simpa using hx
        exact absurd (hws 10 (by simp)) (by decide)
    | joined => simp
  have hkeeps : stripped (c :: 13 :: (first ++ (mids.flatten ++ (last ++ ws)))) =
      c :: 13 :: ([13, 10] ++ (ends.flatten ++ [10])) := by
    rw [stripped, stripped_cr, stripped_emptied hfirst, hstripped, stripped_emptied hlast, hblank, if_neg]
    · rfl
    · rw [lineEnds_cr hfirst', Bool.and_false]
      exact Bool.false_ne_true
  refine ⟨kept, c, [13, 10] :: ends, ⟨?_, ?_, ?_, by simp⟩, hc⟩
  · rw [hkept, hkeeps]
    simp
  · intro t ht
    simp only [List.cons_append, List.mem_cons, List.mem_append, List.not_mem_nil, or_false] at ht
    rcases ht with rfl | ht | rfl
    · exact .inr rfl
    · exact hends t ht
    · exact .inl rfl
  · intro front hfront
    have hlast := congrArg List.getLast? hfront
    simp at hlast

/-! ### Running the normalization again -/

theorem trailing_or_blank (hx : blank x = true) (hends : lineEnds bytes = true) :
    Trailing (x :: bytes) ∨ ∃ front b, x :: bytes = front ++ [b] ∧ blank b = true := by
  induction bytes generalizing x with
  | nil => exact .inr ⟨[], x, rfl, hx⟩
  | cons y bytes ih =>
    simp only [lineEnds, Bool.or_eq_true, Bool.and_eq_true, decide_eq_true_eq] at hends
    rcases hends with (rfl | ⟨rfl, h⟩) | ⟨hy, h⟩
    · exact .inl ⟨[], x, [10], bytes, rfl, hx, .inl rfl⟩
    · obtain ⟨after, rfl⟩ := List.head?_eq_some_iff.mp h
      exact .inl ⟨[], x, [13, 10], after, rfl, hx, .inr rfl⟩
    · rcases ih hy h with ⟨before, b, t, after, h, hb⟩ | ⟨front, b, h, hb⟩
      · exact .inl ⟨x :: before, b, t, after, by rw [h]; rfl, hb⟩
      · exact .inr ⟨x :: front, b, by rw [h]; rfl, hb⟩

theorem stripped_self (htrailing : ¬Trailing bytes) (hblank : ∀ front b, bytes = front ++ [b] → blank b = false) :
    stripped bytes = bytes := by
  induction bytes with
  | nil => rfl
  | cons x bytes ih =>
    have ih := ih (fun ⟨before, b, t, after, h, hb⟩ => htrailing ⟨x :: before, b, t, after, by rw [h]; rfl, hb⟩)
      fun front b h => hblank (x :: front) b (by rw [h]; rfl)
    rw [stripped, if_neg, ih]
    intro hx
    rw [Bool.and_eq_true] at hx
    rcases trailing_or_blank hx.1 hx.2 with h | ⟨front, b, h, hb⟩
    · exact htrailing h
    · rw [hblank front b h] at hb
      cases hb

def EndsTwice (bytes : Bytes) : Prop := ∃ front t u, IsLineEnd t ∧ IsLineEnd u ∧ bytes = front ++ (t ++ u)

/-- The line end that is put back is a second one where LF takes the place of CRLF after LF and CR. -/
theorem endsTwice_iff (hbody : ∀ front, body ≠ front ++ [10]) (ht : IsLineEnd t) :
    EndsTwice (body ++ t) ↔ ∃ front, body = front ++ [10, 13] ∧ t = [10] := by
  constructor
  · rintro ⟨front, u, v, hu, hv, h⟩
    obtain ⟨start, rfl⟩ : ∃ start, u = start ++ [10] := by
      rcases hu with rfl | rfl
      · exact ⟨[], rfl⟩
      · exact ⟨[13], rfl⟩
    rcases ht with rfl | rfl <;> rcases hv with rfl | rfl
    · have heq : body ++ [10] = front ++ start ++ [10] ++ [10] := by
        rw [h]
        simp
      exact absurd (List.append_cancel_right heq) (hbody _)
    · have heq : body ++ [10] = front ++ start ++ [10, 13] ++ [10] := by
        rw [h]
        simp
      exact ⟨front ++ start, List.append_cancel_right heq, rfl⟩
    · have heq : body ++ [13] ++ [10] = front ++ start ++ [10] ++ [10] := by
        refine Eq.trans ?_ (h.trans ?_) <;> simp
      cases (List.append_inj' (List.append_cancel_right heq) rfl).2
    · have heq : body ++ [13, 10] = front ++ start ++ [10] ++ [13, 10] := by
        rw [h]
        simp
      exact absurd (List.append_cancel_right heq) (hbody _)
  · rintro ⟨front, rfl, rfl⟩
    exact ⟨front, [10], [13, 10], .inl rfl, .inr rfl, by simp⟩

theorem finished_finished (E : Ended bytes body (ends ++ [t])) (htwice : ¬EndsTwice (body ++ t)) :
    finished (body ++ t) = body ++ t := by
  have ht : IsLineEnd t := E.isLineEnd t (by simp)
  by_cases hjoin : t = [10] ∧ ∃ front, body = front ++ [13]
  · obtain ⟨rfl, front, rfl⟩ := hjoin
    have E' : Ended (front ++ [13] ++ [10]) front ([] ++ [[13, 10]]) := by
      refine ⟨by simp, by simp [IsLineEnd], fun before hbefore => ?_, by simp⟩
      exact htwice ((endsTwice_iff E.body_ne ht).mpr ⟨before, by rw [hbefore]; simp, rfl⟩)
    rw [E'.finished_eq]
    simp
  · have E' : Ended (body ++ t) body ([] ++ [t]) := by
      refine ⟨by simp, by simpa using ht, E.body_ne, fun front hfront h => hjoin ⟨?_, front, hfront⟩⟩
      simpa using h
    exact E'.finished_eq

end Lines

/-! ### A changed file -/

section Files
variable {f : GitFile} {content body t : Bytes} {ends : List Bytes}

/-- Only blanks and line ends are taken away from the content; no line is left with trailing blanks, no two line ends are
    left at the end, and the next run changes nothing. -/
def Canonical (f : GitFile) : Prop :=
  ((normalizeFile f).content.Sublist f.content ∧
    (normalizeFile f).content.filter substance = f.content.filter substance) ∧
  (∀ line ∈ splitLines (normalizeFile f).content, ∀ before b t, blank b → IsLineEnd t → line ≠ before ++ b :: t) ∧
  (∀ before t u, IsLineEnd t → IsLineEnd u → (normalizeFile f).content ≠ before ++ (t ++ u)) ∧
  normalizeFile (normalizeFile f) = normalizeFile f

theorem canonical_of (hmode : f.mode ≠ .symlink) (hnul : 0 ∉ f.content) : Canonical f ↔
    ((normalizeBytes f.content).Sublist f.content ∧
      (normalizeBytes f.content).filter substance = f.content.filter substance) ∧
    ¬Trailing (normalizeBytes f.content) ∧ ¬EndsTwice (normalizeBytes f.content) ∧
    normalizeBytes (normalizeBytes f.content) = normalizeBytes f.content := by
  have hfirst : normalizeFile f = { f with content := normalizeBytes f.content } :=
    if_neg (not_or.mpr ⟨hmode, hnul⟩)
  rw [Canonical, hfirst]
  dsimp only
  refine and_congr_right fun hkept => and_congr ?_ (and_congr ?_ ?_)
  · rw [trailing_lines]
    push Not
    rfl
  · rw [EndsTwice]
    push Not
    rfl
  · have hnul' : 0 ∉ normalizeBytes f.content := fun h => hnul (hkept.1.mem h)
    rw [normalizeFile, if_neg (not_or.mpr ⟨hmode, hnul'⟩)]
    simp

theorem normalizeBytes_cases (content : Bytes) :
    (normalizeBytes content = stripped content ∧ ∀ front, stripped content ≠ front ++ [10]) ∨
      ∃ body ends t, Ended (stripped content) body (ends ++ [t]) ∧ normalizeBytes content = body ++ t := by
  rw [normalizeBytes_eq]
  obtain ⟨body, ends, E⟩ := exists_ended (stripped content)
  rcases List.eq_nil_or_concat ends with rfl | ⟨es, t, rfl⟩
  · have hne : ∀ front, stripped content ≠ front ++ [10] := by
      rw [E.whole, List.flatten_nil, List.append_nil]
      exact E.body_ne
    exact .inl ⟨finished_of_not hne, hne⟩
  · rw [List.concat_eq_append] at E
    exact .inr ⟨body, es, t, E, E.finished_eq⟩

theorem Ended.suffix (E : Ended (stripped content) body (ends ++ [t])) : (body ++ t).Sublist (stripped content) := by
  rw [E.whole, List.flatten_append, List.flatten_singleton]
  exact (List.sublist_append_right _ _).append_left body

theorem Ended.filter_eq (E : Ended (stripped content) body (ends ++ [t])) :
    (body ++ t).filter substance = (stripped content).filter substance := by
  have hends : ∀ u ∈ ends ++ [t], u.filter substance = [] := by
    intro u hu
    rcases E.isLineEnd u hu with rfl | rfl <;> rfl
  have hflat : (ends ++ [t]).flatten.filter substance = [] := by
    rw [List.filter_flatten, List.flatten_eq_nil_iff]
    intro v hv
    obtain ⟨u, hu, rfl⟩ := List.mem_map.mp hv
    exact hends u hu
  rw [E.whole, List.filter_append, List.filter_append, hflat, hends t (by simp)]

theorem normalizeBytes_kept (content : Bytes) : (normalizeBytes content).Sublist content ∧
    (normalizeBytes content).filter substance = content.filter substance := by
  rcases normalizeBytes_cases content with ⟨heq, -⟩ | ⟨body, ends, t, E, heq⟩
  · rw [heq]
    exact ⟨stripped_sublist content, filter_stripped content⟩
  · rw [heq]
    exact ⟨E.suffix.trans (stripped_sublist content), E.filter_eq.trans (filter_stripped content)⟩

theorem trailing_or_endsTwice_iff (content : Bytes) :
    Trailing (normalizeBytes content) ∨ EndsTwice (normalizeBytes content) ↔ JoinsLine content ∨ JoinsEnd content := by
  constructor
  · intro h
    rcases normalizeBytes_cases content with ⟨heq, hne⟩ | ⟨body, ends, t, E, heq⟩
    · rw [heq] at h
      rcases h with h | ⟨front, t, u, -, rfl | rfl, h⟩
      · exact .inl (trailing_stripped_iff.mp h)
      · exact absurd (h.trans (List.append_assoc _ _ _).symm) (hne _)
      · exact absurd (show stripped content = front ++ t ++ [13] ++ [10] by rw [h]; simp) (hne _)
    · rw [heq, E.trailing_iff, endsTwice_iff E.body_ne (E.isLineEnd t (by simp))] at h
      rcases h with (h | ⟨front, b, rfl, hb, rfl⟩) | ⟨front, rfl, rfl⟩
      · exact .inl (trailing_stripped_iff.mp h)
      · exact .inr (E.joinsEnd (.inl hb))
      · exact .inr (E.joinsEnd (.inr rfl))
  · rintro (h | h)
    · have htrailing := trailing_stripped_iff.mpr h
      rcases normalizeBytes_cases content with ⟨heq, -⟩ | ⟨body, ends, t, E, heq⟩
      · exact .inl (heq ▸ htrailing)
      · rw [heq]
        exact .inl (E.trailing_iff.mpr (.inl htrailing))
    · obtain ⟨front, c, ends, E, hc⟩ := h.ended
      rw [normalizeBytes_eq, E.finished_eq]
      rcases hc with hc | rfl
      · exact .inl (E.trailing_iff.mpr (.inr ⟨front, c, rfl, hc, rfl⟩))
      · exact .inr ((endsTwice_iff E.body_ne (.inl rfl)).mpr ⟨front, rfl, rfl⟩)

theorem normalizeBytes_normalizeBytes (htrailing : ¬Trailing (normalizeBytes content))
    (htwice : ¬EndsTwice (normalizeBytes content)) :
    normalizeBytes (normalizeBytes content) = normalizeBytes content := by
  have hself : stripped (normalizeBytes content) = normalizeBytes content := by
    refine stripped_self htrailing fun front b h => ?_
    by_contra hb
    rw [Bool.not_eq_false] at hb
    rcases normalizeBytes_cases content with ⟨heq, -⟩ | ⟨body, ends, t, E, heq⟩
    · exact stripped_not_blank hb (heq.symm.trans h)
    · rw [heq] at h
      have hlast := congrArg List.getLast? h
      rcases E.isLineEnd t (by simp) with rfl | rfl
      · obtain rfl : 10 = b := by simpa using hlast
        exact absurd hb (by decide)
      · obtain rfl : 10 = b := by simpa using hlast
        exact absurd hb (by decide)
  rw [normalizeBytes_eq, hself]
  rcases normalizeBytes_cases content with ⟨heq, hne⟩ | ⟨body, ends, t, E, heq⟩
  · rw [heq]
    exact finished_of_not hne
  · rw [heq] at htwice ⊢
    exact finished_finished E htwice

/-- The normalized content of a text is canonical exactly when the CR behind a blank does not join a line end. -/
theorem normalized_canonical_iff (f : GitFile) (hmode : f.mode ≠ .symlink) (hnul : 0 ∉ f.content) :
    Canonical f ↔ ¬JoinsLine f.content ∧ ¬JoinsEnd f.content := by
  have hjoins := trailing_or_endsTwice_iff f.content
  rw [canonical_of hmode hnul]
  constructor
  · rintro ⟨-, htrailing, htwice, -⟩
    exact ⟨fun h => (hjoins.mpr (.inl h)).elim htrailing htwice, fun h => (hjoins.mpr (.inr h)).elim htrailing htwice⟩
  · rintro ⟨hline, hend⟩
    have htrailing : ¬Trailing (normalizeBytes f.content) := fun h => (hjoins.mp (.inl h)).elim hline hend
    have htwice : ¬EndsTwice (normalizeBytes f.content) := fun h => (hjoins.mp (.inr h)).elim hline hend
    exact ⟨normalizeBytes_kept f.content, htrailing, htwice, normalizeBytes_normalizeBytes htrailing htwice⟩

/-- `a`, a blank and CR; a line of one blank. -/
def carriageReturn : GitFile := { mode := .regular, content := [97, 32, 13, 32, 10] }

theorem normalized_canonical_iff_regular :
    Canonical { mode := .regular, content := [97, 32, 10] } ↔ ¬JoinsLine [97, 32, 10] ∧ ¬JoinsEnd [97, 32, 10] :=
  normalized_canonical_iff { mode := .regular, content := [97, 32, 10] } (by decide) (by decide)

/-- The first run leaves a blank in front of CRLF, which the second one takes away. -/
theorem carriageReturn_not_canonical : ¬∀ f : GitFile, f.mode ≠ .symlink → 0 ∉ f.content → Canonical f := by
  intro h
  have hagain := (h carriageReturn (by decide) (by decide)).2.2.2
  exact absurd (congrArg GitFile.content hagain) (by decide)

end Files

end Vuzol.Execution
