import Vuzol.Review.Partitions

/-! The headers that Git writes (`quote.c`, `diff.c`) and the paths that are read back from them. Git quotes a path that has a
    character to escape; of its escapes the reader knows all but those of five control characters. -/

namespace Vuzol.Review

open Vuzol.Lib

/-- The letter after the backslash. -/
def escapeLetter (b : UInt8) : Option UInt8 :=
  if b = 0x07 then some 0x61
  else if b = 0x08 then some 0x62
  else if b = 0x09 then some 0x74
  else if b = 0x0A then some 0x6E
  else if b = 0x0B then some 0x76
  else if b = 0x0C then some 0x66
  else if b = 0x0D then some 0x72
  else if b = 0x22 ∨ b = backslash then some b
  else none

/-- A byte between quotes; `quotePath` is `core.quotePath`. -/
def quoteByte (quotePath : Bool) (b : UInt8) : Bytes :=
  match escapeLetter b with
  | some x => [backslash, x]
  | none =>
    if b < 0x20 ∨ b = 0x7F ∨ (quotePath = true ∧ 0x80 ≤ b) then
      [backslash, 0x30 + b / 64, 0x30 + b / 8 % 8, 0x30 + b % 8]
    else [b]

def quoteBytes (quotePath : Bool) (path : Bytes) : Bytes := path.flatMap (quoteByte quotePath)

def gitHeader (quotePath : Bool) (path : Bytes) : Bytes :=
  if quoteBytes quotePath path = path then diffGitPrefix ++ (ascii "a/" ++ (path ++ (ascii " b/" ++ path)))
  else
    diffGitPrefix ++ (ascii "\"a/" ++ (quoteBytes quotePath path ++ (ascii "\" \"b/" ++ (quoteBytes quotePath path ++ [0x22]))))

/-- What the reader makes of an escaped byte. -/
def misread (b : UInt8) : UInt8 :=
  if b = 0x07 then 0x61
  else if b = 0x08 then 0x62
  else if b = 0x0B then 0x76
  else if b = 0x0C then 0x66
  else if b = 0x0D then 0x72
  else b

def wellQuoted (q : Bool) (b : UInt8) : Bool :=
  !(quoteByte q b).contains 0x0A &&
    match quoteByte q b with
    | [c] => c == b && b != 0x22 && b != backslash && misread b == b
    | [s, x] => s == backslash && !isOctal x && unescape x == misread b
    | [s, x, y, z] =>
      s == backslash && isOctal x && isOctal y && isOctal z && octalValue x y z == b.toNat && misread b == b
    | _ => false

theorem wellQuoted_fin : ∀ (q : Bool) (n : Fin 256), wellQuoted q (UInt8.ofNat n) = true := by decide +kernel

theorem wellQuoted_all (q : Bool) (b : UInt8) : wellQuoted q b = true := by
  have h := wellQuoted_fin q ⟨b.toNat, b.toNat_lt⟩
  simpa only [UInt8.ofNat_toNat] using h

section Quoting
variable {q : Bool} {b : UInt8} {path rest side : Bytes}

theorem quoteByte_cases (q : Bool) (b : UInt8) :
    (quoteByte q b = [b] ∧ b ≠ 0x22 ∧ b ≠ backslash ∧ misread b = b) ∨
      (∃ x, quoteByte q b = [backslash, x] ∧ isOctal x = false ∧ unescape x = misread b) ∨
        ∃ x y z, quoteByte q b = [backslash, x, y, z] ∧ isOctal x = true ∧ isOctal y = true ∧ isOctal z = true ∧
          octalValue x y z = b.toNat ∧ misread b = b := by
  have h := wellQuoted_all q b
  simp only [wellQuoted, Bool.and_eq_true] at h
  obtain ⟨-, h⟩ := h
  split at h
  · rename_i c hc
    simp only [Bool.and_eq_true, beq_iff_eq, bne_iff_ne] at h
    obtain ⟨⟨⟨rfl, h1⟩, h2⟩, h3⟩ := h
    exact Or.inl ⟨hc, h1, h2, h3⟩
  · rename_i s x hx
    simp only [Bool.and_eq_true, beq_iff_eq, Bool.not_eq_true'] at h
    obtain ⟨⟨rfl, h1⟩, h2⟩ := h
    exact Or.inr (Or.inl ⟨x, hx, h1, h2⟩)
  · rename_i s x y z hx
    simp only [Bool.and_eq_true, beq_iff_eq] at h
    obtain ⟨⟨⟨⟨⟨rfl, h1⟩, h2⟩, h3⟩, h4⟩, h5⟩ := h
    exact Or.inr (Or.inr ⟨x, y, z, hx, h1, h2, h3, h4, h5⟩)
  · cases h

theorem newline_notMem_quoteByte (q : Bool) (b : UInt8) : 0x0A ∉ quoteByte q b := by
  have h := wellQuoted_all q b
  simp only [wellQuoted, Bool.and_eq_true, Bool.not_eq_true', List.contains_eq_mem, decide_eq_false_iff_not] at h
  exact h.1

theorem unquoteGitPath_quoteByte :
    unquoteGitPath (quoteByte q b ++ rest) = (unquoteGitPath rest).map (misread b :: ·) := by
  rcases quoteByte_cases q b with ⟨hb, -, hne, hread⟩ | ⟨x, hb, hx, hread⟩ | ⟨x, y, z, hb, hx, hy, hz, hvalue, hread⟩
  · rw [hb, hread, List.singleton_append, unquoteGitPath.eq_def]
    exact if_pos hne
  · rw [hb, ← hread]
    show unquoteGitPath (backslash :: x :: rest) = _
    rw [unquoteGitPath.eq_def]
    dsimp only
    rw [if_neg (not_not.mpr rfl), hx, if_neg Bool.false_ne_true]
  · rw [hb, hread]
    show unquoteGitPath (backslash :: x :: y :: z :: rest) = _
    rw [unquoteGitPath.eq_def]
    dsimp only
    rw [if_neg (not_not.mpr rfl), hx, hy, hz, if_pos rfl, Bool.and_self, if_pos rfl, hvalue,
      if_neg (Nat.not_lt.mpr (Nat.le_of_lt_succ b.toNat_lt)), UInt8.ofNat_toNat]

theorem quoteBytes_cons : quoteBytes q (b :: path) = quoteByte q b ++ quoteBytes q path := rfl

theorem unquoteGitPath_quoteBytes (q : Bool) (path : Bytes) :
    unquoteGitPath (quoteBytes q path) = .ok (path.map misread) := by
  induction path with
  | nil => rfl
  | cons b path ih => rw [quoteBytes_cons, unquoteGitPath_quoteByte, ih, List.map_cons]; rfl

theorem length_quoteByte (q : Bool) (b : UInt8) : 1 ≤ (quoteByte q b).length := by
  rcases quoteByte_cases q b with ⟨hb, -⟩ | ⟨x, hb, -⟩ | ⟨x, y, z, hb, -⟩ <;> rw [hb] <;> simp

theorem length_quoteBytes (q : Bool) (path : Bytes) : path.length ≤ (quoteBytes q path).length := by
  induction path with
  | nil => exact Nat.zero_le _
  | cons b path ih =>
    rw [quoteBytes_cons, List.length_append, List.length_cons, Nat.add_comm]
    exact Nat.add_le_add (length_quoteByte q b) ih

theorem unquoted_cons (h : quoteBytes q (b :: path) = b :: path) : quoteByte q b = [b] ∧ quoteBytes q path = path := by
  have hlength := congrArg List.length h
  have hle := length_quoteBytes q path
  rw [quoteBytes_cons] at h hlength
  rw [List.length_append, List.length_cons] at hlength
  rcases quoteByte_cases q b with ⟨hb, -⟩ | ⟨x, hb, -⟩ | ⟨x, y, z, hb, -⟩
  · rw [hb, List.singleton_append, List.cons.injEq] at h
    exact ⟨hb, h.2⟩
  · rw [hb] at hlength
    simp only [List.length_cons, List.length_nil] at hlength
    omega
  · rw [hb] at hlength
    simp only [List.length_cons, List.length_nil] at hlength
    omega

theorem map_misread_of_unquoted (h : quoteBytes q path = path) : path.map misread = path := by
  induction path with
  | nil => rfl
  | cons b path ih =>
    obtain ⟨hb, hpath⟩ := unquoted_cons h
    rw [List.map_cons, ih hpath]
    rcases quoteByte_cases q b with ⟨-, -, -, hread⟩ | ⟨x, hx, -⟩ | ⟨x, y, z, hx, -⟩
    · rw [hread]
    · rw [hb] at hx
      cases hx
    · rw [hb] at hx
      cases hx

theorem newline_notMem_quoteBytes (q : Bool) (path : Bytes) : 0x0A ∉ quoteBytes q path := by
  intro h
  obtain ⟨b, -, hb⟩ := List.mem_flatMap.mp h
  exact newline_notMem_quoteByte q b hb

theorem quoteBytes_not_quote (q : Bool) (path : Bytes) : (quoteBytes q path).head? ≠ some 0x22 := by
  cases path with
  | nil => simp [quoteBytes]
  | cons b path =>
    rw [quoteBytes_cons]
    rcases quoteByte_cases q b with ⟨hb, hne, -⟩ | ⟨x, hb, -⟩ | ⟨x, y, z, hb, -⟩ <;> rw [hb]
    · simpa using hne
    · simp [backslash]
    · simp [backslash]

theorem quoteBytes_not_space (q : Bool) (path : Bytes) : [0x20, 0x22].isPrefixOf (quoteBytes q path) = false := by
  cases path with
  | nil => rfl
  | cons b path =>
    rw [quoteBytes_cons]
    rcases quoteByte_cases q b with ⟨hb, -⟩ | ⟨x, hb, -⟩ | ⟨x, y, z, hb, -⟩ <;> rw [hb]
    · have hhead := quoteBytes_not_quote q path
      cases hpath : quoteBytes q path with
      | nil => simp [List.isPrefixOf]
      | cons c rest =>
        rw [hpath, List.head?_cons, ne_eq, Option.some.injEq] at hhead
        simp [List.isPrefixOf, Ne.symm hhead]
    · simp [List.isPrefixOf, backslash]
    · simp [List.isPrefixOf, backslash]

def sidesBetween : Bytes := [0x22, 0x20, 0x22, 0x62, 0x2F]

theorem ascii_sidesBetween : ascii "\" \"b/" = sidesBetween := by decide

theorem afterLast_cons_of_ne (hb : b ≠ 0x22) (h : afterLast sidesBetween rest = none) :
    afterLast sidesBetween (b :: rest) = none := by
  rw [afterLast, h]
  exact if_neg (by simp [sidesBetween, List.isPrefixOf, Ne.symm hb])

theorem afterLast_quoteBytes (q : Bool) (path : Bytes) : afterLast sidesBetween (quoteBytes q path) = none := by
  induction path with
  | nil => rfl
  | cons b path ih =>
    have hback : backslash ≠ 0x22 := by decide
    rw [quoteBytes_cons]
    rcases quoteByte_cases q b with ⟨hb, hne, -⟩ | ⟨x, hb, -⟩ | ⟨x, y, z, hb, hx, hy, hz, -⟩ <;> rw [hb]
    · exact afterLast_cons_of_ne hne ih
    · refine afterLast_cons_of_ne hback ?_
      show afterLast sidesBetween (x :: quoteBytes q path) = none
      by_cases hx : x = 0x22
      · rw [afterLast, ih]
        refine if_neg fun hstart => ?_
        have hspace := quoteBytes_not_space q path
        cases hpath : quoteBytes q path with
        | nil => rw [hpath] at hstart; simp [sidesBetween, List.isPrefixOf] at hstart
        | cons c rest =>
          rw [hpath] at hstart hspace
          cases rest with
          | nil => simp [sidesBetween, List.isPrefixOf] at hstart
          | cons d rest =>
            simp only [sidesBetween, List.isPrefixOf, Bool.and_eq_true] at hstart
            simp only [List.isPrefixOf, hstart.2.1, hstart.2.2.1, Bool.and_self] at hspace
            cases hspace
      · exact afterLast_cons_of_ne hx ih
    · have hoctal : ∀ d, isOctal d = true → d ≠ 0x22 := by
        rintro d hd rfl
        exact absurd hd (by decide)
      exact afterLast_cons_of_ne hback
        (afterLast_cons_of_ne (hoctal x hx) (afterLast_cons_of_ne (hoctal y hy) (afterLast_cons_of_ne (hoctal z hz) ih)))

theorem afterLast_append {word found pre : Bytes} (h : afterLast word rest = some found) :
    afterLast word (pre ++ rest) = some found := by
  induction pre with
  | nil => exact h
  | cons b pre ih => rw [List.cons_append, afterLast, ih]

theorem quotedSide_eq (q : Bool) (path : Bytes) :
    quotedSide (ascii "\"a/" ++ (quoteBytes q path ++ (ascii "\" \"b/" ++ (quoteBytes q path ++ [0x22])))) =
      some (quoteBytes q path) := by
  have hstart : ascii "\"a/" = [0x22, 0x61, 0x2F] := by decide
  have hbetween : afterLast sidesBetween (sidesBetween ++ quoteBytes q path) = some (quoteBytes q path) := by
    have hnone := afterLast_quoteBytes q path
    have hrest : afterLast sidesBetween (0x20 :: 0x22 :: 0x62 :: 0x2F :: quoteBytes q path) = none := by
      refine afterLast_cons_of_ne (by decide) ?_
      rw [afterLast, afterLast_cons_of_ne (by decide) (afterLast_cons_of_ne (by decide) hnone)]
      exact if_neg (by simp [sidesBetween, List.isPrefixOf])
    show afterLast sidesBetween (0x22 :: 0x20 :: 0x22 :: 0x62 :: 0x2F :: quoteBytes q path) = _
    rw [afterLast, hrest]
    exact if_pos (by simp [sidesBetween, List.isPrefixOf])
  rw [quotedSide, hstart, ascii_sidesBetween, if_pos]
  · show afterLast sidesBetween ((quoteBytes q path ++ (sidesBetween ++ (quoteBytes q path ++ [0x22]))).dropLast) = _
    rw [← List.append_assoc sidesBetween, ← List.append_assoc, List.dropLast_concat]
    exact afterLast_append hbetween
  · simp only [← List.append_assoc]
    exact List.getLast?_concat

theorem agreeingSide_eq {seen : Bytes} (h : seen ++ rest = path) :
    agreeingSide seen (rest ++ (ascii " b/" ++ path)) = some path := by
  have hsides : ascii " b/" = [0x20, 0x62, 0x2F] := by decide
  rw [hsides]
  induction rest generalizing seen with
  | nil =>
    rw [List.append_nil] at h
    subst h
    show agreeingSide seen (0x20 :: 0x62 :: 0x2F :: seen) = _
    rw [agreeingSide, hsides, if_pos ⟨by simp [List.isPrefixOf], rfl⟩]
    rfl
  | cons b rest ih =>
    rw [List.cons_append, agreeingSide, if_neg]
    · exact ih (by rw [← h, List.append_assoc, List.singleton_append])
    · rintro ⟨-, hseen⟩
      have hlength := congrArg List.length hseen
      rw [← h] at hlength
      simp only [List.length_drop, List.length_cons, List.length_append, List.length_nil] at hlength
      omega

theorem diffGitPrefix_isPrefixOf : diffGitPrefix.isPrefixOf (gitHeader q path) = true := by
  rw [List.isPrefixOf_iff_prefix, gitHeader]
  split
  · exact List.prefix_append _ _
  · exact List.prefix_append _ _

theorem newline_notMem_gitHeader : 0x0A ∉ gitHeader q path := by
  have hfixed : 0x0A ∉ diffGitPrefix ∧ 0x0A ∉ ascii "a/" ∧ 0x0A ∉ ascii " b/" ∧ 0x0A ∉ ascii "\"a/" ∧
      0x0A ∉ ascii "\" \"b/" := by decide
  obtain ⟨h0, h1, h2, h3, h4⟩ := hfixed
  have hquoted := newline_notMem_quoteBytes q path
  rw [gitHeader]
  split
  · rename_i hplain
    rw [hplain] at hquoted
    simp only [List.mem_append, h0, h1, h2, hquoted, or_self, not_false_eq_true]
  · simp only [List.mem_append, h0, h3, h4, hquoted, List.mem_singleton, false_or]
    decide

theorem parseHeaderPath_gitHeader (q : Bool) (path : Bytes) :
    parseHeaderPath (gitHeader q path) = .ok (decode surrogateescape (path.map misread)) := by
  unfold parseHeaderPath gitHeader
  split
  · rename_i hplain
    dsimp only
    rw [List.drop_left, if_neg, if_neg]
    · have hdrop : (ascii "a/" ++ (path ++ (ascii " b/" ++ path))).drop 2 = path ++ (ascii " b/" ++ path) := rfl
      rw [hdrop, agreeingSide_eq (List.nil_append _), map_misread_of_unquoted hplain]
    · have hstart : (ascii "a/").isPrefixOf (ascii "a/" ++ (path ++ (ascii " b/" ++ path))) = true :=
        List.isPrefixOf_iff_prefix.mpr (List.prefix_append _ _)
      rw [hstart]
      decide
    · show ¬(ascii "\"a/").isPrefixOf (0x61 :: 0x2F :: (path ++ (ascii " b/" ++ path))) = true
      have hquoted : ascii "\"a/" = [0x22, 0x61, 0x2F] := by decide
      rw [hquoted]
      simp [List.isPrefixOf]
  · dsimp only
    rw [List.drop_left, if_pos, quotedSide_eq]
    · dsimp only
      rw [unquoteGitPath_quoteBytes]
      rfl
    · exact List.isPrefixOf_iff_prefix.mpr (List.prefix_append _ _)

theorem misread_fin : ∀ n : Fin 256, misread (misread (UInt8.ofNat n)) = misread (UInt8.ofNat n) ∧
    (misread (UInt8.ofNat n) = UInt8.ofNat n ∨ (UInt8.ofNat n).toNat < 0x80) := by decide +kernel

theorem misread_misread (b : UInt8) : misread (misread b) = misread b := by
  have h := (misread_fin ⟨b.toNat, b.toNat_lt⟩).1
  simpa only [UInt8.ofNat_toNat] using h

theorem misread_eq_or_lt (b : UInt8) : misread b = b ∨ b.toNat < 0x80 := by
  have h := (misread_fin ⟨b.toNat, b.toNat_lt⟩).2
  simpa only [UInt8.ofNat_toNat] using h

theorem misread_eq_of_decode_eq (h : decode surrogateescape path = decode surrogateescape (side.map misread)) :
    ∀ b ∈ path, misread b = b := by
  intro b hb
  by_contra hne
  have hlt := (misread_eq_or_lt b).resolve_left hne
  have hmem : b.toNat ∈ decode surrogateescape path := (ascii_mem_decode hlt).mpr ⟨b, hb, rfl⟩
  rw [h, ascii_mem_decode hlt] at hmem
  obtain ⟨c, hc, hcb⟩ := hmem
  obtain ⟨x, -, rfl⟩ := List.mem_map.mp hc
  rw [← UInt8.toNat_inj.mp hcb, misread_misread] at hne
  exact hne rfl

theorem misread_ne_iff : misread b ≠ b ↔ b ∈ [0x07, 0x08, 0x0B, 0x0C, 0x0D] := by
  have h : ∀ n : Fin 256, misread (UInt8.ofNat n) ≠ UInt8.ofNat n ↔
      UInt8.ofNat n ∈ [0x07, 0x08, 0x0B, 0x0C, 0x0D] := by decide +kernel
  simpa only [UInt8.ofNat_toNat] using h ⟨b.toNat, b.toNat_lt⟩

theorem parseHeaderPath_gitHeader_iff :
    parseHeaderPath (gitHeader q path) = .ok (decode surrogateescape path) ↔
      ∀ b ∈ path, b ∉ [0x07, 0x08, 0x0B, 0x0C, 0x0D] := by
  rw [parseHeaderPath_gitHeader, Except.ok.injEq]
  constructor
  · intro h b hb hmem
    exact misread_ne_iff.mpr hmem (misread_eq_of_decode_eq h.symm b hb)
  · intro h
    rw [List.map_congr_left fun b hb => not_not.mp fun hne => h b hb (misread_ne_iff.mp hne), List.map_id']

/-- Three octal digits for more than a byte come before any escape that is cut short. -/
inductive Overflows : Bytes → Prop where
  | here {x y z : UInt8} {rest : Bytes} : isOctal x → isOctal y → isOctal z → 0xFF < octalValue x y z →
      Overflows (backslash :: x :: y :: z :: rest)
  | plain {b : UInt8} {rest : Bytes} : b ≠ backslash → Overflows rest → Overflows (b :: rest)
  | letter {x : UInt8} {rest : Bytes} : isOctal x = false → Overflows rest → Overflows (backslash :: x :: rest)
  | octal {x y z : UInt8} {rest : Bytes} : isOctal x → isOctal y → isOctal z → octalValue x y z ≤ 0xFF → Overflows rest →
      Overflows (backslash :: x :: y :: z :: rest)

theorem unquoteGitPath_valueError : unquoteGitPath side = .error .valueError ↔ Overflows side := by
  constructor
  · intro h
    fun_induction unquoteGitPath side with
    | case1 => cases h
    | case2 b rest hb ih => exact .plain hb (ih (map_eq_error.mp h))
    | case3 b hb => cases h
    | case4 b hb x hx y z rest hyz hv =>
      obtain rfl := not_not.mp hb
      rw [Bool.and_eq_true] at hyz
      exact .here hx hyz.1 hyz.2 hv
    | case5 b hb x hx y z rest hyz hv ih =>
      obtain rfl := not_not.mp hb
      rw [Bool.and_eq_true] at hyz
      exact .octal hx hyz.1 hyz.2 (Nat.le_of_not_lt hv) (ih (map_eq_error.mp h))
    | case6 => cases h
    | case7 => cases h
    | case8 b hb x rest hx ih =>
      obtain rfl := not_not.mp hb
      exact .letter (Bool.eq_false_iff.mpr hx) (ih (map_eq_error.mp h))
  · intro h
    induction h with
    | here hx hy hz hv =>
      rw [unquoteGitPath.eq_def]
      simp only [ne_eq, not_true_eq_false, if_false, hx, hy, hz, Bool.and_self, if_true, if_pos hv]
    | plain hb _ ih =>
      rw [unquoteGitPath.eq_def]
      exact (if_pos hb).trans (map_eq_error.mpr ih)
    | letter hb _ ih =>
      rw [unquoteGitPath.eq_def]
      simp only [ne_eq, not_true_eq_false, if_false, hb, Bool.false_eq_true]
      exact map_eq_error.mpr ih
    | octal hx hy hz hv _ ih =>
      rw [unquoteGitPath.eq_def]
      simp only [ne_eq, not_true_eq_false, if_false, hx, hy, hz, Bool.and_self, if_true, if_neg (Nat.not_lt.mpr hv)]
      exact map_eq_error.mpr ih

def OverflowingHeader (header : Bytes) : Prop :=
  (ascii "\"a/").isPrefixOf (header.drop diffGitPrefix.length) = true ∧
    ∃ side, quotedSide (header.drop diffGitPrefix.length) = some side ∧ Overflows side

theorem parseHeaderPath_valueError {header : Bytes} :
    parseHeaderPath header = .error .valueError ↔ OverflowingHeader header := by
  unfold parseHeaderPath OverflowingHeader
  dsimp only
  split
  · rename_i hquoted
    simp only [hquoted, true_and]
    split
    · rename_i hside
      simp [hside]
    · rename_i side hside
      simp only [hside, Option.some.injEq, exists_eq_left', map_eq_error, unquoteGitPath_valueError]
  · rename_i hquoted
    simp only [hquoted]
    split
    · simp
    · split <;> simp

/-- The header is read as the path that Git wrote it for, and any other is read as some path or refused with an
    `IndependentReviewError`. -/
def ReadsExactly (header : Bytes) : Prop :=
  (∀ q path, 0 ∉ path → header = gitHeader q path → parseHeaderPath header = .ok (decode surrogateescape path)) ∧
    ((∀ q path, 0 ∉ path → header ≠ gitHeader q path) →
      (∃ path, parseHeaderPath header = .ok path) ∨ ∃ e ≠ .valueError, parseHeaderPath header = .error e)

/-- Headers are read exactly, but for a path with one of the bytes that Git writes as a letter, and for an escape above a
    byte. -/
theorem reads_exactly_iff (header : Bytes) :
    ReadsExactly header ↔
      (∀ q path, 0 ∉ path → header = gitHeader q path → ∀ b ∈ path, b ∉ [0x07, 0x08, 0x0B, 0x0C, 0x0D]) ∧
        ¬OverflowingHeader header := by
  constructor
  · rintro ⟨hgit, hother⟩
    refine ⟨fun q path hpath heq => ?_, fun hover => ?_⟩
    · subst heq
      exact parseHeaderPath_gitHeader_iff.mp (hgit q path hpath rfl)
    · have herror := parseHeaderPath_valueError.mpr hover
      -- No header of Git's own is read with this error.
      have hne : ∀ q path, 0 ∉ path → header ≠ gitHeader q path := by
        rintro q path - rfl
        rw [parseHeaderPath_gitHeader] at herror
        cases herror
      rcases hother hne with ⟨path, hok⟩ | ⟨e, he, hfail⟩
      · rw [herror] at hok
        cases hok
      · rw [herror, Except.error.injEq] at hfail
        exact he hfail.symm
  · rintro ⟨hgit, hover⟩
    refine ⟨fun q path hpath heq => ?_, fun _ => ?_⟩
    · subst heq
      exact parseHeaderPath_gitHeader_iff.mpr (hgit q path hpath rfl)
    · cases hread : parseHeaderPath header with
      | ok path => exact .inl ⟨path, rfl⟩
      | error e =>
        refine .inr ⟨e, ?_, rfl⟩
        rintro rfl
        exact hover (parseHeaderPath_valueError.mp hread)

/-- The bell is read as the letter `a`. -/
theorem bell_is_misread : parseHeaderPath (gitHeader true [0x07]) = .ok (decode surrogateescape [0x61]) ∧
    ¬ReadsExactly (gitHeader true [0x07]) := by
  refine ⟨by decide +kernel, fun h => ?_⟩
  have hread := h.1 true [0x07] (by decide) rfl
  exact absurd hread (by decide +kernel)

end Quoting

end Vuzol.Review
