import Vuzol.Lib.Json

/-! Python values, as `json.loads` makes them of a text. What `dumps` wrote is read back, with the keys of each object in
    order. -/

namespace Vuzol.Lib

/-- A Python value; what is of none of these types is an `object`. -/
inductive Value (Object : Type) where
  | none
  | bool (b : Bool)
  | int (n : Int)
  | str (t : Text)
  | list (entries : List (Value Object))
  | tuple (entries : List (Value Object))
  | dict (items : List (Value Object × Value Object))
  | object (o : Object)

namespace Value

variable {Object : Type}
variable {s : Text}

mutual

def ofJson : Json → Value Object
  | .null => none
  | .bool b => bool b
  | .num n => int n
  | .str t => str t
  | .arr entries => list (ofJsonEntries entries)
  | .obj fields => dict (ofJsonFields fields)

def ofJsonEntries : List Json → List (Value Object)
  | [] => []
  | x :: entries => ofJson x :: ofJsonEntries entries

def ofJsonFields : List (String × Json) → List (Value Object × Value Object)
  | [] => []
  | (k, x) :: fields => (str k.toList, ofJson x) :: ofJsonFields fields

end

def isKey (key : Text) : Value Object → Bool
  | str t => t = key
  | _ => false

/-- `items[key]`. -/
def item? (items : List (Value Object × Value Object)) (key : Text) : Option (Value Object) :=
  (items.find? fun p => isKey key p.1).map Prod.snd

/-! ### The reader of `json` -/

def isJsonSpace (c : Char) : Bool := c = ' ' || c = '\t' || c = '\n' || c = '\r'

def skipSpace (s : Text) : Text := s.dropWhile isJsonSpace

def hex4? (a b c d : Char) : Option Nat := do
  let a ← hexDigit? a
  let b ← hexDigit? b
  let c ← hexDigit? c
  let d ← hexDigit? d
  some (((a * 16 + b) * 16 + c) * 16 + d)

/-- `BACKSLASH`. -/
def unescaped : List (Char × Char) :=
  [('\x22', '\x22'), ('\x5c', '\x5c'), ('/', '/'), ('b', '\x08'), ('f', '\x0c'), ('n', '\n'), ('r', '\r'), ('t', '\t')]

/-- The code points of a text up to the closing quote. -/
def scanUnits : Text → Option (List Nat × Text)
  | '\x22' :: rest => some ([], rest)
  | '\x5c' :: 'u' :: a :: b :: c :: d :: rest => do
    let n ← hex4? a b c d
    let r ← scanUnits rest
    some (n :: r.1, r.2)
  | '\x5c' :: c :: rest => do
    let c ← unescaped.lookup c
    let r ← scanUnits rest
    some (c.toNat :: r.1, r.2)
  | c :: rest =>
    if c.toNat < 32 then Option.none
    else do
      let r ← scanUnits rest
      some (c.toNat :: r.1, r.2)
  | [] => Option.none

def isSurrogate (n : Nat) : Bool := 0xD800 ≤ n && n ≤ 0xDFFF

def joinUnits : List Nat → Option Text
  | high :: low :: rest =>
    if 0xD800 ≤ high ∧ high ≤ 0xDBFF ∧ 0xDC00 ≤ low ∧ low ≤ 0xDFFF then
      (joinUnits rest).map (Char.ofNat (0x10000 + (high - 0xD800) * 0x400 + (low - 0xDC00)) :: ·)
    else if isSurrogate high then Option.none
    else (joinUnits (low :: rest)).map (Char.ofNat high :: ·)
  | [n] => if isSurrogate n then Option.none else some [Char.ofNat n]
  | [] => some []

/-- `py_scanstring`, after the opening quote. -/
def scanString (s : Text) : Option (Text × Text) := do
  let r ← scanUnits s
  let t ← joinUnits r.1
  some (t, r.2)

def wholeDigits : Text → Text
  | '0' :: _ => ['0']
  | s => s.takeWhile Char.isDigit

def fraction : Text → Text
  | '.' :: s => if s.takeWhile Char.isDigit = [] then [] else '.' :: s.takeWhile Char.isDigit
  | _ => []

def exponent : Text → Text
  | e :: s =>
    let sign := match s with
      | c :: _ => if c = '-' || c = '+' then [c] else []
      | [] => []
    let digits := (s.drop sign.length).takeWhile Char.isDigit
    if (e = 'e' || e = 'E') && !digits.isEmpty then e :: (sign ++ digits) else []
  | [] => []

/-- `NUMBER_RE`, after the sign; `int` takes 4300 digits at most, and `float` makes a value of any number. -/
def scanMagnitude (float : Text → Object) (negative : Bool) (s : Text) : Option (Value Object × Text) :=
  let digits := wholeDigits s
  let rest := s.drop digits.length
  let tail := fraction rest ++ exponent (rest.drop (fraction rest).length)
  let sign := if negative then ['-'] else []
  if digits = [] then Option.none
  else if tail ≠ [] then some (object (float (sign ++ digits ++ tail)), rest.drop tail.length)
  else if 4300 < digits.length then Option.none
  else
    let n : Int := Nat.ofDigitChars 10 digits 0
    some (int (if negative then -n else n), rest)

def scanNumber (float : Text → Object) : Text → Option (Value Object × Text)
  | 'N' :: 'a' :: 'N' :: rest => some (object (float "NaN".toList), rest)
  | 'I' :: 'n' :: 'f' :: 'i' :: 'n' :: 'i' :: 't' :: 'y' :: rest => some (object (float "Infinity".toList), rest)
  | '-' :: 'I' :: 'n' :: 'f' :: 'i' :: 'n' :: 'i' :: 't' :: 'y' :: rest => some (object (float "-Infinity".toList), rest)
  | '-' :: s => scanMagnitude float true s
  | s => scanMagnitude float false s

/-- A `dict` of pairs: a key that comes again takes the later value, at the earlier place. -/
def insert (items : List (Text × Value Object)) (key : Text) (x : Value Object) : List (Text × Value Object) :=
  if key ∈ items.map Prod.fst then items.map fun p => if p.1 = key then (key, x) else p else items ++ [(key, x)]

def dictOf (pairs : List (Text × Value Object)) : Value Object :=
  dict ((pairs.foldl (fun items p => insert items p.1 p.2) []).map fun p => (str p.1, p.2))

section
variable (float : Text → Object)

mutual

/-- `scan_once`. -/
def scanValue : Nat → Text → Option (Value Object × Text)
  | 0, _ => Option.none
  | fuel + 1, s =>
    match s with
    | '\x22' :: rest => (scanString rest).map fun r => (str r.1, r.2)
    | '\x7b' :: rest =>
      match skipSpace rest with
      | '\x7d' :: rest => some (dict [], rest)
      | rest => (scanFields fuel rest).map fun r => (dictOf r.1, r.2)
    | '[' :: rest =>
      match skipSpace rest with
      | ']' :: rest => some (list [], rest)
      | rest => (scanEntries fuel rest).map fun r => (list r.1, r.2)
    | 'n' :: 'u' :: 'l' :: 'l' :: rest => some (none, rest)
    | 't' :: 'r' :: 'u' :: 'e' :: rest => some (bool true, rest)
    | 'f' :: 'a' :: 'l' :: 's' :: 'e' :: rest => some (bool false, rest)
    | s => scanNumber float s

def scanEntries : Nat → Text → Option (List (Value Object) × Text)
  | 0, _ => Option.none
  | fuel + 1, s => do
    let x ← scanValue fuel s
    match skipSpace x.2 with
    | ',' :: rest => (scanEntries fuel (skipSpace rest)).map fun r => (x.1 :: r.1, r.2)
    | ']' :: rest => some ([x.1], rest)
    | _ => Option.none

/-- The fields of an object, and its end. -/
def scanFields : Nat → Text → Option (List (Text × Value Object) × Text)
  | fuel + 1, '\x22' :: s => do
    let k ← scanString s
    match skipSpace k.2 with
    | ':' :: rest => do
      let x ← scanValue fuel (skipSpace rest)
      match skipSpace x.2 with
      | ',' :: rest => (scanFields fuel (skipSpace rest)).map fun r => ((k.1, x.1) :: r.1, r.2)
      | '\x7d' :: rest => some ([(k.1, x.1)], rest)
      | _ => Option.none
    | _ => Option.none
  | _, _ => Option.none

end

/-- `json.loads`. Two levels of the reader take a character at least. -/
def loads (s : Text) : Option (Value Object) :=
  if s.head? = some '\uFEFF' then Option.none
  else do
    let x ← scanValue float (2 * s.length + 2) (skipSpace s)
    if skipSpace x.2 = [] then some x.1 else Option.none

end

/-! ### Texts that were written -/

open Json

theorem scanUnits_escape (c : Char) (rest : Text) :
    scanUnits (escape c ++ rest) = (scanUnits rest).map fun r => (c.toNat :: r.1, r.2) := by
  have hbind : ∀ n : Nat, (do let r ← scanUnits rest; some (n :: r.1, r.2)) = (scanUnits rest).map fun r => (n :: r.1, r.2) :=
    fun n => by cases scanUnits rest <;> rfl
  unfold escape
  split_ifs with h1 h2 h3 h4 h5 h6 h7 h8
  · subst h1; exact hbind _
  · subst h2; exact hbind _
  · subst h3; exact hbind _
  · subst h4; exact hbind _
  · subst h5; exact hbind _
  · subst h6; exact hbind _
  · subst h7; exact hbind _
  · obtain ⟨hhigh, hlow⟩ := hexDigits_read c.toNat h8
    have hhex : hex4? '0' '0' (c.toNat / 16).digitChar (c.toNat % 16).digitChar = some c.toNat := by
      have hzero : hexDigit? '0' = some 0 := rfl
      simp only [hex4?, hzero, hhigh, hlow, Option.bind_eq_bind, Option.bind_some, Option.some.injEq]
      omega
    show scanUnits ('\x5c' :: 'u' :: '0' :: '0' :: (c.toNat / 16).digitChar :: (c.toNat % 16).digitChar :: rest) = _
    rw [scanUnits, hhex]
    exact hbind _
  · show scanUnits (c :: rest) = _
    rw [scanUnits.eq_def]
    split
    · simp_all
    · simp_all
    · simp_all
    · rename_i c' rest' _ _ _ heq
      cases heq
      rw [if_neg h8]
      exact hbind _
    · simp_all

theorem scanUnits_escaped (t rest : Text) : scanUnits (t.flatMap escape ++ '\x22' :: rest) = some (t.map Char.toNat, rest) := by
  induction t with
  | nil => simp [scanUnits]
  | cons c t ih => rw [List.flatMap_cons, List.append_assoc, scanUnits_escape, ih]; rfl

theorem isSurrogate_toNat (c : Char) : isSurrogate c.toNat = false := by
  have hvalid : c.toNat < 0xD800 ∨ 0xDFFF < c.toNat ∧ c.toNat < 0x110000 := c.valid
  simp only [isSurrogate, Bool.and_eq_false_iff, decide_eq_false_iff_not]
  omega

theorem joinUnits_toNat (t : Text) : joinUnits (t.map Char.toNat) = some t := by
  induction t with
  | nil => rfl
  | cons c t ih =>
    have hc := isSurrogate_toNat c
    cases t with
    | nil => simp [joinUnits, hc, Char.ofNat_toNat]
    | cons d t =>
      rw [List.map_cons] at ih
      have hpair : ¬(0xD800 ≤ c.toNat ∧ c.toNat ≤ 0xDBFF ∧ 0xDC00 ≤ d.toNat ∧ d.toNat ≤ 0xDFFF) := by
        simp only [isSurrogate, Bool.and_eq_false_iff, decide_eq_false_iff_not] at hc
        omega
      rw [List.map_cons, List.map_cons, joinUnits, if_neg hpair, hc, ih]
      simp [Char.ofNat_toNat]

theorem scanString_quote (t rest : Text) : scanString (t.flatMap escape ++ '\x22' :: rest) = some (t, rest) := by
  simp [scanString, scanUnits_escaped, joinUnits_toNat]

/-! ### Numbers that were written -/

def EndsValue (s : Text) : Prop := ∀ c ∈ s.head?, c = ',' ∨ c = ']' ∨ c = '\x7d'

theorem EndsValue.endsNumber (h : EndsValue s) : EndsNumber s := by
  intro c hc
  rcases h c hc with rfl | rfl | rfl <;> rfl

theorem takeWhile_digits {ds : Text} (hds : ∀ c ∈ ds, c.isDigit = true) (hs : EndsNumber s) :
    (ds ++ s).takeWhile Char.isDigit = ds := by
  rw [List.takeWhile_append_of_pos hds]
  have hnil : s.takeWhile Char.isDigit = [] := by
    cases s with
    | nil => rfl
    | cons c s => rw [List.takeWhile_cons_of_neg (by rw [hs c rfl]; decide)]
  rw [hnil, List.append_nil]

theorem toDigits_head {n : Nat} (h : 0 < n) : (Nat.toDigits 10 n).head? ≠ some '0' := by
  induction n using Nat.strong_induction_on with
  | _ n ih =>
    by_cases hn : n < 10
    · rw [Nat.toDigits_of_lt_base hn]
      have hdigit : ∀ d < 10, 0 < d → [Nat.digitChar d].head? ≠ some '0' := by decide
      exact hdigit n hn h
    · rw [Nat.toDigits_of_base_le (by decide) (by omega)]
      have hne : (Nat.toDigits 10 (n / 10)) ≠ [] := Nat.toDigits_ne_nil
      rw [List.head?_append_of_ne_nil _ hne]
      exact ih (n / 10) (by omega) (by omega)

theorem wholeDigits_toDigits (n : Nat) (hs : EndsNumber s) : wholeDigits (Nat.toDigits 10 n ++ s) = Nat.toDigits 10 n := by
  have hdigits : ∀ c ∈ Nat.toDigits 10 n, c.isDigit = true := fun c hc =>
    Nat.isDigit_of_mem_toDigits (by decide) (by decide) hc
  rcases Nat.eq_zero_or_pos n with rfl | hpos
  · rfl
  · have hhead : ∀ rest, Nat.toDigits 10 n ++ s ≠ '0' :: rest := by
      intro rest heq
      refine toDigits_head hpos ?_
      rw [← List.head?_append_of_ne_nil (Nat.toDigits 10 n) Nat.toDigits_ne_nil, heq]
      rfl
    rw [wholeDigits.eq_def]
    split
    · exact absurd ‹_› (hhead _)
    · exact takeWhile_digits hdigits hs

theorem EndsValue.no_tail {s : Text} (h : EndsValue s) : fraction s = [] ∧ exponent s = [] := by
  cases s with
  | nil => exact ⟨rfl, rfl⟩
  | cons c s => rcases h c rfl with rfl | rfl | rfl <;> exact ⟨rfl, rfl⟩

theorem scanMagnitude_toDigits (float : Text → Object) (negative : Bool) {n : Nat} (hn : (Nat.toDigits 10 n).length ≤ 4300)
    (hs : EndsValue s) :
    scanMagnitude float negative (Nat.toDigits 10 n ++ s) = some (int (if negative then -n else n), s) := by
  obtain ⟨hfraction, hexponent⟩ := hs.no_tail
  unfold scanMagnitude
  simp only [wholeDigits_toDigits n hs.endsNumber, List.drop_left, hfraction, List.length_nil, List.drop_zero, hexponent,
    List.append_nil, Nat.toDigits_ne_nil, if_false, ne_eq, not_true_eq_false, Nat.not_lt.mpr hn, Nat.ofDigitChars_ten_toDigits]

/-! ### Values that were written -/

mutual

/-- Keys come once in each object, and no number is too long for `int`. -/
@[simp] def Loadable : Json → Prop
  | .num n => (Nat.toDigits 10 n.natAbs).length ≤ 4300
  | .arr entries => LoadableEntries entries
  | .obj fields => (fields.map Prod.fst).Nodup ∧ LoadableFields fields
  | _ => True

@[simp] def LoadableEntries : List Json → Prop
  | [] => True
  | x :: entries => Loadable x ∧ LoadableEntries entries

@[simp] def LoadableFields : List (String × Json) → Prop
  | [] => True
  | (_, x) :: fields => Loadable x ∧ LoadableFields fields

end

theorem insert_of_notMem {items : List (Text × Value Object)} {key : Text} {x : Value Object} (h : key ∉ items.map Prod.fst) :
    insert items key x = items ++ [(key, x)] := if_neg h

theorem foldl_insert {items pairs : List (Text × Value Object)} (h : ((items ++ pairs).map Prod.fst).Nodup) :
    pairs.foldl (fun items p => insert items p.1 p.2) items = items ++ pairs := by
  induction pairs generalizing items with
  | nil => rw [List.append_nil]; rfl
  | cons p pairs ih =>
    have hnot : p.1 ∉ items.map Prod.fst := by
      rw [List.map_append, List.map_cons] at h
      exact fun hmem => List.disjoint_of_nodup_append h hmem List.mem_cons_self
    have happ : items ++ p :: pairs = items ++ [(p.1, p.2)] ++ pairs := by simp
    rw [List.foldl_cons, insert_of_notMem hnot, ih (happ ▸ h), happ]

def pairsOf (fields : List (String × Json)) : List (Text × Value Object) := fields.map fun f => (f.1.toList, ofJson f.2)

theorem ofJsonFields_eq (fields : List (String × Json)) :
    (ofJsonFields fields : List (Value Object × Value Object)) = (pairsOf fields).map fun p => (str p.1, p.2) := by
  induction fields with
  | nil => rfl
  | cons f fields ih => rw [ofJsonFields, ih]; rfl

theorem ofJsonEntries_eq (l : List Json) : (ofJsonEntries l : List (Value Object)) = l.map ofJson := by
  induction l with
  | nil => rfl
  | cons x l ih => rw [ofJsonEntries, ih]; rfl

theorem dictOf_pairsOf {fields : List (String × Json)} (h : (fields.map Prod.fst).Nodup) :
    dictOf (pairsOf fields) = (dict (ofJsonFields fields) : Value Object) := by
  have hkeys : (([] ++ pairsOf fields : List (Text × Value Object)).map Prod.fst).Nodup := by
    have hmap : (pairsOf fields : List (Text × Value Object)).map Prod.fst = (fields.map Prod.fst).map String.toList := by
      simp [pairsOf]
    rw [List.nil_append, hmap]
    exact h.map fun _ _ heq => String.toList_inj.mp heq
  rw [dictOf, foldl_insert hkeys, List.nil_append, ofJsonFields_eq]

theorem endsValue_entries (l : List Json) (s : Text) : EndsValue (printEntries l ++ s) := by
  cases l <;> · rintro c hc; cases hc; simp

theorem endsValue_fields (l : List (String × Json)) (s : Text) : EndsValue (printFields l ++ s) := by
  cases l <;> · rintro c hc; cases hc; simp

theorem skipSpace_print (a : Json) (s : Text) : skipSpace (a.print ++ s) = a.print ++ s := by
  obtain ⟨c, rest, ha, hc⟩ := print_kind a
  have hspace : isJsonSpace c = false := by
    by_contra hspace
    rw [Bool.not_eq_false] at hspace
    simp only [isJsonSpace, Bool.or_eq_true, decide_eq_true_eq] at hspace
    rcases hspace with ((rfl | rfl) | rfl) | rfl <;> cases hc
  rw [ha, List.cons_append, skipSpace, List.dropWhile_cons_of_neg (by rw [hspace]; decide)]

theorem skipSpace_cons {c : Char} (h : isJsonSpace c = false) (s : Text) : skipSpace (c :: s) = c :: s :=
  List.dropWhile_cons_of_neg (by rw [h]; decide)

theorem scanNumber_digits (float : Text → Object) {n : Nat} (hn : (Nat.toDigits 10 n).length ≤ 4300) (hs : EndsValue s) :
    scanNumber float (Nat.toDigits 10 n ++ s) = some (int n, s) := by
  obtain ⟨d, ds, hds⟩ := List.exists_cons_of_ne_nil (Nat.toDigits_ne_nil (n := n) (b := 10))
  have hdigit := isDigit_of_toDigits hds
  have hmagnitude := scanMagnitude_toDigits float false hn hs
  rw [hds, List.cons_append] at hmagnitude ⊢
  rw [scanNumber.eq_def]
  split
  iterate 4
    · rename_i heq
      exact absurd ((List.cons.inj heq).1 ▸ hdigit) (by decide)
  · exact hmagnitude

theorem scanNumber_printInt (float : Text → Object) {n : Int} (hn : (Nat.toDigits 10 n.natAbs).length ≤ 4300) {s : Text}
    (hs : EndsValue s) : scanNumber float (printInt n ++ s) = some (int n, s) := by
  cases n with
  | ofNat n => exact scanNumber_digits float hn hs
  | negSucc n =>
    obtain ⟨d, ds, hds⟩ := List.exists_cons_of_ne_nil (Nat.toDigits_ne_nil (n := n + 1) (b := 10))
    have hdigit := isDigit_of_toDigits hds
    have hmagnitude := scanMagnitude_toDigits float true hn hs
    show scanNumber float ('-' :: (Nat.toDigits 10 (n + 1) ++ s)) = _
    rw [Int.natAbs_negSucc, Nat.succ_eq_add_one, hds, List.cons_append] at hmagnitude
    rw [hds, List.cons_append, scanNumber.eq_def]
    split
    · rename_i heq
      exact absurd (List.cons.inj heq).1 (by decide)
    · rename_i heq
      exact absurd (List.cons.inj heq).1 (by decide)
    · rename_i heq
      exact absurd ((List.cons.inj (List.cons.inj heq).2).1 ▸ hdigit) (by decide)
    · rename_i heq
      rw [← (List.cons.inj heq).2]
      exact hmagnitude
    · rename_i hno
      exact absurd rfl (hno _)

theorem scanValue_number (float : Text → Object) (fuel : Nat) (n : Int) (s : Text) :
    scanValue float (fuel + 1) (printInt n ++ s) = scanNumber float (printInt n ++ s) := by
  have hhead : ∃ c rest, printInt n = c :: rest ∧ (c = '-' ∨ c.isDigit = true) := by
    cases n with
    | ofNat n =>
      obtain ⟨d, ds, hds⟩ := List.exists_cons_of_ne_nil (Nat.toDigits_ne_nil (n := n) (b := 10))
      exact ⟨d, ds, hds, Or.inr (isDigit_of_toDigits hds)⟩
    | negSucc n => exact ⟨_, _, rfl, Or.inl rfl⟩
  obtain ⟨c, rest, hc, hfirst⟩ := hhead
  rw [hc, List.cons_append, scanValue.eq_def]
  simp only
  split
  all_goals first
    | rfl
    | (rename_i heq; exact absurd ((List.cons.inj heq).1 ▸ hfirst) (by decide))

mutual

theorem scanValue_print (float : Text → Object) (a : Json) (fuel : Nat) {s : Text} (ha : Loadable a) (hs : EndsValue s)
    (hfuel : 2 * a.print.length < fuel) : scanValue float fuel (a.print ++ s) = some (ofJson a, s) := by
  obtain ⟨fuel, rfl⟩ : ∃ n, fuel = n + 1 := ⟨fuel - 1, by omega⟩
  cases a with
  | null => rfl
  | bool b => cases b <;> rfl
  | num n =>
    show scanValue float (fuel + 1) (printInt n ++ s) = _
    rw [scanValue_number]
    exact scanNumber_printInt float ha hs
  | str t =>
    show scanValue float (fuel + 1) (quote t ++ s) = _
    rw [quote, List.cons_append, List.append_assoc, List.singleton_append, scanValue, scanString_quote]
    rfl
  | arr l =>
    match l with
    | [] => rfl
    | x :: l =>
      have hlength : 2 * (x.print ++ printEntries l).length < fuel := by
        simp only [print, List.length_cons] at hfuel
        omega
      have hread := scanEntries_print float x l fuel ha (s := s) hlength
      rw [print, List.cons_append, List.append_assoc, scanValue, skipSpace_print]
      split
      · rename_i heq
        exact absurd heq print_append_ne_close
      · rw [hread]
        rfl
  | obj l =>
    match l with
    | [] => rfl
    | (k, x) :: l =>
      have hlength : 2 * (quote k.toList ++ ':' :: (x.print ++ printFields l)).length < fuel := by
        simp only [print, List.length_cons] at hfuel
        omega
      have hread := scanFields_print float k x l fuel ha.2 (s := s) hlength
      have hdict : dictOf (pairsOf _) = (_ : Value Object) := dictOf_pairsOf ha.1
      have hquote : quote k.toList ++ ':' :: (x.print ++ (printFields l ++ s)) =
          '\x22' :: (k.toList.flatMap escape ++ '\x22' :: ':' :: (x.print ++ (printFields l ++ s))) := by
        simp [quote]
      rw [print, List.cons_append, List.append_assoc, List.cons_append, List.append_assoc, scanValue]
      rw [hquote] at hread ⊢
      rw [skipSpace_cons (by rfl)]
      split
      · rename_i heq
        exact absurd (List.cons.inj heq).1 (by decide)
      · rw [hread, Option.map_some, hdict]
        rfl
termination_by fuel

theorem scanEntries_print (float : Text → Object) (x : Json) (l : List Json) (fuel : Nat) {s : Text}
    (hload : LoadableEntries (x :: l)) (hfuel : 2 * (x.print ++ printEntries l).length < fuel) :
    scanEntries float fuel (x.print ++ (printEntries l ++ s)) = some (ofJson x :: ofJsonEntries l, s) := by
  obtain ⟨fuel, rfl⟩ : ∃ n, fuel = n + 1 := ⟨fuel - 1, by omega⟩
  rw [List.length_append] at hfuel
  have hpos : 0 < (printEntries l).length := by cases l <;> simp [printEntries]
  have hx := scanValue_print float x fuel hload.1 (endsValue_entries l s) (by omega)
  rw [scanEntries, hx]
  match l with
  | [] => rfl
  | y :: l =>
    have hy := scanEntries_print float y l fuel (s := s) hload.2 (by
      simp only [printEntries, List.length_cons] at hfuel
      omega)
    show (match skipSpace (',' :: (y.print ++ printEntries l) ++ s) with
      | ',' :: rest =>
        (scanEntries float fuel (skipSpace rest)).map fun r : List (Value Object) × Text => (ofJson x :: r.1, r.2)
      | ']' :: rest => some ([ofJson x], rest)
      | _ => Option.none) = _
    rw [List.cons_append, List.append_assoc, skipSpace_cons (by rfl)]
    simp only [skipSpace_print, hy]
    rfl
termination_by fuel

theorem scanFields_print (float : Text → Object) (k : String) (x : Json) (l : List (String × Json)) (fuel : Nat) {s : Text}
    (hload : LoadableFields ((k, x) :: l))
    (hfuel : 2 * (quote k.toList ++ ':' :: (x.print ++ printFields l)).length < fuel) :
    scanFields float fuel (quote k.toList ++ ':' :: (x.print ++ (printFields l ++ s))) =
      some (pairsOf ((k, x) :: l), s) := by
  obtain ⟨fuel, rfl⟩ : ∃ n, fuel = n + 1 := ⟨fuel - 1, by omega⟩
  rw [List.length_append, List.length_cons, List.length_append] at hfuel
  have hpos : 0 < (printFields l).length := by cases l <;> simp [printFields]
  have hx := scanValue_print float x fuel hload.1 (endsValue_fields l s) (by omega)
  rw [quote, List.cons_append, List.append_assoc, List.singleton_append, scanFields, scanString_quote]
  show (match skipSpace (':' :: (x.print ++ (printFields l ++ s))) with
    | ':' :: rest => do
      let x ← scanValue float fuel (skipSpace rest)
      match skipSpace x.2 with
      | ',' :: rest => (scanFields float fuel (skipSpace rest)).map fun r : List (Text × Value Object) × Text =>
        ((k.toList, x.1) :: r.1, r.2)
      | '\x7d' :: rest => some ([(k.toList, x.1)], rest)
      | _ => Option.none
    | _ => Option.none) = _
  rw [skipSpace_cons (by rfl)]
  simp only [skipSpace_print, hx]
  match l with
  | [] => rfl
  | (j, y) :: l =>
    have hy := scanFields_print float j y l fuel (s := s) hload.2 (by
      simp only [printFields, List.length_cons] at hfuel
      omega)
    have hquote : quote j.toList ++ ':' :: (y.print ++ (printFields l ++ s)) =
        '\x22' :: (j.toList.flatMap escape ++ '\x22' :: ':' :: (y.print ++ (printFields l ++ s))) := by
      simp [quote]
    rw [hquote] at hy
    show (match skipSpace (',' :: (quote j.toList ++ ':' :: (y.print ++ printFields l)) ++ s) with
      | ',' :: rest => (scanFields float fuel (skipSpace rest)).map fun r : List (Text × Value Object) × Text =>
        ((k.toList, ofJson x) :: r.1, r.2)
      | '\x7d' :: rest => some ([(k.toList, ofJson x)], rest)
      | _ => Option.none) = _
    rw [List.cons_append, List.append_assoc, List.cons_append, List.append_assoc, hquote, skipSpace_cons (by rfl)]
    simp only
    rw [skipSpace_cons (by rfl), hy]
    rfl
termination_by fuel

end

theorem loads_print (float : Text → Object) {a : Json} (ha : Loadable a) : loads float a.print = some (ofJson a) := by
  have hnil : EndsValue [] := fun c hc => by cases hc
  have hread := scanValue_print float a (2 * a.print.length + 2) ha hnil (by omega)
  have hskip := skipSpace_print a []
  rw [List.append_nil] at hread hskip
  have hmark : a.print.head? ≠ some '\uFEFF' := by
    obtain ⟨c, rest, hprint, hc⟩ := print_kind a
    rw [hprint]
    rintro heq
    cases heq
    cases hc
  unfold loads
  rw [if_neg hmark, hskip, hread]
  rfl

/-! ### Keys in any order -/

theorem loadableEntries_iff {l : List Json} : LoadableEntries l ↔ ∀ x ∈ l, Loadable x := by
  induction l with
  | nil => simp [LoadableEntries]
  | cons x l ih => simp [LoadableEntries, ih]

variable {l : List (String × Json)}

theorem loadableFields_iff : LoadableFields l ↔ ∀ f ∈ l, Loadable f.2 := by
  induction l with
  | nil => simp [LoadableFields]
  | cons f l ih => simp [LoadableFields, ih]

mutual

theorem loadable_sorted : ∀ a : Json, Loadable a → Loadable a.sorted
  | .null, _ | .bool _, _ | .str _, _ => trivial
  | .num _, h => h
  | .arr l, h => loadableEntries_sorted l h
  | .obj l, h => by
    have hperm : ((sortedFields l).insertionSort fun f g => f.1 ≤ g.1).Perm (sortedFields l) := List.perm_insertionSort _ _
    have hkeys : (sortedFields l).map Prod.fst = l.map Prod.fst := by simp [sortedFields_eq]
    refine ⟨(hperm.map Prod.fst).nodup_iff.mpr (hkeys ▸ h.1), ?_⟩
    rw [loadableFields_iff]
    exact fun f hf => loadableFields_iff.mp (loadableFields_sorted l h.2) f (hperm.mem_iff.mp hf)

theorem loadableEntries_sorted : ∀ l : List Json, LoadableEntries l → LoadableEntries (sortedEntries l)
  | [], _ => trivial
  | a :: l, h => ⟨loadable_sorted a h.1, loadableEntries_sorted l h.2⟩

theorem loadableFields_sorted : ∀ l : List (String × Json), LoadableFields l → LoadableFields (sortedFields l)
  | [], _ => trivial
  | (_, a) :: l, h => ⟨loadable_sorted a h.1, loadableFields_sorted l h.2⟩

end

theorem loads_dumps (float : Text → Object) {a : Json} (ha : Loadable a) : loads float a.dumps = some (ofJson a.sorted) :=
  loads_print float (loadable_sorted a ha)

def Reads (v : Value Object) (a : Json) : Prop := ∃ b : Json, v = ofJson b ∧ b.sorted = a.sorted

theorem reads_ofJson (a : Json) : Reads (ofJson a : Value Object) a := ⟨a, rfl, rfl⟩

theorem reads_sorted (a : Json) : Reads (ofJson a.sorted : Value Object) a := ⟨a.sorted, rfl, sorted_sorted a⟩

variable {v : Value Object}

theorem Reads.none (h : Reads v .null) : v = none := by
  obtain ⟨b, rfl, hb⟩ := h
  cases b <;> cases hb
  rfl

theorem Reads.bool {b : Bool} (h : Reads v (.bool b)) : v = bool b := by
  obtain ⟨b, rfl, hb⟩ := h
  cases b <;> cases hb
  rfl

theorem Reads.int {n : Int} (h : Reads v (.num n)) : v = int n := by
  obtain ⟨b, rfl, hb⟩ := h
  cases b <;> cases hb
  rfl

theorem Reads.str {t : Text} (h : Reads v (.str t)) : v = str t := by
  obtain ⟨b, rfl, hb⟩ := h
  cases b <;> cases hb
  rfl

theorem Reads.list {l : List Json} (h : Reads v (.arr l)) : ∃ vs, v = Value.list vs ∧ List.Forall₂ Reads vs l := by
  obtain ⟨b, rfl, hb⟩ := h
  cases b with
  | arr m =>
    refine ⟨_, rfl, ?_⟩
    rw [ofJsonEntries_eq]
    have heq : m.map sorted = l.map sorted := by
      rw [← sortedEntries_eq, ← sortedEntries_eq]
      exact arr.inj hb
    clear hb
    induction m generalizing l with
    | nil =>
      cases l with
      | nil => exact .nil
      | cons x l => cases heq
    | cons y m ih =>
      cases l with
      | nil => cases heq
      | cons x l => exact .cons ⟨y, rfl, (List.cons.inj heq).1⟩ (ih (List.cons.inj heq).2)
  | _ => cases hb

theorem Reads.fields (h : Reads v (.obj l)) (hl : (l.map Prod.fst).Nodup) :
    ∃ m : List (String × Json), v = ofJson (.obj m) ∧ (m.map Prod.fst).Perm (l.map Prod.fst) ∧
      ∀ f ∈ m, ∃ x, (f.1, x) ∈ l ∧ Reads (ofJson f.2 : Value Object) x := by
  obtain ⟨b, rfl, hb⟩ := h
  cases b with
  | obj m =>
    have hkeys := keys_perm hb
    refine ⟨m, rfl, hkeys, fun f hf => ?_⟩
    have hlookup := get?_of_sorted_eq hb f.1
    rw [get?, get?, lookup_of_mem (hkeys.nodup_iff.mpr hl) hf, Option.map_some] at hlookup
    obtain ⟨x, hx, hsorted⟩ := Option.map_eq_some_iff.mp hlookup.symm
    exact ⟨x, mem_of_lookup hx, f.2, rfl, hsorted.symm⟩
  | _ => cases hb

/-- A `dict` has the keys of the object and no others, each with the value that it has there. -/
theorem Reads.dict (h : Reads v (.obj l)) (hl : (l.map Prod.fst).Nodup) :
    ∃ items, v = Value.dict items ∧ (∀ p ∈ items, ∃ k ∈ l.map Prod.fst, p.1 = Value.str k.toList) ∧
      ∀ f ∈ l, ∃ x, item? items f.1.toList = some x ∧ Reads x f.2 := by
  obtain ⟨b, rfl, hb⟩ := h
  cases b with
  | obj m =>
    have hkeys := keys_perm hb
    refine ⟨_, rfl, ?_, ?_⟩
    · intro p hp
      rw [ofJsonFields_eq] at hp
      obtain ⟨q, hq, rfl⟩ := List.mem_map.mp hp
      obtain ⟨f, hf, rfl⟩ := List.mem_map.mp hq
      exact ⟨f.1, hkeys.mem_iff.mp (List.mem_map_of_mem hf), rfl⟩
    · intro f hf
      have hlookup := get?_of_sorted_eq hb f.1
      rw [get?, get?, lookup_of_mem hl hf, Option.map_some] at hlookup
      obtain ⟨x, hx, hsorted⟩ := Option.map_eq_some_iff.mp hlookup
      refine ⟨ofJson x, ?_, x, rfl, hsorted⟩
      clear hlookup hkeys hb
      induction m with
      | nil => cases hx
      | cons g m ih =>
        obtain ⟨k, y⟩ := g
        rw [List.lookup_cons] at hx
        unfold item?
        rw [ofJsonFields, List.find?_cons]
        by_cases hk : f.1 = k
        · subst hk
          rw [beq_self_eq_true] at hx
          cases hx
          simp [isKey]
        · rw [beq_false_of_ne hk] at hx
          have hkey : isKey f.1.toList (Value.str k.toList : Value Object) = false := by
            simp [isKey, String.toList_inj, Ne.symm hk]
          rw [hkey]
          exact ih hx
  | _ => cases hb

end Value

end Vuzol.Lib
