import Vuzol.Lib.Url

/-! Python's `int` of a text and `uuid.UUID`. -/

namespace Vuzol.Lib

variable {c : Char} {decimal : Char → Option Nat} {t : Text}

/-- `_PyUnicode_TransformDecimalAndSpaceToASCII`; `decimal` gives the value of the decimal digits outside ASCII. -/
def toAscii (decimal : Char → Option Nat) (c : Char) : Char :=
  if c.toNat < 127 then c
  else if isSpace c then ' '
  else match decimal c with
    | some d => d.digitChar
    | none => '?'

/-- `Py_ISSPACE`. -/
def isAsciiSpace (c : Char) : Bool := (9 ≤ c.toNat && c.toNat ≤ 13) || c = ' '

def digit? (base : Nat) (c : Char) : Option Nat :=
  let value :=
    if 'a' ≤ c ∧ c ≤ 'z' then some (c.toNat - 87)
    else if 'A' ≤ c ∧ c ≤ 'Z' then some (c.toNat - 55)
    else if '0' ≤ c ∧ c ≤ '9' then some (c.toNat - 48)
    else none
  value.filter (· < base)

def readDigits (base : Nat) : Nat → Text → Option Nat
  | value, [] => some value
  | value, '_' :: c :: rest => do
    let d ← digit? base c
    readDigits base (value * base + d) rest
  | value, c :: rest => do
    let d ← digit? base c
    readDigits base (value * base + d) rest

def readUnsigned (base : Nat) : Text → Option Nat
  | [] => none
  | c :: rest => do
    let d ← digit? base c
    readDigits base d rest

/-- The prefix `0x`, after which an underscore may stand. -/
def dropBasePrefix (base : Nat) : Text → Text
  | '0' :: 'x' :: '_' :: rest => if base = 16 then rest else '0' :: 'x' :: '_' :: rest
  | '0' :: 'X' :: '_' :: rest => if base = 16 then rest else '0' :: 'X' :: '_' :: rest
  | '0' :: 'x' :: rest => if base = 16 then rest else '0' :: 'x' :: rest
  | '0' :: 'X' :: rest => if base = 16 then rest else '0' :: 'X' :: rest
  | t => t

/-- `int(text, base)`, for base 10 and 16; a text in base 10 has at most 4300 digits. -/
def intOfText (decimal : Char → Option Nat) (base : Nat) (t : Text) : Option Int :=
  let t := ((t.map (toAscii decimal)).dropWhile isAsciiSpace).rdropWhile isAsciiSpace
  if base = 10 && 4300 < t.countP Char.isDigit then none
  else match t with
    | '-' :: t => (readUnsigned base (dropBasePrefix base t)).map fun n : Nat => -(n : Int)
    | '+' :: t => (readUnsigned base (dropBasePrefix base t)).map Int.ofNat
    | t => (readUnsigned base (dropBasePrefix base t)).map Int.ofNat

/-- `uuid.UUID`. -/
structure Uuid where
  int : Nat
  bounded : int < 2 ^ 128
  deriving DecidableEq

theorem Uuid.one_lt : 1 < 2 ^ 128 := by decide

def hexDigits : Nat → Nat → Text
  | 0, _ => []
  | k + 1, n => hexDigits k (n / 16) ++ [(n % 16).digitChar]

/-- `'%032x' % self.int`. -/
def Uuid.hex (u : Uuid) : Text := hexDigits 32 u.int

/-- `str(self)`. -/
def Uuid.str (u : Uuid) : Text :=
  u.hex.take 8 ++ '-' :: ((u.hex.drop 8).take 4 ++ '-' :: ((u.hex.drop 12).take 4 ++
    '-' :: ((u.hex.drop 16).take 4 ++ '-' :: u.hex.drop 20)))

/-- `str.replace(old, "")`; the number counts what is still to be left out. -/
def removeAll (old : Text) : Nat → Text → Text
  | _, [] => []
  | skip + 1, _ :: t => removeAll old skip t
  | 0, c :: t => if old.isPrefixOf (c :: t) then removeAll old (old.length - 1) t else c :: removeAll old 0 t

def isBrace (c : Char) : Bool := c = '\x7b' || c = '\x7d'

/-- `uuid.UUID(text)`; `none` is its `ValueError`. -/
def uuidOfText (decimal : Char → Option Nat) (t : Text) : Option Uuid :=
  let t := removeAll ['u', 'u', 'i', 'd', ':'] 0 (removeAll ['u', 'r', 'n', ':'] 0 t)
  let t := removeAll ['-'] 0 ((t.dropWhile isBrace).rdropWhile isBrace)
  if t.length ≠ 32 then none
  else match intOfText decimal 16 t with
    | some (.ofNat n) => if h : n < 2 ^ 128 then some ⟨n, h⟩ else none
    | _ => none

def IsHex (c : Char) : Prop := ∃ d < 16, c = d.digitChar

theorem length_hexDigits (k n : Nat) : (hexDigits k n).length = k := by
  induction k generalizing n with
  | zero => rfl
  | succ k ih => rw [hexDigits, List.length_append, ih, List.length_singleton]

theorem isHex_of_mem_hexDigits {k n : Nat} {c : Char} (h : c ∈ hexDigits k n) : IsHex c := by
  induction k generalizing n with
  | zero => cases h
  | succ k ih =>
    rcases List.mem_append.mp h with h | h
    · exact ih h
    · exact ⟨n % 16, Nat.mod_lt _ (by decide), List.mem_singleton.mp h⟩

theorem digit?_digitChar : ∀ d < 16, digit? 16 d.digitChar = some d := by decide

theorem digitChar_plain : ∀ d < 16, d.digitChar ≠ '_' ∧ d.digitChar ≠ 'x' ∧ d.digitChar ≠ 'X' ∧ d.digitChar ≠ '-' ∧
    d.digitChar ≠ '+' ∧ d.digitChar ≠ 'u' ∧ isBrace d.digitChar = false ∧ isAsciiSpace d.digitChar = false ∧
    d.digitChar.toNat < 127 := by
  decide

theorem readDigits_cons {base value d : Nat} (hne : c ≠ '_') (hd : digit? base c = some d) :
    readDigits base value (c :: t) = readDigits base (value * base + d) t := by
  rw [readDigits, hd]
  · rfl
  · exact fun _ _ h => absurd h hne

theorem readDigits_hex {d value : Nat} (hd : d < 16) (hc : c = d.digitChar) :
    readDigits 16 value (c :: t) = readDigits 16 (value * 16 + d) t := by
  subst hc
  exact readDigits_cons (digitChar_plain d hd).1 (digit?_digitChar d hd)

theorem readDigits_append {d value : Nat} {t : Text} (hd : d < 16) (ht : ∀ x ∈ t, IsHex x) :
    readDigits 16 value (t ++ [d.digitChar]) = (readDigits 16 value t).map fun n => n * 16 + d := by
  induction t generalizing value with
  | nil => exact readDigits_hex hd rfl
  | cons x t ih =>
    obtain ⟨e, he, hx⟩ := ht x List.mem_cons_self
    rw [List.cons_append, readDigits_hex he hx, readDigits_hex he hx, ih fun y hy => ht y (List.mem_cons_of_mem _ hy)]

theorem readDigits_hexDigits (k n : Nat) : readDigits 16 0 (hexDigits k n) = some (n % 16 ^ k) := by
  induction k generalizing n with
  | zero => simp [hexDigits, readDigits, Nat.mod_one]
  | succ k ih =>
    rw [hexDigits, readDigits_append (Nat.mod_lt _ (by decide)) fun x hx => isHex_of_mem_hexDigits hx, ih]
    simp only [Option.map_some, Option.some.injEq]
    rw [Nat.pow_succ, Nat.mul_comm (16 ^ k) 16, Nat.mod_mul, Nat.mul_comm]
    omega

theorem dropBasePrefix_hex (ht : ∀ c ∈ t, IsHex c) : dropBasePrefix 16 t = t := by
  have hx : ∀ c, c = 'x' ∨ c = 'X' → c ∉ t := by
    intro c hc hmem
    obtain ⟨d, hd, heq⟩ := ht c hmem
    rcases hc with rfl | rfl
    · exact (digitChar_plain d hd).2.1 heq.symm
    · exact (digitChar_plain d hd).2.2.1 heq.symm
  unfold dropBasePrefix
  split
  · exact absurd (List.mem_cons_of_mem _ List.mem_cons_self) (hx 'x' (Or.inl rfl))
  · exact absurd (List.mem_cons_of_mem _ List.mem_cons_self) (hx 'X' (Or.inr rfl))
  · exact absurd (List.mem_cons_of_mem _ List.mem_cons_self) (hx 'x' (Or.inl rfl))
  · exact absurd (List.mem_cons_of_mem _ List.mem_cons_self) (hx 'X' (Or.inr rfl))
  · rfl

theorem intOfText_hex (ht : ∀ c ∈ t, IsHex c) (hne : t ≠ []) :
    intOfText decimal 16 t = (readDigits 16 0 t).map Int.ofNat := by
  have hascii : t.map (toAscii decimal) = t := by
    refine (List.map_congr_left fun c hc => ?_).trans (List.map_id t)
    obtain ⟨d, hd, rfl⟩ := ht c hc
    exact if_pos (digitChar_plain d hd).2.2.2.2.2.2.2.2
  have hspace : ∀ c ∈ t, ¬isAsciiSpace c = true := by
    intro c hc
    obtain ⟨d, hd, rfl⟩ := ht c hc
    rw [(digitChar_plain d hd).2.2.2.2.2.2.2.1]
    decide
  have hstrip : (t.dropWhile isAsciiSpace).rdropWhile isAsciiSpace = t := by
    rw [List.dropWhile_eq_self_iff.mpr fun _ => hspace _ (List.getElem_mem _),
      List.rdropWhile_eq_self_iff.mpr fun _ => hspace _ (List.getLast_mem _)]
  obtain ⟨c, rest, rfl⟩ := List.exists_cons_of_ne_nil hne
  obtain ⟨d, hd, rfl⟩ := ht c List.mem_cons_self
  obtain ⟨-, -, -, hminus, hplus, -⟩ := digitChar_plain d hd
  unfold intOfText
  rw [hascii, hstrip]
  show (match d.digitChar :: rest with
    | '-' :: t => (readUnsigned 16 (dropBasePrefix 16 t)).map fun n : Nat => -(n : Int)
    | '+' :: t => (readUnsigned 16 (dropBasePrefix 16 t)).map Int.ofNat
    | t => (readUnsigned 16 (dropBasePrefix 16 t)).map Int.ofNat) = _
  split
  · rename_i h
    exact absurd (List.cons.inj h).1 hminus
  · rename_i h
    exact absurd (List.cons.inj h).1 hplus
  · rw [dropBasePrefix_hex ht, readUnsigned, digit?_digitChar d hd, readDigits_hex hd rfl, Nat.zero_mul, Nat.zero_add]
    rfl

theorem digit?_of_isDigit (h : c.isDigit = true) : digit? 10 c = some (c.toNat - 48) := by
  have hrange : '0' ≤ c ∧ c ≤ '9' := by simpa [Char.isDigit, Char.le_def] using h
  have hbounds : 48 ≤ c.toNat ∧ c.toNat ≤ 57 := ⟨hrange.1, hrange.2⟩
  have hlower : ¬('a' ≤ c ∧ c ≤ 'z') := fun hc => absurd (show 97 ≤ c.toNat from hc.1) (by omega)
  have hupper : ¬('A' ≤ c ∧ c ≤ 'Z') := fun hc => absurd (show 65 ≤ c.toNat from hc.1) (by omega)
  unfold digit?
  rw [if_neg hlower, if_neg hupper, if_pos hrange]
  exact Option.filter_some_pos (by simpa using (by omega : c.toNat - 48 < 10))

theorem isDigit_plain (h : c.isDigit = true) : c ≠ '_' ∧ c ≠ '-' ∧ c ≠ '+' ∧ isAsciiSpace c = false ∧ c.toNat < 127 := by
  have hrange : '0' ≤ c ∧ c ≤ '9' := by simpa [Char.isDigit, Char.le_def] using h
  have hbounds : 48 ≤ c.toNat ∧ c.toNat ≤ 57 := ⟨hrange.1, hrange.2⟩
  refine ⟨?_, ?_, ?_, ?_, by omega⟩
  · rintro rfl; exact absurd hbounds (by decide)
  · rintro rfl; exact absurd hbounds (by decide)
  · rintro rfl; exact absurd hbounds (by decide)
  · have hspace : c ≠ ' ' := by rintro rfl; exact absurd hbounds (by decide)
    simp only [isAsciiSpace, Bool.or_eq_false_iff, Bool.and_eq_false_iff, decide_eq_false_iff_not]
    exact ⟨Or.inr (by omega), hspace⟩

theorem readDigits_decimal {value : Nat} {t : Text} (ht : ∀ c ∈ t, c.isDigit = true) :
    readDigits 10 value t = some (Nat.ofDigitChars 10 t value) := by
  induction t generalizing value with
  | nil => rfl
  | cons c t ih =>
    have hc := ht c List.mem_cons_self
    rw [readDigits_cons (isDigit_plain hc).1 (digit?_of_isDigit hc), ih fun d hd => ht d (List.mem_cons_of_mem _ hd)]
    rw [Nat.ofDigitChars_cons, Nat.mul_comm]
    rfl

theorem dropBasePrefix_ten (t : Text) : dropBasePrefix 10 t = t := by
  unfold dropBasePrefix
  split <;> rfl

/-- Decimal digits alone are read one after the other, as far as `int` takes so many. -/
theorem intOfText_decimal (ht : ∀ c ∈ t, (toAscii decimal c).isDigit = true) (hne : t ≠ []) (hlength : t.length ≤ 4300) :
    intOfText decimal 10 t = some ((Nat.ofDigitChars 10 (t.map (toAscii decimal)) 0 : Nat) : Int) := by
  have hdigits : ∀ c ∈ t.map (toAscii decimal), c.isDigit = true := by
    intro c hc
    obtain ⟨x, hx, rfl⟩ := List.mem_map.mp hc
    exact ht x hx
  have hlength' : (t.map (toAscii decimal)).length ≤ 4300 := by rw [List.length_map]; exact hlength
  have hne' : t.map (toAscii decimal) ≠ [] := by simpa using hne
  unfold intOfText
  generalize t.map (toAscii decimal) = ds at hdigits hlength' hne'
  have hspace : ∀ c ∈ ds, ¬isAsciiSpace c = true := by
    intro c hc
    rw [(isDigit_plain (hdigits c hc)).2.2.2.1]
    decide
  have hstrip : (ds.dropWhile isAsciiSpace).rdropWhile isAsciiSpace = ds := by
    rw [List.dropWhile_eq_self_iff.mpr fun _ => hspace _ (List.getElem_mem _),
      List.rdropWhile_eq_self_iff.mpr fun _ => hspace _ (List.getLast_mem _)]
  obtain ⟨c, rest, rfl⟩ := List.exists_cons_of_ne_nil hne'
  have hc := hdigits c List.mem_cons_self
  obtain ⟨-, hminus, hplus, -, -⟩ := isDigit_plain hc
  have hcount : (c :: rest).countP Char.isDigit ≤ 4300 := List.countP_le_length.trans hlength'
  rw [hstrip]
  dsimp only
  rw [if_neg (by simpa using hcount)]
  split
  · rename_i h
    exact absurd (List.cons.inj h).1 hminus
  · rename_i h
    exact absurd (List.cons.inj h).1 hplus
  · rw [dropBasePrefix_ten, readUnsigned, digit?_of_isDigit hc]
    show (readDigits 10 (c.toNat - 48) rest).map Int.ofNat = _
    rw [readDigits_decimal fun d hd => hdigits d (List.mem_cons_of_mem _ hd), Nat.ofDigitChars_cons, Nat.mul_zero,
      Nat.zero_add]
    rfl

theorem mem_of_readDigits {base value n : Nat} {t : Text} (h : readDigits base value t = some n) {c : Char} (hc : c ∈ t) :
    c = '_' ∨ (digit? base c).isSome = true := by
  fun_induction readDigits base value t with
  | case1 => cases hc
  | case2 value d rest ih =>
    obtain ⟨v, hv, h⟩ := Option.bind_eq_some_iff.mp h
    rcases List.mem_cons.mp hc with rfl | hc
    · exact Or.inl rfl
    · rcases List.mem_cons.mp hc with rfl | hc
      · exact Or.inr (hv ▸ rfl)
      · exact ih v h hc
  | case3 value d rest hne ih =>
    obtain ⟨v, hv, h⟩ := Option.bind_eq_some_iff.mp h
    rcases List.mem_cons.mp hc with rfl | hc
    · exact Or.inr (hv ▸ rfl)
    · exact ih v h hc

theorem mem_of_readUnsigned {base n : Nat} {t : Text} (h : readUnsigned base t = some n) {c : Char} (hc : c ∈ t) :
    c = '_' ∨ (digit? base c).isSome = true := by
  cases t with
  | nil => cases hc
  | cons d rest =>
    obtain ⟨v, hv, h⟩ := Option.bind_eq_some_iff.mp h
    rcases List.mem_cons.mp hc with rfl | hc
    · exact Or.inr (hv ▸ rfl)
    · exact mem_of_readDigits h hc

/-- What `int` reads is made of digits, underscores, a sign and white space. -/
theorem mem_of_intOfText {n : Int} (h : intOfText decimal 10 t = some n) (hc : c ∈ t) (hascii : c.toNat < 127) :
    isAsciiSpace c = true ∨ c = '-' ∨ c = '+' ∨ c = '_' ∨ (digit? 10 c).isSome = true := by
  by_cases hspace : isAsciiSpace c = true
  · exact Or.inl hspace
  · refine Or.inr ?_
    rw [Bool.not_eq_true] at hspace
    have hmem : c ∈ ((t.map (toAscii decimal)).dropWhile isAsciiSpace).rdropWhile isAsciiSpace := by
      rw [List.rdropWhile, List.mem_reverse]
      refine mem_dropWhile_of_not (List.mem_reverse.mpr (mem_dropWhile_of_not (List.mem_map.mpr ⟨c, hc, ?_⟩) hspace)) hspace
      exact if_pos hascii
    unfold intOfText at h
    generalize ((t.map (toAscii decimal)).dropWhile isAsciiSpace).rdropWhile isAsciiSpace = s at h hmem
    dsimp only at h
    split at h
    · cases h
    · split at h
      · obtain ⟨m, hm, -⟩ := Option.map_eq_some_iff.mp h
        rw [dropBasePrefix_ten] at hm
        rcases List.mem_cons.mp hmem with rfl | hmem
        · exact Or.inl rfl
        · exact Or.inr (Or.inr (mem_of_readUnsigned hm hmem))
      · obtain ⟨m, hm, -⟩ := Option.map_eq_some_iff.mp h
        rw [dropBasePrefix_ten] at hm
        rcases List.mem_cons.mp hmem with rfl | hmem
        · exact Or.inr (Or.inl rfl)
        · exact Or.inr (Or.inr (mem_of_readUnsigned hm hmem))
      · obtain ⟨m, hm, -⟩ := Option.map_eq_some_iff.mp h
        rw [dropBasePrefix_ten] at hm
        exact Or.inr (Or.inr (mem_of_readUnsigned hm hmem))
theorem intOfText_toDigits {decimal : Char → Option Nat} {n : Nat} (hlength : (Nat.toDigits 10 n).length ≤ 4300) :
    intOfText decimal 10 (Nat.toDigits 10 n) = some (n : Int) := by
  have hdigits : ∀ c ∈ Nat.toDigits 10 n, c.isDigit = true := fun c hc =>
    Nat.isDigit_of_mem_toDigits (by decide) (by decide) hc
  have hascii : (Nat.toDigits 10 n).map (toAscii decimal) = Nat.toDigits 10 n :=
    (List.map_congr_left fun c hc => if_pos (isDigit_plain (hdigits c hc)).2.2.2.2).trans (List.map_id _)
  rw [intOfText_decimal _ Nat.toDigits_ne_nil hlength, hascii, Nat.ofDigitChars_ten_toDigits]
  intro c hc
  rw [toAscii, if_pos (isDigit_plain (hdigits c hc)).2.2.2.2]
  exact hdigits c hc

theorem removeAll_of_not_mem {c : Char} {old t : Text} (h : c ∉ t) : removeAll (c :: old) 0 t = t := by
  induction t with
  | nil => rfl
  | cons x t ih =>
    have hne : c ≠ x := fun heq => h (heq ▸ List.mem_cons_self)
    have hprefix : (c :: old).isPrefixOf (x :: t) = false := by simp [List.isPrefixOf, hne]
    rw [removeAll, hprefix, ih fun hmem => h (List.mem_cons_of_mem _ hmem)]
    rfl

theorem removeAll_singleton (c : Char) (t : Text) : removeAll [c] 0 t = t.filter (· ≠ c) := by
  induction t with
  | nil => rfl
  | cons x t ih =>
    by_cases hc : c = x
    · subst hc
      simp [removeAll, ih, List.isPrefixOf]
    · simp [removeAll, ih, List.isPrefixOf, hc, Ne.symm hc]

namespace Uuid
variable (u : Uuid)

theorem isHex_of_mem_hex (h : c ∈ u.hex) : IsHex c := isHex_of_mem_hexDigits h

theorem mem_str (h : c ∈ u.str) : IsHex c ∨ c = '-' := by
  have htake : ∀ (n m : Nat), c ∈ (u.hex.drop n).take m → IsHex c := fun n m hmem =>
    u.isHex_of_mem_hex (List.mem_of_mem_drop (List.mem_of_mem_take hmem))
  simp only [str, List.mem_append, List.mem_cons] at h
  rcases h with h | h | h | h | h | h | h | h | h
  · exact Or.inl (htake 0 8 h)
  · exact Or.inr h
  · exact Or.inl (htake _ _ h)
  · exact Or.inr h
  · exact Or.inl (htake _ _ h)
  · exact Or.inr h
  · exact Or.inl (htake _ _ h)
  · exact Or.inr h
  · exact Or.inl (u.isHex_of_mem_hex (List.mem_of_mem_drop h))

theorem filter_str : u.str.filter (· ≠ '-') = u.hex := by
  have hhex : ∀ t : Text, (∀ c ∈ t, c ∈ u.hex) → t.filter (· ≠ '-') = t := by
    intro t ht
    rw [List.filter_eq_self]
    intro c hc
    obtain ⟨d, hd, rfl⟩ := u.isHex_of_mem_hex (ht c hc)
    exact decide_eq_true (digitChar_plain d hd).2.2.2.1
  have htake : ∀ (n m : Nat), ((u.hex.drop n).take m).filter (· ≠ '-') = (u.hex.drop n).take m := fun n m =>
    hhex _ fun c hc => List.mem_of_mem_drop (List.mem_of_mem_take hc)
  have hfirst := htake 0 8
  rw [List.drop_zero] at hfirst
  have hlast := hhex (u.hex.drop 20) fun c hc => List.mem_of_mem_drop hc
  have hsplit : ∀ (n m : Nat), (u.hex.drop n).take m ++ u.hex.drop (n + m) = u.hex.drop n := by
    intro n m
    rw [← List.drop_drop, List.take_append_drop]
  have hhyphen : ∀ t : Text, ('-' :: t).filter (· ≠ '-') = t.filter (· ≠ '-') := fun t => rfl
  rw [str, List.filter_append, hhyphen, List.filter_append, hhyphen, List.filter_append, hhyphen, List.filter_append,
    hhyphen, hfirst, hlast, htake, htake, htake, hsplit 16 4, hsplit 12 4, hsplit 8 4, List.take_append_drop]

theorem uuidOfText_str (decimal : Char → Option Nat) : uuidOfText decimal u.str = some u := by
  have hnot : ∀ c, ¬IsHex c → c ≠ '-' → c ∉ u.str := by
    intro c hhex hne hmem
    rcases u.mem_str hmem with h | h
    · exact hhex h
    · exact hne h
  have hu : 'u' ∉ u.str := hnot 'u' (fun ⟨d, hd, h⟩ => (digitChar_plain d hd).2.2.2.2.2.1 h.symm) (by decide)
  have hbrace : ∀ c ∈ u.str, ¬isBrace c = true := by
    intro c hc
    rcases u.mem_str hc with ⟨d, hd, rfl⟩ | rfl
    · rw [(digitChar_plain d hd).2.2.2.2.2.2.1]
      decide
    · decide
  have hstrip : (u.str.dropWhile isBrace).rdropWhile isBrace = u.str := by
    rw [List.dropWhile_eq_self_iff.mpr fun _ => hbrace _ (List.getElem_mem _),
      List.rdropWhile_eq_self_iff.mpr fun _ => hbrace _ (List.getLast_mem _)]
  have hint : intOfText decimal 16 u.hex = some (.ofNat u.int) := by
    rw [intOfText_hex (fun c hc => u.isHex_of_mem_hex hc) (List.ne_nil_of_length_pos (by simp [hex, length_hexDigits])), hex,
      readDigits_hexDigits, Nat.mod_eq_of_lt (by simpa using u.bounded)]
    rfl
  unfold uuidOfText
  simp only [removeAll_of_not_mem hu, hstrip, removeAll_singleton, filter_str, hint]
  rw [if_neg (by simp [hex, length_hexDigits]), dif_pos u.bounded]

theorem str_inj {u v : Uuid} (h : u.str = v.str) : u = v := by
  have heq := u.uuidOfText_str fun _ => none
  rw [h, v.uuidOfText_str] at heq
  exact (Option.some.inj heq).symm

theorem length_str : u.str.length = 36 := by simp [str, hex, length_hexDigits]

theorem str_ne_nil : u.str ≠ [] := by
  intro h
  have hmem : '-' ∈ u.str := by simp [str]
  rw [h] at hmem
  cases hmem

end Uuid

end Vuzol.Lib
