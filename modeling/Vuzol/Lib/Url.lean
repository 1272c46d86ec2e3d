import Mathlib.Data.List.DropRight
import Mathlib.Data.List.TakeWhile
import Vuzol.Lib.Bytes
import Vuzol.Lib.Machine

/-! Python's `urllib.parse`, as far as connection URLs need it: percent-decoding, the parts of a URL and its query. Texts
    are lists of code points; what needs the Unicode tables is a parameter. -/

namespace Vuzol.Lib

abbrev Text := List Char

instance : LawfulBEq Text := inferInstance

variable {s : Text}

/-- `str.lower`; `_checknetloc`, and what `_check_bracketed_host` says of an address in brackets. -/
structure UrlEnv where
  lower : Text → Text
  lower_lower : ∀ t, lower (lower t) = lower t
  lower_eq_nil : ∀ t, lower t = [] → t = []
  lower_nil : lower [] = []
  checkNetloc : Text → Bool

/-- `str.isspace`, character by character. -/
def isSpace (c : Char) : Bool :=
  let n := c.toNat
  (9 ≤ n && n ≤ 13) || (28 ≤ n && n ≤ 32) || n = 0x85 || n = 0xA0 || n = 0x1680 || (0x2000 ≤ n && n ≤ 0x200A) ||
    n = 0x2028 || n = 0x2029 || n = 0x202F || n = 0x205F || n = 0x3000

/-- `str.strip()`. -/
def strip (s : Text) : Text := ((s.dropWhile isSpace).reverse.dropWhile isSpace).reverse

/-- A character of a pattern under `IGNORECASE`: either case, and the letters outside ASCII that are the same to `re`. -/
def ignoringCase (c d : Char) : Bool :=
  d = c || (c.isLower && d = c.toUpper) || (c = 'i' && (d = 'İ' || d = 'ı')) || (c = 's' && d = 'ſ') || (c = 'k' && d = 'K')

theorem length_strip_le (s : Text) : (strip s).length ≤ s.length := by
  unfold strip
  rw [List.length_reverse]
  refine (List.dropWhile_sublist _).length_le.trans ?_
  rw [List.length_reverse]
  exact (List.dropWhile_sublist _).length_le

theorem strip_eq (s : Text) : strip s = (s.dropWhile isSpace).rdropWhile isSpace := rfl

@[simp] theorem strip_strip (s : Text) : strip (strip s) = strip s := by
  have hlead : ((s.dropWhile isSpace).rdropWhile isSpace).dropWhile isSpace = (s.dropWhile isSpace).rdropWhile isSpace := by
    rw [List.dropWhile_eq_self_iff]
    intro hpos
    obtain ⟨rest, hrest⟩ := List.rdropWhile_prefix isSpace (s.dropWhile isSpace)
    have hpos' : 0 < (s.dropWhile isSpace).length := by
      rw [← hrest, List.length_append]
      omega
    have hfirst := List.dropWhile_get_zero_not isSpace s hpos'
    have heq : (s.dropWhile isSpace).get ⟨0, hpos'⟩ = ((s.dropWhile isSpace).rdropWhile isSpace).get ⟨0, hpos⟩ := by
      simp only [List.get_eq_getElem]
      exact (List.IsPrefix.getElem ⟨rest, hrest⟩ hpos).symm
    rwa [heq] at hfirst
  rw [strip_eq, strip_eq, hlead, List.rdropWhile_idempotent]

theorem exists_strip (s : Text) : ∃ pre post, s = pre ++ (strip s ++ post) ∧ (∀ c ∈ pre, isSpace c = true) ∧
    ∀ c ∈ post, isSpace c = true :=
  ⟨s.takeWhile isSpace, (s.dropWhile isSpace).rtakeWhile isSpace,
    by rw [strip_eq, List.rdropWhile_append_rtakeWhile, List.takeWhile_append_dropWhile],
    fun _ hc => List.mem_takeWhile_imp hc, fun _ hc => List.mem_rtakeWhile_imp hc⟩

theorem mem_dropWhile_of_not {α : Type} {p : α → Bool} {c : α} {l : List α} (hc : c ∈ l) (hp : p c = false) :
    c ∈ l.dropWhile p := by
  rw [← List.takeWhile_append_dropWhile (p := p) (l := l)] at hc
  rcases List.mem_append.mp hc with htake | hdrop
  · have hpc := List.mem_takeWhile_imp htake
    rw [hp] at hpc
    cases hpc
  · exact hdrop

theorem mem_strip {c : Char} (hc : c ∈ s) (h : isSpace c = false) : c ∈ strip s := by
  rw [strip, List.mem_reverse]
  refine mem_dropWhile_of_not ?_ h
  rw [List.mem_reverse]
  exact mem_dropWhile_of_not hc h

/-- `str.partition(sep)[0]`. -/
def before (sep : Char) (s : Text) : Text := s.takeWhile (· ≠ sep)

/-- `str.partition(sep)[2]`. -/
def after (sep : Char) (s : Text) : Text := (s.dropWhile (· ≠ sep)).drop 1

/-- `str.rpartition(sep)[2]`. -/
def afterLast (sep : Char) (s : Text) : Text := (s.reverse.takeWhile (· ≠ sep)).reverse

theorem mem_of_mem_before {sep c : Char} (h : c ∈ before sep s) : c ∈ s :=
  (List.takeWhile_sublist _).subset h

theorem mem_of_mem_after {sep c : Char} (h : c ∈ after sep s) : c ∈ s :=
  ((List.drop_sublist _ _).trans (List.dropWhile_sublist _)).subset h

theorem mem_of_mem_afterLast {sep c : Char} (h : c ∈ afterLast sep s) : c ∈ s := by
  rw [afterLast, List.mem_reverse] at h
  exact List.mem_reverse.mp ((List.takeWhile_sublist _).subset h)

def hexDigit? (c : Char) : Option Nat :=
  if '0' ≤ c ∧ c ≤ '9' then some (c.toNat - 48)
  else if 'A' ≤ c ∧ c ≤ 'F' then some (c.toNat - 55)
  else if 'a' ≤ c ∧ c ≤ 'f' then some (c.toNat - 87)
  else none

/-- `unquote_to_bytes` of an ASCII text. -/
def unquoteToBytes : Text → Bytes
  | '%' :: a :: b :: rest =>
    match hexDigit? a, hexDigit? b with
    | some x, some y => UInt8.ofNat (16 * x + y) :: unquoteToBytes rest
    | _, _ => 0x25 :: unquoteToBytes (a :: b :: rest)
  | c :: rest => UInt8.ofNat c.toNat :: unquoteToBytes rest
  | [] => []

structure Utf8State where
  bits : Nat := 0
  needed : Nat := 0
  low : Nat := 0x80
  high : Nat := 0xBF

def replacement : Char := Char.ofNat 0xFFFD

def utf8Start (b : Nat) : Text × Utf8State :=
  if b < 0x80 then ([Char.ofNat b], { })
  else if 0xC2 ≤ b ∧ b ≤ 0xDF then ([], { bits := b - 0xC0, needed := 1 })
  else if 0xE0 ≤ b ∧ b ≤ 0xEF then
    ([], { bits := b - 0xE0, needed := 2, low := if b = 0xE0 then 0xA0 else 0x80, high := if b = 0xED then 0x9F else 0xBF })
  else if 0xF0 ≤ b ∧ b ≤ 0xF4 then
    ([], { bits := b - 0xF0, needed := 3, low := if b = 0xF0 then 0x90 else 0x80, high := if b = 0xF4 then 0x8F else 0xBF })
  else ([replacement], { })

def utf8Next (s : Utf8State) (b : Nat) : Text × Utf8State :=
  if s.needed = 0 then utf8Start b
  else if b < s.low ∨ s.high < b then
    let (out, s) := utf8Start b
    (replacement :: out, s)
  else if s.needed = 1 then ([Char.ofNat (s.bits * 64 + (b - 0x80))], { })
  else ([], { bits := s.bits * 64 + (b - 0x80), needed := s.needed - 1 })

/-- `bytes.decode("utf-8", "replace")`. -/
def decodeReplace (s : Utf8State) : Bytes → Text
  | [] => if s.needed = 0 then [] else [replacement]
  | b :: rest => (utf8Next s b.toNat).1 ++ decodeReplace (utf8Next s b.toNat).2 rest

/-- Every run of ASCII characters is decoded on its own; `run` is the one that has begun. -/
def unquoteRuns (run : Text) : Text → Text
  | [] => decodeReplace { } (unquoteToBytes run)
  | c :: rest =>
    if c.toNat < 128 then unquoteRuns (run ++ [c]) rest
    else decodeReplace { } (unquoteToBytes run) ++ c :: unquoteRuns [] rest

def unquote (s : Text) : Text := if '%' ∈ s then unquoteRuns [] s else s

theorem unquote_eq_self (h : '%' ∉ s) : unquote s = s := if_neg h

theorem mem_unquoteToBytes {c : Char} (hhex : hexDigit? c = none) (hpercent : c ≠ '%') (h : c ∈ s) :
    UInt8.ofNat c.toNat ∈ unquoteToBytes s := by
  induction s using unquoteToBytes.induct with
  | case1 a b rest x y hb ha ih =>
    have hrest : c ∈ rest := by
      simp only [List.mem_cons] at h
      rcases h with rfl | rfl | rfl | h
      · exact absurd rfl hpercent
      · rw [hhex] at ha
        cases ha
      · rw [hhex] at hb
        cases hb
      · exact h
    simp only [unquoteToBytes, ha, hb]
    exact List.mem_cons_of_mem _ (ih hrest)
  | case2 a b rest hdigits ih =>
    have hrest : c ∈ a :: b :: rest := (List.mem_cons.mp h).resolve_left hpercent
    rw [unquoteToBytes]
    split
    · rename_i x y ha hb
      exact absurd hb (hdigits x y ha)
    · exact List.mem_cons_of_mem _ (ih hrest)
  | case3 d rest hd ih =>
    rw [unquoteToBytes]
    · rcases List.mem_cons.mp h with rfl | h
      · exact List.mem_cons_self
      · exact List.mem_cons_of_mem _ (ih h)
    · exact hd
  | case4 => cases h

variable {st : Utf8State}

theorem utf8Next_low {n : Nat} : 0x80 ≤ (utf8Next st n).2.low := by
  have hstart : 0x80 ≤ (utf8Start n).2.low := by
    unfold utf8Start
    split
    · exact Nat.le_refl _
    split
    · exact Nat.le_refl _
    split
    · show 0x80 ≤ if n = 0xE0 then 0xA0 else 0x80
      split <;> decide
    split
    · show 0x80 ≤ if n = 0xF0 then 0x90 else 0x80
      split <;> decide
    · exact Nat.le_refl _
  unfold utf8Next
  split
  · exact hstart
  split
  · exact hstart
  split
  · exact Nat.le_refl _
  · exact Nat.le_refl _

theorem utf8Next_ascii {n : Nat} (hn : n < 0x80) (hlow : 0x80 ≤ st.low) : Char.ofNat n ∈ (utf8Next st n).1 := by
  have hstart : Char.ofNat n ∈ (utf8Start n).1 := by
    rw [utf8Start, if_pos hn]
    exact List.mem_singleton_self _
  unfold utf8Next
  split
  · exact hstart
  · rw [if_pos (Or.inl (Nat.lt_of_lt_of_le hn hlow))]
    exact List.mem_cons_of_mem _ hstart

theorem mem_decodeReplace {b : UInt8} {bytes : Bytes} (hb : b.toNat < 0x80) (hlow : 0x80 ≤ st.low)
    (h : b ∈ bytes) : Char.ofNat b.toNat ∈ decodeReplace st bytes := by
  induction bytes generalizing st with
  | nil => cases h
  | cons a rest ih =>
    rw [decodeReplace]
    rcases List.mem_cons.mp h with rfl | h
    · exact List.mem_append_left _ (utf8Next_ascii hb hlow)
    · exact List.mem_append_right _ (ih utf8Next_low h)

theorem mem_unquoteRuns {c : Char} (hascii : c.toNat < 128) (hhex : hexDigit? c = none) (hpercent : c ≠ '%')
    (run : Text) (h : c ∈ run ++ s) : c ∈ unquoteRuns run s := by
  have hdecode : ∀ run : Text, c ∈ run → c ∈ decodeReplace { } (unquoteToBytes run) := by
    intro run hrun
    have hbyte : (UInt8.ofNat c.toNat).toNat = c.toNat := by
      rw [UInt8.toNat_ofNat']
      exact Nat.mod_eq_of_lt (Nat.lt_trans hascii (by decide))
    have hmem : Char.ofNat _ ∈ decodeReplace { } (unquoteToBytes run) :=
      mem_decodeReplace (by rwa [hbyte]) (Nat.le_refl _) (mem_unquoteToBytes hhex hpercent hrun)
    rwa [hbyte, Char.ofNat_toNat] at hmem
  induction s generalizing run with
  | nil => exact hdecode run (List.append_nil run ▸ h)
  | cons d rest ih =>
    rw [unquoteRuns]
    split
    · refine ih (run ++ [d]) ?_
      rw [List.append_assoc]
      exact h
    · rcases List.mem_append.mp h with h | h
      · exact List.mem_append_left _ (hdecode run h)
      · refine List.mem_append_right _ ?_
        rcases List.mem_cons.mp h with rfl | h
        · exact List.mem_cons_self
        · exact List.mem_cons_of_mem _ (ih [] h)

/-- A character that takes no part in the encoding stays. -/
theorem mem_unquote {c : Char} (hascii : c.toNat < 128) (hhex : hexDigit? c = none) (hpercent : c ≠ '%') (h : c ∈ s) :
    c ∈ unquote s := by
  unfold unquote
  split
  · exact mem_unquoteRuns hascii hhex hpercent [] h
  · exact h

/-- The fields of a query as they are written; one without an equals sign is no field. -/
def queryFields (query : Text) : List (Text × Text) :=
  (query.splitOn '&').filterMap fun nv => if '=' ∈ nv then some (before '=' nv, after '=' nv) else none

/-- `unquote_plus`. -/
def unquotePlus (s : Text) : Text := unquote (s.map fun c => if c = '+' then ' ' else c)

/-- `parse_qsl` without blank values, in order. -/
def parseQsl (query : Text) : List (Text × Text) :=
  ((queryFields query).filter fun nv => nv.2 ≠ []).map fun nv => (unquotePlus nv.1, unquotePlus nv.2)

theorem map_plus_eq_self (h : '+' ∉ s) : (s.map fun c => if c = '+' then ' ' else c) = s := by
  have hid : ∀ c ∈ s, (if c = '+' then ' ' else c) = c := fun c hc => if_neg fun heq => h (by rwa [heq] at hc)
  rw [List.map_congr_left hid, List.map_id']

theorem unquotePlus_of_not_mem (h : '+' ∉ s) : unquotePlus s = unquote s := by rw [unquotePlus, map_plus_eq_self h]

/-- A name without blank and plus sign is read the same with and without the plus sign as a blank. -/
theorem unquotePlus_eq_iff {name : Text} (hspace : ' ' ∉ name) (hplus : '+' ∉ name) :
    unquotePlus s = name ↔ unquote s = name := by
  by_cases h : '+' ∈ s
  · have hblank : ' ' ∈ unquotePlus s := mem_unquote (by decide) (by decide) (by decide) (List.mem_map.mpr ⟨'+', h, rfl⟩)
    have hkept : '+' ∈ unquote s := mem_unquote (by decide) (by decide) (by decide) h
    exact ⟨fun heq => absurd (heq ▸ hblank) hspace, fun heq => absurd (heq ▸ hkept) hplus⟩
  · rw [unquotePlus_of_not_mem h]

/-- What stands behind the scheme and `//`. -/
structure SplitUrl where
  netloc : Text
  path : Text
  query : Text

/-- `_check_bracketed_netloc`, less what `ipaddress` says of the address. -/
def bracketsRefused (netloc : Text) : Bool :=
  let hostinfo := afterLast '@' netloc
  let address := before ']' (after '[' hostinfo)
  let port := after ']' (after '[' hostinfo)
  decide ('[' ∈ hostinfo) && (hostinfo.head? ≠ some '[' || address = [] || (port ≠ [] && port.head? ≠ some ':'))

/-- `urlsplit`, behind the scheme. -/
def urlsplit (env : UrlEnv) (rest : Text) : Except String SplitUrl := do
  let url := rest.filter fun c => c ≠ '\t' ∧ c ≠ '\r' ∧ c ≠ '\n'
  let netloc := url.takeWhile fun c => c ≠ '/' ∧ c ≠ '?' ∧ c ≠ '#'
  let tail := before '#' (url.dropWhile fun c => c ≠ '/' ∧ c ≠ '?' ∧ c ≠ '#')
  raiseIf ('[' ∈ netloc ∧ ']' ∉ netloc ∨ ']' ∈ netloc ∧ '[' ∉ netloc) "Invalid IPv6 URL"
  raiseIf (bracketsRefused netloc = true) "Invalid IPv6 URL"
  raiseIf (env.checkNetloc netloc = false) "netloc contains invalid characters"
  .ok { netloc := netloc, path := before '?' tail, query := after '?' tail }

namespace SplitUrl

variable (u : SplitUrl)

def hostinfo : Text := afterLast '@' u.netloc

def rawHost : Text :=
  if '[' ∈ u.hostinfo then before ']' (after '[' u.hostinfo) else before ':' u.hostinfo

def rawPort : Text :=
  if '[' ∈ u.hostinfo then after ':' (after ']' (after '[' u.hostinfo)) else after ':' u.hostinfo

/-- `hostname`: in lower case but for a zone; empty where Python says None. -/
def hostname (env : UrlEnv) : Text :=
  if '%' ∈ u.rawHost then env.lower (before '%' u.rawHost) ++ '%' :: after '%' u.rawHost else env.lower u.rawHost

/-- `int` of an ASCII number. -/
def toNat? (s : Text) : Option Nat :=
  if s ≠ [] ∧ s.all fun c => '0' ≤ c ∧ c ≤ '9' then some (s.foldl (fun n c => 10 * n + (c.toNat - 48)) 0) else none

def port : Except String (Option Nat) :=
  if u.rawPort = [] then .ok none
  else
    match toNat? u.rawPort with
    | some n => if n ≤ 65535 then .ok (some n) else .error "Port out of range 0-65535"
    | none => .error "Port could not be cast to integer value"

/-- `parse_qs(query).get(name)`; empty where Python says None. -/
def values (name : Text) : List Text := ((parseQsl u.query).filter fun nv => nv.1 = name).map Prod.snd

theorem mem_netloc_of_mem_rawHost {c : Char} (h : c ∈ u.rawHost) : c ∈ u.netloc := by
  apply mem_of_mem_afterLast
  show c ∈ afterLast '@' u.netloc
  unfold rawHost at h
  split at h
  · exact mem_of_mem_after (mem_of_mem_before h)
  · exact mem_of_mem_before h

end SplitUrl

end Vuzol.Lib
