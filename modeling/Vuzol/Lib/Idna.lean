import Mathlib
import Vuzol.Lib.Split

/-! Python's `idna` codec. The tables of Unicode are parameters. -/

namespace Vuzol.Lib

variable {c : Char}

def isAscii (c : Char) : Bool := c.toNat < 128

theorem toLower_of_isUpper_eq_false (h : c.isUpper = false) : c.toLower = c := by
  simp only [Char.isUpper, decide_eq_false_iff_not] at h
  exact dif_neg h

theorem isUpper_toLower (c : Char) : c.toLower.isUpper = false := by
  simp only [Char.isUpper, Char.toLower]
  split <;> grind [UInt32.toNat_add, Char.toNat_val]

@[simp] theorem toLower_toLower (c : Char) : c.toLower.toLower = c.toLower :=
  toLower_of_isUpper_eq_false (isUpper_toLower c)

theorem upper_range (h : c.isUpper = true) : 65 ≤ c.toNat ∧ c.toNat ≤ 90 := by
  simp only [Char.isUpper, decide_eq_true_eq, UInt32.le_iff_toNat_le, ge_iff_le] at h
  exact h

theorem isAscii_of_toLower {c : Char} (h : isAscii c.toLower = true) : isAscii c = true := by
  cases hupper : c.isUpper with
  | false => rwa [toLower_of_isUpper_eq_false hupper] at h
  | true =>
    have hrange := upper_range hupper
    rw [isAscii, decide_eq_true_eq]
    omega

theorem toLower_ofNat_ne_colon : ∀ n < 91, 65 ≤ n → (Char.ofNat n).toLower ≠ ':' := by decide

theorem eq_of_toLower_eq_colon {c : Char} (h : c.toLower = ':') : c = ':' := by
  cases hupper : c.isUpper with
  | false => rwa [toLower_of_isUpper_eq_false hupper] at h
  | true =>
    have hrange := upper_range hupper
    rw [← Char.ofNat_toNat c] at h
    exact absurd h (toLower_ofNat_ne_colon c.toNat (by omega) hrange.1)

def isMark (c : Char) : Bool := c ∈ [':', '/', '?', '#', '@', '[', ']']

/-- `nameprep`, and the generalized integers of `punycode`. -/
structure Idna where
  nameprep : Text → Option Text
  extended : Text → List (Fin 36)
  keeps : ∀ {t u : Text} {c : Char}, nameprep t = some u → isMark c = true → c ∈ t → c ∈ u

namespace Idna

def acePrefix : Text := ['x', 'n', '-', '-']

def isDot (c : Char) : Bool := c = '.' || c.toNat = 0x3002 || c.toNat = 0xFF0E || c.toNat = 0xFF61

def digit36 (d : Fin 36) : Char := Char.ofNat (if d.val < 26 then 97 + d.val else 22 + d.val)

def checkLength (label : Text) : Option Text := if 0 < label.length ∧ label.length < 64 then some label else none

/-- What `text.encode("idna")` asks of the labels of an ASCII text. -/
def plainLabels (labels : List Text) : Bool :=
  labels.dropLast.all (fun l => 0 < l.length && l.length < 64) && labels.getLast?.all fun l => l.length < 64

variable (idna : Idna)

/-- `label.encode("punycode")`. -/
def punycode (label : Text) : Text :=
  let base := label.filter isAscii
  (if base = [] then [] else base ++ ['-']) ++ (idna.extended label).map digit36

/-- `ToASCII` of a label that `nameprep` has prepared. -/
def ofPrepared (label : Text) : Option Text :=
  if label.all isAscii then checkLength label
  else if acePrefix.isPrefixOf label then none
  else checkLength (acePrefix ++ idna.punycode label)

def toAscii (label : Text) : Option Text :=
  if label.all isAscii then checkLength label else (idna.nameprep label).bind idna.ofPrepared

/-- `text.encode("idna")`; `none` is its `UnicodeError`. -/
def encode (t : Text) : Option Text :=
  if t = [] then some []
  else if t.all isAscii then if plainLabels (t.splitOn '.') then some t else none
  else
    let labels := t.splitOnP isDot
    let isTrailing := labels.getLast? = some []
    ((if isTrailing then labels.dropLast else labels).mapM idna.toAscii).map fun labels =>
      ['.'].intercalate labels ++ (if isTrailing then ['.'] else [])

theorem digit36_plain : ∀ d : Fin 36, isAscii (digit36 d) = true ∧ digit36 d ≠ '.' ∧ digit36 d ≠ '-' ∧
    (digit36 d).toLower = digit36 d := by
  decide

theorem encode_ascii {t : Text} (h : t.all isAscii = true) (hlabels : plainLabels (t.splitOn '.') = true) :
    idna.encode t = some t := by
  by_cases hnil : t = []
  · rw [hnil]
    rfl
  · unfold encode
    rw [if_neg hnil, if_pos h, if_pos hlabels]

theorem encode_eq_some_ascii {t u : Text} (h : t.all isAscii = true) (hu : idna.encode t = some u) : u = t := by
  by_cases hnil : t = []
  · rw [hnil] at hu ⊢
    exact (Option.some.inj hu).symm
  · unfold encode at hu
    rw [if_neg hnil, if_pos h] at hu
    split at hu
    · exact (Option.some.inj hu).symm
    · cases hu

theorem checkLength_eq_some {t u : Text} (h : checkLength t = some u) : u = t := by
  unfold checkLength at h
  split at h
  · exact (Option.some.inj h).symm
  · cases h

theorem isMark_ascii (h : isMark c = true) : isAscii c = true ∧ isDot c = false ∧ c.toLower = c := by
  simp only [isMark, decide_eq_true_eq, List.mem_cons, List.not_mem_nil, or_false] at h
  rcases h with rfl | rfl | rfl | rfl | rfl | rfl | rfl <;> decide

variable {label out : Text}

theorem mark_mem_toAscii (h : idna.toAscii label = some out) (hmark : isMark c = true) (hc : c ∈ label) : c ∈ out := by
  unfold toAscii at h
  split at h
  · rwa [checkLength_eq_some h]
  · obtain ⟨prepared, hprepared, h⟩ := Option.bind_eq_some_iff.mp h
    have hkept := idna.keeps hprepared hmark hc
    unfold ofPrepared at h
    split at h
    · rwa [checkLength_eq_some h]
    · split at h
      · cases h
      · have hbase : c ∈ prepared.filter isAscii := List.mem_filter.mpr ⟨hkept, (isMark_ascii hmark).1⟩
        rw [checkLength_eq_some h, punycode, if_neg (List.ne_nil_of_mem hbase)]
        exact List.mem_append_right _ (List.mem_append_left _ (List.mem_append_left _ hbase))

def readLabel (label : Text) : Text :=
  if label.all isAscii then label
  else
    match idna.nameprep label with
    | some prepared => if prepared.all isAscii then prepared else acePrefix
    | none => label

theorem toAscii_cases (h : idna.toAscii label = some out) : out = idna.readLabel label ∨
    idna.readLabel label = acePrefix ∧ acePrefix <+: out ∧ ∃ front digits, out = front ++ '-' :: digits ∧
      ∀ c ∈ digits, ∃ d, c = digit36 d := by
  unfold toAscii at h
  unfold readLabel
  split at h
  · rename_i hascii
    rw [if_pos hascii]
    exact Or.inl (checkLength_eq_some h)
  · rename_i hascii
    rw [if_neg hascii]
    obtain ⟨prepared, hprepared, h⟩ := Option.bind_eq_some_iff.mp h
    rw [hprepared]
    unfold ofPrepared at h
    dsimp only
    split at h
    · rename_i hprep
      rw [if_pos hprep]
      exact Or.inl (checkLength_eq_some h)
    · rename_i hprep
      rw [if_neg hprep]
      split at h
      · cases h
      · refine Or.inr ⟨rfl, ?_, ?_⟩
        · rw [checkLength_eq_some h]
          exact List.prefix_append _ _
        · rw [checkLength_eq_some h]
          have hdigits : ∀ c ∈ (idna.extended prepared).map digit36, ∃ d, c = digit36 d := fun c hc => by
            obtain ⟨d, -, rfl⟩ := List.mem_map.mp hc
            exact ⟨d, rfl⟩
          unfold punycode
          dsimp only
          split
          · exact ⟨['x', 'n', '-'], _, rfl, hdigits⟩
          · exact ⟨acePrefix ++ prepared.filter isAscii, _, by simp, hdigits⟩

def asciiReading (t : Text) : Text := (['.'].intercalate ((t.splitOnP isDot).map idna.readLabel)).map Char.toLower

theorem asciiReading_ascii {t : Text} (h : t.all isAscii = true) : idna.asciiReading t = t.map Char.toLower := by
  have hdots : t.splitOnP isDot = t.splitOn '.' := splitOnP_congr fun c hc => by
    have hlt := List.all_eq_true.mp h c hc
    simp only [isAscii, decide_eq_true_eq] at hlt
    have h1 : ¬c.toNat = 0x3002 := by omega
    have h2 : ¬c.toNat = 0xFF0E := by omega
    have h3 : ¬c.toNat = 0xFF61 := by omega
    simp [isDot, h1, h2, h3, Bool.beq_eq_decide_eq]
  have hlabels : (t.splitOn '.').map idna.readLabel = t.splitOn '.' :=
    (List.map_congr_left fun l hl => by
      unfold readLabel
      exact if_pos (List.all_eq_true.mpr fun c hc => List.all_eq_true.mp h c (mem_of_mem_splitOn hl hc))).trans (List.map_id _)
  rw [asciiReading, hdots, hlabels, List.intercalate_splitOn]

structure Encoded (x : Text) : Prop where
  letter : 'x' ∈ x
  colon : ':' ∉ x
  hyphen : ∃ front tail, x = front ++ '-' :: tail ∧ '.' ∉ tail

def Alike (x r : Text) : Prop := x = r ∨ Encoded x ∧ Encoded r

theorem Encoded.hyphen_mem {x : Text} (h : Encoded x) : '-' ∈ x := by
  obtain ⟨front, tail, rfl, -⟩ := h.hyphen
  exact List.mem_append_right _ List.mem_cons_self

theorem Encoded.not_suffix {x w : Text} (h : Encoded x) (pre : Text) (hw : '-' ∉ w) : ¬ '.' :: w <:+ pre ++ x := by
  obtain ⟨front, tail, rfl, hdot⟩ := h.hyphen
  intro hs
  rw [← List.append_assoc] at hs
  have htail : '.' :: w <:+ tail := suffix_of_not_mem hs fun hmem => by
    rcases List.mem_cons.mp hmem with hdash | hmem
    · cases hdash
    · exact hw hmem
  exact hdot (htail.subset List.mem_cons_self)

theorem Alike.symm {x r : Text} (h : Alike x r) : Alike r x := h.imp Eq.symm And.symm

section Join
variable {xs rs : List Text} (h : List.Forall₂ Alike xs rs)
include h

theorem alike_symm : List.Forall₂ Alike rs xs := by
  induction h with
  | nil => exact .nil
  | cons hx _ ih => exact .cons hx.symm ih

theorem alike_cases : xs = rs ∨ ∀ ch ∈ ['x', '-'], ch ∈ ['.'].intercalate xs ∧ ch ∈ ['.'].intercalate rs := by
  have hpair : xs = rs ∨ ∃ x ∈ xs, ∃ r ∈ rs, Encoded x ∧ Encoded r := by
    induction h with
    | nil => exact Or.inl rfl
    | cons hx _ ih =>
      rcases hx with rfl | hx
      · rcases ih with rfl | ⟨x', hx', r', hr', henc⟩
        · exact Or.inl rfl
        · exact Or.inr ⟨x', List.mem_cons_of_mem _ hx', r', List.mem_cons_of_mem _ hr', henc⟩
      · exact Or.inr ⟨_, List.mem_cons_self, _, List.mem_cons_self, hx⟩
  refine hpair.imp_right ?_
  rintro ⟨x, hx, r, hr, hencx, hencr⟩ ch hch
  simp only [List.mem_cons, List.not_mem_nil, or_false] at hch
  rcases hch with rfl | rfl
  · exact ⟨mem_intercalate hx hencx.letter, mem_intercalate hr hencr.letter⟩
  · exact ⟨mem_intercalate hx hencx.hyphen_mem, mem_intercalate hr hencr.hyphen_mem⟩

theorem suffix_join {w : Text} (a : Text) (hdot : '.' ∉ w) (hdash : '-' ∉ w) (hs : '.' :: w <:+ a ++ ['.'].intercalate xs) :
    '.' :: w <:+ a ++ ['.'].intercalate rs := by
  induction h generalizing a with
  | nil => exact hs
  | cons hx hrest ih =>
    cases hrest with
    | nil =>
      rcases hx with rfl | ⟨hx, -⟩
      · exact hs
      · rw [List.intercalate_singleton] at hs
        exact absurd hs (hx.not_suffix a hdash)
    | cons hx' hrest =>
      rw [List.intercalate_cons_cons, List.append_assoc, ← List.append_assoc a, List.singleton_append,
        cons_suffix_append_iff hdot] at hs ⊢
      exact ih ['.'] hs

end Join

theorem alike_of_toAscii (h : idna.toAscii label = some out) (hcolon : ':' ∉ out.map Char.toLower) :
    Alike (out.map Char.toLower) ((idna.readLabel label).map Char.toLower) := by
  rcases idna.toAscii_cases h with rfl | ⟨hread, hace, front, digits, hout, hdigits⟩
  · exact Or.inl rfl
  · refine Or.inr ⟨⟨?_, hcolon, front.map Char.toLower, digits.map Char.toLower, ?_, ?_⟩, ?_⟩
    · exact List.mem_map.mpr ⟨'x', hace.subset List.mem_cons_self, rfl⟩
    · rw [hout, List.map_append, List.map_cons]
      rfl
    · intro hdot
      obtain ⟨c, hc, hlower⟩ := List.mem_map.mp hdot
      obtain ⟨d, rfl⟩ := hdigits c hc
      exact (digit36_plain d).2.1 ((digit36_plain d).2.2.2.symm.trans hlower)
    · rw [hread]
      exact ⟨by decide, by decide, ['x', 'n', '-'], [], by decide, by simp⟩

end Idna

end Vuzol.Lib
