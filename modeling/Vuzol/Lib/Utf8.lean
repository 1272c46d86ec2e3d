import Vuzol.Lib.Bytes

/-! Python's decoder for UTF-8 and its error handlers. A decoded text is a list of code points, lone surrogates included. -/

namespace Vuzol.Lib

abbrev CodePoints := List Nat

def codePoints (s : String) : CodePoints := s.toList.map Char.toNat

def ascii (s : String) : Bytes := s.toList.map fun c => c.toNat.toUInt8

/-- Read `k` more continuation bytes, the first one from `lo` to `hi`: the code point, or nothing where the sequence is
    ill-formed, and the number of bytes in it. -/
def continuations : Nat → Nat → Nat → Nat → Nat → Bytes → Option Nat × Nat
  | 0, _, _, value, length, _ => (some value, length)
  | k + 1, lo, hi, value, length, c :: rest =>
    if lo ≤ c.toNat ∧ c.toNat ≤ hi then
      continuations k 0x80 0xBF (value * 64 + (c.toNat - 0x80)) (length + 1) rest
    else (none, length)
  | _ + 1, _, _, _, length, [] => (none, length)

/-- The sequence that starts with `b`, or the longest start of one. -/
def utf8Head (b : UInt8) (rest : Bytes) : Option Nat × Nat :=
  let n := b.toNat
  if n < 0x80 then (some n, 1)
  else if n < 0xC2 then (none, 1)
  else if n < 0xE0 then continuations 1 0x80 0xBF (n - 0xC0) 1 rest
  else if n < 0xF0 then
    continuations 2 (if n = 0xE0 then 0xA0 else 0x80) (if n = 0xED then 0x9F else 0xBF) (n - 0xE0) 1 rest
  else if n < 0xF5 then
    continuations 3 (if n = 0xF0 then 0x90 else 0x80) (if n = 0xF4 then 0x8F else 0xBF) (n - 0xF0) 1 rest
  else (none, 1)

def decodeFrom (handler : Bytes → CodePoints) : Nat → Bytes → CodePoints
  | 0, _ => []
  | _ + 1, [] => []
  | fuel + 1, b :: rest =>
    match utf8Head b rest with
    | (some c, k) => c :: decodeFrom handler fuel ((b :: rest).drop k)
    | (none, k) => handler ((b :: rest).take k) ++ decodeFrom handler fuel ((b :: rest).drop k)

/-- `errors="surrogateescape"`. -/
def surrogateescape (bytes : Bytes) : CodePoints := bytes.map fun b => 0xDC00 + b.toNat

/-- `errors="replace"`. -/
def replaceErrors (_ : Bytes) : CodePoints := [0xFFFD]

/-- `bytes.decode("utf-8", errors)`: every round of the decoder takes a byte at least. -/
def decode (handler : Bytes → CodePoints) (bytes : Bytes) : CodePoints := decodeFrom handler bytes.length bytes

section Sequences
variable {k lo hi value length n m : Nat} {b : UInt8} {rest bytes : Bytes} {r : Option Nat}

theorem continuations_bytes (h : continuations k lo hi value length rest = (r, m)) (hlo : 0x80 ≤ lo) :
    length ≤ m ∧ ∀ c ∈ rest.take (m - length), 0x80 ≤ c.toNat := by
  induction k generalizing lo hi value length rest with
  | zero =>
    cases h
    exact ⟨Nat.le_refl _, by simp⟩
  | succ k ih =>
    cases rest with
    | nil =>
      cases h
      exact ⟨Nat.le_refl _, by simp⟩
    | cons c rest =>
      rw [continuations] at h
      split at h
      · rename_i hc
        obtain ⟨hle, hbytes⟩ := ih h (Nat.le_refl _)
        refine ⟨by omega, ?_⟩
        rw [show m - length = (m - (length + 1)) + 1 by omega, List.take_succ_cons, List.forall_mem_cons]
        exact ⟨hlo.trans hc.1, hbytes⟩
      · cases h
        exact ⟨Nat.le_refl _, by simp⟩

theorem le_continuations (h : continuations k lo hi value length rest = (some n, m)) : value * 64 ^ k ≤ n := by
  induction k generalizing lo hi value length rest with
  | zero =>
    cases h
    simp
  | succ k ih =>
    cases rest with
    | nil => cases h
    | cons c rest =>
      rw [continuations] at h
      split at h
      · refine Nat.le_trans ?_ (ih h)
        rw [Nat.pow_succ, Nat.mul_comm (64 ^ k) 64, ← Nat.mul_assoc]
        exact Nat.mul_le_mul_right _ (Nat.le_add_right _ _)
      · cases h

theorem le_continuations_succ (h : continuations (k + 1) lo hi value length rest = (some n, m)) :
    (value * 64 + (lo - 0x80)) * 64 ^ k ≤ n := by
  cases rest with
  | nil => cases h
  | cons c rest =>
    rw [continuations] at h
    split at h
    · rename_i hc
      refine Nat.le_trans (Nat.mul_le_mul_right _ ?_) (le_continuations h)
      omega
    · cases h

theorem continuations_after (hb : 0x80 ≤ b.toNat) (hlo : 0x80 ≤ lo) :
    1 ≤ (continuations k lo hi value 1 rest).2 ∧
      ∀ c ∈ (b :: rest).take (continuations k lo hi value 1 rest).2, 0x80 ≤ c.toNat := by
  obtain ⟨hle, hbytes⟩ := continuations_bytes (r := (continuations k lo hi value 1 rest).1) rfl hlo
  refine ⟨hle, ?_⟩
  rw [show (continuations k lo hi value 1 rest).2 = ((continuations k lo hi value 1 rest).2 - 1) + 1 by omega,
    List.take_succ_cons, List.forall_mem_cons]
  exact ⟨hb, hbytes⟩

theorem utf8Head_ascii (h : b.toNat < 0x80) : utf8Head b rest = (some b.toNat, 1) := if_pos h

theorem utf8Head_bytes (rest : Bytes) (h : 0x80 ≤ b.toNat) :
    1 ≤ (utf8Head b rest).2 ∧ ∀ c ∈ (b :: rest).take (utf8Head b rest).2, 0x80 ≤ c.toNat := by
  have hone : ∀ c ∈ (b :: rest).take 1, 0x80 ≤ c.toNat := by simpa using h
  unfold utf8Head
  dsimp only
  rw [if_neg (by omega)]
  split
  · exact ⟨Nat.le_refl _, hone⟩
  split
  · exact continuations_after h (Nat.le_refl _)
  split
  · exact continuations_after h (by split <;> decide)
  split
  · exact continuations_after h (by split <;> decide)
  · exact ⟨Nat.le_refl _, hone⟩

theorem utf8Head_value (rest : Bytes) (n : Nat) (h : 0x80 ≤ b.toNat) (hn : (utf8Head b rest).1 = some n) : 0x80 ≤ n := by
  unfold utf8Head at hn
  dsimp only at hn
  rw [if_neg (by omega)] at hn
  split at hn
  · cases hn
  rename_i h1
  split at hn
  · have hle := le_continuations (Prod.ext hn rfl)
    omega
  split at hn
  · have hle := le_continuations_succ (Prod.ext hn rfl)
    split at hle <;> omega
  split at hn
  · have hle := le_continuations_succ (Prod.ext hn rfl)
    split at hle <;> omega
  · cases hn

theorem ascii_mem_decodeFrom {handler : Bytes → CodePoints}
    (hh : ∀ bytes, (∀ b ∈ bytes, 0x80 ≤ b.toNat) → ∀ c ∈ handler bytes, 0x80 ≤ c)
    (hn : n < 0x80) {fuel : Nat} (hfuel : bytes.length ≤ fuel) :
    n ∈ decodeFrom handler fuel bytes ↔ ∃ b ∈ bytes, b.toNat = n := by
  induction fuel generalizing bytes with
  | zero =>
    rw [List.length_eq_zero_iff.mp (Nat.le_zero.mp hfuel)]
    simp [decodeFrom]
  | succ fuel ih =>
    cases bytes with
    | nil => simp [decodeFrom]
    | cons b rest =>
      by_cases hb : b.toNat < 0x80
      · rw [decodeFrom, utf8Head_ascii hb]
        simp only [List.drop_succ_cons, List.drop_zero, List.mem_cons, exists_eq_or_imp]
        rw [ih (Nat.le_of_succ_le_succ hfuel)]
        exact or_congr_left eq_comm
      · obtain ⟨hone, hbytes⟩ := utf8Head_bytes rest (Nat.not_lt.mp hb)
        have hvalue := fun n => utf8Head_value rest n (Nat.not_lt.mp hb)
        rw [decodeFrom]
        generalize utf8Head b rest = head at hone hbytes hvalue
        obtain ⟨value, k⟩ := head
        have hdrop : n ∈ decodeFrom handler fuel ((b :: rest).drop k) ↔ ∃ c ∈ b :: rest, c.toNat = n := by
          rw [ih (by simp only [List.length_drop, List.length_cons] at hfuel ⊢; omega)]
          constructor
          · rintro ⟨c, hc, rfl⟩
            exact ⟨c, List.mem_of_mem_drop hc, rfl⟩
          · rintro ⟨c, hc, rfl⟩
            rw [← List.take_append_drop k (b :: rest), List.mem_append] at hc
            refine ⟨c, hc.resolve_left fun htake => ?_, rfl⟩
            exact absurd (hbytes c htake) (Nat.not_le.mpr hn)
        cases value with
        | some v =>
          have hv := hvalue v rfl
          rw [List.mem_cons, hdrop, or_iff_right (by omega)]
        | none =>
          rw [List.mem_append, hdrop, or_iff_right fun hmem => absurd (hh _ hbytes n hmem) (Nat.not_le.mpr hn)]

theorem ascii_mem_decode (hn : n < 0x80) : n ∈ decode surrogateescape bytes ↔ ∃ b ∈ bytes, b.toNat = n := by
  refine ascii_mem_decodeFrom (fun bytes _ c hc => ?_) hn (Nat.le_refl _)
  obtain ⟨b, -, rfl⟩ := List.mem_map.mp hc
  exact Nat.le_trans (by decide) (Nat.le_add_right _ _)

end Sequences

end Vuzol.Lib
