import Mathlib.Data.List.Induction
import Mathlib.Tactic.Ring

/-! Bytes: big-endian words, UTF-8, and handles that may return fewer bytes than a read asks for. -/

namespace Vuzol.Lib

abbrev Bytes := List UInt8

/-- The last `w` bytes of `n`, the most significant first. -/
def packBE : Nat → Nat → Bytes
  | 0, _ => []
  | w + 1, n => packBE w (n / 256) ++ [UInt8.ofNat n]

def unpackBE (b : Bytes) : Nat := b.foldl (fun n x => n * 256 + x.toNat) 0

@[simp] theorem length_packBE (w n : Nat) : (packBE w n).length = w := by
  induction w generalizing n with
  | zero => rfl
  | succ w ih => rw [packBE, List.length_append, ih, List.length_singleton]

theorem unpackBE_concat (b : Bytes) (x : UInt8) : unpackBE (b ++ [x]) = unpackBE b * 256 + x.toNat := by
  rw [unpackBE, List.foldl_append]
  rfl

theorem unpackBE_packBE {w n : Nat} (h : n < 256 ^ w) : unpackBE (packBE w n) = n := by
  induction w generalizing n with
  | zero =>
    rw [Nat.pow_zero, Nat.lt_one_iff] at h
    rw [h]
    rfl
  | succ w ih =>
    have hhigh : n / 256 < 256 ^ w := by
      rw [Nat.div_lt_iff_lt_mul (by decide)]
      rwa [Nat.pow_succ] at h
    rw [packBE, unpackBE_concat, ih hhigh, UInt8.toNat_ofNat']
    exact Nat.div_add_mod' n 256

theorem packBE_unpackBE (b : Bytes) : packBE b.length (unpackBE b) = b := by
  induction b using List.reverseRecOn with
  | nil => rfl
  | append_singleton b x ih =>
    have hx : x.toNat < 256 := x.toNat_lt
    have hhigh : unpackBE (b ++ [x]) / 256 = unpackBE b := by
      rw [unpackBE_concat]
      omega
    have hlow : UInt8.ofNat (unpackBE (b ++ [x])) = x := by
      rw [← UInt8.toNat_inj, UInt8.toNat_ofNat', unpackBE_concat]
      omega
    rw [List.length_append, List.length_singleton, packBE, hhigh, ih, hlow]

theorem packBE_inj {w n m : Nat} (hn : n < 256 ^ w) (hm : m < 256 ^ w) (h : packBE w n = packBE w m) : n = m := by
  rw [← unpackBE_packBE hn, h, unpackBE_packBE hm]

def utf8 (s : String) : Bytes := s.toByteArray.data.toList

def decodeUtf8 (b : Bytes) : Option String := String.fromUTF8? ⟨b.toArray⟩

theorem decodeUtf8_utf8 (s : String) : decodeUtf8 (utf8 s) = some s := by
  have hbytes : (⟨(utf8 s).toArray⟩ : ByteArray) = s.toByteArray := by simp [utf8]
  unfold decodeUtf8
  rw [hbytes, String.fromUTF8?]
  split
  · rfl
  · rename_i hvalid
    exact absurd (by simpa using s.isValidUTF8) hvalid

theorem utf8_of_decodeUtf8 {b : Bytes} {s : String} (h : decodeUtf8 b = some s) : utf8 s = b := by
  unfold decodeUtf8 String.fromUTF8? at h
  split at h
  · rw [← Option.some.inj h]
    rfl
  · cases h

theorem length_utf8_le (t : List Char) : (utf8 (String.ofList t)).length ≤ 4 * t.length := by
  have hbytes : utf8 (String.ofList t) = t.flatMap String.utf8EncodeChar := by simp [utf8, List.utf8Encode]
  rw [hbytes]
  clear hbytes
  induction t with
  | nil => simp
  | cons c t ih =>
    have hc := c.utf8Size_le_four
    rw [List.flatMap_cons, List.length_append, String.length_utf8EncodeChar, List.length_cons]
    omega

structure Handle where
  rest : Bytes
  cuts : Nat → Nat

namespace Handle

/-- `read(n)` for a positive `n`: some bytes unless none is left, and never more than asked for. -/
def read (h : Handle) (n : Nat) : Bytes × Handle :=
  let k := min n (h.cuts 0 + 1)
  (h.rest.take k, { rest := h.rest.drop k, cuts := fun i => h.cuts (i + 1) })

/-- Read until there are `n` bytes or the stream ends, at most `cap` bytes at a time. -/
def fill (cap : Nat) (h : Handle) (n : Nat) : Bytes × Handle :=
  if n = 0 then ([], h)
  else
    if (h.read (min n cap)).1 = [] then ([], (h.read (min n cap)).2)
    else
      ((h.read (min n cap)).1 ++ (fill cap (h.read (min n cap)).2 (n - (h.read (min n cap)).1.length)).1,
        (fill cap (h.read (min n cap)).2 (n - (h.read (min n cap)).1.length)).2)
termination_by n
decreasing_by
  all_goals
    have hpos := List.length_pos_iff.mpr ‹¬_ = []›
    omega

variable {cap n : Nat} {h : Handle}

theorem read_fst_append_rest : (h.read n).1 ++ (h.read n).2.rest = h.rest := List.take_append_drop _ _

theorem length_read_le : (h.read n).1.length ≤ n := by
  simp only [read, List.length_take]
  omega

theorem read_eq_nil (hn : 0 < n) (hnil : (h.read n).1 = []) : h.rest = [] := by
  simp only [read, List.take_eq_nil_iff] at hnil
  rcases hnil with hk | hnil
  · omega
  · exact hnil

/-- However the reads are cut, the bytes are the next `n` of the stream. -/
theorem fill_eq (hcap : 0 < cap) (h : Handle) (n : Nat) :
    (h.fill cap n).1 = h.rest.take n ∧ (h.fill cap n).2.rest = h.rest.drop n := by
  induction n using Nat.strongRecOn generalizing h with
  | ind n ih =>
    rw [fill]
    split
    · rename_i hn
      rw [hn]
      exact ⟨rfl, rfl⟩
    rename_i hn
    have hask : 0 < min n cap := by omega
    split
    · rename_i hnil
      have hrest := read_eq_nil hask hnil
      have happ := read_fst_append_rest (h := h) (n := min n cap)
      rw [hnil, List.nil_append] at happ
      rw [happ, hrest, List.take_nil, List.drop_nil]
      exact ⟨rfl, rfl⟩
    · rename_i hne
      have hpos := List.length_pos_iff.mpr hne
      have hle : (h.read (min n cap)).1.length ≤ n := by
        have hread := length_read_le (h := h) (n := min n cap)
        omega
      obtain ⟨hfst, hsnd⟩ := ih (n - (h.read (min n cap)).1.length) (by omega) (h.read (min n cap)).2
      have happ := read_fst_append_rest (h := h) (n := min n cap)
      constructor
      · rw [hfst, ← happ, List.take_append, List.take_of_length_le hle]
      · rw [hsnd, ← happ, List.drop_append, List.drop_eq_nil_of_le hle, List.nil_append]

end Handle

end Vuzol.Lib
