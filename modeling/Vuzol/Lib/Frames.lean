import Vuzol.Lib.Bytes

/-! Frames behind their length in four bytes, one behind the other, and a reader that stops without an error where the
    last frame is cut. -/

namespace Vuzol.Lib

def frame (b : Bytes) : Bytes := packBE 4 b.length ++ b

@[simp] theorem length_frame (b : Bytes) : (frame b).length = 4 + b.length := by
  rw [frame, List.length_append, length_packBE]

structure Reading (ε α : Type) where
  yielded : List α := []
  error : Option ε := none

section Reading
variable {ε α : Type} (sized : Nat → Except ε Unit) (decode : Bytes → Except ε α)

/-- `sized` looks at the length of a frame before the frame is read. -/
def readFrames (s : Bytes) : Reading ε α :=
  if s.length < 4 then { }
  else
    match sized (unpackBE (s.take 4)) with
    | .error e => { error := some e }
    | .ok () =>
      if (s.drop 4).length < unpackBE (s.take 4) then { }
      else
        match decode ((s.drop 4).take (unpackBE (s.take 4))) with
        | .error e => { error := some e }
        | .ok a =>
          let rest := readFrames ((s.drop 4).drop (unpackBE (s.take 4)))
          { rest with yielded := a :: rest.yielded }
termination_by s.length
decreasing_by
  simp only [List.length_drop]
  omega

/-- The entries whose frames lie in the first `n` bytes. -/
def whole : Nat → List (Bytes × α) → List α
  | _, [] => []
  | n, (b, a) :: entries => if 4 + b.length ≤ n then a :: whole (n - (4 + b.length)) entries else []

variable {sized decode}

theorem readFrames_take {entries : List (Bytes × α)} (hsize : ∀ p ∈ entries, p.1.length < 256 ^ 4)
    (hsized : ∀ p ∈ entries, sized p.1.length = .ok ()) (hdecode : ∀ p ∈ entries, decode p.1 = .ok p.2) (n : Nat) :
    readFrames sized decode ((entries.map fun p => frame p.1).flatten.take n) = { yielded := whole n entries } := by
  induction entries generalizing n with
  | nil =>
    rw [readFrames, List.map_nil, List.flatten_nil, List.take_nil, if_pos (by decide)]
    rfl
  | cons p entries ih =>
    obtain ⟨b, a⟩ := p
    obtain ⟨hb, hsize⟩ := List.forall_mem_cons.mp hsize
    obtain ⟨hok, hsized⟩ := List.forall_mem_cons.mp hsized
    obtain ⟨hopen, hdecode⟩ := List.forall_mem_cons.mp hdecode
    rw [List.map_cons, List.flatten_cons, frame, List.append_assoc]
    rw [readFrames, whole]
    by_cases hshort : n < 4
    · rw [if_pos (by rw [List.length_take]; omega), if_neg (by omega)]
    -- The cut is behind the length, which is read as it was written.
    have htake : List.take n (packBE 4 b.length ++ (b ++ (entries.map fun p => frame p.1).flatten)) =
        packBE 4 b.length ++ (b ++ (entries.map fun p => frame p.1).flatten).take (n - 4) := by
      rw [List.take_append, length_packBE, List.take_of_length_le (by rw [length_packBE]; omega)]
    have hhead : ∀ rest : Bytes, (packBE 4 b.length ++ rest).take 4 = packBE 4 b.length := fun rest =>
      List.take_left' (length_packBE 4 _)
    have htail : ∀ rest : Bytes, (packBE 4 b.length ++ rest).drop 4 = rest := fun rest => List.drop_left' (length_packBE 4 _)
    rw [htake, if_neg (by rw [List.length_append, length_packBE]; omega), hhead, htail, unpackBE_packBE hb, hok]
    dsimp only
    by_cases hcut : n < 4 + b.length
    · rw [if_pos (by rw [List.length_take]; omega), if_neg (by omega)]
    · have hbody : List.take (n - 4) (b ++ (entries.map fun p => frame p.1).flatten) =
          b ++ (entries.map fun p => frame p.1).flatten.take (n - (4 + b.length)) := by
        rw [List.take_append, List.take_of_length_le (by omega), Nat.sub_sub]
      rw [hbody, if_neg (by rw [List.length_append]; omega), List.take_left, List.drop_left, hopen, if_pos (by omega)]
      dsimp only
      rw [ih hsize hsized hdecode]

end Reading

end Vuzol.Lib
