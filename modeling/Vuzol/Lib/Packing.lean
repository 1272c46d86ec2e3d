import Mathlib.Algebra.BigOperators.Group.List.Basic
import Mathlib.Algebra.GroupWithZero.Nat

/-! First-fit packing: items go, in their order, into the first bin that takes them. -/

namespace Vuzol.Lib

variable {α : Type} {size : α → Nat}

structure Bin (size : α → Nat) where
  items : List α
  load : Nat
  load_eq : load = (items.map size).sum
  items_ne_nil : items ≠ []

namespace Bin

def single (size : α → Nat) (x : α) : Bin size where
  items := [x]
  load := size x
  load_eq := by simp
  items_ne_nil := by simp

def add (b : Bin size) (x : α) : Bin size where
  items := b.items ++ [x]
  load := b.load + size x
  load_eq := by simp [b.load_eq]
  items_ne_nil := by simp

end Bin

section Packing
variable (fits : Bin size → α → Bool)

def place : List (Bin size) → α → List (Bin size)
  | [], x => [Bin.single size x]
  | b :: bins, x => if fits b x then b.add x :: bins else b :: place bins x

def firstFit (xs : List α) : List (Bin size) := xs.foldl (place fits) []

variable {fits} {bins : List (Bin size)} {b : Bin size} {x : α} {xs : List α}

theorem mem_place (h : b ∈ place fits bins x) :
    b ∈ bins ∨ b = Bin.single size x ∨ ∃ b' ∈ bins, fits b' x = true ∧ b = b'.add x := by
  induction bins with
  | nil => exact Or.inr (Or.inl (List.mem_singleton.mp h))
  | cons b0 bins ih =>
    rw [place] at h
    split at h
    · rename_i hfits
      rcases List.mem_cons.mp h with rfl | h
      · exact Or.inr (Or.inr ⟨b0, List.mem_cons_self, hfits, rfl⟩)
      · exact Or.inl (List.mem_cons_of_mem _ h)
    · rcases List.mem_cons.mp h with rfl | h
      · exact Or.inl List.mem_cons_self
      · rcases ih h with h | h | ⟨b', hb', hfits, rfl⟩
        · exact Or.inl (List.mem_cons_of_mem _ h)
        · exact Or.inr (Or.inl h)
        · exact Or.inr (Or.inr ⟨b', List.mem_cons_of_mem _ hb', hfits, rfl⟩)

theorem flatMap_place : ((place fits bins x).flatMap (·.items)).Perm (bins.flatMap (·.items) ++ [x]) := by
  induction bins with
  | nil => exact List.Perm.refl _
  | cons b bins ih =>
    rw [place]
    split
    · rw [List.flatMap_cons, List.flatMap_cons, List.append_assoc]
      show (b.items ++ [x] ++ _).Perm _
      rw [List.append_assoc]
      exact List.perm_append_comm.append_left _
    · rw [List.flatMap_cons, List.flatMap_cons, List.append_assoc]
      exact ih.append_left _

theorem firstFit_forall {P : Bin size → Prop} (hopen : ∀ x ∈ xs, P (Bin.single size x))
    (hadd : ∀ b, ∀ x ∈ xs, P b → fits b x = true → P (b.add x)) : ∀ b ∈ firstFit fits xs, P b := by
  suffices h : ∀ ys ⊆ xs, ∀ bins : List (Bin size), (∀ b ∈ bins, P b) → ∀ b ∈ ys.foldl (place fits) bins, P b from
    h xs (List.Subset.refl _) [] (by simp)
  intro ys hys
  induction ys with
  | nil => exact fun bins hbins => hbins
  | cons x ys ih =>
    intro bins hbins
    refine ih (fun y hy => hys (List.mem_cons_of_mem _ hy)) _ fun b hb => ?_
    rcases mem_place hb with hb | rfl | ⟨b', hb', hfits, rfl⟩
    · exact hbins b hb
    · exact hopen x (hys List.mem_cons_self)
    · exact hadd b' x (hys List.mem_cons_self) (hbins b' hb') hfits

theorem firstFit_perm : ((firstFit fits xs).flatMap (·.items)).Perm xs := by
  suffices h : ∀ bins : List (Bin size), ((xs.foldl (place fits) bins).flatMap (·.items)).Perm (bins.flatMap (·.items) ++ xs) from
    h []
  induction xs with
  | nil => intro bins; rw [List.append_nil]; exact List.Perm.refl _
  | cons x xs ih =>
    intro bins
    rw [List.foldl_cons, List.append_cons]
    exact (ih _).trans (flatMap_place.append_right _)

theorem firstFit_sublist : ∀ b ∈ firstFit fits xs, b.items.Sublist xs := by
  suffices h : ∀ (ys : List α) (bins : List (Bin size)), (∀ b ∈ bins, b.items.Sublist ys) →
      ∀ b ∈ xs.foldl (place fits) bins, b.items.Sublist (ys ++ xs) from h [] [] (by simp)
  induction xs with
  | nil =>
    intro ys bins h
    rw [List.append_nil]
    exact h
  | cons x xs ih =>
    intro ys bins h
    rw [List.foldl_cons, List.append_cons]
    refine ih _ _ fun b hb => ?_
    rcases mem_place hb with hb | rfl | ⟨b', hb', -, rfl⟩
    · exact (h b hb).trans (List.sublist_append_left _ _)
    · exact List.sublist_append_right _ _
    · exact (h b' hb').append_right _

end Packing

end Vuzol.Lib
