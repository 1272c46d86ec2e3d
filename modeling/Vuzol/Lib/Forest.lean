import Mathlib.Data.Set.Basic

/-! Forests given by parent pointers: what lies a number of steps above a node, and the tree below one. -/

namespace Vuzol.Lib

section Forest
variable {α : Type} (parent : α → Option α)

def above : Nat → α → Option α
  | 0, a => some a
  | n + 1, a => (parent a).bind (above n)

structure RootAt (n : Nat) (a r : α) : Prop where
  path : above parent n a = some r
  top : parent r = none

def IsForest : Prop := ∀ a, ∃ n r, RootAt parent n a r

def treeOf (r : α) : Set α := { a | ∃ n, above parent n a = some r }

variable {parent} {a b r s : α} {m n k : Nat}

theorem above_add : above parent (m + n) a = (above parent m a).bind (above parent n) := by
  induction m generalizing a with
  | zero => rw [Nat.zero_add]; rfl
  | succ m ih =>
    rw [Nat.succ_add]
    cases hp : parent a with
    | none => simp [above, hp]
    | some p => simp [above, hp, ih]

theorem above_trans (h1 : above parent m a = some b) (h2 : above parent n b = some r) :
    above parent (m + n) a = some r := by
  rw [above_add, h1]
  exact h2

theorem above_of_top (h : parent r = none) (hn : above parent n r = some s) : n = 0 ∧ s = r := by
  cases n with
  | zero => exact ⟨rfl, (Option.some.inj hn).symm⟩
  | succ n => simp [above, h] at hn

theorem above_sub (hmn : m ≤ n) (h1 : above parent m a = some b) (h2 : above parent n a = some r) :
    above parent (n - m) b = some r := by
  obtain ⟨k, rfl⟩ := Nat.exists_eq_add_of_le hmn
  rw [above_add, h1, Option.bind_some] at h2
  rwa [Nat.add_sub_cancel_left]

theorem RootAt.unique (h1 : RootAt parent m a r) (h2 : RootAt parent n a s) : m = n ∧ r = s := by
  rcases Nat.le_total m n with hle | hle
  · obtain ⟨hk, rfl⟩ := above_of_top h1.top (above_sub hle h1.path h2.path)
    exact ⟨by omega, rfl⟩
  · obtain ⟨hk, rfl⟩ := above_of_top h2.top (above_sub hle h2.path h1.path)
    exact ⟨by omega, rfl⟩

theorem RootAt.of_above (h : RootAt parent m b r) (hab : above parent n a = some b) : RootAt parent (n + m) a r :=
  ⟨above_trans hab h.path, h.top⟩

theorem IsForest.no_cycle (hf : IsForest parent) (h : above parent k a = some a) : k = 0 := by
  obtain ⟨m, r, hr⟩ := hf a
  have hlen := (hr.unique (hr.of_above h)).1
  omega

theorem IsForest.above_unique (hf : IsForest parent) (h1 : above parent m a = some r) (h2 : above parent n a = some r) :
    m = n := by
  rcases Nat.le_total m n with hle | hle
  · have := hf.no_cycle (above_sub hle h1 h2)
    omega
  · have := hf.no_cycle (above_sub hle h2 h1)
    omega

theorem IsForest.of_lt {parent : Nat → Option Nat} (h : ∀ a p, parent a = some p → p < a) : IsForest parent := by
  intro a
  induction a using Nat.strong_induction_on with
  | _ a ih =>
    cases hp : parent a with
    | none => exact ⟨0, a, rfl, hp⟩
    | some p =>
      obtain ⟨n, r, hr⟩ := ih p (h a p hp)
      exact ⟨1 + n, r, hr.of_above (by simp [above, hp])⟩

theorem mem_treeOf_self : r ∈ treeOf parent r := ⟨0, rfl⟩

theorem mem_treeOf_of_above (h : above parent n a = some b) (hb : b ∈ treeOf parent r) : a ∈ treeOf parent r := by
  obtain ⟨m, hm⟩ := hb
  exact ⟨n + m, above_trans h hm⟩

theorem mem_treeOf_above (htop : parent r = none) (h : above parent n a = some b) (ha : a ∈ treeOf parent r) :
    b ∈ treeOf parent r := by
  obtain ⟨m, hm⟩ := ha
  rcases Nat.le_total n m with hle | hle
  · exact ⟨m - n, above_sub hle h hm⟩
  · obtain ⟨-, rfl⟩ := above_of_top htop (above_sub hle hm h)
    exact mem_treeOf_self

end Forest

end Vuzol.Lib
