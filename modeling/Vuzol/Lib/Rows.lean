import Mathlib.Data.List.Nodup
import Mathlib.Data.List.Range
import Mathlib.Algebra.BigOperators.Group.List.Basic
import Mathlib.Algebra.GroupWithZero.Nat

/-! Tables of rows under distinct keys: a row is stored in place of the row of its key, and a query is a
    filter over the rows in key order. -/

namespace Vuzol.Lib

variable {ρ κ : Type} [DecidableEq κ] {key : ρ → κ} {rows : List ρ} {x x₀ y : ρ} {p : ρ → Bool}

/-- Store `x` in place of the row of its key. -/
def put (key : ρ → κ) (x : ρ) (rows : List ρ) : List ρ := rows.map fun y => if key y = key x then x else y

@[simp] theorem put_nil : put key x [] = [] := rfl

@[simp] theorem put_cons : put key x (y :: rows) = (if key y = key x then x else y) :: put key x rows := rfl

@[simp] theorem put_append {more : List ρ} : put key x (rows ++ more) = put key x rows ++ put key x more :=
  List.map_append

@[simp] theorem length_put : (put key x rows).length = rows.length := List.length_map _

theorem put_of_not_mem (h : ∀ y ∈ rows, key y ≠ key x) : put key x rows = rows := by
  have hid : put key x rows = rows.map id := List.map_congr_left fun y hy => by simp [h y hy]
  rw [hid, List.map_id]

theorem mem_put : y ∈ put key x rows ↔ (y = x ∧ ∃ z ∈ rows, key z = key x) ∨ (y ∈ rows ∧ key y ≠ key x) := by
  simp only [put, List.mem_map]
  constructor
  · rintro ⟨z, hz, rfl⟩
    by_cases hk : key z = key x
    · exact Or.inl ⟨by simp [hk], z, hz, hk⟩
    · exact Or.inr ⟨by simpa [hk] using hz, by simp [hk]⟩
  · rintro (⟨rfl, z, hz, hk⟩ | ⟨hy, hk⟩)
    · exact ⟨z, hz, by simp [hk]⟩
    · exact ⟨y, hy, by simp [hk]⟩

theorem mem_or_of_mem_put (h : y ∈ put key x rows) : y = x ∨ y ∈ rows := by
  rcases mem_put.mp h with ⟨rfl, -⟩ | ⟨hy, -⟩
  · exact Or.inl rfl
  · exact Or.inr hy

theorem mem_put_self (h : x₀ ∈ rows) (hk : key x₀ = key x) : x ∈ put key x rows :=
  mem_put.mpr (Or.inl ⟨rfl, x₀, h, hk⟩)

theorem mem_put_of_ne (h : y ∈ rows) (hk : key y ≠ key x) : y ∈ put key x rows := mem_put.mpr (Or.inr ⟨h, hk⟩)

theorem map_put {β : Type} {g : ρ → β} (h : ∀ y ∈ rows, key y = key x → g y = g x) :
    (put key x rows).map g = rows.map g := by
  rw [put, List.map_map]
  apply List.map_congr_left
  intro y hy
  by_cases hk : key y = key x
  · simp [hk, h y hy hk]
  · simp [hk]

theorem filterMap_put {β : Type} {g : ρ → Option β} (h : ∀ y ∈ rows, key y = key x → g y = g x) :
    (put key x rows).filterMap g = rows.filterMap g := by
  have hcol : ∀ rows : List ρ, rows.filterMap g = (rows.map g).filterMap id := fun rows => by
    rw [List.filterMap_map]
    rfl
  rw [hcol, hcol, map_put h]

omit [DecidableEq κ] in
theorem nodup_map_append (hn : (rows.map key).Nodup) (h : ∀ y ∈ rows, key y ≠ key x) : ((rows ++ [x]).map key).Nodup := by
  rw [List.map_append, List.nodup_append]
  refine ⟨hn, List.nodup_singleton _, ?_⟩
  rintro k hk k' hk' rfl
  obtain ⟨y, hy, rfl⟩ := List.mem_map.mp hk
  exact h y hy (List.mem_singleton.mp hk')

omit [DecidableEq κ] in
theorem nodup_filterMap_append {β : Type} {g : ρ → Option β} (hn : (rows.filterMap g).Nodup)
    (h : ∀ y ∈ rows, ∀ k, g x = some k → g y ≠ some k) : ((rows ++ [x]).filterMap g).Nodup := by
  rw [List.filterMap_append, List.nodup_append]
  refine ⟨hn, ?_, ?_⟩
  · cases hx : g x <;> simp [hx]
  · intro k hk k' hk' heq
    obtain ⟨y, hy, hyk⟩ := List.mem_filterMap.mp hk
    have hxk : g x = some k' := by simpa using List.mem_filterMap.mp hk'
    exact h y hy k' hxk (heq ▸ hyk)

omit [DecidableEq κ] in
theorem eq_of_key_eq (hn : (rows.map key).Nodup) (hx : x ∈ rows) (hy : y ∈ rows) (hk : key x = key y) : x = y :=
  List.inj_on_of_nodup_map hn hx hy hk

theorem put_put (hk : key x₀ = key x) : put key x (put key x₀ rows) = put key x rows := by
  simp only [put, List.map_map]
  apply List.map_congr_left
  intro y _
  by_cases h : key y = key x <;> simp [hk, h]

theorem foldl_put [DecidableEq ρ] {g : ρ → ρ} (hg : ∀ y, key (g y) = key y) {chain : List ρ}
    (hn : (rows.map key).Nodup) (hc : (chain.map key).Nodup) (hsub : ∀ y ∈ chain, y ∈ rows) :
    chain.foldl (fun rows y => put key (g y) rows) rows = rows.map fun y => if y ∈ chain then g y else y := by
  induction chain generalizing rows with
  | nil => simp
  | cons x chain ih =>
    rw [List.map_cons, List.nodup_cons] at hc
    have hne : ∀ y ∈ chain, key y ≠ key x := fun y hy hk => hc.1 (hk ▸ List.mem_map_of_mem hy)
    have hx : ∀ y ∈ rows, key y = key (g x) → y = x := fun y hy hk =>
      eq_of_key_eq hn hy (hsub x List.mem_cons_self) (hk.trans (hg x))
    have hput : (put key (g x) rows).map key = rows.map key := map_put fun _ _ hk => hk
    rw [List.foldl_cons, ih (hput ▸ hn) hc.2 fun y hy =>
      mem_put_of_ne (hsub y (List.mem_cons_of_mem _ hy)) fun hk => hne y hy (hk.trans (hg x)), put, List.map_map]
    apply List.map_congr_left
    intro y hy
    by_cases hk : key y = key (g x)
    · have hgx : g x ∉ chain := fun hin => hne _ hin (hg x)
      simp [hx y hy hk, hg, hgx]
    · have hyx : y ≠ x := fun he => hk (he ▸ (hg x).symm)
      simp [hk, hyx]

theorem filter_put_of_eq (h : ∀ y ∈ rows, key y = key x → p y = p x) :
    (put key x rows).filter p = put key x (rows.filter p) := by
  induction rows with
  | nil => rfl
  | cons y rows ih =>
    have ih := ih fun z hz => h z (List.mem_cons_of_mem _ hz)
    by_cases hk : key y = key x
    · have hp := h y List.mem_cons_self hk
      by_cases hx : p x <;> simp [hk, hp, hx, ih]
    · by_cases hy : p y <;> simp [hk, hy, ih]

theorem filter_put_of_not (h : p x = false) :
    (put key x rows).filter p = (rows.filter p).filter fun y => key y ≠ key x := by
  induction rows with
  | nil => rfl
  | cons y rows ih =>
    by_cases hk : key y = key x
    · by_cases hy : p y <;> simp [hk, hy, h, ih]
    · by_cases hy : p y <;> simp [hk, hy, ih]

theorem filter_put_of_nil (hn : (rows.map key).Nodup) (hnil : rows.filter p = []) (hx : x₀ ∈ rows)
    (hk : key x₀ = key x) (hp : p x = true) : (put key x rows).filter p = [x] := by
  induction rows with
  | nil => cases hx
  | cons y rows ih =>
    simp only [List.map_cons, List.nodup_cons] at hn
    have hy : p y = false := by
      by_contra hy
      simp [hy] at hnil
    have hnil' : rows.filter p = [] := by simpa [hy] using hnil
    by_cases hky : key y = key x
    · have hrest : put key x rows = rows := by
        apply put_of_not_mem
        intro z hz hkz
        exact hn.1 (List.mem_map.mpr ⟨z, hz, hkz.trans hky.symm⟩)
      simp [hky, hp, hrest, hnil']
    · have hx' : x₀ ∈ rows := by
        rcases List.mem_cons.mp hx with rfl | hx'
        · exact absurd hk hky
        · exact hx'
      simp [hky, hy, ih hn.2 hnil' hx']

theorem find?_key (hn : (rows.map key).Nodup) (hx : x ∈ rows) : rows.find? (fun y => key y == key x) = some x := by
  induction rows with
  | nil => cases hx
  | cons y rows ih =>
    simp only [List.map_cons, List.nodup_cons] at hn
    rcases List.mem_cons.mp hx with rfl | hx'
    · simp
    · have hne : key y ≠ key x := fun hk => hn.1 (List.mem_map.mpr ⟨x, hx', hk.symm⟩)
      simp [hne, ih hn.2 hx']

theorem find?_key_put {k : κ} :
    (put key x rows).find? (key · == k) =
      (rows.find? (key · == k)).map fun y => if key y = key x then x else y := by
  rw [put, List.find?_map]
  congr 1
  refine congrArg (List.find? · rows) (funext fun y => ?_)
  by_cases hk : key y = key x
  · simp [hk]
  · simp [hk]

theorem find?_put (hx : x₀ ∈ rows) (hk : key x₀ = key x) (hn : (rows.map key).Nodup) :
    (put key x rows).find? (fun y => key y == key x) = some x := by
  refine find?_key ?_ (mem_put_self hx hk)
  rwa [map_put fun _ _ h => h]

omit [DecidableEq κ] in
theorem find?_unique (hn : (rows.map key).Nodup) (hx : x ∈ rows) (hp : p x = true)
    (h : ∀ y ∈ rows, p y = true → key y = key x) : rows.find? p = some x := by
  cases hf : rows.find? p with
  | none => exact absurd hp (List.find?_eq_none.mp hf x hx)
  | some y =>
    have hy := List.mem_of_find?_eq_some hf
    rw [eq_of_key_eq hn hy hx (h y hy (List.find?_some hf))]

theorem mem_of_find?_key {k : κ} (h : rows.find? (fun y => key y == k) = some x) : x ∈ rows ∧ key x = k :=
  ⟨List.mem_of_find?_eq_some h, by simpa using List.find?_some h⟩

omit [DecidableEq κ] in
theorem filter_eq_nil_or_singleton (hn : (rows.map key).Nodup) (h : ∀ y ∈ rows, ∀ z ∈ rows, p y → p z → y = z) :
    rows.filter p = [] ∨ ∃ y ∈ rows, p y = true ∧ rows.filter p = [y] := by
  rcases hf : rows.filter p with _ | ⟨y, _ | ⟨z, rest⟩⟩
  · exact Or.inl rfl
  · have hy : y ∈ rows.filter p := by simp [hf]
    exact Or.inr ⟨y, (List.mem_filter.mp hy).1, (List.mem_filter.mp hy).2, rfl⟩
  · have hy : y ∈ rows.filter p := by simp [hf]
    have hz : z ∈ rows.filter p := by simp [hf]
    have heq := h y (List.mem_filter.mp hy).1 z (List.mem_filter.mp hz).1 (List.mem_filter.mp hy).2
      (List.mem_filter.mp hz).2
    have hnd : (rows.filter p).Nodup := (List.Nodup.of_map _ hn).filter _
    rw [hf, heq] at hnd
    simp at hnd

omit [DecidableEq κ] in
theorem countP_le_add_one {q : ρ → Bool} {k : κ} (hn : (rows.map key).Nodup)
    (h : ∀ y ∈ rows, key y ≠ k → p y = true → q y = true) : rows.countP p ≤ rows.countP q + 1 := by
  induction rows with
  | nil => simp
  | cons y rows ih =>
    rw [List.map_cons, List.nodup_cons] at hn
    have htail : ∀ z ∈ rows, key z ≠ k → p z = true → q z = true := fun z hz => h z (List.mem_cons_of_mem _ hz)
    rw [List.countP_cons, List.countP_cons]
    by_cases hk : key y = k
    · have hle : rows.countP p ≤ rows.countP q := by
        refine List.countP_mono_left fun z hz => htail z hz ?_
        intro hzk
        exact hn.1 (hk.trans hzk.symm ▸ List.mem_map_of_mem hz)
      split <;> split <;> omega
    · have hle := ih hn.2 htail
      have hy := h y List.mem_cons_self hk
      by_cases hp : p y = true
      · simp only [hp, hy hp, if_true]
        omega
      · simp only [hp, Bool.false_eq_true, if_false]
        omega

omit [DecidableEq κ] in
theorem sum_filter (g : ρ → Nat) : ((rows.filter p).map g).sum = (rows.map fun y => if p y then g y else 0).sum := by
  induction rows with
  | nil => rfl
  | cons y rows ih => by_cases hy : p y <;> simp [hy, ih]

theorem sum_put (g : ρ → Nat) (hn : (rows.map key).Nodup) (hx : x₀ ∈ rows) (hk : key x₀ = key x) :
    ((put key x rows).map g).sum + g x₀ = (rows.map g).sum + g x := by
  induction rows with
  | nil => cases hx
  | cons y rows ih =>
    simp only [List.map_cons, List.nodup_cons] at hn
    rcases List.mem_cons.mp hx with rfl | hx'
    · have hrest : put key x rows = rows := by
        apply put_of_not_mem
        intro z hz hkz
        exact hn.1 (List.mem_map.mpr ⟨z, hz, hkz.trans hk.symm⟩)
      simp [hk, hrest]
      omega
    · have hne : key y ≠ key x := fun hky => hn.1 (List.mem_map.mpr ⟨x₀, hx', hk.trans hky.symm⟩)
      have ih := ih hn.2 hx'
      simp [hne]
      omega

theorem sum_set (g : ρ → Nat) {k : Nat} (hx : rows[k]? = some x₀) :
    ((rows.set k x).map g).sum + g x₀ = (rows.map g).sum + g x := by
  induction rows generalizing k with
  | nil => simp at hx
  | cons y rows ih =>
    cases k with
    | zero =>
      simp only [List.getElem?_cons_zero, Option.some.injEq] at hx
      subst hx
      simp only [List.set_cons_zero, List.map_cons, List.sum_cons]
      omega
    | succ k =>
      have ih := ih (k := k) (by simpa using hx)
      simp only [List.set_cons_succ, List.map_cons, List.sum_cons]
      omega

/-- The rows of a table change, with `spent` paid out of their weights and `given` added to them. -/
def Charges (g : ρ → Nat) (rows rows' : List ρ) (spent given : Nat) : Prop :=
  (rows'.map g).sum + spent ≤ (rows.map g).sum + given

variable {g : ρ → Nat}

theorem Charges.trans {rows' rows'' : List ρ} {a b a' b' : Nat} (h1 : Charges g rows rows' a b)
    (h2 : Charges g rows' rows'' a' b') : Charges g rows rows'' (a + a') (b + b') := by
  unfold Charges at *
  omega

theorem Charges.put_row {a b : Nat} (hn : (rows.map key).Nodup) (hx : x₀ ∈ rows) (hk : key x₀ = key x)
    (h : g x + a ≤ g x₀ + b) : Charges g rows (put key x rows) a b := by
  have hsum := sum_put g hn hx hk
  unfold Charges
  omega

theorem Charges.append {b : Nat} (h : g x ≤ b) : Charges g rows (rows ++ [x]) 0 b := by
  unfold Charges
  simp only [List.map_append, List.map_cons, List.map_nil, List.sum_append, List.sum_cons, List.sum_nil]
  omega

/-- Every row of `rows` is carried to `rows'` by `R`, and the other rows of `rows'` are new ones with `N`. -/
structure Rewrites (R : ρ → ρ → Prop) (N : ρ → Prop) (rows rows' : List ρ) : Prop where
  kept : ∀ x ∈ rows, ∃ y ∈ rows', R x y
  source : ∀ y ∈ rows', (∃ x ∈ rows, R x y) ∨ N y

section Rewrites
variable {R : ρ → ρ → Prop} {N : ρ → Prop} {rows' rows'' : List ρ}

theorem Rewrites.refl (hR : ∀ x, R x x) : Rewrites R N rows rows where
  kept x hx := ⟨x, hx, hR x⟩
  source y hy := Or.inl ⟨y, hy, hR y⟩

theorem Rewrites.trans (hR : ∀ {x y z}, R x y → R y z → R x z) (hN : ∀ {x y}, N x → R x y → N y)
    (h1 : Rewrites R N rows rows') (h2 : Rewrites R N rows' rows'') : Rewrites R N rows rows'' where
  kept x hx := by
    obtain ⟨y, hy, hxy⟩ := h1.kept x hx
    obtain ⟨z, hz, hyz⟩ := h2.kept y hy
    exact ⟨z, hz, hR hxy hyz⟩
  source z hz := by
    rcases h2.source z hz with ⟨y, hy, hyz⟩ | hz
    · rcases h1.source y hy with ⟨x, hx, hxy⟩ | hy
      · exact Or.inl ⟨x, hx, hR hxy hyz⟩
      · exact Or.inr (hN hy hyz)
    · exact Or.inr hz

theorem Rewrites.put_over (hkey : ∀ {x y}, R x y → key y = key x) (hn : (rows.map key).Nodup)
    (h : Rewrites R N rows rows') (hx : x ∈ rows) (hxy : R x y) : Rewrites R N rows (put key y rows') where
  kept z hz := by
    obtain ⟨w, hw, hzw⟩ := h.kept z hz
    by_cases hk : key w = key y
    · have hzx : z = x := by
        apply eq_of_key_eq hn hz hx
        rw [← hkey hzw, hk, hkey hxy]
      exact ⟨y, mem_put_self hw hk, hzx ▸ hxy⟩
    · exact ⟨w, mem_put_of_ne hw hk, hzw⟩
  source z hz := by
    rcases mem_or_of_mem_put hz with rfl | hz
    · exact Or.inl ⟨x, hx, hxy⟩
    · exact h.source z hz

omit [DecidableEq κ] in
theorem Rewrites.append (hR : ∀ x, R x x) (hy : N y) : Rewrites R N rows (rows ++ [y]) where
  kept x hx := ⟨x, List.mem_append_left _ hx, hR x⟩
  source z hz := by
    rcases List.mem_append.mp hz with hz | hz
    · exact Or.inl ⟨z, hz, hR z⟩
    · exact Or.inr (List.mem_singleton.mp hz ▸ hy)

omit [DecidableEq κ] in
theorem Rewrites.of_forall₂ (h : List.Forall₂ R rows rows') : Rewrites R N rows rows' where
  kept x hx := by
    induction h with
    | nil => cases hx
    | @cons a b rows rows' hab _ ih =>
      rcases List.mem_cons.mp hx with rfl | hx
      · exact ⟨b, List.mem_cons_self, hab⟩
      · obtain ⟨y, hy, hxy⟩ := ih hx
        exact ⟨y, List.mem_cons_of_mem _ hy, hxy⟩
  source y hy := by
    induction h with
    | nil => cases hy
    | @cons a b rows rows' hab _ ih =>
      rcases List.mem_cons.mp hy with rfl | hy
      · exact Or.inl ⟨a, List.mem_cons_self, hab⟩
      · rcases ih hy with ⟨x, hx, hxy⟩ | hy
        · exact Or.inl ⟨x, List.mem_cons_of_mem _ hx, hxy⟩
        · exact Or.inr hy

end Rewrites

theorem mem_concat {α : Type} {l : List α} {x y : α} : y ∈ l ++ [x] ↔ y ∈ l ∨ y = x := by
  rw [List.mem_append, List.mem_singleton]

theorem getElem?_concat {α : Type} {l : List α} {x : α} {i : Nat} :
    (l ++ [x])[i]? = if i = l.length then some x else l[i]? := by
  split
  · rename_i h
    rw [h, List.getElem?_concat_length]
  · rename_i h
    rcases Nat.lt_or_gt_of_ne h with hlt | hgt
    · rw [List.getElem?_append_left hlt]
    · rw [List.getElem?_eq_none (Nat.le_of_lt hgt), List.getElem?_eq_none]
      rw [List.length_append]
      exact hgt

end Vuzol.Lib
