import Mathlib.Data.List.Infix
import Mathlib.Data.List.TakeWhile

/-! Patterns that are searched by backtracking, and texts in which matches are replaced by a marker. Repetitions are of
    single symbols, as far as the patterns of this kind need them. -/

namespace Vuzol.Lib

/-- A pattern over symbols: a class, a class repeated greedily or lazily, one after the other, or a choice. -/
inductive Pattern (α : Type)
  | empty
  | one (p : α → Bool)
  | many (p : α → Bool) (least : Nat)
  | manyLazy (p : α → Bool)
  | seq (a b : Pattern α)
  | alt (a b : Pattern α)

namespace Pattern

variable {α : Type} {r a b : Pattern α} {s t w : List α}

def seqAll (rs : List (Pattern α)) : Pattern α := rs.foldr seq empty

/-- The texts that agree with a word symbol by symbol. -/
def wordBy (same : α → α → Bool) (w : List α) : Pattern α := seqAll (w.map fun c => one (same c))

def word [DecidableEq α] (w : List α) : Pattern α := wordBy (fun c d => d = c) w

def runLength (p : α → Bool) (s : List α) : Nat := (s.takeWhile p).length

def rests : Pattern α → List α → List (List α)
  | empty, s => [s]
  | one p, c :: s => if p c then [s] else []
  | one _, [] => []
  | many p least, s => ((List.range' least (runLength p s + 1 - least)).reverse).map s.drop
  | manyLazy p, s => (List.range (runLength p s + 1)).map s.drop
  | seq a b, s => (a.rests s).flatMap b.rests
  | alt a b, s => a.rests s ++ b.rests s

def match? (r : Pattern α) (s : List α) : Option Nat := (r.rests s).head?.map fun rest => s.length - rest.length

def Lang : Pattern α → List α → Prop
  | empty, w => w = []
  | one p, w => ∃ c, w = [c] ∧ p c = true
  | many p least, w => least ≤ w.length ∧ ∀ c ∈ w, p c = true
  | manyLazy p, w => ∀ c ∈ w, p c = true
  | seq a b, w => ∃ u v, w = u ++ v ∧ a.Lang u ∧ b.Lang v
  | alt a b, w => a.Lang w ∨ b.Lang w

def Occurs (r : Pattern α) (t : List α) : Prop := ∃ pre w post, t = pre ++ w ++ post ∧ r.Lang w

theorem le_runLength_iff {p : α → Bool} {n : Nat} : n ≤ runLength p s ↔ n ≤ s.length ∧ ∀ c ∈ s.take n, p c = true := by
  induction s generalizing n with
  | nil => simp [runLength]
  | cons c s ih =>
    cases n with
    | zero => simp
    | succ n =>
      cases hc : p c with
      | true =>
        have hrun : runLength p (c :: s) = runLength p s + 1 := by simp [runLength, hc]
        rw [hrun, Nat.add_le_add_iff_right, ih]
        simp [hc]
      | false =>
        have hrun : runLength p (c :: s) = 0 := by simp [runLength, hc]
        simp [hrun, hc]

theorem mem_rests_iff : t ∈ r.rests s ↔ ∃ w, s = w ++ t ∧ r.Lang w := by
  induction r generalizing s t with
  | empty =>
    simp only [rests, Lang, List.mem_singleton]
    constructor
    · rintro rfl
      exact ⟨[], rfl, rfl⟩
    · rintro ⟨w, rfl, rfl⟩
      rfl
  | one p =>
    cases s with
    | nil => simp [rests, Lang]
    | cons c s =>
      simp only [rests, Lang]
      constructor
      · intro h
        split at h
        · rename_i hc
          cases List.mem_singleton.mp h
          exact ⟨[c], rfl, c, rfl, hc⟩
        · cases h
      · rintro ⟨w, hw, d, rfl, hd⟩
        cases hw
        rw [if_pos hd]
        exact List.mem_singleton_self t
  | many p least =>
    simp only [rests, Lang, List.mem_map, List.mem_reverse, List.mem_range'_1]
    constructor
    · rintro ⟨n, hn, rfl⟩
      obtain ⟨hlength, hall⟩ := le_runLength_iff.mp (show n ≤ runLength p s by omega)
      refine ⟨s.take n, (List.take_append_drop n s).symm, ?_, hall⟩
      rw [List.length_take]
      omega
    · rintro ⟨w, rfl, hleast, hall⟩
      have hrun : w.length ≤ runLength p (w ++ t) :=
        le_runLength_iff.mpr ⟨by rw [List.length_append]; omega, by rwa [List.take_left]⟩
      exact ⟨w.length, by omega, List.drop_left⟩
  | manyLazy p =>
    simp only [rests, Lang, List.mem_map, List.mem_range]
    constructor
    · rintro ⟨n, hn, rfl⟩
      obtain ⟨-, hall⟩ := le_runLength_iff.mp (show n ≤ runLength p s by omega)
      exact ⟨s.take n, (List.take_append_drop n s).symm, hall⟩
    · rintro ⟨w, rfl, hall⟩
      have hrun : w.length ≤ runLength p (w ++ t) :=
        le_runLength_iff.mpr ⟨by rw [List.length_append]; omega, by rwa [List.take_left]⟩
      exact ⟨w.length, by omega, List.drop_left⟩
  | seq a b iha ihb =>
    simp only [rests, Lang, List.mem_flatMap, iha, ihb]
    constructor
    · rintro ⟨rest, ⟨u, rfl, hu⟩, v, rfl, hv⟩
      exact ⟨u ++ v, (List.append_assoc u v t).symm, u, v, rfl, hu, hv⟩
    · rintro ⟨w, rfl, u, v, rfl, hu, hv⟩
      exact ⟨v ++ t, ⟨u, List.append_assoc u v t, hu⟩, v, rfl, hv⟩
  | alt a b iha ihb =>
    simp only [rests, Lang, List.mem_append, iha, ihb]
    constructor
    · rintro (⟨w, hw, h⟩ | ⟨w, hw, h⟩)
      · exact ⟨w, hw, Or.inl h⟩
      · exact ⟨w, hw, Or.inr h⟩
    · rintro ⟨w, hw, h | h⟩
      · exact Or.inl ⟨w, hw, h⟩
      · exact Or.inr ⟨w, hw, h⟩

theorem match?_eq_some {n : Nat} (h : r.match? s = some n) : n ≤ s.length ∧ r.Lang (s.take n) := by
  obtain ⟨rest, hrest, rfl⟩ := Option.map_eq_some_iff.mp h
  obtain ⟨w, rfl, hw⟩ := mem_rests_iff.mp (List.mem_of_head? hrest)
  have hlength : (w ++ rest).length - rest.length = w.length := by
    rw [List.length_append]
    omega
  rw [hlength, List.take_left, List.length_append]
  exact ⟨by omega, hw⟩

theorem match?_isSome (h : r.Lang w) (t : List α) : (r.match? (w ++ t)).isSome = true := by
  have hmem : t ∈ r.rests (w ++ t) := mem_rests_iff.mpr ⟨w, rfl, h⟩
  obtain ⟨rest, rests, hrests⟩ := List.exists_cons_of_ne_nil (List.ne_nil_of_mem hmem)
  rw [match?, hrests]
  rfl

/-- `search`, as a test. -/
def search (r : Pattern α) (t : List α) : Bool := t.tails.any fun s => !(r.rests s).isEmpty

theorem search_iff : r.search t = true ↔ r.Occurs t := by
  simp only [search, List.any_eq_true, Bool.not_eq_true', List.isEmpty_eq_false_iff]
  constructor
  · rintro ⟨s, hs, hrests⟩
    obtain ⟨pre, rfl⟩ := (List.mem_tails s t).mp hs
    obtain ⟨post, hpost⟩ := List.exists_mem_of_ne_nil _ hrests
    obtain ⟨w, rfl, hw⟩ := mem_rests_iff.mp hpost
    exact ⟨pre, w, post, (List.append_assoc pre w post).symm, hw⟩
  · rintro ⟨pre, w, post, rfl, hw⟩
    refine ⟨w ++ post, (List.mem_tails _ _).mpr ⟨pre, (List.append_assoc pre w post).symm⟩, ?_⟩
    exact List.ne_nil_of_mem (mem_rests_iff.mpr ⟨w, rfl, hw⟩)

def Needs (p : α → Prop) : Pattern α → Prop
  | empty => False
  | one q => ∀ c, q c = true → p c
  | many q least => 0 < least ∧ ∀ c, q c = true → p c
  | manyLazy _ => False
  | seq a b => a.Needs p ∨ b.Needs p
  | alt a b => a.Needs p ∧ b.Needs p

theorem Needs.exists_mem {p : α → Prop} (h : r.Needs p) (hw : r.Lang w) : ∃ c ∈ w, p c := by
  induction r generalizing w with
  | empty => exact h.elim
  | one q =>
    obtain ⟨c, rfl, hc⟩ := hw
    exact ⟨c, List.mem_cons_self, h c hc⟩
  | many q least =>
    obtain ⟨c, hc⟩ := List.exists_mem_of_length_pos (Nat.lt_of_lt_of_le h.1 hw.1)
    exact ⟨c, hc, h.2 c (hw.2 c hc)⟩
  | manyLazy q => exact h.elim
  | seq a b iha ihb =>
    obtain ⟨u, v, rfl, hu, hv⟩ := hw
    rcases h with ha | hb
    · obtain ⟨c, hc, hp⟩ := iha ha hu
      exact ⟨c, List.mem_append_left v hc, hp⟩
    · obtain ⟨c, hc, hp⟩ := ihb hb hv
      exact ⟨c, List.mem_append_right u hc, hp⟩
  | alt a b iha ihb =>
    rcases hw with hw | hw
    · exact iha h.1 hw
    · exact ihb h.2 hw

theorem Needs.search_eq_false {p : α → Prop} (h : r.Needs p) (ht : ∀ c ∈ t, ¬p c) : r.search t = false := by
  rw [← Bool.not_eq_true, search_iff]
  rintro ⟨pre, w, post, rfl, hw⟩
  obtain ⟨c, hc, hp⟩ := h.exists_mem hw
  exact ht c (List.mem_append_left post (List.mem_append_right pre hc)) hp

/-- The matches from left to right, each by the symbols skipped in front of it and its length; `matched` symbols of the
    last match are still to come. The patterns here do not match the empty text. -/
def finditerFrom (r : Pattern α) : (skipped matched : Nat) → List α → List (Nat × Nat)
  | _, _, [] => []
  | skipped, matched + 1, _ :: s => r.finditerFrom skipped matched s
  | skipped, 0, c :: s =>
    match r.match? (c :: s) with
    | some (n + 1) => (skipped, n + 1) :: r.finditerFrom 0 n s
    | _ => r.finditerFrom (skipped + 1) 0 s

def finditer (r : Pattern α) (t : List α) : List (Nat × Nat) := r.finditerFrom 0 0 t

theorem finditerFrom_drop (matched : Nat) (s : List α) : r.finditerFrom 0 matched s = r.finditerFrom 0 0 (s.drop matched) := by
  induction matched generalizing s with
  | zero => rfl
  | succ matched ih =>
    cases s with
    | nil => rfl
    | cons c s => exact ih s

theorem occurs_of_finditerFrom {skipped matched : Nat} (h : r.finditerFrom skipped matched s ≠ []) : r.Occurs s := by
  fun_induction finditerFrom r skipped matched s with
  | case1 => exact absurd rfl h
  | case2 skipped matched c s ih =>
    obtain ⟨pre, w, post, rfl, hw⟩ := ih h
    exact ⟨c :: pre, w, post, rfl, hw⟩
  | case3 skipped c s n hmatch ih =>
    obtain ⟨-, hw⟩ := match?_eq_some hmatch
    exact ⟨[], _, _, (List.take_append_drop _ _).symm, hw⟩
  | case4 skipped c s hmatch ih =>
    obtain ⟨pre, w, post, rfl, hw⟩ := ih h
    exact ⟨c :: pre, w, post, rfl, hw⟩

theorem finditer_eq_nil (h : ¬r.Occurs t) : r.finditer t = [] := by
  by_contra hne
  exact h (occurs_of_finditerFrom hne)

/-- No match starts in `u`, where `rest` comes behind it. -/
def Untouched (r : Pattern α) (u rest : List α) : Prop := ∀ a b, u = a ++ b → b ≠ [] → r.match? (b ++ rest) = none

theorem Untouched.not_lang {u rest a b w d : List α} (h : r.Untouched u rest) (hu : u = a ++ b) (hb : b ≠ [])
    (hw : b ++ rest = w ++ d) : ¬r.Lang w := fun hlang => by
  have hsome := match?_isSome hlang d
  rw [← hw, h a b hu hb] at hsome
  cases hsome

end Pattern

section Substitute
variable {α : Type} {marker t t' w : List α} {r : Pattern α}

def substitute (marker : List α) : List (Nat × Nat) → List α → List α
  | [], t => t
  | (skipped, matched) :: cuts, t => t.take skipped ++ marker ++ substitute marker cuts (t.drop (skipped + matched))

inductive Redacts (marker : List α) : List α → List α → Prop
  | keep (u : List α) : Redacts marker u u
  | cut {t t' : List α} (u m : List α) (rest : Redacts marker t t') : Redacts marker (u ++ (m ++ t)) (u ++ (marker ++ t'))

inductive Scanned (marker : List α) (r : Pattern α) : List α → List α → Prop
  | keep {u : List α} (h : r.Untouched u []) : Scanned marker r u u
  | cut {t t' u m : List α} (h : r.Untouched u (m ++ t)) (rest : Scanned marker r t t') :
      Scanned marker r (u ++ (m ++ t)) (u ++ (marker ++ t'))

theorem Scanned.redacts (h : Scanned marker r t t') : Redacts marker t t' := by
  induction h with
  | keep => exact .keep _
  | cut _ _ ih => exact .cut _ _ ih

theorem redacts_substitute (cuts : List (Nat × Nat)) (t : List α) : Redacts marker t (substitute marker cuts t) := by
  induction cuts generalizing t with
  | nil => exact .keep t
  | cons cut cuts ih =>
    obtain ⟨skipped, matched⟩ := cut
    have h := (ih (t.drop (skipped + matched))).cut (t.take skipped) ((t.drop skipped).take matched)
    rw [← List.drop_drop, List.take_append_drop, List.take_append_drop] at h
    rw [substitute, List.append_assoc, ← List.drop_drop]
    exact h

theorem untouched_nil (s : List α) : r.Untouched [] s := fun _ _ hab hb =>
  absurd (List.append_eq_nil_iff.mp hab.symm).2 hb

theorem Pattern.Untouched.concat {u s : List α} {c : α} (hu : r.Untouched u (c :: s)) (hnone : r.match? (c :: s) = none) :
    r.Untouched (u ++ [c]) s := by
  intro a b hab hb
  rcases List.eq_nil_or_concat b with rfl | ⟨b', d, rfl⟩
  · exact absurd rfl hb
  · rw [List.concat_eq_append] at hab ⊢
    rw [← List.append_assoc] at hab
    obtain ⟨hu', hd⟩ := List.append_inj' hab rfl
    cases hd
    rw [List.append_assoc, List.singleton_append]
    by_cases hb' : b' = []
    · rw [hb']
      exact hnone
    · exact hu a b' hu' hb'

theorem scanned_finditerFrom (hempty : ¬r.Lang []) {u s : List α} (hu : r.Untouched u s) :
    Scanned marker r (u ++ s) (substitute marker (r.finditerFrom u.length 0 s) (u ++ s)) := by
  induction hn : s.length using Nat.strong_induction_on generalizing u s with
  | _ length ih =>
    subst hn
    cases s with
    | nil =>
      rw [Pattern.finditerFrom, substitute, List.append_nil]
      exact .keep hu
    | cons c s =>
      unfold Pattern.finditerFrom
      split
      · rename_i n hmatch
        have hrest := ih (s.drop n).length (by rw [List.length_drop, List.length_cons]; omega) (untouched_nil (s.drop n)) rfl
        have hu' : r.Untouched u ((c :: s.take n) ++ s.drop n) := by rwa [List.cons_append, List.take_append_drop]
        have hcut := hrest.cut hu'
        rw [List.nil_append, List.cons_append, List.take_append_drop, List.length_nil, ← Pattern.finditerFrom_drop] at hcut
        rw [substitute, List.take_left, ← List.drop_drop, List.drop_left, List.drop_succ_cons, List.append_assoc]
        exact hcut
      · rename_i hmatch
        have hnone : r.match? (c :: s) = none := by
          cases h : r.match? (c :: s) with
          | none => rfl
          | some n =>
            cases n with
            | zero => exact absurd (Pattern.match?_eq_some h).2 hempty
            | succ n => exact absurd h (hmatch n)
        have hrest := ih s.length (by rw [List.length_cons]; omega) (hu.concat hnone) rfl
        rwa [List.length_append, List.length_singleton, List.append_assoc, List.singleton_append] at hrest

theorem scanned_finditer (hempty : ¬r.Lang []) (t : List α) : Scanned marker r t (substitute marker (r.finditer t) t) :=
  scanned_finditerFrom hempty (untouched_nil t)

def Pattern.avoids (c : α) : Pattern α → Bool
  | .empty => true
  | .one p => !p c
  | .many p _ => !p c
  | .manyLazy p => !p c
  | .seq a b => a.avoids c && b.avoids c
  | .alt a b => a.avoids c && b.avoids c

def Pattern.leastLength : Pattern α → Nat
  | .empty => 0
  | .one _ => 1
  | .many _ least => least
  | .manyLazy _ => 0
  | .seq a b => a.leastLength + b.leastLength
  | .alt a b => min a.leastLength b.leastLength

theorem Pattern.Lang.not_mem {c : α} (h : r.Lang w) (hr : r.avoids c = true) : c ∉ w := by
  induction r generalizing w with
  | empty =>
    rw [show w = [] from h]
    exact List.not_mem_nil
  | one p =>
    obtain ⟨d, rfl, hd⟩ := h
    intro hc
    rw [← List.mem_singleton.mp hc] at hd
    simp [avoids, hd] at hr
  | many p least =>
    intro hc
    simp [avoids, h.2 c hc] at hr
  | manyLazy p =>
    intro hc
    simp [avoids, h c hc] at hr
  | seq a b iha ihb =>
    obtain ⟨u, v, rfl, hu, hv⟩ := h
    obtain ⟨ha, hb⟩ := Bool.and_eq_true_iff.mp hr
    rw [List.mem_append, not_or]
    exact ⟨iha hu ha, ihb hv hb⟩
  | alt a b iha ihb =>
    obtain ⟨ha, hb⟩ := Bool.and_eq_true_iff.mp hr
    rcases h with h | h
    · exact iha h ha
    · exact ihb h hb

theorem Pattern.Lang.leastLength_le (h : r.Lang w) : r.leastLength ≤ w.length := by
  induction r generalizing w with
  | empty => exact Nat.zero_le _
  | one p =>
    obtain ⟨d, rfl, -⟩ := h
    exact Nat.le_refl _
  | many p least => exact h.1
  | manyLazy p => exact Nat.zero_le _
  | seq a b iha ihb =>
    obtain ⟨u, v, rfl, hu, hv⟩ := h
    rw [List.length_append]
    exact Nat.add_le_add (iha hu) (ihb hv)
  | alt a b iha ihb =>
    rcases h with h | h
    · exact (Nat.min_le_left _ _).trans (iha h)
    · exact (Nat.min_le_right _ _).trans (ihb h)

def Solid (marker w : List α) : Prop := w ≠ [] ∧ ∀ {l x a d : List α}, l ++ (marker ++ x) = a ++ (w ++ d) →
  (∃ l', l = a ++ (w ++ l') ∧ d = l' ++ (marker ++ x)) ∨ ∃ a', a = l ++ (marker ++ a') ∧ x = a' ++ (w ++ d)

theorem split_around {c : α} {l x a d : List α} (hc : c ∉ w) (h : l ++ c :: x = a ++ (w ++ d)) :
    (∃ l', l = a ++ (w ++ l') ∧ d = l' ++ c :: x) ∨ ∃ a', a = l ++ c :: a' ∧ x = a' ++ (w ++ d) := by
  have hback : ∀ e k : List α, w = e ++ k → c :: x = k ++ d → k = [] := fun e k hw hk => by
    cases k with
    | nil => rfl
    | cons y k =>
      cases hk
      exact absurd (hw ▸ List.mem_append_right e List.mem_cons_self) hc
  rcases List.append_eq_append_iff.mp h with ⟨a', rfl, hx⟩ | ⟨e, rfl, hw⟩
  · cases a' with
    | nil =>
      have hnil := hback [] w rfl hx
      rw [hnil] at hx ⊢
      exact Or.inl ⟨[], by simp, hx.symm⟩
    | cons y a' =>
      cases hx
      exact Or.inr ⟨a', rfl, rfl⟩
  · rcases List.append_eq_append_iff.mp hw with ⟨k, rfl, hd⟩ | ⟨k, rfl, hk⟩
    · exact Or.inl ⟨k, rfl, hd⟩
    · have hnil := hback e k rfl hk
      rw [hnil] at hk ⊢
      exact Or.inl ⟨[], by simp, hk.symm⟩

theorem solid_of_brackets {o c : α} {inner : List α} (ho : o ∉ w) (hc : c ∉ w) (hlength : inner.length < w.length) :
    Solid (o :: inner ++ [c]) w := by
  refine ⟨fun hnil => by simp [hnil] at hlength, fun h => ?_⟩
  rename_i l x a d
  rw [List.cons_append, List.cons_append, List.append_assoc, List.singleton_append] at h ⊢
  rcases split_around ho h with hleft | ⟨a', rfl, hright⟩
  · exact Or.inl hleft
  · rcases split_around hc hright with ⟨l', hinner, -⟩ | ⟨a'', rfl, hx⟩
    · rw [hinner, List.length_append, List.length_append] at hlength
      omega
    · exact Or.inr ⟨a'', by simp, hx⟩

def Pattern.Spread (marker : List α) (r : Pattern α) : Prop := ∀ w, r.Lang w → Solid marker w ∨
  ∃ h b f, w = h ++ (b ++ f) ∧ Solid marker h ∧ Solid marker f ∧ ∀ b', r.Lang (h ++ (b' ++ f))

section Brackets
variable {o c : α} {inner : List α}

structure Pattern.Apart (o c : α) (inner : List α) (r : Pattern α) : Prop where
  opening : r.avoids o = true
  closing : r.avoids c = true
  long : inner.length < r.leastLength

theorem Pattern.Apart.solid (h : r.Apart o c inner) (hw : r.Lang w) : Solid (o :: inner ++ [c]) w :=
  solid_of_brackets (hw.not_mem h.opening) (hw.not_mem h.closing) (h.long.trans_le hw.leastLength_le)

theorem Pattern.Apart.spread (h : r.Apart o c inner) : r.Spread (o :: inner ++ [c]) := fun _ hw => Or.inl (h.solid hw)

theorem spread_between {head middle foot : Pattern α} (hhead : head.Apart o c inner) (hfoot : foot.Apart o c inner)
    (hmiddle : ∀ b, middle.Lang b) : (Pattern.seq head (.seq middle foot)).Spread (o :: inner ++ [c]) := by
  rintro w ⟨h, tail, rfl, hh, b, f, rfl, -, hf⟩
  exact Or.inr ⟨h, b, f, rfl, hhead.solid hh, hfoot.solid hf, fun b' => ⟨h, b' ++ f, rfl, hh, b', f, rfl, hmiddle b', hf⟩⟩

end Brackets

theorem infix_of_redacts (hw : Solid marker w) (h : Redacts marker t t') {a d : List α} (ht' : t' = a ++ (w ++ d)) :
    ∃ a d, t = a ++ (w ++ d) := by
  induction h generalizing a d with
  | keep u => exact ⟨a, d, ht'⟩
  | cut u m rest ih =>
    rename_i t t'
    rcases hw.2 ht' with ⟨l', rfl, -⟩ | ⟨a', -, hright⟩
    · exact ⟨a, l' ++ (m ++ t), by simp⟩
    · obtain ⟨a, d, rfl⟩ := ih hright
      exact ⟨u ++ (m ++ a), d, by simp⟩

theorem occurs_of_redacts (hr : r.Spread marker) (h : Redacts marker t t') (hoccurs : r.Occurs t') : r.Occurs t := by
  obtain ⟨pre, w, post, ht', hlang⟩ := hoccurs
  rw [List.append_assoc] at ht'
  rcases hr w hlang with hw | ⟨head, b, foot, rfl, hhead, hfoot, hany⟩
  · obtain ⟨a, d, rfl⟩ := infix_of_redacts hw h ht'
    exact ⟨a, w, d, by simp, hlang⟩
  · rw [List.append_assoc] at ht'
    clear hlang
    induction h generalizing pre b post with
    | keep u => exact ⟨pre, head ++ (b ++ foot), post, by simp [ht'], hany b⟩
    | cut u m rest ih =>
      rcases hhead.2 ht' with ⟨l', rfl, hbehind⟩ | ⟨a', -, hright⟩
      · rw [List.append_assoc] at hbehind
        obtain ⟨b', d, hb'⟩ := infix_of_redacts hfoot (.cut l' m rest) hbehind.symm
        exact ⟨pre, head ++ (b' ++ foot), d, by simp [hb'], hany b'⟩
      · obtain ⟨pre, w, post, rfl, hw⟩ := ih a' post b hright
        exact ⟨u ++ (m ++ pre), w, post, by simp, hw⟩

theorem not_occurs_of_scanned (hr : r.Spread marker) (h : Scanned marker r t t') : ¬r.Occurs t' := by
  induction h with
  | keep hu =>
    rintro ⟨pre, w, post, rfl, hlang⟩
    refine hu.not_lang (List.append_assoc pre w post) (fun hnil => ?_) (List.append_nil _) hlang
    have hw := (List.append_eq_nil_iff.mp hnil).1
    rcases hr w hlang with hsolid | ⟨head, b, foot, rfl, hhead, -⟩
    · exact hsolid.1 hw
    · exact hhead.1 (List.append_eq_nil_iff.mp hw).1
  | cut hu rest ih =>
    rename_i t t' u m
    rintro ⟨pre, w, post, ht', hlang⟩
    rw [List.append_assoc] at ht'
    rcases hr w hlang with hw | ⟨head, b, foot, rfl, hhead, hfoot, hany⟩
    · rcases hw.2 ht' with ⟨l', rfl, -⟩ | ⟨a', -, hright⟩
      · exact hu.not_lang rfl (fun hnil => hw.1 (List.append_eq_nil_iff.mp hnil).1) (List.append_assoc w l' _) hlang
      · exact ih ⟨a', w, post, by rw [hright, List.append_assoc], hlang⟩
    · rw [List.append_assoc] at ht'
      rcases hhead.2 ht' with ⟨l', rfl, hbehind⟩ | ⟨a', -, hright⟩
      · rw [List.append_assoc] at hbehind
        obtain ⟨b', d, hb'⟩ := infix_of_redacts hfoot (.cut l' m rest.redacts) hbehind.symm
        have hfront : (head ++ l') ++ (m ++ t) = (head ++ (b' ++ foot)) ++ d := by
          rw [List.append_assoc, hb']
          simp
        exact hu.not_lang rfl (fun hnil => hhead.1 (List.append_eq_nil_iff.mp hnil).1) hfront (hany b')
      · exact ih ⟨a', _, post, by rw [hright]; simp, hany b⟩

end Substitute

end Vuzol.Lib
