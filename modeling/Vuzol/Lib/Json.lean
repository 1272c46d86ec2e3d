import Mathlib.Data.List.Sort
import Vuzol.Lib.Url

/-! JSON values as Python writes them: `json.dumps` with sorted keys, without spaces and with `ensure_ascii` off.
    The text of a value determines the value up to the order of its keys. -/

namespace Vuzol.Lib

/-- A value of the `json` module; an object keeps its keys in the order of the `dict`. -/
inductive Json where
  | null
  | bool (b : Bool)
  | num (n : Int)
  | str (t : Text)
  | arr (entries : List Json)
  | obj (fields : List (String × Json))

namespace Json

/-- `bool(value)`. -/
def truthy : Json → Bool
  | null => false
  | bool b => b
  | num n => n ≠ 0
  | str t => t ≠ []
  | arr entries => !entries.isEmpty
  | obj fields => !fields.isEmpty

/-- The value as an `int`; a `bool` is one. -/
def int? : Json → Option Int
  | num n => some n
  | bool b => some (if b then 1 else 0)
  | _ => none

/-- `ESCAPE_DCT`: a character inside quotes. -/
def escape (c : Char) : Text :=
  if c = '\x22' then ['\x5c', '\x22']
  else if c = '\x5c' then ['\x5c', '\x5c']
  else if c = '\n' then ['\x5c', 'n']
  else if c = '\r' then ['\x5c', 'r']
  else if c = '\t' then ['\x5c', 't']
  else if c = '\x08' then ['\x5c', 'b']
  else if c = '\x0c' then ['\x5c', 'f']
  else if c.toNat < 32 then ['\x5c', 'u', '0', '0', (c.toNat / 16).digitChar, (c.toNat % 16).digitChar]
  else [c]

def quote (t : Text) : Text := '\x22' :: (t.flatMap escape ++ ['\x22'])

def printInt : Int → Text
  | .ofNat n => Nat.toDigits 10 n
  | .negSucc n => '-' :: Nat.toDigits 10 (n + 1)

mutual

def print : Json → Text
  | null => ['n', 'u', 'l', 'l']
  | bool true => ['t', 'r', 'u', 'e']
  | bool false => ['f', 'a', 'l', 's', 'e']
  | num n => printInt n
  | str t => quote t
  | arr [] => ['[', ']']
  | arr (x :: entries) => '[' :: (print x ++ printEntries entries)
  | obj [] => ['\x7b', '\x7d']
  | obj ((k, x) :: fields) => '\x7b' :: (quote k.toList ++ ':' :: (print x ++ printFields fields))

def printEntries : List Json → Text
  | [] => [']']
  | x :: entries => ',' :: (print x ++ printEntries entries)

def printFields : List (String × Json) → Text
  | [] => ['\x7d']
  | (k, x) :: fields => ',' :: (quote k.toList ++ ':' :: (print x ++ printFields fields))

end

/-- What stands for the first character of a text inside quotes. -/
def unescape : Text → Option (Char × Text)
  | '\x5c' :: 'u' :: _ :: _ :: a :: b :: rest => do
    let a ← hexDigit? a
    let b ← hexDigit? b
    some (Char.ofNat (16 * a + b), rest)
  | '\x5c' :: 'n' :: rest => some ('\n', rest)
  | '\x5c' :: 'r' :: rest => some ('\r', rest)
  | '\x5c' :: 't' :: rest => some ('\t', rest)
  | '\x5c' :: 'b' :: rest => some ('\x08', rest)
  | '\x5c' :: 'f' :: rest => some ('\x0c', rest)
  | '\x5c' :: c :: rest => some (c, rest)
  | '\x22' :: _ => none
  | c :: rest => some (c, rest)
  | [] => none

theorem hexDigits_read : ∀ n < 32, hexDigit? (n / 16).digitChar = some (n / 16) ∧ hexDigit? (n % 16).digitChar = some (n % 16) := by
  decide

theorem unescape_escape (c : Char) (rest : Text) : unescape (escape c ++ rest) = some (c, rest) := by
  unfold escape
  split_ifs with h1 h2 h3 h4 h5 h6 h7 h8
  · subst h1; rfl
  · subst h2; rfl
  · subst h3; rfl
  · subst h4; rfl
  · subst h5; rfl
  · subst h6; rfl
  · subst h7; rfl
  · obtain ⟨hhigh, hlow⟩ := hexDigits_read c.toNat h8
    show (do
      let a ← hexDigit? (c.toNat / 16).digitChar
      let b ← hexDigit? (c.toNat % 16).digitChar
      some (Char.ofNat (16 * a + b), rest)) = some (c, rest)
    rw [hhigh, hlow]
    show some (Char.ofNat (16 * (c.toNat / 16) + c.toNat % 16), rest) = some (c, rest)
    rw [Nat.div_add_mod, Char.ofNat_toNat]
  · show unescape (c :: rest) = some (c, rest)
    unfold unescape
    split <;> simp_all

theorem unescape_quote (rest : Text) : unescape ('\x22' :: rest) = none := rfl

variable {s t : Text}

theorem escape_append_inj {c d : Char} (h : escape c ++ s = escape d ++ t) : c = d ∧ s = t := by
  have heq := congrArg unescape h
  rw [unescape_escape, unescape_escape] at heq
  simpa using heq

theorem escape_append_ne {c : Char} : escape c ++ s ≠ '\x22' :: t := by
  intro h
  have heq := congrArg unescape h
  rw [unescape_escape, unescape_quote] at heq
  cases heq

theorem escaped_append_inj {s t x y : Text} (h : s.flatMap escape ++ '\x22' :: x = t.flatMap escape ++ '\x22' :: y) :
    s = t ∧ x = y := by
  induction s generalizing t with
  | nil =>
    cases t with
    | nil => simpa using h
    | cons d t =>
      rw [List.flatMap_cons, List.append_assoc] at h
      exact absurd h.symm escape_append_ne
  | cons c s ih =>
    cases t with
    | nil =>
      rw [List.flatMap_cons, List.append_assoc] at h
      exact absurd h escape_append_ne
    | cons d t =>
      rw [List.flatMap_cons, List.flatMap_cons, List.append_assoc, List.append_assoc] at h
      obtain ⟨rfl, htail⟩ := escape_append_inj h
      obtain ⟨rfl, hrest⟩ := ih htail
      exact ⟨rfl, hrest⟩

theorem quote_append_inj {s t x y : Text} (h : quote s ++ x = quote t ++ y) : s = t ∧ x = y := by
  unfold quote at h
  rw [List.cons_append, List.cons_append, List.append_assoc, List.append_assoc] at h
  exact escaped_append_inj (List.cons.inj h).2

def EndsNumber (s : Text) : Prop := ∀ c ∈ s.head?, c.isDigit = false

theorem toDigits_append_inj {n m : Nat} (hs : EndsNumber s) (ht : EndsNumber t)
    (h : Nat.toDigits 10 n ++ s = Nat.toDigits 10 m ++ t) : n = m ∧ s = t := by
  have hspan : ∀ (k : Nat) {r : Text}, EndsNumber r → (Nat.toDigits 10 k ++ r).takeWhile Char.isDigit = Nat.toDigits 10 k := by
    intro k r hr
    have hdigits : ∀ c ∈ Nat.toDigits 10 k, c.isDigit = true := fun c hc =>
      Nat.isDigit_of_mem_toDigits (by decide) (by decide) hc
    rw [List.takeWhile_append_of_pos hdigits]
    have hnil : r.takeWhile Char.isDigit = [] := by
      cases r with
      | nil => rfl
      | cons c r => rw [List.takeWhile_cons_of_neg (by rw [hr c rfl]; decide)]
    rw [hnil, List.append_nil]
  have heq : Nat.toDigits 10 n = Nat.toDigits 10 m := by
    rw [← hspan n hs, h, hspan m ht]
  rw [heq] at h
  have hvalue := congrArg (fun ds => Nat.ofDigitChars 10 ds 0) heq
  simp only [Nat.ofDigitChars_ten_toDigits] at hvalue
  exact ⟨hvalue, List.append_cancel_left h⟩

theorem isDigit_of_toDigits {n : Nat} {d : Char} {ds : Text} (h : Nat.toDigits 10 n = d :: ds) : d.isDigit = true := by
  have hmem : d ∈ Nat.toDigits 10 n := by
    rw [h]
    exact List.mem_cons_self
  exact Nat.isDigit_of_mem_toDigits (by decide) (by decide) hmem

theorem printInt_append_inj {n m : Int} (hs : EndsNumber s) (ht : EndsNumber t)
    (h : printInt n ++ s = printInt m ++ t) : n = m ∧ s = t := by
  have hne : ∀ (k j : Nat) {x y : Text}, Nat.toDigits 10 k ++ x ≠ '-' :: (Nat.toDigits 10 j ++ y) := by
    intro k j x y h
    obtain ⟨d, ds, hds⟩ := List.exists_cons_of_ne_nil (Nat.toDigits_ne_nil (n := k) (b := 10))
    have hdigit := isDigit_of_toDigits hds
    rw [hds, List.cons_append] at h
    rw [(List.cons.inj h).1] at hdigit
    cases hdigit
  cases n with
  | ofNat n =>
    cases m with
    | ofNat m =>
      obtain ⟨rfl, hrest⟩ := toDigits_append_inj hs ht h
      exact ⟨rfl, hrest⟩
    | negSucc m => exact absurd h (hne n (m + 1))
  | negSucc n =>
    cases m with
    | ofNat m => exact absurd h.symm (hne m (n + 1))
    | negSucc m =>
      obtain ⟨hnm, hrest⟩ := toDigits_append_inj hs ht (List.cons.inj h).2
      obtain rfl := Nat.succ.inj hnm
      exact ⟨rfl, hrest⟩

inductive Kind where
  | null | yes | no | num | str | arr | obj

def kind : Json → Kind
  | null => .null
  | bool true => .yes
  | bool false => .no
  | num _ => .num
  | str _ => .str
  | arr _ => .arr
  | obj _ => .obj

def kindOf (c : Char) : Option Kind :=
  if c.isDigit then some .num
  else match c with
    | '-' => some .num
    | 'n' => some .null
    | 't' => some .yes
    | 'f' => some .no
    | '\x22' => some .str
    | '[' => some .arr
    | '\x7b' => some .obj
    | _ => none

theorem print_kind (a : Json) : ∃ c rest, a.print = c :: rest ∧ kindOf c = some a.kind := by
  cases a with
  | null => exact ⟨_, _, rfl, rfl⟩
  | bool b => cases b <;> exact ⟨_, _, rfl, rfl⟩
  | num n =>
    cases n with
    | ofNat n =>
      obtain ⟨d, ds, hds⟩ := List.exists_cons_of_ne_nil (Nat.toDigits_ne_nil (n := n) (b := 10))
      exact ⟨d, ds, hds, by simp [kindOf, kind, isDigit_of_toDigits hds]⟩
    | negSucc n => exact ⟨_, _, rfl, rfl⟩
  | str t => exact ⟨_, _, rfl, rfl⟩
  | arr entries => cases entries <;> exact ⟨_, _, rfl, rfl⟩
  | obj fields => cases fields <;> exact ⟨_, _, rfl, rfl⟩

variable {a b : Json}

theorem kind_eq_of_print (h : a.print ++ s = b.print ++ t) : a.kind = b.kind := by
  obtain ⟨c, x, ha, hc⟩ := print_kind a
  obtain ⟨d, y, hb, hd⟩ := print_kind b
  rw [ha, hb, List.cons_append, List.cons_append] at h
  rw [(List.cons.inj h).1, hd] at hc
  exact (Option.some.inj hc).symm

theorem print_append_ne_close {a : Json} : a.print ++ s ≠ ']' :: t := by
  intro h
  obtain ⟨c, x, ha, hc⟩ := print_kind a
  rw [ha, List.cons_append] at h
  rw [(List.cons.inj h).1] at hc
  cases hc

theorem endsNumber_entries (l : List Json) (s : Text) : EndsNumber (printEntries l ++ s) := by
  cases l <;> · rintro c hc; cases hc; rfl

theorem endsNumber_fields (l : List (String × Json)) (s : Text) : EndsNumber (printFields l ++ s) := by
  cases l <;> · rintro c hc; cases hc; rfl

mutual

theorem print_append_inj : ∀ (a b : Json) {s t : Text}, EndsNumber s → EndsNumber t →
    a.print ++ s = b.print ++ t → a = b ∧ s = t := by
  intro a b s t hs ht h
  have hk := kind_eq_of_print h
  cases a with
  | null =>
    cases b with
    | null => exact ⟨rfl, by simpa [print] using h⟩
    | bool b => cases b <;> cases hk
    | _ => cases hk
  | bool a =>
    cases b with
    | bool b =>
      cases a <;> cases b
      · exact ⟨rfl, by simpa [print] using h⟩
      · cases hk
      · cases hk
      · exact ⟨rfl, by simpa [print] using h⟩
    | _ => cases a <;> cases hk
  | num n =>
    cases b with
    | num m =>
      obtain ⟨rfl, hrest⟩ := printInt_append_inj hs ht h
      exact ⟨rfl, hrest⟩
    | bool b => cases b <;> cases hk
    | _ => cases hk
  | str x =>
    cases b with
    | str y =>
      obtain ⟨rfl, hrest⟩ := quote_append_inj h
      exact ⟨rfl, hrest⟩
    | bool b => cases b <;> cases hk
    | _ => cases hk
  | arr l =>
    cases b with
    | arr m =>
      match l, m with
      | [], [] => exact ⟨rfl, by simpa [print] using h⟩
      | [], y :: m =>
        simp only [print, List.cons_append, List.nil_append, List.cons.injEq, true_and, List.append_assoc] at h
        exact absurd h.symm print_append_ne_close
      | x :: l, [] =>
        simp only [print, List.cons_append, List.nil_append, List.cons.injEq, true_and, List.append_assoc] at h
        exact absurd h print_append_ne_close
      | x :: l, y :: m =>
        simp only [print, List.cons_append, List.cons.injEq, true_and, List.append_assoc] at h
        obtain ⟨rfl, htail⟩ := print_append_inj x y (endsNumber_entries l s) (endsNumber_entries m t) h
        obtain ⟨rfl, hrest⟩ := printEntries_append_inj l m htail
        exact ⟨rfl, hrest⟩
    | bool b => cases b <;> cases hk
    | _ => cases hk
  | obj l =>
    cases b with
    | obj m =>
      match l, m with
      | [], [] => exact ⟨rfl, by simpa [print] using h⟩
      | [], (k, y) :: m =>
        simp only [print, quote, List.cons_append, List.nil_append, List.cons.injEq, true_and] at h
        exact absurd h.1 (by decide)
      | (k, x) :: l, [] =>
        simp only [print, quote, List.cons_append, List.nil_append, List.cons.injEq, true_and] at h
        exact absurd h.1 (by decide)
      | (k, x) :: l, (j, y) :: m =>
        simp only [print, List.cons_append, List.cons.injEq, true_and, List.append_assoc] at h
        obtain ⟨hkey, hvalue⟩ := quote_append_inj h
        obtain rfl := String.toList_inj.mp hkey
        rw [List.cons.injEq] at hvalue
        obtain ⟨rfl, htail⟩ := print_append_inj x y (endsNumber_fields l s) (endsNumber_fields m t) hvalue.2
        obtain ⟨rfl, hrest⟩ := printFields_append_inj l m htail
        exact ⟨rfl, hrest⟩
    | bool b => cases b <;> cases hk
    | _ => cases hk

theorem printEntries_append_inj : ∀ (l m : List Json) {s t : Text}, printEntries l ++ s = printEntries m ++ t → l = m ∧ s = t
  | [], [], _, _, h => ⟨rfl, by simpa [printEntries] using h⟩
  | [], y :: m, _, _, h => by simp [printEntries] at h
  | x :: l, [], _, _, h => by simp [printEntries] at h
  | x :: l, y :: m, s, t, h => by
    simp only [printEntries, List.cons_append, List.cons.injEq, true_and, List.append_assoc] at h
    obtain ⟨rfl, htail⟩ := print_append_inj x y (endsNumber_entries l s) (endsNumber_entries m t) h
    obtain ⟨rfl, hrest⟩ := printEntries_append_inj l m htail
    exact ⟨rfl, hrest⟩

theorem printFields_append_inj : ∀ (l m : List (String × Json)) {s t : Text},
    printFields l ++ s = printFields m ++ t → l = m ∧ s = t
  | [], [], _, _, h => ⟨rfl, by simpa [printFields] using h⟩
  | [], (k, y) :: m, _, _, h => by simp [printFields] at h
  | (k, x) :: l, [], _, _, h => by simp [printFields] at h
  | (k, x) :: l, (j, y) :: m, s, t, h => by
    simp only [printFields, List.cons_append, List.cons.injEq, true_and, List.append_assoc] at h
    obtain ⟨hkey, hvalue⟩ := quote_append_inj h
    obtain rfl := String.toList_inj.mp hkey
    rw [List.cons.injEq] at hvalue
    obtain ⟨rfl, htail⟩ := print_append_inj x y (endsNumber_fields l s) (endsNumber_fields m t) hvalue.2
    obtain ⟨rfl, hrest⟩ := printFields_append_inj l m htail
    exact ⟨rfl, hrest⟩

end

theorem print_injective (h : a.print = b.print) : a = b := by
  have hnil : EndsNumber [] := fun c hc => by cases hc
  exact (print_append_inj a b hnil hnil (by rw [h])).1

instance : DecidableEq Json := fun a b => decidable_of_iff (a.print = b.print) ⟨print_injective, congrArg print⟩

mutual

def sorted : Json → Json
  | null => null
  | bool b => bool b
  | num n => num n
  | str t => str t
  | arr entries => arr (sortedEntries entries)
  | obj fields => obj ((sortedFields fields).insertionSort fun f g => f.1 ≤ g.1)

def sortedEntries : List Json → List Json
  | [] => []
  | x :: entries => x.sorted :: sortedEntries entries

def sortedFields : List (String × Json) → List (String × Json)
  | [] => []
  | (k, x) :: fields => (k, x.sorted) :: sortedFields fields

end

/-- `json.dumps(a, ensure_ascii=False, sort_keys=True, separators=(",", ":"))`. -/
def dumps (a : Json) : Text := a.sorted.print

theorem dumps_eq_iff : a.dumps = b.dumps ↔ a.sorted = b.sorted := ⟨print_injective, congrArg print⟩

theorem sortedEntries_eq (l : List Json) : sortedEntries l = l.map sorted := by
  induction l with
  | nil => rfl
  | cons x l ih => simp [sortedEntries, ih]

def get? : Json → String → Option Json
  | obj fields, key => fields.lookup key
  | _, _ => none

theorem lookup_orderedInsert (key : String) (f : String × Json) (l : List (String × Json)) :
    (l.orderedInsert (fun f g => f.1 ≤ g.1) f).lookup key = (f :: l).lookup key := by
  induction l with
  | nil => rfl
  | cons g l ih =>
    rw [List.orderedInsert_cons]
    split_ifs with hle
    · rfl
    · have hne : f.1 ≠ g.1 := fun heq => hle (heq ▸ String.le_refl _)
      obtain ⟨j, x⟩ := f
      obtain ⟨k, y⟩ := g
      simp only [List.lookup_cons, ih]
      by_cases hk : key = k
      · subst hk
        simp [beq_false_of_ne (Ne.symm hne)]
      · simp [beq_false_of_ne hk]

theorem get?_sorted (a : Json) (key : String) : a.sorted.get? key = (a.get? key).map sorted := by
  cases a with
  | obj fields =>
    show ((sortedFields fields).insertionSort _).lookup key = (fields.lookup key).map sorted
    induction fields with
    | nil => rfl
    | cons f fields ih =>
      obtain ⟨k, x⟩ := f
      rw [sortedFields, List.insertionSort_cons, lookup_orderedInsert, List.lookup_cons, List.lookup_cons, ih]
      split <;> rfl
  | _ => rfl

theorem get?_of_sorted_eq (h : a.sorted = b.sorted) (key : String) :
    (a.get? key).map sorted = (b.get? key).map sorted := by
  rw [← get?_sorted, h, get?_sorted]

theorem str_sorted_injective : Function.Injective fun t : Text => (str t).sorted := fun _ _ h => str.inj h

theorem num_sorted_injective : Function.Injective fun n : Int => (num n).sorted := fun _ _ h => num.inj h

theorem arr_sorted_injective {α : Type} {enc : α → Json} (h : Function.Injective fun a => (enc a).sorted) :
    Function.Injective fun l : List α => (arr (l.map enc)).sorted := by
  intro l m hlm
  simp only [sorted, sortedEntries_eq, List.map_map, arr.injEq] at hlm
  exact List.map_injective_iff.mpr h hlm

theorem lookup_of_mem {κ β : Type} [BEq κ] [LawfulBEq κ] {fields : List (κ × β)} (hkeys : (fields.map Prod.fst).Nodup)
    {f : κ × β} (hf : f ∈ fields) : fields.lookup f.1 = some f.2 := by
  induction fields with
  | nil => cases hf
  | cons g fields ih =>
    rw [List.map_cons, List.nodup_cons] at hkeys
    rcases List.mem_cons.mp hf with rfl | hmem
    · exact List.lookup_cons_self
    · have hne : f.1 ≠ g.1 := fun heq => hkeys.1 (heq ▸ List.mem_map_of_mem hmem)
      rw [List.lookup_cons, beq_false_of_ne hne]
      exact ih hkeys.2 hmem

theorem mem_of_lookup {κ β : Type} [BEq κ] [LawfulBEq κ] {fields : List (κ × β)} {key : κ} {x : β}
    (h : fields.lookup key = some x) : (key, x) ∈ fields := by
  obtain ⟨pre, post, rfl, -⟩ := List.lookup_eq_some_iff.mp h
  exact List.mem_append_right _ List.mem_cons_self

theorem values_of_sorted_eq {f g : List (String × Json)} (hkeys : f.map Prod.fst = g.map Prod.fst)
    (hn : (f.map Prod.fst).Nodup) (h : (obj f).sorted = (obj g).sorted) : f.map (·.2.sorted) = g.map (·.2.sorted) := by
  have hvalues : ∀ l : List (String × Json), (l.map Prod.fst).Nodup →
      l.map (·.2.sorted) = (l.map Prod.fst).map fun k => (((obj l).get? k).map sorted).getD null := by
    intro l hl
    rw [List.map_map]
    refine List.map_congr_left fun x hx => ?_
    rw [Function.comp_apply, get?, lookup_of_mem hl hx]
    rfl
  rw [hvalues f hn, hvalues g (hkeys ▸ hn), hkeys]
  refine List.map_congr_left fun k _ => ?_
  rw [get?_of_sorted_eq h]

theorem sortedFields_eq (l : List (String × Json)) : sortedFields l = l.map fun f => (f.1, f.2.sorted) := by
  induction l with
  | nil => rfl
  | cons f l ih => simp [sortedFields, ih]

instance : Std.Total fun f g : String × Json => f.1 ≤ g.1 := ⟨fun f g => String.le_total f.1 g.1⟩

instance : IsTrans (String × Json) fun f g => f.1 ≤ g.1 := ⟨fun _ _ _ => String.le_trans⟩

mutual

theorem sorted_sorted : ∀ a : Json, a.sorted.sorted = a.sorted
  | null | bool _ | num _ | str _ => rfl
  | arr l => by rw [sorted, sorted, sortedEntries_sortedEntries l]
  | obj l => by
    have hfix : sortedFields ((sortedFields l).insertionSort fun f g => f.1 ≤ g.1) =
        (sortedFields l).insertionSort fun f g => f.1 ≤ g.1 := by
      rw [sortedFields_eq ((sortedFields l).insertionSort _)]
      refine (List.map_congr_left fun f hf => ?_).trans (List.map_id _)
      rw [sortedFields_fixed l f ((List.mem_insertionSort _).mp hf)]
      rfl
    rw [sorted, sorted, hfix, (List.pairwise_insertionSort _ _).insertionSort_eq]

theorem sortedEntries_sortedEntries : ∀ l : List Json, sortedEntries (sortedEntries l) = sortedEntries l
  | [] => rfl
  | a :: l => by rw [sortedEntries, sortedEntries, sorted_sorted a, sortedEntries_sortedEntries l]

theorem sortedFields_fixed : ∀ (l : List (String × Json)), ∀ f ∈ sortedFields l, f.2.sorted = f.2
  | [], _, hf => by cases hf
  | (k, a) :: l, f, hf => by
    rcases List.mem_cons.mp hf with rfl | hf
    · exact sorted_sorted a
    · exact sortedFields_fixed l f hf

end

theorem keys_perm {f g : List (String × Json)} (h : (obj f).sorted = (obj g).sorted) :
    (f.map Prod.fst).Perm (g.map Prod.fst) := by
  have hkeys : ∀ l : List (String × Json), ((sortedFields l).map Prod.fst) = l.map Prod.fst := fun l => by
    simp [sortedFields_eq]
  have hsort : (sortedFields f).insertionSort (fun f g => f.1 ≤ g.1) = (sortedFields g).insertionSort fun f g => f.1 ≤ g.1 :=
    obj.inj h
  have hperm : (sortedFields f).Perm (sortedFields g) := by
    have hf := List.perm_insertionSort (fun f g : String × Json => f.1 ≤ g.1) (sortedFields f)
    rw [hsort] at hf
    exact hf.symm.trans (List.perm_insertionSort _ _)
  have hmap := hperm.map Prod.fst
  rwa [hkeys, hkeys] at hmap

mutual

@[simp] def All (p : String → Prop) (q : Text → Prop) : Json → Prop
  | str t => q t
  | arr entries => AllEntries p q entries
  | obj fields => AllFields p q fields
  | _ => True

@[simp] def AllEntries (p : String → Prop) (q : Text → Prop) : List Json → Prop
  | [] => True
  | x :: entries => x.All p q ∧ AllEntries p q entries

@[simp] def AllFields (p : String → Prop) (q : Text → Prop) : List (String × Json) → Prop
  | [] => True
  | (k, x) :: fields => (p k ∧ x.All p q) ∧ AllFields p q fields

end

section All
variable {p : String → Prop} {q : Text → Prop}

theorem allEntries_iff {l : List Json} : AllEntries p q l ↔ ∀ x ∈ l, x.All p q := by
  induction l with
  | nil => simp [AllEntries]
  | cons x l ih => simp [AllEntries, ih]

theorem allFields_iff {l : List (String × Json)} : AllFields p q l ↔ ∀ f ∈ l, p f.1 ∧ f.2.All p q := by
  induction l with
  | nil => simp [AllFields]
  | cons f l ih => simp [AllFields, ih]

mutual

theorem all_sorted : ∀ a : Json, a.sorted.All p q ↔ a.All p q
  | null | bool _ | num _ | str _ => Iff.rfl
  | arr l => by
    rw [sorted, All, All, allEntries_sortedEntries l]
  | obj l => by
    have hmem : AllFields p q ((sortedFields l).insertionSort fun f g => f.1 ≤ g.1) ↔ AllFields p q (sortedFields l) := by
      simp only [allFields_iff, List.mem_insertionSort]
    rw [sorted, All, All, hmem, allFields_sortedFields l]

theorem allEntries_sortedEntries : ∀ l : List Json, AllEntries p q (sortedEntries l) ↔ AllEntries p q l
  | [] => Iff.rfl
  | a :: l => by rw [sortedEntries, AllEntries, AllEntries, all_sorted a, allEntries_sortedEntries l]

theorem allFields_sortedFields : ∀ l : List (String × Json), AllFields p q (sortedFields l) ↔ AllFields p q l
  | [] => Iff.rfl
  | (k, a) :: l => by rw [sortedFields, AllFields, AllFields, all_sorted a, allFields_sortedFields l]

end

end All

end Json

end Vuzol.Lib
