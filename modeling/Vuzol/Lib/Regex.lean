import Vuzol.Lib.Url

/-! Regular expressions over classes of characters, searched by derivatives. -/

namespace Vuzol.Lib

inductive Regex
  | never
  | empty
  | cls (p : Char → Bool)
  | seq (a b : Regex)
  | alt (a b : Regex)
  | star (a : Regex)

namespace Regex

def word (w : String) : Regex := w.toList.foldr (fun c r => seq (cls (· = c)) r) empty

def wordIgnoringCase (w : String) : Regex := w.toList.foldr (fun c r => seq (cls (ignoringCase c)) r) empty

def option (a : Regex) : Regex := alt a empty

def plus (a : Regex) : Regex := seq a (star a)

/-- `a{n,}`. -/
def atLeast (n : Nat) (a : Regex) : Regex := (List.replicate n a).foldr seq (star a)

def oneOf (rs : List Regex) : Regex := rs.foldr alt never

def nullable : Regex → Bool
  | never => false
  | empty => true
  | cls _ => false
  | seq a b => a.nullable && b.nullable
  | alt a b => a.nullable || b.nullable
  | star _ => true

/-- `seq`, where the first part may be over. -/
def andThen : Regex → Regex → Regex
  | never, _ => never
  | empty, b => b
  | a, b => seq a b

/-- `alt`, where a branch may have died. -/
def orElse : Regex → Regex → Regex
  | never, b => b
  | a, never => a
  | a, b => alt a b

def deriv (c : Char) : Regex → Regex
  | never => never
  | empty => never
  | cls p => if p c then empty else never
  | seq a b => if a.nullable then orElse (andThen (a.deriv c) b) (b.deriv c) else andThen (a.deriv c) b
  | alt a b => orElse (a.deriv c) (b.deriv c)
  | star a => andThen (a.deriv c) (star a)

/-- `re.match`: some beginning of the text matches. -/
def matchesStart (r : Regex) : Text → Bool
  | [] => r.nullable
  | c :: t => r.nullable || (r.deriv c).matchesStart t

/-- `re.search`. -/
def search (r : Regex) : Text → Bool
  | [] => r.nullable
  | c :: t => r.matchesStart (c :: t) || r.search t

/-- `re.fullmatch`. -/
def fullmatch (r : Regex) : Text → Bool
  | [] => r.nullable
  | c :: t => (r.deriv c).fullmatch t

@[simp] theorem matchesStart_never {t : Text} : never.matchesStart t = false := by
  induction t with
  | nil => rfl
  | cons c t ih => exact ih

variable {r : Regex} {t : Text}

theorem matchesStart_eq_false (hr : r.nullable = false) (h : ∀ c ∈ t, r.deriv c = never) : r.matchesStart t = false := by
  cases t with
  | nil => exact hr
  | cons c t => rw [matchesStart, hr, h c List.mem_cons_self, matchesStart_never, Bool.or_false]

theorem search_eq_false (hr : r.nullable = false) (h : ∀ c ∈ t, r.deriv c = never) : r.search t = false := by
  induction t with
  | nil => exact hr
  | cons c t ih =>
    rw [search, matchesStart_eq_false hr h, ih fun d hd => h d (List.mem_cons_of_mem _ hd), Bool.or_false]

end Regex

end Vuzol.Lib
