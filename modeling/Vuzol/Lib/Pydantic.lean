import Vuzol.Lib.Uuid
import Vuzol.Lib.Value

/-! Models that pydantic builds from a mapping in lax mode: which fields there are, and the constraints of each. What lax
    mode makes of a value is a parameter, as far as its documentation leaves it open. -/

namespace Vuzol.Lib

/-- An aware `datetime` in UTC, in microseconds since the year 1. -/
structure Instant where
  micros : Nat
  bounded : micros < 315537897600000000
  deriving DecidableEq

/-- A `datetime`: what the clock shows, and how far that is ahead of UTC. -/
structure Datetime where
  wall : Int
  offset : Option Int

def Instant.datetime (u : Instant) : Datetime := { wall := u.micros, offset := some 0 }

/-- What lax mode makes of a value for a field of each type, and how a moment is written in JSON mode. -/
structure Lax (Object : Type) where
  text : Value Object → Option Text
  int : Value Object → Option Int
  bool : Value Object → Option Bool
  uuid : Value Object → Option Uuid
  datetime : Value Object → Option Datetime
  sequence : Value Object → Option (List (Value Object))
  mapping : Value Object → Option (List (Value Object × Value Object))
  isoformat : Instant → Text
  text_str : ∀ t, text (.str t) = some t
  int_int : ∀ n, int (.int n) = some n
  bool_bool : ∀ b, bool (.bool b) = some b
  uuid_str : ∀ u : Uuid, uuid (.str u.str) = some u
  datetime_isoformat : ∀ u, datetime (.str (isoformat u)) = some u.datetime
  isoformat_mem : ∀ {u c}, c ∈ isoformat u → c.isDigit = true ∨ c ∈ ['-', ':', '.', 'T', 'Z']
  sequence_list : ∀ l, sequence (.list l) = some l
  mapping_dict : ∀ items, mapping (.dict items) = some items

/-- What is reported of a field; a validator may raise something of its own. -/
inductive Invalid (ε : Type) where
  | missing (key : String)
  | extraForbidden
  | wrongType
  | tooShort
  | tooLong
  | outOfRange
  | raised (e : ε)
  deriving DecidableEq

namespace Lax

variable {Object ε α : Type} (lax : Lax Object)
variable {items : List (Value Object × Value Object)} {most : Nat} {key : String}

def read (x : Option α) : Except (Invalid ε) α := x.elim (.error .wrongType) .ok

/-- `str`, with `min_length` and `max_length`. -/
def textOf (least most : Nat) (v : Value Object) : Except (Invalid ε) Text := do
  let t ← read (lax.text v)
  raiseIf (t.length < least) .tooShort
  raiseIf (most < t.length) .tooLong
  .ok t

/-- `int`, with `ge` and `le`. -/
def intOf (least most : Int) (v : Value Object) : Except (Invalid ε) Int := do
  let n ← read (lax.int v)
  raiseIf (n < least ∨ most < n) .outOfRange
  .ok n

def checked {β : Type} (f : Value Object → Except (Invalid ε) α) (validate : α → Except ε β) (v : Value Object) :
    Except (Invalid ε) β := do
  let x ← f v
  (validate x).mapError .raised

/-- `None` or a value. -/
def nullable (f : Value Object → Except (Invalid ε) α) : Value Object → Except (Invalid ε) (Option α)
  | .none => .ok none
  | v => (f v).map some

/-- `tuple[..., ...]`, with `max_length`. -/
def tupleOf (most : Nat) (f : Value Object → Except (Invalid ε) α) (v : Value Object) : Except (Invalid ε) (List α) := do
  let vs ← read (lax.sequence v)
  raiseIf (most < vs.length) .tooLong
  vs.mapM f

/-- `Literal`. -/
def literalOf (cases : List (Text × α)) : Value Object → Except (Invalid ε) α
  | .str t => read (cases.lookup t)
  | _ => .error .wrongType

/-- The items of a model that has the fields `names` and no others. -/
def itemsOf (names : List String) (v : Value Object) : Except (Invalid ε) (List (Value Object × Value Object)) := do
  let items ← read (lax.mapping v)
  raiseIf (¬∀ p ∈ items, ∃ name ∈ names, lax.text p.1 = some name.toList) .extraForbidden
  .ok items

def required (items : List (Value Object × Value Object)) (key : String) (f : Value Object → Except (Invalid ε) α) :
    Except (Invalid ε) α :=
  match Value.item? items key.toList with
  | some v => f v
  | none => .error (.missing key)

def withDefault (items : List (Value Object × Value Object)) (key : String) (default : α)
    (f : Value Object → Except (Invalid ε) α) : Except (Invalid ε) α :=
  match Value.item? items key.toList with
  | some v => f v
  | none => .ok default

variable {lax : Lax Object} {v : Value Object} {β : Type}

@[simp] theorem read_some (a : α) : (read (some a) : Except (Invalid ε) α) = .ok a := rfl

theorem read_eq_ok {x : Option α} {a : α} : (read x : Except (Invalid ε) α) = .ok a ↔ x = some a := by
  cases x <;> simp [read]

theorem textOf_eq_ok {least : Nat} {t : Text} :
    (lax.textOf least most v : Except (Invalid ε) Text) = .ok t ↔
      lax.text v = some t ∧ least ≤ t.length ∧ t.length ≤ most := by
  simp only [textOf, bind_eq_ok, read_eq_ok, raiseIf_eq_ok, Nat.not_lt]
  constructor
  · rintro ⟨u, hu, -, hleast, -, hmost, h⟩
    cases h
    exact ⟨hu, hleast, hmost⟩
  · rintro ⟨hu, hleast, hmost⟩
    exact ⟨t, hu, (), hleast, (), hmost, rfl⟩

theorem intOf_eq_ok {least most n : Int} :
    (lax.intOf least most v : Except (Invalid ε) Int) = .ok n ↔ lax.int v = some n ∧ least ≤ n ∧ n ≤ most := by
  simp only [intOf, bind_eq_ok, read_eq_ok, raiseIf_eq_ok, not_or, not_lt]
  constructor
  · rintro ⟨k, hk, -, hrange, h⟩
    cases h
    exact ⟨hk, hrange⟩
  · rintro ⟨hk, hrange⟩
    exact ⟨n, hk, (), hrange, rfl⟩

variable {f : Value Object → Except (Invalid ε) α}

theorem checked_eq_ok {validate : α → Except ε β} {b : β} :
    checked f validate v = .ok b ↔ ∃ a, f v = .ok a ∧ validate a = .ok b := by
  simp only [checked, bind_eq_ok, mapError_eq_ok]

theorem nullable_eq_ok {r : Option α} (h : nullable f v = .ok r) : ∀ a ∈ r, f v = .ok a := by
  unfold nullable at h
  split at h
  · cases h
    simp
  · obtain ⟨a, ha, rfl⟩ := map_eq_ok.mp h
    rintro b ⟨⟩
    exact ha

variable {l : List α}

theorem tupleOf_eq_ok (h : lax.tupleOf most f v = .ok l) :
    ∃ vs, lax.sequence v = some vs ∧ vs.length ≤ most ∧ vs.mapM f = .ok l := by
  simp only [tupleOf, bind_eq_ok, read_eq_ok, raiseIf_eq_ok, Nat.not_lt] at h
  obtain ⟨vs, hvs, -, hmost, h⟩ := h
  exact ⟨vs, hvs, hmost, h⟩

theorem forall_of_tupleOf (h : lax.tupleOf most f v = .ok l) : l.length ≤ most ∧ ∀ a ∈ l, ∃ v, f v = .ok a := by
  obtain ⟨vs, -, hmost, hl⟩ := tupleOf_eq_ok h
  exact ⟨(forall₂_of_mapM hl).length_eq ▸ hmost, forall_of_mapM (fun v _ hv => ⟨v, hv⟩) hl⟩

theorem required_eq_ok {a : α} (h : required items key f = .ok a) :
    ∃ v, Value.item? items key.toList = some v ∧ f v = .ok a := by
  unfold required at h
  split at h
  · exact ⟨_, ‹_›, h⟩
  · cases h

theorem withDefault_eq_ok {d a : α} (h : withDefault items key d f = .ok a) : a = d ∨ ∃ v, f v = .ok a := by
  unfold withDefault at h
  split at h
  · exact Or.inr ⟨_, h⟩
  · cases h
    exact Or.inl rfl

theorem textOf_str {least : Nat} {t : Text} (h : least ≤ t.length ∧ t.length ≤ most) :
    (lax.textOf least most (.str t) : Except (Invalid ε) Text) = .ok t := textOf_eq_ok.mpr ⟨lax.text_str t, h⟩

theorem intOf_int {least most n : Int} (h : least ≤ n ∧ n ≤ most) :
    (lax.intOf least most (.int n) : Except (Invalid ε) Int) = .ok n := intOf_eq_ok.mpr ⟨lax.int_int n, h⟩

theorem tupleOf_list {vs : List (Value Object)}
    (hlength : vs.length ≤ most) (h : List.Forall₂ (fun v a => f v = .ok a) vs l) :
    lax.tupleOf most f (.list vs) = .ok l := by
  have hmap : vs.mapM f = .ok l := by
    clear hlength
    induction h with
    | nil => rfl
    | cons ha _ ih => rw [List.mapM_cons, ha, ok_bind, ih]; rfl
  rw [tupleOf, lax.sequence_list]
  simp only [read, Option.elim_some, ok_bind, raiseIf_of_not (Nat.not_lt.mpr hlength), hmap]

theorem itemsOf_reads {l : List (String × Json)} (h : v.Reads (.obj l)) (hl : (l.map Prod.fst).Nodup) :
    ∃ items, v = .dict items ∧ (lax.itemsOf (l.map Prod.fst) v : Except (Invalid ε) _) = .ok items ∧
      ∀ f ∈ l, ∃ x, Value.item? items f.1.toList = some x ∧ x.Reads f.2 := by
  obtain ⟨items, rfl, hkeys, hfields⟩ := h.dict hl
  refine ⟨items, rfl, ?_, hfields⟩
  have hnames : ∀ p ∈ items, ∃ name ∈ l.map Prod.fst, lax.text p.1 = some name.toList := by
    intro p hp
    obtain ⟨name, hname, hkey⟩ := hkeys p hp
    exact ⟨name, hname, hkey ▸ lax.text_str _⟩
  simp only [itemsOf, lax.mapping_dict, read, Option.elim_some, ok_bind, raiseIf_of_not (not_not_intro hnames)]

theorem required_reads {j : Json} {a : α}
    (h : ∃ x, Value.item? items key.toList = some x ∧ x.Reads j) (hf : ∀ x : Value Object, x.Reads j → f x = .ok a) :
    required items key f = .ok a := by
  obtain ⟨x, hx, hreads⟩ := h
  rw [required, hx]
  exact hf x hreads

theorem withDefault_reads {j : Json} {d a : α}
    (h : ∃ x, Value.item? items key.toList = some x ∧ x.Reads j) (hf : ∀ x : Value Object, x.Reads j → f x = .ok a) :
    withDefault items key d f = .ok a := by
  obtain ⟨x, hx, hreads⟩ := h
  rw [withDefault, hx]
  exact hf x hreads

end Lax

end Vuzol.Lib
