import Mathlib.Data.List.Forall2
import Mathlib.Data.List.Basic

/-! Machines whose operations are atomic transactions: an operation maps a state to a new one, or raises
    and leaves the state as it was. -/

namespace Vuzol.Lib

section Raise
variable {ε α β : Type}
variable {p : Prop}

@[simp] theorem ok_bind (a : α) (f : α → Except ε β) : (Except.ok a >>= f) = f a := rfl

@[simp] theorem error_bind (e : ε) (f : α → Except ε β) : (Except.error e >>= f) = .error e := rfl

@[simp] theorem pure_eq_ok (a : α) : (pure a : Except ε α) = .ok a := rfl

@[simp] theorem throw_eq_error (e : ε) : (throw e : Except ε α) = .error e := rfl

theorem bind_eq_ok {x : Except ε α} {f : α → Except ε β} {b : β} :
    (x >>= f) = .ok b ↔ ∃ a, x = .ok a ∧ f a = .ok b := by
  cases x with
  | error e => simp
  | ok a => simp

theorem bind_eq_error {x : Except ε α} {f : α → Except ε β} {e : ε} :
    (x >>= f) = .error e ↔ x = .error e ∨ ∃ a, x = .ok a ∧ f a = .error e := by
  cases x with
  | error e => simp
  | ok a => simp

theorem guard_eq_ok [Decidable p] {e : ε} {x : Except ε α} {a : α} :
    (if p then .error e else x) = .ok a ↔ ¬p ∧ x = .ok a := by
  by_cases h : p <;> simp [h]

theorem check_eq_ok [Decidable p] {e : ε} {x : Except ε α} {a : α} : (if p then x else .error e) = .ok a ↔ p ∧ x = .ok a := by
  by_cases h : p <;> simp [h]

/-- `if p: raise e`, before the rest of a computation. -/
def raiseIf (p : Prop) [Decidable p] (e : ε) : Except ε Unit := if p then .error e else .ok ()

@[simp] theorem raiseIf_eq_ok [Decidable p] {e : ε} {u : Unit} : raiseIf p e = .ok u ↔ ¬p := by
  unfold raiseIf
  split <;> simp_all

theorem raiseIf_of_not [Decidable p] (h : ¬p) (e : ε) : raiseIf p e = .ok () := if_neg h

theorem map_eq_ok {x : Except ε α} {f : α → β} {b : β} : x.map f = .ok b ↔ ∃ a, x = .ok a ∧ f a = b := by
  cases x with
  | error e => simp [Except.map]
  | ok a => simp [Except.map]

theorem map_eq_error {x : Except ε α} {f : α → β} {e : ε} : x.map f = .error e ↔ x = .error e := by
  cases x with
  | error e' => simp [Except.map]
  | ok a => simp [Except.map]

@[simp] theorem mapError_eq_ok {ε' : Type} {x : Except ε α} {f : ε → ε'} {a : α} : x.mapError f = .ok a ↔ x = .ok a := by
  cases x with
  | error e => simp [Except.mapError]
  | ok a => simp [Except.mapError]

variable {R : α → β → Prop}

theorem forall₂_mem {as : List α} {bs : List β} {a : α} (h : List.Forall₂ R as bs) (ha : a ∈ as) : ∃ b ∈ bs, R a b := by
  induction h with
  | nil => cases ha
  | @cons a' b as bs hab _ ih =>
    rcases List.mem_cons.mp ha with rfl | ha
    · exact ⟨b, List.mem_cons_self, hab⟩
    · obtain ⟨b', hb', hab'⟩ := ih ha
      exact ⟨b', List.mem_cons_of_mem _ hb', hab'⟩

theorem forall₂_and_mem {as : List α} {bs : List β} (h : List.Forall₂ R as bs) :
    List.Forall₂ (fun a b => R a b ∧ b ∈ bs) as bs := by
  induction h with
  | nil => exact .nil
  | cons hab _ ih => exact .cons ⟨hab, List.mem_cons_self⟩ (ih.imp fun _ _ h => ⟨h.1, List.mem_cons_of_mem _ h.2⟩)

theorem forall₂_unique {as : List α} {bs bs' : List β} (hR : ∀ a b b', R a b → R a b' → b = b')
    (h : List.Forall₂ R as bs) (h' : List.Forall₂ R as bs') : bs = bs' := by
  induction h generalizing bs' with
  | nil =>
    cases h'
    rfl
  | cons hab _ ih =>
    cases h' with
    | cons hab' h' => rw [hR _ _ _ hab hab', ih h']

variable {g : α → Except ε β} {rows : List α} {rows' : List β}

theorem forall₂_of_mapM (h : rows.mapM g = .ok rows') : List.Forall₂ (fun x y => g x = .ok y) rows rows' := by
  induction rows generalizing rows' with
  | nil => cases h; exact .nil
  | cons x rows ih =>
    rw [List.mapM_cons, bind_eq_ok] at h
    obtain ⟨y, hy, h⟩ := h
    obtain ⟨ys, hys, h⟩ := bind_eq_ok.mp h
    cases h
    exact .cons hy (ih hys)

theorem forall_of_mapM {p : β → Prop} (hg : ∀ a b, g a = .ok b → p b)
    (h : rows.mapM g = .ok rows') : ∀ y ∈ rows', p y := by
  have hall := forall₂_of_mapM h
  clear h
  induction hall with
  | nil => simp
  | cons hab _ ih => exact List.forall_mem_cons.mpr ⟨hg _ _ hab, ih⟩

theorem eq_map_of_mapM {k : α → β} (h : rows.mapM g = .ok rows')
    (hk : ∀ x ∈ rows, ∀ y, g x = .ok y → y = k x) : rows' = rows.map k := by
  induction rows generalizing rows' with
  | nil => cases h; rfl
  | cons x rows ih =>
    rw [List.mapM_cons, bind_eq_ok] at h
    obtain ⟨y, hy, h⟩ := h
    obtain ⟨ys, hys, h⟩ := bind_eq_ok.mp h
    cases h
    rw [List.map_cons, ← hk x List.mem_cons_self y hy, ← ih hys fun z hz => hk z (List.mem_cons_of_mem _ hz)]

theorem exists_mapM (h : ∀ x ∈ rows, ∃ y, g x = .ok y) : ∃ rows', rows.mapM g = .ok rows' := by
  induction rows with
  | nil => exact ⟨[], rfl⟩
  | cons x rows ih =>
    obtain ⟨y, hy⟩ := h x List.mem_cons_self
    obtain ⟨ys, hys⟩ := ih fun z hz => h z (List.mem_cons_of_mem _ hz)
    exact ⟨y :: ys, by rw [List.mapM_cons, hy, ok_bind, hys]; rfl⟩

theorem foldlM_ok {f : β → α → Except ε β} {k : β → α → β} {as : List α} (h : ∀ a ∈ as, ∀ b, f b a = .ok (k b a)) (b : β) :
    as.foldlM f b = .ok (as.foldl k b) := by
  induction as generalizing b with
  | nil => rfl
  | cons a as ih =>
    rw [List.foldlM_cons, h a List.mem_cons_self, ok_bind, List.foldl_cons]
    exact ih (fun c hc => h c (List.mem_cons_of_mem _ hc)) _

theorem forM_ok {f : α → Except ε Unit} {as : List α} (h : ∀ a ∈ as, f a = .ok ()) : as.forM f = .ok () := by
  induction as with
  | nil => rfl
  | cons a as ih =>
    show (f a >>= fun _ => as.forM f) = _
    rw [h a List.mem_cons_self, ok_bind]
    exact ih fun b hb => h b (List.mem_cons_of_mem _ hb)

end Raise

section Meets
variable {ε α β σ : Type} {P : α → Prop} {Q : β → Prop} {E : ε → Prop}

/-- The computation succeeds with `P`, or raises an error of `E`. -/
def Meets (P : α → Prop) (E : ε → Prop) : Except ε α → Prop
  | .ok a => P a
  | .error e => E e

theorem Meets.of_ok {r : Except ε α} {a : α} (h : Meets P E r) (hr : r = .ok a) : P a := by
  rw [hr] at h
  exact h

theorem Meets.of_error {r : Except ε α} {e : ε} (h : Meets P E r) (hr : r = .error e) : E e := by
  rw [hr] at h
  exact h

theorem Meets.exists_ok {r : Except ε α} (h : Meets P (fun _ => False) r) : ∃ a, r = .ok a ∧ P a := by
  cases r with
  | error e => exact h.elim
  | ok a => exact ⟨a, rfl, h⟩

theorem Meets.bind {x : Except ε α} {f : α → Except ε β} (hx : Meets P E x) (hf : ∀ a, P a → Meets Q E (f a)) :
    Meets Q E (x >>= f) := by
  cases x with
  | error e => exact hx
  | ok a => exact hf a hx

theorem Meets.after {x : Except ε α} {f : α → Except ε β} (hf : ∀ a, Meets Q (fun _ => True) (f a)) :
    Meets Q (fun _ => True) (x >>= f) := by
  cases x with
  | error e => trivial
  | ok a => exact hf a

theorem Meets.foldlM {I : σ → Prop} {f : σ → α → Except ε σ} {as : List α} {s : σ} (hs : I s)
    (hf : ∀ a ∈ as, ∀ s, I s → Meets I E (f s a)) : Meets I E (as.foldlM f s) := by
  induction as generalizing s with
  | nil => exact hs
  | cons a as ih =>
    rw [List.foldlM_cons]
    exact (hf a List.mem_cons_self s hs).bind fun t ht => ih ht fun b hb => hf b (List.mem_cons_of_mem _ hb)

end Meets

section Runs
variable {ε σ α : Type}

/-- The states reached from `s` by operations that succeed, each of them allowed in the state it meets. -/
inductive Reach (step : σ → α → Except ε σ) (allow : σ → α → Prop) (s : σ) : σ → Prop
  | refl : Reach step allow s s
  | step {t u : σ} {a : α} : Reach step allow s t → allow t a → step t a = .ok u → Reach step allow s u

variable {step : σ → α → Except ε σ} {allow : σ → α → Prop} {s t : σ}

theorem Reach.invariant {P : σ → Prop} (h : Reach step allow s t) (init : P s)
    (keep : ∀ {u v : σ} {a : α}, P u → allow u a → step u a = .ok v → P v) : P t := by
  induction h with
  | refl => exact init
  | step _ ha hs ih => exact keep ih ha hs

theorem Reach.mono {allow' : σ → α → Prop} (h : Reach step allow s t) (weaker : ∀ u a, allow u a → allow' u a) :
    Reach step allow' s t := by
  induction h with
  | refl => exact .refl
  | step _ ha hs ih => exact .step ih (weaker _ _ ha) hs

theorem Reach.trans {u : σ} (h1 : Reach step allow s t) (h2 : Reach step allow t u) : Reach step allow s u := by
  induction h2 with
  | refl => exact h1
  | step _ ha hs ih => exact .step ih ha hs

def runOps (step : σ → α → Except ε σ) (s : σ) (ops : List α) : Except ε σ := ops.foldlM step s

variable {ops : List α}

theorem runOps_cons {a : α} : runOps step s (a :: ops) = (step s a >>= fun t => runOps step t ops) :=
  List.foldlM_cons

theorem runOps_cons_ok {a : α} {u : σ} (ha : step s a = .ok t) (h : runOps step t ops = .ok u) :
    runOps step s (a :: ops) = .ok u := by
  rw [runOps_cons, ha, ok_bind, h]

theorem reach_of_runOps (hall : ∀ a ∈ ops, ∀ u, allow u a) (h : runOps step s ops = .ok t) : Reach step allow s t := by
  induction ops generalizing s with
  | nil => cases h; exact .refl
  | cons a ops ih =>
    rw [runOps_cons, bind_eq_ok] at h
    obtain ⟨u, hu, h⟩ := h
    exact Reach.trans (.step .refl (hall a List.mem_cons_self s) hu) (ih (fun b hb => hall b (List.mem_cons_of_mem _ hb)) h)

theorem reach_of_guarded [∀ s a, Decidable (allow s a)] {e : ε}
    (h : runOps (fun s a => if allow s a then step s a else .error e) s ops = .ok t) : Reach step allow s t := by
  induction ops generalizing s with
  | nil => cases h; exact .refl
  | cons a ops ih =>
    rw [runOps_cons, bind_eq_ok] at h
    obtain ⟨u, hu, h⟩ := h
    obtain ⟨ha, hu⟩ := check_eq_ok.mp hu
    exact Reach.trans (.step .refl ha hu) (ih h)

end Runs

def ends {ε α : Type} (p : α → Bool) : Except ε α → Bool
  | .ok a => p a
  | .error _ => false

def raises {ε α : Type} [DecidableEq ε] (e : ε) : Except ε α → Bool
  | .ok _ => false
  | .error e' => e' = e

theorem eq_error_of_raises {ε α : Type} [DecidableEq ε] {e : ε} {r : Except ε α} (h : raises e r = true) :
    r = .error e := by
  cases r with
  | error e' => rw [of_decide_eq_true h]
  | ok a => cases h

theorem exists_of_ends {ε α : Type} {p : α → Bool} {r : Except ε α} (h : ends p r = true) :
    ∃ a, r = .ok a ∧ p a = true := by
  cases r with
  | error e => cases h
  | ok a => exact ⟨a, rfl, h⟩

end Vuzol.Lib
