import Vuzol.Lib.Machine

/-! Programs of atomic commands that can be interrupted between any two of them, and a logic for what holds there: a
    crash invariant, a condition on each command, and a condition on the result. -/

namespace Vuzol.Lib

inductive Program (σ C ε α : Type) where
  | ret (a : α)
  | raise (e : ε)
  | exec (c : C) (next : σ → Program σ C ε α)

namespace Program

variable {σ C ε α β : Type}

def bind : Program σ C ε α → (α → Program σ C ε β) → Program σ C ε β
  | .ret a, f => f a
  | .raise e, _ => .raise e
  | .exec c next, f => .exec c fun s => (next s).bind f

instance : Monad (Program σ C ε) where
  pure := .ret
  bind := bind

@[simp] theorem ret_bind (a : α) (f : α → Program σ C ε β) : (.ret a >>= f) = f a := rfl

@[simp] theorem exec_bind (c : C) (next : σ → Program σ C ε α) (f : α → Program σ C ε β) :
    (.exec c next >>= f) = .exec c fun s => next s >>= f := rfl

def command (c : C) : Program σ C ε Unit := .exec c fun _ => .ret ()

def observe (c : C) : Program σ C ε σ := .exec c .ret

def failIf (q : Prop) [Decidable q] (e : ε) : Program σ C ε Unit := if q then .raise e else .ret ()

theorem bind_assoc {γ : Type} (p : Program σ C ε α) (f : α → Program σ C ε β) (g : β → Program σ C ε γ) :
    p >>= f >>= g = p >>= fun a => f a >>= g := by
  induction p with
  | ret a => rfl
  | raise e => rfl
  | exec c next ih => exact congrArg (Program.exec c) (funext ih)

variable (perform : C → σ → σ)

def run : Program σ C ε α → σ → Except ε α × σ
  | .ret a, s => (.ok a, s)
  | .raise e, s => (.error e, s)
  | .exec c next, s => (next s).run (perform c s)

theorem run_bind (p : Program σ C ε α) (f : α → Program σ C ε β) (s : σ) :
    (p >>= f).run perform s =
      match p.run perform s with
      | (.ok a, t) => (f a).run perform t
      | (.error e, t) => (.error e, t) := by
  induction p generalizing s with
  | ret a => rfl
  | raise e => rfl
  | exec c next ih => exact ih s _

/-- The state after the first `n` commands. -/
def interrupted : Nat → Program σ C ε α → σ → σ
  | n + 1, .exec c next, s => interrupted n (next s) (perform c s)
  | _, _, s => s

def trace : Program σ C ε α → σ → List (C × σ)
  | .exec c next, s => (c, s) :: (next s).trace (perform c s)
  | _, _ => []

/-- The first `n` commands. -/
def executed (n : Nat) (p : Program σ C ε α) (s : σ) : List C := ((p.trace perform s).take n).map Prod.fst

def attempts (p : Program σ C ε α) (s : σ) (ns : List Nat) : σ := ns.foldl (fun s n => interrupted perform n p s) s

theorem attempts_append (p : Program σ C ε α) (s : σ) (ms ns : List Nat) :
    p.attempts perform s (ms ++ ns) = p.attempts perform (p.attempts perform s ms) ns := List.foldl_append

/-- `crash` holds between any two commands, `log` being the commands executed so far; `ok` holds where a command is
    executed, and `post` where the program returns. -/
def Safe (crash : List C → σ → Prop) (ok : C → σ → Prop) (post : α → List C → σ → Prop) :
    Program σ C ε α → List C → σ → Prop
  | .ret a, log, s => crash log s ∧ post a log s
  | .raise _, log, s => crash log s
  | .exec c next, log, s => crash log s ∧ ok c s ∧ (next s).Safe crash ok post (log ++ [c]) (perform c s)

variable {perform} {crash : List C → σ → Prop} {ok : C → σ → Prop} {post : α → List C → σ → Prop}
  {p : Program σ C ε α} {log : List C} {s t : σ}

theorem Safe.standing (h : p.Safe perform crash ok post log s) : crash log s := by
  cases p with
  | ret a => exact h.1
  | raise e => exact h
  | exec c next => exact h.1

variable {f : α → Program σ C ε β}

theorem safe_bind {after : β → List C → σ → Prop} :
    (p >>= f).Safe perform crash ok after log s ↔
      p.Safe perform crash ok (fun a log t => (f a).Safe perform crash ok after log t) log s := by
  induction p generalizing log s with
  | ret a => exact ⟨fun h => ⟨h.standing, h⟩, And.right⟩
  | raise e => exact Iff.rfl
  | exec c next ih => exact and_congr_right fun _ => and_congr_right fun _ => ih s

section
variable (h : p.Safe perform crash ok post log s)
include h

theorem Safe.weaken {crash' : List C → σ → Prop} {post' : α → List C → σ → Prop} (hcrash : ∀ log t, crash log t → crash' log t)
    (hpost : ∀ a log t, post a log t → post' a log t) : p.Safe perform crash' ok post' log s := by
  induction p generalizing log s with
  | ret a => exact ⟨hcrash log s h.1, hpost a log s h.2⟩
  | raise e => exact hcrash log s h
  | exec c next ih => exact ⟨hcrash log s h.1, h.2.1, ih s h.2.2⟩

theorem Safe.mono {post' : α → List C → σ → Prop} (hpost : ∀ a log t, post a log t → post' a log t) :
    p.Safe perform crash ok post' log s :=
  h.weaken (fun _ _ hc => hc) hpost

theorem Safe.interrupted (n : Nat) : crash (log ++ p.executed perform n s) (Program.interrupted perform n p s) := by
  induction p generalizing log s n with
  | ret a => cases n <;> simpa [executed, trace, Program.interrupted] using h.1
  | raise e => cases n <;> simpa [executed, trace, Program.interrupted] using h.standing
  | exec c next ih =>
    cases n with
    | zero => simpa [executed, Program.interrupted] using h.1
    | succ n => simpa [executed, trace, Program.interrupted] using ih s h.2.2 n

theorem Safe.run {a : α} (hr : (p.run perform s).1 = .ok a) : ∃ log, post a log (p.run perform s).2 := by
  induction p generalizing log s with
  | ret b =>
    cases hr
    exact ⟨log, h.2⟩
  | raise e => cases hr
  | exec c next ih => exact ih s h.2.2 hr

theorem Safe.of_run {a : α} (hr : p.run perform s = (.ok a, t)) :
    p.Safe perform crash ok (fun a' _ u => a' = a ∧ u = t) log s := by
  induction p generalizing log s with
  | ret b =>
    cases hr
    exact ⟨h.1, rfl, rfl⟩
  | raise e => cases hr
  | exec c next ih => exact ⟨h.1, h.2.1, ih s h.2.2 hr⟩

end

theorem run_snd (p : Program σ C ε α) (s : σ) :
    (p.run perform s).2 = Program.interrupted perform (p.trace perform s).length p s := by
  induction p generalizing s with
  | ret a => rfl
  | raise e => rfl
  | exec c next ih => exact ih s _

theorem executed_length (p : Program σ C ε α) (s : σ) :
    p.executed perform (p.trace perform s).length s = (p.trace perform s).map Prod.fst := by
  rw [executed, List.take_length]

theorem Safe.run_trace (h : p.Safe perform crash ok post log s) {a : α} (hr : (p.run perform s).1 = .ok a) :
    post a (log ++ (p.trace perform s).map Prod.fst) (p.run perform s).2 := by
  induction p generalizing log s with
  | ret b =>
    cases hr
    simpa [Program.trace, Program.run] using h.2
  | raise e => cases hr
  | exec c next ih =>
    have hnext := ih s h.2.2 hr
    rwa [List.append_assoc, List.singleton_append] at hnext

theorem Safe.trace (h : p.Safe perform crash ok post log s) : ∀ x ∈ p.trace perform s, ok x.1 x.2 := by
  induction p generalizing log s with
  | ret a => simp [Program.trace]
  | raise e => simp [Program.trace]
  | exec c next ih =>
    intro x hx
    rcases List.mem_cons.mp hx with rfl | hx
    · exact h.2.1
    · exact ih s h.2.2 x hx

theorem Safe.attempts (safe : σ → Prop) (hp : ∀ u, safe u → p.Safe perform (fun _ => safe) ok post [] u) (hs : safe s)
    (ns : List Nat) : safe (p.attempts perform s ns) := by
  induction ns generalizing s with
  | nil => exact hs
  | cons n ns ih => exact ih ((hp s hs).interrupted n)

/-- `I` holds wherever the program stops, and `Q` of what it returns. -/
def Keeps (perform : C → σ → σ) (I : σ → Prop) (Q : α → σ → Prop) (p : Program σ C ε α) (s : σ) : Prop :=
  ∀ log, p.Safe perform (fun _ => I) (fun _ _ => True) (fun a _ => Q a) log s

section Keeps
variable {I : σ → Prop} {Q : α → σ → Prop} {R : β → σ → Prop} {a : α} {e : ε} {c : C}

theorem Keeps.ret (hI : I s) (hQ : Q a s) : Keeps perform I Q (.ret a : Program σ C ε α) s := fun _ => ⟨hI, hQ⟩

theorem Keeps.raise (hI : I s) : Keeps perform I Q (.raise e) s := fun _ => hI

theorem Keeps.mono {I' : σ → Prop} {Q' : α → σ → Prop} (h : Keeps perform I Q p s) (hI : ∀ t, I t → I' t)
    (hQ : ∀ a t, Q a t → Q' a t) : Keeps perform I' Q' p s := fun log =>
  (h log).weaken (fun _ => hI) fun a _ => hQ a

theorem Keeps.bind (hp : Keeps perform I Q p s)
    (hf : ∀ a t, Q a t → Keeps perform I R (f a) t) : Keeps perform I R (p >>= f) s := fun log =>
  safe_bind.mpr ((hp log).mono fun a _ t hQ => hf a t hQ _)

theorem Keeps.command {Q : Unit → σ → Prop} (hI : I s) (hI' : I (perform c s)) (hQ : Q () (perform c s)) :
    Keeps perform I Q (command c : Program σ C ε Unit) s := fun _ => ⟨hI, trivial, hI', hQ⟩

theorem Keeps.command_bind {f : Unit → Program σ C ε β} (hI : I s) (hf : Keeps perform I R (f ()) (perform c s)) :
    Keeps perform I R (Program.command c >>= f) s := fun _ => ⟨hI, trivial, hf _⟩

theorem Keeps.observe_bind {f : σ → Program σ C ε β} (hc : perform c s = s) (hI : I s) (hf : Keeps perform I R (f s) s) :
    Keeps perform I R (observe c >>= f) s := fun _ => ⟨hI, trivial, by rw [hc]; exact hf _⟩

theorem Keeps.failIf_bind {q : Prop} [Decidable q] {f : Unit → Program σ C ε β} (hI : I s)
    (hf : ¬q → Keeps perform I R (f ()) s) : Keeps perform I R (failIf q e >>= f) s := by
  by_cases hq : q
  · rw [failIf, if_pos hq]
    exact .raise hI
  · rw [failIf, if_neg hq]
    exact hf hq

theorem Keeps.of_run (h : Keeps perform I Q p s) (hr : p.run perform s = (.ok a, t)) :
    Keeps perform I (fun a' u => a' = a ∧ u = t) p s := fun log => (h log).of_run hr

theorem Keeps.forM {J : σ → Prop} (hJI : ∀ t, J t → I t) {program : β → Program σ C ε Unit} {as : List β}
    (hp : ∀ b ∈ as, ∀ t, J t → Keeps perform I (fun _ => J) (program b) t) (hs : J s) :
    Keeps perform I (fun _ => J) (as.forM program) s := by
  induction as generalizing s with
  | nil => exact .ret (hJI s hs) hs
  | cons b as ih =>
    refine .bind (hp b List.mem_cons_self s hs) fun _ t ht => ?_
    exact ih (fun b' hb' => hp b' (List.mem_cons_of_mem _ hb')) ht

theorem Keeps.interrupted (h : Keeps perform I Q p s) (n : Nat) : I (Program.interrupted perform n p s) :=
  (h []).interrupted n

theorem Keeps.run (h : Keeps perform I Q p s) :
    I (p.run perform s).2 ∧ ∀ a, (p.run perform s).1 = .ok a → Q a (p.run perform s).2 := by
  refine ⟨?_, fun a ha => ?_⟩
  · rw [run_snd]
    exact h.interrupted _
  · obtain ⟨-, hQ⟩ := (h []).run ha
    exact hQ

end Keeps

theorem run_command_bind {c : C} {f : Unit → Program σ C ε β} :
    (command c >>= f).run perform s = (f ()).run perform (perform c s) := rfl

theorem run_observe_bind {c : C} {f : σ → Program σ C ε β} (hc : perform c s = s) :
    (observe c >>= f).run perform s = (f s).run perform s := by
  show (f s).run perform (perform c s) = _
  rw [hc]

theorem run_failIf_bind {q : Prop} [Decidable q] {e : ε} {f : Unit → Program σ C ε β} (hq : ¬q) :
    (failIf q e >>= f).run perform s = (f ()).run perform s := by
  rw [failIf, if_neg hq]
  rfl

theorem run_failIf_raise {q : Prop} [Decidable q] {e : ε} {f : Unit → Program σ C ε β} (hq : q) :
    (failIf q e >>= f).run perform s = (.error e, s) := by
  rw [failIf, if_pos hq]
  rfl

/-- `post` holds where the program returns, and `exc` where it raises, for the commands executed until then. -/
def Ends (perform : C → σ → σ) (post : α → List C → Prop) (exc : ε → List C → Prop) : Program σ C ε α → List C → σ → Prop
  | .ret a, log, _ => post a log
  | .raise e, log, _ => exc e log
  | .exec c next, log, s => (next s).Ends perform post exc (log ++ [c]) (perform c s)

variable {returned : α → List C → Prop} {exc : ε → List C → Prop}

section
variable (hp : p.Ends perform returned exc log s)
include hp

theorem ends_bind {after : β → List C → Prop} (hf : ∀ a log t, returned a log → (f a).Ends perform after exc log t) :
    (p >>= f).Ends perform after exc log s := by
  induction p generalizing log s with
  | ret a => exact hf a log s hp
  | raise e => exact hp
  | exec c next ih => exact ih s hp

theorem Ends.weaken {after : α → List C → Prop} {exc' : ε → List C → Prop} (h : ∀ a log, returned a log → after a log)
    (hexc : ∀ e log, exc e log → exc' e log) : p.Ends perform after exc' log s := by
  induction p generalizing log s with
  | ret a => exact h a log hp
  | raise e => exact hexc e log hp
  | exec c next ih => exact ih s hp

theorem Ends.mono {after : α → List C → Prop} (h : ∀ a log, returned a log → after a log) :
    p.Ends perform after exc log s := hp.weaken h fun _ _ he => he

end

theorem Ends.run (h : p.Ends perform returned exc log s) : match (p.run perform s).1 with
    | .ok a => returned a (log ++ (p.trace perform s).map Prod.fst)
    | .error e => exc e (log ++ (p.trace perform s).map Prod.fst) := by
  induction p generalizing log s with
  | ret a => simpa [Ends, Program.run, Program.trace] using h
  | raise e => simpa [Ends, Program.run, Program.trace] using h
  | exec c next ih =>
    have hnext := ih s h
    rw [List.append_assoc, List.singleton_append] at hnext
    exact hnext

end Program

end Vuzol.Lib
