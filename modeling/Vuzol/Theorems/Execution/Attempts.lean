import Mathlib.Data.List.Induction
import Vuzol.Execution.Attempts

/-! Attempts that die between two Git commands, and the attempt after them. -/

namespace Vuzol.Execution

open Vuzol.Lib

variable {old : Option String}

def Repository.Delivered (treeOf : String → String) (commit : String) (r : Repository) : Prop :=
  r.target = some commit ∧ (r.checkedOut = true → r.treeMatchesCommit treeOf commit = true)

/-- `reset --hard` is executed where the files are those of the old or of the new commit, and nothing is untracked. -/
def Resets (treeOf : String → String) (old : Option String) (commit : String) (c : Command) (r : Repository) : Prop :=
  ∀ target, c = .reset target → r.untracked = false ∧ (r.files = old.map treeOf ∨ r.files = some (treeOf commit))

/-- The files are those of `HEAD`. -/
def Repository.CleanTree (treeOf : String → String) (r : Repository) : Prop :=
  r.files = r.head.map treeOf ∧ r.untracked = false

/-- What attempts at `commit` make of `r₀`. -/
inductive Midway (treeOf : String → String) (commit : String) (r₀ : Repository) : Repository → Prop
  | start : Midway treeOf commit r₀ r₀
  | moved : Midway treeOf commit r₀ { r₀ with target := some commit }
  | aligned : r₀.checkedOut = true → Midway treeOf commit r₀ (r₀.reset treeOf commit)

section Midway
variable {treeOf : String → String} {commit : String} {r₀ r : Repository}

theorem Resets.of_ne {cmd : Command} (h : ∀ target, cmd ≠ .reset target) :
    Resets treeOf old commit cmd r := fun target ht => absurd ht (h target)

section
variable (h : Midway treeOf commit r₀ r)
include h

theorem Midway.checkedOut : r.checkedOut = r₀.checkedOut := by
  cases h <;> rfl

theorem Midway.files (hclean : r₀.CleanTree treeOf) (hco : r.checkedOut = true) :
    r.untracked = false ∧ (r.files = r₀.target.map treeOf ∨ r.files = some (treeOf commit)) := by
  have hold : r₀.checkedOut = true → r₀.files = r₀.target.map treeOf := by
    intro h0
    have hfiles := hclean.1
    rwa [Repository.head, if_pos h0] at hfiles
  rw [h.checkedOut] at hco
  cases h with
  | start => exact ⟨hclean.2, Or.inl (hold hco)⟩
  | moved => exact ⟨hclean.2, Or.inl (hold hco)⟩
  | aligned => exact ⟨hclean.2, Or.inr rfl⟩

theorem Midway.reset (hco : r.checkedOut = true) : Midway treeOf commit r₀ (r.reset treeOf commit) := by
  rw [h.checkedOut] at hco
  cases h <;> exact .aligned hco

theorem Midway.resets (hclean : r₀.CleanTree treeOf)
    (hco : r.checkedOut = true) {cmd : Command} : Resets treeOf r₀.target commit cmd r := fun _ _ => h.files hclean hco

end

end Midway

namespace GitProgram

variable {f : Repository → Bool} {message : String} {post : Unit → List Command → Repository → Prop}

/-! ### The commands -/

section Commands
variable {α : Type} {treeOf : String → String} {crash : List Command → Repository → Prop}
  {ok : Command → Repository → Prop} {log : List Command} {r : Repository}

theorem ask_safe {f : Repository → α} {post : α → List Command → Repository → Prop} :
    (ask f).Safe (Command.perform treeOf) crash ok post log r ↔
      crash log r ∧ ok .query r ∧ crash (log ++ [.query]) r ∧ post (f r) (log ++ [.query]) r := Iff.rfl

theorem require_safe :
    (require f message).Safe (Command.perform treeOf) crash ok post log r ↔
      crash log r ∧ ok .query r ∧ crash (log ++ [.query]) r ∧ (f r = true → post () (log ++ [.query]) r) := by
  unfold require
  cases hf : f r <;> simp [Program.Safe, hf, Command.perform]

theorem fetch_safe :
    fetch.Safe (Command.perform treeOf) crash ok post log r ↔
      crash log r ∧ ok .fetch r ∧ crash (log ++ [.fetch]) r ∧ post () (log ++ [.fetch]) r := Iff.rfl

theorem updateRef_safe {commit : String} (h : r.target = old) :
    (updateRef commit old).Safe (Command.perform treeOf) crash ok post log r ↔
      crash log r ∧ ok (.updateRef commit old) r ∧
        crash (log ++ [.updateRef commit old]) { r with target := some commit } ∧
        post () (log ++ [.updateRef commit old]) { r with target := some commit } := by
  simp [updateRef, Program.Safe, Command.perform, h]

theorem reset_safe {commit : String} :
    (reset commit).Safe (Command.perform treeOf) crash ok post log r ↔
      crash log r ∧ ok (.reset commit) r ∧ crash (log ++ [.reset commit]) (r.reset treeOf commit) ∧
        post () (log ++ [.reset commit]) (r.reset treeOf commit) := Iff.rfl

end Commands

/-! ### Applying a result -/

section Apply
variable {treeOf : String → String} {c : Change} {w : ResultWorktree} {r₀ r : Repository} {log : List Command}
  {crash : List Command → Repository → Prop} {ok : Command → Repository → Prop}

theorem requireCleanSource_safe (hok : ok .query r) (h0 : crash log r) (h1 : crash (log ++ [.query]) r)
    (h2 : crash (log ++ [.query] ++ [.query]) r) (hpost : r.CleanTree treeOf → post () (log ++ [.query] ++ [.query]) r) :
    (requireCleanSource treeOf).Safe (Command.perform treeOf) crash ok post log r := by
  unfold requireCleanSource
  rw [Program.safe_bind, require_safe]
  refine ⟨h0, hok, h1, fun h => ?_⟩
  simp only [Bool.and_eq_true, decide_eq_true_eq, Bool.not_eq_true'] at h
  exact require_safe.mpr ⟨h1, hok, h2, fun _ => hpost h⟩

theorem treeMatchesCommit_safe {commit : String} {post : Bool → List Command → Repository → Prop} (hok : ok .query r)
    (hcrash : ∀ log, crash log r) (hpost : ∀ log, post (r.treeMatchesCommit treeOf commit) log r) :
    (treeMatchesCommit treeOf commit).Safe (Command.perform treeOf) crash ok post log r := by
  unfold treeMatchesCommit
  rw [Program.safe_bind, ask_safe]
  refine ⟨hcrash _, hok, hcrash _, ?_⟩
  rw [Program.safe_bind, ask_safe]
  exact ⟨hcrash _, hok, hcrash _, hcrash _, hpost _⟩

variable (treeOf c r₀) in
def Crashed (_ : List Command) (r : Repository) : Prop :=
  Midway treeOf c.resultCommit r₀ r ∧ (c.isNoOp → r = r₀)

theorem treeMatchesCommit_reset {commit : String} (hu : r.untracked = false) :
    (r.reset treeOf commit).treeMatchesCommit treeOf commit = true := by
  simp [Repository.treeMatchesCommit, Repository.reset, hu]

theorem recover_safe {post : Bool → List Command → Repository → Prop} (hclean : r₀.CleanTree treeOf)
    (hr : Crashed treeOf c r₀ [] r) (hno : ¬c.isNoOp) (htarget : r.target = some c.resultCommit)
    (hpost : ∀ log t, t.Delivered treeOf c.resultCommit → post false log t) :
    (recover treeOf c r.checkedOut).Safe (Command.perform treeOf) (Crashed treeOf c r₀)
      (Resets treeOf r₀.target c.resultCommit) post log r := by
  have hquery : ∀ u, Resets treeOf r₀.target c.resultCommit .query u := fun _ => Resets.of_ne nofun
  unfold recover
  cases hco : r.checkedOut with
  | false => exact ⟨hr, hpost _ _ ⟨htarget, fun hn => by rw [hco] at hn; cases hn⟩⟩
  | true =>
    simp only [if_true]
    rw [Program.safe_bind]
    refine treeMatchesCommit_safe (hquery r) (fun _ => hr) fun _ => ?_
    split_ifs with hnew
    · exact ⟨hr, hpost _ _ ⟨htarget, fun _ => hnew⟩⟩
    rw [Program.safe_bind]
    refine treeMatchesCommit_safe (hquery r) (fun _ => hr) fun _ => ?_
    split_ifs with hold
    · exact hr
    have haligned : Crashed treeOf c r₀ [] (r.reset treeOf c.resultCommit) := ⟨hr.1.reset hco, fun hn => absurd hn hno⟩
    have hmatches : (r.reset treeOf c.resultCommit).treeMatchesCommit treeOf c.resultCommit = true :=
      treeMatchesCommit_reset (hr.1.files hclean hco).1
    rw [Program.safe_bind, reset_safe]
    refine ⟨hr, hr.1.resets hclean hco, haligned, ?_⟩
    rw [Program.safe_bind]
    refine treeMatchesCommit_safe (hquery _) (fun _ => haligned) fun _ => ?_
    rw [hmatches]
    exact ⟨haligned, hpost _ _ ⟨rfl, fun _ => hmatches⟩⟩

theorem advance_safe {post : Bool → List Command → Repository → Prop} (hclean : r₀.CleanTree treeOf) (hno : ¬c.isNoOp)
    (htarget : r₀.target.getD c.expectedHead = c.expectedHead)
    (hpost : ∀ log t, t.Delivered treeOf c.resultCommit → post true log t) :
    (advance treeOf c w r₀.target r₀.checkedOut).Safe (Command.perform treeOf) (Crashed treeOf c r₀)
      (Resets treeOf r₀.target c.resultCommit) post log r₀ := by
  have hquery : ∀ u, Resets treeOf r₀.target c.resultCommit .query u := fun _ => Resets.of_ne nofun
  have hstart : Crashed treeOf c r₀ [] r₀ := ⟨.start, fun _ => rfl⟩
  have hmoved : Crashed treeOf c r₀ [] { r₀ with target := some c.resultCommit } := ⟨.moved, fun hn => absurd hn hno⟩
  have hold : r₀.target = if r₀.target.isSome then some c.expectedHead else none := by
    cases ht : r₀.target with
    | none => rfl
    | some tip =>
      rw [ht] at htarget
      simpa using htarget
  -- The clean tree is checked before anything moves.
  have htail : ∀ log, (do
      fetch
      require (fun _ => w.fetched = some c.resultCommit) "fetched result identity does not match the approval"
      updateRef c.resultCommit (if r₀.target.isSome then some c.expectedHead else none)
      require (fun r => r.target = some c.resultCommit) "target branch did not advance to the approved result"
      if r₀.checkedOut then do
        reset c.resultCommit
        require (fun r => r.head = some c.resultCommit) "managed worktree did not reset to the approved result"
      return true : GitProgram Bool).Safe (Command.perform treeOf) (Crashed treeOf c r₀)
        (Resets treeOf r₀.target c.resultCommit) post log r₀ := by
    intro log
    rw [Program.safe_bind, fetch_safe]
    refine ⟨hstart, Resets.of_ne nofun, hstart, ?_⟩
    rw [Program.safe_bind, require_safe]
    refine ⟨hstart, hquery _, hstart, fun _ => ?_⟩
    rw [Program.safe_bind, updateRef_safe hold]
    refine ⟨hstart, Resets.of_ne nofun, hmoved, ?_⟩
    rw [Program.safe_bind, require_safe]
    refine ⟨hmoved, hquery _, hmoved, fun _ => ?_⟩
    by_cases hco : r₀.checkedOut = true
    · have haligned : Crashed treeOf c r₀ [] (r₀.reset treeOf c.resultCommit) :=
        ⟨.aligned hco, fun hn => absurd hn hno⟩
      rw [if_pos hco, Program.safe_bind, reset_safe]
      refine ⟨hmoved, hmoved.1.resets hclean hco, haligned, ?_⟩
      rw [Program.safe_bind, require_safe]
      refine ⟨haligned, hquery _, haligned, fun _ => ⟨haligned, hpost _ _ ⟨rfl, fun _ => ?_⟩⟩⟩
      exact treeMatchesCommit_reset (r := r₀) hclean.2
    · rw [if_neg hco]
      exact ⟨hmoved, hpost _ _ ⟨rfl, fun hn => absurd hn hco⟩⟩
  unfold advance
  by_cases hco : r₀.checkedOut = true
  · rw [if_pos hco, Program.safe_bind]
    exact requireCleanSource_safe (hquery _) hstart hstart hstart fun _ => htail _
  · rw [if_neg hco]
    exact htail _

theorem requireDescendant_safe (hok : ok .query r) (hcrash : ∀ log, crash log r) (hpost : ∀ log, post () log r) :
    (requireDescendant c w).Safe (Command.perform treeOf) crash ok post log r := by
  unfold requireDescendant
  rw [Program.safe_bind, require_safe]
  refine ⟨hcrash _, hok, hcrash _, fun _ => ?_⟩
  split_ifs
  · rw [Program.safe_bind, ask_safe]
    refine ⟨hcrash _, hok, hcrash _, ?_⟩
    split_ifs
    · exact require_safe.mpr ⟨hcrash _, hok, hcrash _, fun _ => hpost _⟩
    · exact ⟨hcrash _, hpost _⟩
  · exact ⟨hcrash _, hpost _⟩

theorem applyNoOp_safe {post : Bool → List Command → Repository → Prop} (hno : c.isNoOp)
    (hpost : ∀ log, r₀.Delivered treeOf c.resultCommit ∨ r₀.target = none → post false log r₀) :
    (applyNoOp treeOf c w).Safe (Command.perform treeOf) (Crashed treeOf c r₀)
      (Resets treeOf r₀.target c.resultCommit) post log r₀ := by
  have hquery : ∀ u, Resets treeOf r₀.target c.resultCommit .query u := fun _ => Resets.of_ne nofun
  have hstart : Crashed treeOf c r₀ [] r₀ := ⟨.start, fun _ => rfl⟩
  unfold applyNoOp
  rw [Program.safe_bind, require_safe]
  refine ⟨hstart, hquery _, hstart, fun _ => ?_⟩
  rw [Program.safe_bind]
  refine requireCleanSource_safe (hquery _) hstart hstart hstart fun hclean => ?_
  rw [Program.safe_bind, ask_safe]
  refine ⟨hstart, hquery _, hstart, ?_⟩
  split_ifs with hchanged
  · exact hstart
  refine ⟨hstart, hpost _ ?_⟩
  cases ht : r₀.target with
  | none => exact Or.inr rfl
  | some tip =>
    rw [ht] at hchanged
    have htip : r₀.target = some c.resultCommit := by
      rw [ht, show c.resultCommit = c.expectedHead from hno]
      simpa using hchanged
    refine Or.inl ⟨htip, fun hco => ?_⟩
    have hfiles := hclean.1
    rw [Repository.head, if_pos hco, htip] at hfiles
    simp [Repository.treeMatchesCommit, hfiles, hclean.2]

theorem applyResult_safe (hclean : r₀.CleanTree treeOf) (hr : Crashed treeOf c r₀ [] r) :
    (applyResult treeOf c w).Safe (Command.perform treeOf) (Crashed treeOf c r₀) (Resets treeOf r₀.target c.resultCommit)
      (fun _ _ t => t.Delivered treeOf c.resultCommit ↔ ¬(c.isNoOp ∧ r₀.target = none)) [] r := by
  have hquery : ∀ u, Resets treeOf r₀.target c.resultCommit .query u := fun _ => Resets.of_ne nofun
  unfold applyResult
  rw [Program.safe_bind, require_safe]
  refine ⟨hr, hquery _, hr, fun _ => ?_⟩
  rw [Program.safe_bind, require_safe]
  refine ⟨hr, hquery _, hr, fun _ => ?_⟩
  split_ifs with hno
  · rw [hr.2 hno]
    refine applyNoOp_safe hno fun _ h => ?_
    rcases h with hd | hnone
    · simp [hd, hd.1]
    · simp [Repository.Delivered, hnone, show c.isNoOp from hno]
  have hdelivers : ∀ t : Repository, t.Delivered treeOf c.resultCommit →
      (t.Delivered treeOf c.resultCommit ↔ ¬(c.isNoOp ∧ r₀.target = none)) :=
    fun t hd => ⟨fun _ h => hno h.1, fun _ => hd⟩
  rw [Program.safe_bind]
  refine requireDescendant_safe (hquery _) (fun _ => hr) fun _ => ?_
  rw [Program.safe_bind, ask_safe]
  refine ⟨hr, hquery _, hr, ?_⟩
  rw [Program.safe_bind, ask_safe]
  refine ⟨hr, hquery _, hr, ?_⟩
  split_ifs with hresult hchanged
  · refine recover_safe hclean hr hno ?_ fun _ t => hdelivers t
    cases ht : r.target with
    | none =>
      rw [ht] at hresult
      exact absurd hresult.symm hno
    | some tip =>
      rw [ht] at hresult
      exact congrArg some hresult
  · exact hr
  · obtain ⟨hmid, -⟩ := hr
    cases hmid with
    | start => exact advance_safe hclean hno (not_not.mp hchanged) fun _ t => hdelivers t
    | moved => exact absurd rfl hresult
    | aligned => exact absurd rfl hresult

end Apply

/-! ### Fast forward -/

section FastForward
variable {treeOf : String → String} {isAncestor : String → String → Bool} {commit : String} {r₀ r : Repository}
variable {cs : List Command}
  {ns : List Nat}

def Mergeable (isAncestor : String → String → Bool) (commit : String) (r : Repository) : Prop :=
  ∀ tip, r.target = some tip → tip = commit ∨ isAncestor tip commit = true

def torn (r : Repository) (cs : List Command) : Bool :=
  r.checkedOut && cs.any Command.isUpdateRef && !cs.any Command.isReset

def NeverTorn (treeOf : String → String) (p : GitProgram FastForward) (r₀ : Repository) (ns : List Nat) : Prop :=
  ∀ ms n, ms ++ [n] <+: ns →
    torn r₀ (p.executed (Command.perform treeOf) n (p.attempts (Command.perform treeOf) r₀ ms)) = false

theorem neverTorn_nil {p : GitProgram FastForward} : NeverTorn treeOf p r₀ [] := by
  intro ms n h
  simp at h

theorem neverTorn_concat {p : GitProgram FastForward} {n : Nat} : NeverTorn treeOf p r₀ (ns ++ [n]) ↔
    NeverTorn treeOf p r₀ ns ∧
      torn r₀ (p.executed (Command.perform treeOf) n (p.attempts (Command.perform treeOf) r₀ ns)) = false := by
  constructor
  · exact fun h => ⟨fun ms k hk => h ms k (hk.trans (List.prefix_append _ _)), h ns n (List.prefix_refl _)⟩
  · rintro ⟨h, hn⟩ ms k hk
    rcases List.prefix_concat_iff.mp hk with heq | hk
    · obtain ⟨rfl, hkn⟩ := List.append_inj' heq rfl
      obtain rfl := List.singleton_inj.mp hkn
      exact hn
    · exact h ms k hk

/-- What an attempt leaves that began at `r₀`, and what it has executed. -/
def Forwarded (treeOf : String → String) (commit : String) (r₀ : Repository) (log : List Command) (r : Repository) :
    Prop :=
  (r = r₀ ∧ log.any Command.isUpdateRef = false) ∨
    (r = { r₀ with target := some commit } ∧ log.any Command.isUpdateRef = true ∧ log.any Command.isReset = false) ∨
    (r₀.checkedOut = true ∧ r = r₀.reset treeOf commit ∧ log.any Command.isReset = true)

def Untouched (r₀ : Repository) (log : List Command) (r : Repository) : Prop :=
  r = r₀ ∧ log.any Command.isUpdateRef = false

theorem fastForward_safe_already (old : Option String) (ht : r₀.target = some commit) :
    (fastForward treeOf isAncestor commit).Safe (Command.perform treeOf) (Untouched r₀) (Resets treeOf old commit)
      (fun _ _ t => t = r₀) [] r₀ := by
  unfold fastForward
  rw [Program.safe_bind, ask_safe]
  refine ⟨⟨rfl, rfl⟩, Resets.of_ne nofun, ⟨rfl, rfl⟩, ?_⟩
  rw [if_pos ht]
  exact ⟨⟨rfl, rfl⟩, rfl⟩

theorem fastForward_safe_diverged (old : Option String) (ht : ¬Mergeable isAncestor commit r₀) :
    (fastForward treeOf isAncestor commit).Safe (Command.perform treeOf) (Untouched r₀) (Resets treeOf old commit)
      (fun _ _ t => t = r₀) [] r₀ := by
  simp only [Mergeable, not_forall, not_or, Bool.not_eq_true] at ht
  obtain ⟨tip, ht, hne, hanc⟩ := ht
  unfold fastForward
  rw [Program.safe_bind, ask_safe]
  refine ⟨⟨rfl, rfl⟩, Resets.of_ne nofun, ⟨rfl, rfl⟩, ?_⟩
  rw [ht, if_neg (by simpa using hne), Program.safe_bind, diverges, ask_safe]
  refine ⟨⟨rfl, rfl⟩, Resets.of_ne nofun, ⟨rfl, rfl⟩, ?_⟩
  rw [hanc]
  exact ⟨⟨rfl, rfl⟩, rfl⟩

theorem fastForward_safe_advances (hclean : r₀.CleanTree treeOf) (hm : Mergeable isAncestor commit r₀)
    (hne : r₀.target ≠ some commit) :
    (fastForward treeOf isAncestor commit).Safe (Command.perform treeOf) (Forwarded treeOf commit r₀)
      (Resets treeOf r₀.target commit) (fun _ _ t => t.Delivered treeOf commit) [] r₀ := by
  have hquery : ∀ u, Resets treeOf r₀.target commit .query u := fun _ => Resets.of_ne nofun
  have hstart : ∀ log : List Command, log.any Command.isUpdateRef = false → Forwarded treeOf commit r₀ log r₀ :=
    fun _ h => Or.inl ⟨rfl, h⟩
  -- The branch moves, and the files after it.
  have hmoves : ∀ log : List Command, log.any Command.isUpdateRef = false → log.any Command.isReset = false → (do
      updateRef commit r₀.target
      require (fun r => r.target = some commit) "target branch did not advance to the accepted result"
      if r₀.checkedOut then do
        reset commit
        require (fun r => r.head = some commit) "checked-out branch did not reset to the accepted result"
      return .advanced : GitProgram FastForward).Safe (Command.perform treeOf) (Forwarded treeOf commit r₀)
        (Resets treeOf r₀.target commit) (fun _ _ t => t.Delivered treeOf commit) log r₀ := by
    intro log hu hr
    have hmoved : ∀ cs : List Command, cs.any Command.isReset = false →
        Forwarded treeOf commit r₀ (log ++ [.updateRef commit r₀.target] ++ cs) { r₀ with target := some commit } := by
      intro cs hcs
      refine Or.inr (Or.inl ⟨rfl, ?_, ?_⟩)
      · simp [Command.isUpdateRef]
      · simpa [Command.isReset, hr] using hcs
    rw [Program.safe_bind, updateRef_safe rfl]
    refine ⟨hstart _ hu, Resets.of_ne nofun, by simpa using hmoved [] rfl, ?_⟩
    rw [Program.safe_bind, require_safe]
    refine ⟨by simpa using hmoved [] rfl, hquery _, hmoved [.query] rfl, fun _ => ?_⟩
    by_cases hco : r₀.checkedOut = true
    · have haligned : ∀ log : List Command, log.any Command.isReset = true →
          Forwarded treeOf commit r₀ log (r₀.reset treeOf commit) := fun _ h => Or.inr (Or.inr ⟨hco, rfl, h⟩)
      rw [if_pos hco, Program.safe_bind, reset_safe]
      refine ⟨hmoved [.query] rfl, Midway.moved.resets hclean hco, haligned _ (by simp [Command.isReset]), ?_⟩
      rw [Program.safe_bind, require_safe]
      refine ⟨haligned _ (by simp [Command.isReset]), hquery _, haligned _ (by simp [Command.isReset]), fun _ =>
        ⟨haligned _ (by simp [Command.isReset]), rfl, fun _ => ?_⟩⟩
      exact treeMatchesCommit_reset (r := r₀) hclean.2
    · rw [if_neg hco]
      exact ⟨hmoved [.query] rfl, rfl, fun hn => absurd hn hco⟩
  -- Nothing has moved yet.
  have hgoes : ∀ log : List Command, log.any Command.isUpdateRef = false → log.any Command.isReset = false → (do
      let checkedOut ← ask fun r => r.checkedOut
      if checkedOut then requireCleanSource treeOf
      updateRef commit r₀.target
      require (fun r => r.target = some commit) "target branch did not advance to the accepted result"
      if checkedOut then do
        reset commit
        require (fun r => r.head = some commit) "checked-out branch did not reset to the accepted result"
      return .advanced : GitProgram FastForward).Safe (Command.perform treeOf) (Forwarded treeOf commit r₀)
        (Resets treeOf r₀.target commit) (fun _ _ t => t.Delivered treeOf commit) log r₀ := by
    intro log hu hr
    have hq : ∀ cs : List Command, cs.any Command.isUpdateRef = false → Forwarded treeOf commit r₀ (log ++ cs) r₀ :=
      fun cs h => hstart _ (by simpa [hu] using h)
    rw [Program.safe_bind, ask_safe]
    refine ⟨hstart _ hu, hquery _, hq _ rfl, ?_⟩
    by_cases hco : r₀.checkedOut = true
    · rw [if_pos hco, Program.safe_bind]
      refine requireCleanSource_safe (hquery _) (hq _ rfl) (by simpa using hq [.query, .query] rfl)
        (by simpa using hq [.query, .query, .query] rfl) fun _ => hmoves _ ?_ ?_
      · simpa [Command.isUpdateRef] using hu
      · simpa [Command.isReset] using hr
    · rw [if_neg hco]
      exact hmoves _ (by simpa [Command.isUpdateRef] using hu) (by simpa [Command.isReset] using hr)
  unfold fastForward
  rw [Program.safe_bind, ask_safe]
  refine ⟨hstart _ rfl, hquery _, hstart _ rfl, ?_⟩
  have hasked : diverges isAncestor commit r₀.target = .ret false ∨
      diverges isAncestor commit r₀.target = ask fun _ => false := by
    cases ht : r₀.target with
    | none => exact Or.inl rfl
    | some tip =>
      have hanc : isAncestor tip commit = true := (hm tip ht).resolve_left fun he => hne (by rw [ht, he])
      exact Or.inr (by rw [diverges, hanc]; rfl)
  rw [if_neg hne, Program.safe_bind]
  rcases hasked with hd | hd
  · rw [hd]
    exact ⟨hstart _ rfl, hgoes _ rfl rfl⟩
  · rw [hd, ask_safe]
    exact ⟨hstart _ rfl, hquery _, hstart _ rfl, hgoes _ rfl rfl⟩

theorem torn_eq_false_of_unmoved (h : cs.any Command.isUpdateRef = false) : torn r cs = false := by
  simp [torn, h]

theorem torn_eq_false_of_reset (h : cs.any Command.isReset = true) : torn r cs = false := by
  simp [torn, h]

theorem torn_eq_checkedOut (hu : cs.any Command.isUpdateRef = true) (hr : cs.any Command.isReset = false) :
    torn r cs = r.checkedOut := by
  simp [torn, hu, hr]

variable (treeOf isAncestor commit r₀) in
/-- The state after attempts at a branch that may be moved. -/
inductive Attempted (ns : List Nat) : Repository → Prop
  | untouched : NeverTorn treeOf (fastForward treeOf isAncestor commit) r₀ ns → Attempted ns r₀
  | moved : r₀.checkedOut = false → NeverTorn treeOf (fastForward treeOf isAncestor commit) r₀ ns →
      Attempted ns { r₀ with target := some commit }
  | torn : r₀.checkedOut = true → ¬NeverTorn treeOf (fastForward treeOf isAncestor commit) r₀ ns →
      Attempted ns { r₀ with target := some commit }
  | aligned : r₀.checkedOut = true → NeverTorn treeOf (fastForward treeOf isAncestor commit) r₀ ns →
      Attempted ns (r₀.reset treeOf commit)

theorem fastForward_stays (treeOf : String → String) (old : Option String)
    (h : ¬(Mergeable isAncestor commit r₀ ∧ r₀.target ≠ some commit)) :
    (fastForward treeOf isAncestor commit).Safe (Command.perform treeOf) (Untouched r₀) (Resets treeOf old commit)
      (fun _ _ t => t = r₀) [] r₀ := by
  by_cases ht : r₀.target = some commit
  · exact fastForward_safe_already old ht
  · exact fastForward_safe_diverged old fun hm => h ⟨hm, ht⟩

theorem interrupted_untouched {u : Repository} (n : Nat)
    (h : (fastForward treeOf isAncestor commit).Safe (Command.perform treeOf) (Untouched u) (Resets treeOf old commit)
      (fun _ _ t => t = u) [] u) :
    (fastForward treeOf isAncestor commit).interrupted (Command.perform treeOf) n u = u ∧
      ∀ r, torn r ((fastForward treeOf isAncestor commit).executed (Command.perform treeOf) n u) = false := by
  obtain ⟨hsame, hlog⟩ := h.interrupted n
  exact ⟨hsame, fun _ => torn_eq_false_of_unmoved hlog⟩

theorem attempts_untouched {old : Option String}
    (h : (fastForward treeOf isAncestor commit).Safe (Command.perform treeOf) (Untouched r₀) (Resets treeOf old commit)
      (fun _ _ t => t = r₀) [] r₀) (ns : List Nat) :
    (fastForward treeOf isAncestor commit).attempts (Command.perform treeOf) r₀ ns = r₀ ∧
      NeverTorn treeOf (fastForward treeOf isAncestor commit) r₀ ns := by
  induction ns using List.reverseRecOn with
  | nil => exact ⟨rfl, neverTorn_nil⟩
  | append_singleton ns n ih =>
    obtain ⟨hsame, hn⟩ := ih
    obtain ⟨hv, ht⟩ := interrupted_untouched n h
    rw [Program.attempts_append, hsame]
    exact ⟨hv, neverTorn_concat.mpr ⟨hn, by rw [hsame]; exact ht r₀⟩⟩

section
variable (hclean : r₀.CleanTree treeOf) (hm : Mergeable isAncestor commit r₀) (hne : r₀.target ≠ some commit)
include hclean hm hne

theorem attempted (ns : List Nat) : Attempted treeOf isAncestor commit r₀ ns
      ((fastForward treeOf isAncestor commit).attempts (Command.perform treeOf) r₀ ns) := by
  induction ns using List.reverseRecOn with
  | nil => exact .untouched neverTorn_nil
  | append_singleton ns n ih =>
    rw [Program.attempts_append]
    have hconcat : NeverTorn treeOf (fastForward treeOf isAncestor commit) r₀ (ns ++ [n]) ↔ _ := neverTorn_concat
    generalize hu : (fastForward treeOf isAncestor commit).attempts (Command.perform treeOf) r₀ ns = u at ih hconcat
    change Attempted treeOf isAncestor commit r₀ (ns ++ [n])
      ((fastForward treeOf isAncestor commit).interrupted (Command.perform treeOf) n u)
    have hstays : u.target = some commit → _ ∧ ∀ r, torn r
        ((fastForward treeOf isAncestor commit).executed (Command.perform treeOf) n u) = false :=
      fun ht => interrupted_untouched n (fastForward_safe_already none ht)
    cases ih with
    | untouched h =>
      rcases (fastForward_safe_advances hclean hm hne).interrupted n with ⟨hv, hlog⟩ | ⟨hv, hup, hres⟩ | ⟨hco, hv, hres⟩
      · rw [hv]
        exact .untouched (hconcat.mpr ⟨h, torn_eq_false_of_unmoved hlog⟩)
      · have htorn : torn r₀ ((fastForward treeOf isAncestor commit).executed (Command.perform treeOf) n r₀) =
            r₀.checkedOut := torn_eq_checkedOut hup hres
        rw [hv]
        by_cases hco : r₀.checkedOut = true
        · refine .torn hco fun hn => ?_
          rw [(hconcat.mp hn).2, hco] at htorn
          cases htorn
        · rw [Bool.not_eq_true] at hco
          exact .moved hco (hconcat.mpr ⟨h, htorn.trans hco⟩)
      · rw [hv]
        exact .aligned hco (hconcat.mpr ⟨h, torn_eq_false_of_reset hres⟩)
    | moved hco h =>
      obtain ⟨hv, ht⟩ := hstays rfl
      rw [hv]
      exact .moved hco (hconcat.mpr ⟨h, ht r₀⟩)
    | torn hco h =>
      rw [(hstays rfl).1]
      exact .torn hco fun hn => h (hconcat.mp hn).1
    | aligned hco h =>
      obtain ⟨hv, ht⟩ := hstays rfl
      rw [hv]
      exact .aligned hco (hconcat.mpr ⟨h, ht r₀⟩)

/-- The last attempt at a branch that may be moved: it delivers the commit unless an earlier one was torn. -/
theorem fastForward_delivers_iff {answer : FastForward} {t : Repository}
    (h : (fastForward treeOf isAncestor commit).run (Command.perform treeOf)
      ((fastForward treeOf isAncestor commit).attempts (Command.perform treeOf) r₀ ns) = (.ok answer, t)) :
    t.Delivered treeOf commit ↔
      NeverTorn treeOf (fastForward treeOf isAncestor commit) r₀ ns ∨ r₀.target.map treeOf = some (treeOf commit) := by
  have hatt := attempted hclean hm hne ns
  generalize (fastForward treeOf isAncestor commit).attempts (Command.perform treeOf) r₀ ns = u at h hatt
  have hok : ((fastForward treeOf isAncestor commit).run (Command.perform treeOf) u).1 = .ok answer := by rw [h]
  have hrun : ((fastForward treeOf isAncestor commit).run (Command.perform treeOf) u).2 = t := by rw [h]
  have hstays : u.target = some commit → t = u := by
    intro ht
    obtain ⟨-, hsame⟩ := (fastForward_safe_already none ht).run hok
    exact hrun.symm.trans hsame
  cases hatt with
  | untouched hn =>
    obtain ⟨-, hd⟩ := (fastForward_safe_advances hclean hm hne).run hok
    rw [hrun] at hd
    exact ⟨fun _ => Or.inl hn, fun _ => hd⟩
  | moved hco hn =>
    rw [hstays rfl]
    exact ⟨fun _ => Or.inl hn, fun _ => ⟨rfl, fun h => by rw [show r₀.checkedOut = true from h] at hco; cases hco⟩⟩
  | torn hco hn =>
    have hfiles : r₀.files = r₀.target.map treeOf := by
      have hf := hclean.1
      rwa [Repository.head, if_pos hco] at hf
    rw [hstays rfl]
    simp [Repository.Delivered, hco, Repository.treeMatchesCommit, hfiles, hclean.2, hn]
  | aligned hco hn =>
    rw [hstays rfl]
    exact ⟨fun _ => Or.inl hn, fun _ => ⟨rfl, fun _ => treeMatchesCommit_reset hclean.2⟩⟩

end

theorem fastForward_resets (hclean : r₀.CleanTree treeOf) (ns : List Nat) :
    ∀ x ∈ (fastForward treeOf isAncestor commit).trace (Command.perform treeOf)
      ((fastForward treeOf isAncestor commit).attempts (Command.perform treeOf) r₀ ns),
      Resets treeOf r₀.target commit x.1 x.2 := by
  by_cases hgo : Mergeable isAncestor commit r₀ ∧ r₀.target ≠ some commit
  · have hatt := attempted hclean hgo.1 hgo.2 ns
    generalize (fastForward treeOf isAncestor commit).attempts (Command.perform treeOf) r₀ ns = u at hatt
    cases hatt with
    | untouched => exact (fastForward_safe_advances hclean hgo.1 hgo.2).trace
    | moved => exact (fastForward_safe_already r₀.target rfl).trace
    | torn => exact (fastForward_safe_already r₀.target rfl).trace
    | aligned => exact (fastForward_safe_already r₀.target rfl).trace
  · have hsafe := fastForward_stays treeOf r₀.target hgo
    rw [(attempts_untouched hsafe ns).1]
    exact hsafe.trace

end FastForward

/-! ### The runs that nothing interrupts -/

section Refinement
variable {α : Type} {treeOf : String → String} {c : Change} {w : ResultWorktree} {r t : Repository} {b : Bool}

def Agrees (x : Except String Bool × Repository) (y : Except String (Repository × Bool)) : Prop :=
  ∀ b t, x = (.ok b, t) ↔ y = .ok (t, b)

theorem agrees_error {e e' : String} : Agrees (.error e, r) (.error e') := by simp [Agrees]

theorem agrees_ok : Agrees (.ok b, r) (.ok (r, b)) := by simp [Agrees, and_comm]

theorem run_ask {β : Type} {f : Repository → β} (k : β → GitProgram α) :
    (ask f >>= k).run (Command.perform treeOf) r = (k (f r)).run (Command.perform treeOf) r := rfl

section
variable (k : Unit → GitProgram α)
include k

theorem run_require :
    (require f message >>= k).run (Command.perform treeOf) r =
      if f r then (k ()).run (Command.perform treeOf) r else (.error message, r) := by
  simp only [require, Program.exec_bind, Program.run, Command.perform]
  split <;> rfl

theorem run_fetch :
    (fetch >>= k).run (Command.perform treeOf) r = (k ()).run (Command.perform treeOf) r := rfl

theorem run_updateRef {commit : String} :
    (updateRef commit old >>= k).run (Command.perform treeOf) r =
      if r.target = old then (k ()).run (Command.perform treeOf) { r with target := some commit }
      else (.error "cannot lock ref", r) := by
  simp only [updateRef, Program.exec_bind, Program.run, Command.perform]
  split <;> rfl

theorem run_reset {commit : String} :
    (reset commit >>= k).run (Command.perform treeOf) r =
      (k ()).run (Command.perform treeOf) (r.reset treeOf commit) := rfl

end

theorem agrees_require {message' : String} {k : Unit → GitProgram Bool} {q : Prop} [Decidable q]
    {y : Except String (Repository × Bool)} (hq : q ↔ ¬f r = true)
    (h : f r = true → Agrees ((k ()).run (Command.perform treeOf) r) y) :
    Agrees ((require f message >>= k).run (Command.perform treeOf) r) (if q then .error message' else y) := by
  rw [run_require]
  by_cases hf : f r = true
  · rw [if_pos hf, if_neg fun hn => hq.mp hn hf]
    exact h hf
  · rw [if_neg hf, if_pos (hq.mpr hf)]
    exact agrees_error

theorem run_requireCleanSource (k : Unit → GitProgram α) (h : r.isClean treeOf = true) :
    (requireCleanSource treeOf >>= k).run (Command.perform treeOf) r = (k ()).run (Command.perform treeOf) r := by
  simp only [Repository.isClean, Bool.and_eq_true] at h
  rw [requireCleanSource, Program.bind_assoc, run_require, if_pos (by simpa using h.1), run_require, if_pos h.2]

theorem run_requireCleanSource_error (k : Unit → GitProgram α) (h : ¬r.isClean treeOf = true) :
    ∃ e, (requireCleanSource treeOf >>= k).run (Command.perform treeOf) r = (.error e, r) := by
  rw [requireCleanSource, Program.bind_assoc, run_require]
  by_cases h1 : (decide (r.files = r.head.map treeOf) && !r.untracked) = true
  · rw [if_pos h1, run_require, if_neg]
    · exact ⟨_, rfl⟩
    · exact fun h2 => h (by rw [Repository.isClean, h1, h2]; rfl)
  · rw [if_neg h1]
    exact ⟨_, rfl⟩

theorem agrees_recover : Agrees ((recover treeOf c r.checkedOut).run (Command.perform treeOf) r)
    (do .ok (← r.recover treeOf c, false)) := by
  have hasks : ∀ (commit : String) (u : Repository) (k : Bool → GitProgram Bool),
      (treeMatchesCommit treeOf commit >>= k).run (Command.perform treeOf) u =
        (k (u.treeMatchesCommit treeOf commit)).run (Command.perform treeOf) u := fun _ _ _ => rfl
  unfold recover Repository.recover
  cases hco : r.checkedOut with
  | false => exact agrees_ok
  | true =>
    rw [if_pos rfl, hasks]
    by_cases h1 : r.treeMatchesCommit treeOf c.resultCommit = true
    · rw [if_pos h1, if_pos (Or.inr h1)]
      exact agrees_ok
    · rw [if_neg h1, if_neg (by simp [h1]), hasks]
      by_cases h2 : r.treeMatchesCommit treeOf c.expectedHead = true
      · rw [if_neg (by simp [h2]), if_neg (by simp [h2])]
        change Agrees ((treeMatchesCommit treeOf c.resultCommit >>= _).run (Command.perform treeOf)
          (r.reset treeOf c.resultCommit)) _
        rw [hasks]
        by_cases h3 : (r.reset treeOf c.resultCommit).treeMatchesCommit treeOf c.resultCommit = true
        · rw [if_neg (by simp [h3]), if_neg (by simp [h3])]
          exact agrees_ok
        · rw [if_pos (by simpa using h3), if_pos (by simpa using h3)]
          exact agrees_error
      · rw [if_pos (by simpa using h2), if_pos (by simpa using h2)]
        exact agrees_error
theorem agrees_noOp : Agrees ((applyNoOp treeOf c w).run (Command.perform treeOf) r)
    (if w.head ≠ some c.resultCommit then .error "no-change worktree differs from the approved base"
      else if ¬r.isClean treeOf then .error "source repository is dirty"
      else if r.target.getD c.expectedHead ≠ c.expectedHead then
        .error "target branch changed after the result was produced"
      else .ok (r, false)) := by
  refine agrees_require (by simp) fun _ => ?_
  by_cases hcl : r.isClean treeOf = true
  · rw [run_requireCleanSource _ hcl, run_ask, if_neg (not_not.mpr hcl)]
    split_ifs
    · exact agrees_error
    · exact agrees_ok
  · obtain ⟨e, he⟩ := run_requireCleanSource_error _ hcl
    rw [he, if_pos hcl]
    exact agrees_error

theorem agrees_advance : Agrees ((advance treeOf c w r.target r.checkedOut).run (Command.perform treeOf) r)
    (if r.checkedOut = true ∧ ¬r.isClean treeOf = true then .error "source repository is dirty"
      else if w.fetched ≠ some c.resultCommit then .error "fetched result identity does not match the approval"
      else do
        let u ← r.updateRef c r.target.isSome
        .ok (← u.align treeOf c, true)) := by
  have htail : Agrees ((do
      fetch
      require (fun _ => w.fetched = some c.resultCommit) "fetched result identity does not match the approval"
      updateRef c.resultCommit (if r.target.isSome then some c.expectedHead else none)
      require (fun r => r.target = some c.resultCommit) "target branch did not advance to the approved result"
      if r.checkedOut then do
        reset c.resultCommit
        require (fun r => r.head = some c.resultCommit) "managed worktree did not reset to the approved result"
      return true : GitProgram Bool).run (Command.perform treeOf) r)
      (if w.fetched ≠ some c.resultCommit then .error "fetched result identity does not match the approval"
      else do
        let u ← r.updateRef c r.target.isSome
        .ok (← u.align treeOf c, true)) := by
    rw [run_fetch]
    refine agrees_require (by simp) fun _ => ?_
    rw [run_updateRef, Repository.updateRef]
    by_cases hold : r.target = if r.target.isSome = true then some c.expectedHead else none
    · rw [if_pos hold, if_pos hold, ok_bind, run_require, if_pos (by simp)]
      by_cases hco : r.checkedOut = true
      · have halign : Repository.align treeOf { r with target := some c.resultCommit } c =
            .ok (r.reset treeOf c.resultCommit) := by
          simp [Repository.align, Repository.reset, hco]
        rw [if_pos hco, run_reset, run_require, if_pos (by simp [Repository.head, Repository.reset, hco]), halign]
        exact agrees_ok
      · have halign : Repository.align treeOf { r with target := some c.resultCommit } c =
            .ok { r with target := some c.resultCommit } := by
          simp [Repository.align, hco]
        rw [if_neg hco, halign]
        exact agrees_ok
    · rw [if_neg hold, if_neg hold]
      exact agrees_error
  unfold advance
  by_cases hco : r.checkedOut = true
  · rw [if_pos hco]
    by_cases hcl : r.isClean treeOf = true
    · rw [if_neg (show ¬(r.checkedOut = true ∧ ¬r.isClean treeOf = true) from fun h => h.2 hcl),
        run_requireCleanSource _ hcl]
      exact htail
    · rw [if_pos (show r.checkedOut = true ∧ ¬r.isClean treeOf = true from ⟨hco, hcl⟩)]
      obtain ⟨e, he⟩ := run_requireCleanSource_error _ hcl
      rw [he]
      exact agrees_error
  · rw [if_neg hco, if_neg (show ¬(r.checkedOut = true ∧ ¬r.isClean treeOf = true) from fun h => hco h.1)]
    exact htail

theorem run_requireDescendant (k : Unit → GitProgram α) (h : w.parent.isSome = true)
    (hdesc : w.parent = some c.expectedHead ∨ w.descends = true ∨ r.parentDescends = true) :
    (requireDescendant c w >>= k).run (Command.perform treeOf) r = (k ()).run (Command.perform treeOf) r := by
  rw [requireDescendant, Program.bind_assoc, run_require, if_pos h]
  split_ifs with hp
  · rw [Program.bind_assoc, run_ask]
    cases hd : w.descends with
    | true => rfl
    | false => 
      rw [if_pos (by rfl), run_require, if_pos ((hdesc.resolve_left hp).resolve_left (by simp [hd]))]
  · rfl

theorem run_requireDescendant_error (k : Unit → GitProgram α)
    (h : w.parent = none ∨ ¬(w.parent = some c.expectedHead ∨ w.descends = true ∨ r.parentDescends = true)) :
    ∃ e, (requireDescendant c w >>= k).run (Command.perform treeOf) r = (.error e, r) := by
  rw [requireDescendant, Program.bind_assoc, run_require]
  by_cases hp : w.parent.isSome = true
  · rw [if_pos hp]
    have hnot := h.resolve_left fun hn => by rw [hn] at hp; cases hp
    rw [not_or, not_or] at hnot
    obtain ⟨hne, hd, hpd⟩ := hnot
    rw [if_pos hne, Program.bind_assoc, run_ask, if_pos (by simpa using hd), run_require, if_neg hpd]
    exact ⟨_, rfl⟩
  · rw [if_neg hp]
    exact ⟨_, rfl⟩

theorem run_applyResult (b : Bool) (t : Repository) :
    (applyResult treeOf c w).run (Command.perform treeOf) r = (.ok b, t) ↔ r.applyResult treeOf c w = .ok (t, b) := by
  revert b t
  change Agrees _ _
  unfold applyResult Repository.applyResult Repository.examine
  rw [run_require]
  by_cases hclean : w.clean = true
  swap
  · rw [if_neg hclean, if_pos hclean]
    exact agrees_error
  rw [if_pos hclean, if_neg (not_not.mpr hclean), run_require]
  by_cases hremote : w.hasRemote = true
  · rw [if_neg (by simp [hremote]), if_pos hremote]
    exact agrees_error
  rw [if_pos (by simpa using hremote), if_neg hremote]
  by_cases hno : c.isNoOp
  · rw [if_pos hno, if_pos hno]
    have hnoOp : Agrees ((applyNoOp treeOf c w).run (Command.perform treeOf) r) _ := agrees_noOp
    split_ifs at hnoOp ⊢ <;> exact hnoOp
  rw [if_neg hno, if_neg hno]
  cases hp : w.parent with
  | none =>
    obtain ⟨e, he⟩ := run_requireDescendant_error (c := c) _ (Or.inl hp)
    rw [he]
    exact agrees_error
  | some parent =>
    by_cases hdesc : w.parent = some c.expectedHead ∨ w.descends = true ∨ r.parentDescends = true
    · rw [run_requireDescendant _ (by rw [hp]; rfl) hdesc, run_ask, run_ask]
      simp only
      rw [if_neg fun h : parent ≠ c.expectedHead ∧ w.descends = false ∧ r.parentDescends = false => by
        rw [hp, h.2.1, h.2.2] at hdesc
        simp [h.1] at hdesc]
      have hrecover : Agrees ((recover treeOf c r.checkedOut).run (Command.perform treeOf) r) _ := agrees_recover
      have hadvance : Agrees ((advance treeOf c w r.target r.checkedOut).run (Command.perform treeOf) r) _ :=
        agrees_advance
      split_ifs with hresult hchanged hdirty hfetched
      · cases hrec : r.recover treeOf c with
        | error e => rw [hrec] at hrecover; exact hrecover
        | ok u => rw [hrec] at hrecover; exact hrecover
      · exact agrees_error
      · rw [if_pos hdirty] at hadvance
        exact hadvance
      · rw [if_neg hdirty, if_pos hfetched] at hadvance
        exact hadvance
      · rw [if_neg hdirty, if_neg hfetched] at hadvance
        exact hadvance
    · obtain ⟨e, he⟩ := run_requireDescendant_error _ (Or.inr hdesc)
      rw [he]
      simp only
      rw [if_pos ⟨fun h => hdesc (Or.inl (by rw [hp, h])), by simpa using fun h => hdesc (Or.inr (Or.inl h)),
        by simpa using fun h => hdesc (Or.inr (Or.inr h))⟩]
      exact agrees_error

end Refinement

/-! ### Any number of attempts -/

section Attempts
variable {treeOf : String → String} {c : Change} {w : ResultWorktree} {r₀ : Repository}

/-- An attempt to apply a result delivers it whatever attempts died before it, unless the result is the base of a
    branch that does not exist. An attempt to fast forward delivers the commit exactly if the branch may be moved there
    and no earlier attempt died between the two commands (or the two trees are the same). Neither resets files that
    differ from the old and the new commit. -/
theorem interrupted_attempts_recover (hclean : r₀.CleanTree treeOf) (isAncestor : String → String → Bool)
    (commit : String) (ns : List Nat) :
    ((∀ x ∈ (applyResult treeOf c w).trace (Command.perform treeOf)
          ((applyResult treeOf c w).attempts (Command.perform treeOf) r₀ ns),
        Resets treeOf r₀.target c.resultCommit x.1 x.2) ∧
      ∀ moved t, (applyResult treeOf c w).run (Command.perform treeOf)
          ((applyResult treeOf c w).attempts (Command.perform treeOf) r₀ ns) = (.ok moved, t) →
        (t.Delivered treeOf c.resultCommit ↔ ¬(c.isNoOp ∧ r₀.target = none))) ∧
    (∀ x ∈ (fastForward treeOf isAncestor commit).trace (Command.perform treeOf)
          ((fastForward treeOf isAncestor commit).attempts (Command.perform treeOf) r₀ ns),
        Resets treeOf r₀.target commit x.1 x.2) ∧
      ∀ answer t, (fastForward treeOf isAncestor commit).run (Command.perform treeOf)
          ((fastForward treeOf isAncestor commit).attempts (Command.perform treeOf) r₀ ns) = (.ok answer, t) →
        (t.Delivered treeOf commit ↔ Mergeable isAncestor commit r₀ ∧
          (NeverTorn treeOf (fastForward treeOf isAncestor commit) r₀ ns ∨
            r₀.target.map treeOf = some (treeOf commit))) := by
  have hcrashed : Crashed treeOf c r₀ [] ((applyResult treeOf c w).attempts (Command.perform treeOf) r₀ ns) :=
    Program.Safe.attempts (Crashed treeOf c r₀ []) (fun u hu => applyResult_safe hclean hu) ⟨.start, fun _ => rfl⟩ ns
  refine ⟨⟨(applyResult_safe hclean hcrashed).trace, fun moved t h => ?_⟩, fastForward_resets hclean ns, ?_⟩
  · obtain ⟨-, hd⟩ := (applyResult_safe hclean hcrashed).run (congrArg Prod.fst h)
    rwa [h] at hd
  · intro answer t h
    by_cases hgo : Mergeable isAncestor commit r₀ ∧ r₀.target ≠ some commit
    · rw [fastForward_delivers_iff hclean hgo.1 hgo.2 h]
      exact (and_iff_right hgo.1).symm
    · have hsafe := fastForward_stays treeOf none hgo
      obtain ⟨hsame, hn⟩ := attempts_untouched hsafe ns
      rw [hsame] at h
      have hok : ((fastForward treeOf isAncestor commit).run (Command.perform treeOf) r₀).1 = .ok answer := by rw [h]
      obtain ⟨-, ht⟩ := hsafe.run hok
      rw [h] at ht
      obtain rfl : t = r₀ := ht
      constructor
      · rintro ⟨htarget, -⟩
        refine ⟨fun tip htip => Or.inl ?_, Or.inl hn⟩
        exact Option.some.inj (htip.symm.trans htarget)
      · rintro ⟨hm, -⟩
        have htarget : t.target = some commit := by
          by_contra hne
          exact hgo ⟨hm, hne⟩
        refine ⟨htarget, fun hco => ?_⟩
        have hfiles := hclean.1
        rw [Repository.head, if_pos hco, htarget] at hfiles
        simp [Repository.treeMatchesCommit, hfiles, hclean.2]

def sampleBranch : Repository := { target := some "base", checkedOut := true, files := some "base" }

def sampleChange : Change := ⟨"main", "base", "result"⟩

def sampleWorktree : ResultWorktree := { head := some "result", parent := some "base", fetched := some "result" }

/-- The first attempt dies before the branch is moved, the second before the files follow. -/
theorem interrupted_attempts_recover_sample :
    (applyResult id sampleChange sampleWorktree).run (Command.perform id)
      ((applyResult id sampleChange sampleWorktree).attempts (Command.perform id) sampleBranch [3, 10]) =
        (.ok false, sampleBranch.reset id "result") ∧
      (sampleBranch.reset id "result").Delivered id "result" := by
  have hclean : sampleBranch.CleanTree id := ⟨rfl, rfl⟩
  have hall := interrupted_attempts_recover (c := sampleChange) (w := sampleWorktree) hclean (fun _ _ => true) "result"
    [3, 10]
  have hrun : (applyResult id sampleChange sampleWorktree).run (Command.perform id)
      ((applyResult id sampleChange sampleWorktree).attempts (Command.perform id) sampleBranch [3, 10]) =
        (.ok false, sampleBranch.reset id "result") := rfl
  exact ⟨hrun, (hall.1.2 false _ hrun).mpr fun h => by cases h.2⟩

/-- A fast forward dies between the two commands: every later one answers that the branch is there, and the files stay
    those of the base. -/
theorem fastForward_leaves_files_behind : sampleBranch.CleanTree id ∧
    (fastForward id (fun _ _ => true) "result").run (Command.perform id)
      ((fastForward id (fun _ _ => true) "result").attempts (Command.perform id) sampleBranch [6]) =
        (.ok .already, { sampleBranch with target := some "result" }) ∧
      ¬Repository.Delivered id "result" { sampleBranch with target := some "result" } := by
  refine ⟨⟨rfl, rfl⟩, rfl, fun h => ?_⟩
  have hfiles : Repository.treeMatchesCommit id { sampleBranch with target := some "result" } "result" = true := h.2 rfl
  revert hfiles
  decide

end Attempts

end GitProgram

end Vuzol.Execution
