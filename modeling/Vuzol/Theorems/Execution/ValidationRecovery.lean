import Vuzol.Theorems.Execution.ResultValidation

/-! A validation that dies before it persists: the states it can leave behind, and when the next attempt gives the result
    that it would have given. -/

namespace Vuzol.Execution

open Vuzol.Lib ValidationProgram
open Vuzol.Lib.Program (Keeps run_observe_bind run_command_bind run_bind)

variable {b : WorktreeBase} {policy : ResultPolicy} {amendRepaired : Bool} {cuts cuts' : GitPath → List Nat}
  {s t s₀ : ValidationState} {c : Checkout} {α β : Type} {finalized : Option ResultKind}

theorem keeps_check_bind {I : ValidationState → Prop} {R : β → ValidationState → Prop} {x : Except ValidationError α}
    {f : α → ValidationProgram β} (hI : I s) (hf : ∀ a, x = .ok a → Keeps (ValidationCommand.perform b) I R (f a) s) :
    Keeps (ValidationCommand.perform b) I R (check x >>= f) s := by
  cases x with
  | ok a => exact hf a rfl
  | error e => exact .raise hI

def Rewriting (b : WorktreeBase) (s₀ s : ValidationState) : Prop :=
  ∃ files : GitTree, (∀ p, p ∉ b.paths → files p = s₀.checkout.files p) ∧ s = s₀.withFiles files

theorem Rewriting.refl : Rewriting b s s := ⟨s.checkout.files, fun _ _ => rfl, rfl⟩

theorem Rewriting.write {path : GitPath} {f : GitFile} (h : Rewriting b s₀ s) (hpath : path ∈ b.paths) :
    Rewriting b s₀ (ValidationCommand.perform b (.write path f) s) := by
  obtain ⟨files, hfiles, rfl⟩ := h
  refine ⟨Function.update files path (some f), fun p hp => ?_, rfl⟩
  have hne : p ≠ path := fun heq => hp (heq ▸ hpath)
  exact (Function.update_of_ne hne _ _).trans (hfiles p hp)

variable {p : GitPath}

theorem mem_paths_of_changed (h : p ∈ c.changedFiles b) : p ∈ b.paths := (List.mem_filter.mp h).1

theorem keeps_normalize : Keeps (ValidationCommand.perform b) (Rewriting b s)
    (fun _ u => u = { s with checkout := s.checkout.normalized b }) (normalize b cuts s.checkout) s := by
  have hwrites : Keeps (ValidationCommand.perform b) (Rewriting b s) (fun _ => Rewriting b s)
      (normalize b cuts s.checkout) s := by
    refine Keeps.forM (fun _ h => h) (fun path hpath u hu => ?_) .refl
    have hpath := mem_paths_of_changed hpath
    split
    · exact .ret hu hu
    · split
      · exact .ret hu hu
      · refine Keeps.bind (Keeps.forM (fun _ h => h) (fun n _ u hu => ?_) hu) fun _ u hu => ?_
        · exact .command hu (hu.write hpath) (hu.write hpath)
        · exact .command hu (hu.write hpath) (hu.write hpath)
  exact (hwrites.of_run run_normalize).mono (fun _ h => h) fun _ _ h => h.2

/-- The states between the normalisation and `_persist`. -/
inductive Finalizing (b : WorktreeBase) (amendRepaired : Bool) (m : ValidationState) :
    Option ResultKind → ValidationState → Prop
  | measured {finalized : Option ResultKind} : Finalizing b amendRepaired m finalized m
  | staged {staged : Checkout} (stage : m.checkout.stagePaths (m.checkout.changedFiles b) = .ok staged) :
    Finalizing b amendRepaired m none { m with checkout := staged }
  | committed {staged committed : Checkout} (stage : m.checkout.stagePaths (m.checkout.changedFiles b) = .ok staged)
    (commit : commitResult b (amends b amendRepaired m.row) staged = .ok committed) :
    Finalizing b amendRepaired m none { m with checkout := committed }

theorem keeps_finalize : Keeps (ValidationCommand.perform b) (Finalizing b amendRepaired s none)
    (fun _ => Finalizing b amendRepaired s none) (finalize b policy amendRepaired s.row (s.checkout.inspect b)) s := by
  have hconfirm : ∀ u, Finalizing b amendRepaired s none u →
      Keeps (ValidationCommand.perform b) (Finalizing b amendRepaired s none) (fun _ => Finalizing b amendRepaired s none)
        (confirm b (s.checkout.inspect b)) u := fun u hu =>
    .observe_bind rfl hu (keeps_check_bind hu fun _ _ => keeps_check_bind hu fun _ _ => .ret hu hu)
  rw [finalize]
  refine .observe_bind rfl .measured (keeps_check_bind .measured fun staged hstage => ?_)
  rw [mapError_eq_ok] at hstage
  refine .command_bind .measured ?_
  have hperform : ValidationCommand.perform b (.stage (s.checkout.inspect b).changedFiles) s = { s with checkout := staged } := by
    show s.git _ = _
    rw [hstage]
    rfl
  rw [hperform]
  have hstaged : Finalizing b amendRepaired s none { s with checkout := staged } := .staged hstage
  have hcommitted : ∀ {x : Except GitError Checkout} {committed : Checkout},
      x.mapError (fun _ => "validation_git_finalization") = .ok committed →
      commitResult b (amends b amendRepaired s.row) staged = x →
      Finalizing b amendRepaired s none (ValidationState.git { s with checkout := staged } x) := by
    intro x committed hx hcommit
    rw [mapError_eq_ok] at hx
    subst hx
    exact .committed hstage hcommit
  refine .observe_bind rfl hstaged (keeps_check_bind hstaged fun _ _ => ?_)
  split
  · next hamend =>
    refine keeps_check_bind hstaged fun committed hcommit => .command_bind hstaged (hconfirm _ ?_)
    refine hcommitted hcommit ?_
    rw [hamend]
    rfl
  · next hamend =>
    refine keeps_check_bind hstaged fun committed hcommit => .command_bind hstaged (hconfirm _ ?_)
    refine hcommitted hcommit ?_
    rw [Bool.not_eq_true] at hamend
    rw [hamend]
    rfl

def Persisted (log : List ValidationCommand) : Prop := ∃ e, ValidationCommand.persist e ∈ log

def ValidationCommand.isPersist : ValidationCommand → Bool
  | .persist _ => true
  | _ => false

variable {log : List ValidationCommand}

theorem not_persisted (h : log.any ValidationCommand.isPersist = false) : ¬Persisted log := by
  rintro ⟨e, he⟩
  exact absurd rfl (List.any_eq_false.mp h _ he)

theorem safe_conclude :
    (conclude b policy amendRepaired finalized).Safe (ValidationCommand.perform b)
      (fun log u => Persisted log ∨ Finalizing b amendRepaired s finalized u) (fun _ _ => True) (fun _ _ _ => True) log s := by
  have hpersist : ∀ (e : ValidationEvidence) log u, Finalizing b amendRepaired s finalized u →
      (exec (.persist e) >>= fun _ => .ret e : ValidationProgram ValidationEvidence).Safe (ValidationCommand.perform b)
        (fun log u => Persisted log ∨ Finalizing b amendRepaired s finalized u) (fun _ _ => True) (fun _ _ _ => True) log u :=
    fun e log u hu => ⟨Or.inr hu, trivial, Or.inl ⟨e, List.mem_append_right _ List.mem_cons_self⟩, trivial⟩
  refine ⟨Or.inr .measured, trivial, ?_⟩
  show (check (examine b policy amendRepaired finalized s) >>= _).Safe _ _ _ _ _ s
  cases hexamine : examine b policy amendRepaired finalized s with
  | error e => exact Or.inr .measured
  | ok settled =>
    cases settled with
    | some e => exact hpersist e _ s .measured
    | none =>
      have hnone : finalized = none := by
        obtain ⟨-, ⟨-, -, -, -, h⟩ | ⟨-, h⟩⟩ := examine_eq_ok.mp hexamine
        · cases h
        · exact Option.map_eq_none_iff.mp h.symm
      subst hnone
      show (finalize b policy amendRepaired s.row (s.checkout.inspect b) >>= _).Safe _ _ _ _ _ s
      refine Program.safe_bind.mpr ((keeps_finalize _).weaken (fun _ _ h => Or.inr h) fun e log u hu => ?_)
      exact hpersist e log u hu

/-- What an attempt has left that dies before `_persist`: files half rewritten, or a state behind the measurement. -/
def Left (b : WorktreeBase) (amendRepaired : Bool) (s₀ : ValidationState) (finalized : Option ResultKind)
    (s : ValidationState) : Prop :=
  (finalized = none ∧ Rewriting b s₀ s) ∨ Finalizing b amendRepaired (s₀.measured b finalized) finalized s

theorem safe_validate (hrecognize : recognize b amendRepaired s = .ok finalized) :
    (validate b policy amendRepaired cuts).Safe (ValidationCommand.perform b)
      (fun log u => Persisted log ∨ Left b amendRepaired s finalized u) (fun _ _ => True) (fun _ _ _ => True) log s := by
  have hconclude : ∀ log, (conclude b policy amendRepaired finalized).Safe (ValidationCommand.perform b)
      (fun log u => Persisted log ∨ Left b amendRepaired s finalized u) (fun _ _ => True) (fun _ _ _ => True) log
      (s.measured b finalized) := fun log =>
    safe_conclude.weaken (fun _ _ h => h.imp_right Or.inr) fun _ _ _ h => h
  have hleft : Left b amendRepaired s finalized s := by
    cases finalized with
    | none => exact Or.inl ⟨rfl, .refl⟩
    | some kind => exact Or.inr .measured
  refine ⟨Or.inr hleft, trivial, ?_⟩
  show (check (recognize b amendRepaired s) >>= _).Safe _ _ _ _ _ s
  rw [hrecognize]
  cases finalized with
  | some kind => exact hconclude _
  | none =>
    show (normalize b cuts s.checkout >>= fun _ => conclude b policy amendRepaired none).Safe _ _ _ _ _ s
    refine Program.safe_bind.mpr ((keeps_normalize _).weaken (fun _ _ h => Or.inr (Or.inl ⟨rfl, h⟩)) fun _ log u hu => ?_)
    rw [hu]
    exact hconclude log

theorem left_of_interrupted {n : Nat} (hrecognize : recognize b amendRepaired s = .ok finalized)
    (hlog : ¬Persisted ((validate b policy amendRepaired cuts).executed (ValidationCommand.perform b) n s)) :
    Left b amendRepaired s finalized
      (Program.interrupted (ValidationCommand.perform b) n (validate b policy amendRepaired cuts) s) :=
  Or.resolve_left ((safe_validate hrecognize).interrupted n : Persisted ([] ++ _) ∨ _) hlog

structure Checkout.Sound (b : WorktreeBase) (c : Checkout) : Prop where
  base : c.head.id = b.commit.id → c.head = b.commit
  head : c.head.id < c.nextCommit
  commit : b.commit.id < c.nextCommit

/-- The measured files have the same effect as the ones of the retained worktree, and can be staged again. -/
def Repeatable (b : WorktreeBase) (policy : ResultPolicy) (s₀ s : ValidationState) : Prop :=
  (s.checkout.normalized b).files = (s₀.checkout.normalized b).files ∧
    (∀ p ∈ (s.checkout.normalized b).changedFiles b, s.checkout.index p = none →
      (s.checkout.normalized b).files p ≠ none) ∧
    policy.check (s.checkout.normalized b).files ((s.checkout.normalized b).inspect b) = .ok ()

/-- `HEAD` is the commit of the dead attempt, and its diff is the retained one. -/
def Recognizable (b : WorktreeBase) (policy : ResultPolicy) (amendRepaired : Bool) (s₀ s : ValidationState) : Prop :=
  amends b amendRepaired s₀.row = false ∧ s.checkout.diff b = s₀.checkout.diff b ∧
    policy.check s.checkout.files (s.checkout.inspect b) = .ok ()

/-- The next attempt gives the result of the attempt that ended in `t` with `e`. -/
def Retries (b : WorktreeBase) (policy : ResultPolicy) (amendRepaired : Bool) (cuts : GitPath → List Nat)
    (e : ValidationEvidence) (t s : ValidationState) : Prop :=
  ∃ e' t', (validate b policy amendRepaired cuts).run (ValidationCommand.perform b) s = (.ok e', t') ∧
    t'.checkout.head.tree = t.checkout.head.tree ∧ e'.changedFiles = e.changedFiles

/-- `HEAD` has not moved. -/
structure Standing (b : WorktreeBase) (s₀ s : ValidationState) : Prop where
  row : s.row = s₀.row
  head : s.checkout.head = s₀.checkout.head
  branch : s.checkout.branch = s₀.checkout.branch
  files : ∀ p, p ∉ b.paths → s.checkout.files p = s₀.checkout.files p

theorem Rewriting.standing (h : Rewriting b s₀ s) : Standing b s₀ s := by
  obtain ⟨files, hfiles, rfl⟩ := h
  exact ⟨rfl, rfl, rfl, hfiles⟩

theorem Standing.recognize (h : Standing b s₀ s) (hrecognize : recognize b amendRepaired s₀ = .ok none) :
    recognize b amendRepaired s = .ok none := by
  have hbranch := branch_of_recognize hrecognize
  rcases (recognize_eq_none_iff hrecognize).mp rfl with hamend | hhead
  · obtain ⟨-, -, hresult, hchild⟩ := (recognize_amend hamend).mp hrecognize
    refine (recognize_amend (h.row ▸ hamend)).mpr ⟨?_, rfl, ?_, ?_⟩
    · rw [h.branch, h.row, hbranch]
    · rw [h.row, h.head, hresult]
    · rw [requireChildOfBase, h.head]
      exact hchild
  · cases hamend : amends b amendRepaired s.row with
    | true =>
      rw [h.row] at hamend
      obtain ⟨-, -, hresult, -⟩ := (recognize_amend hamend).mp hrecognize
      rw [hhead] at hresult
      rw [amends, hresult] at hamend
      simp at hamend
    | false =>
      refine (recognize_base hamend (h.head ▸ hhead)).mpr ⟨?_, rfl⟩
      rw [h.branch, h.row, hbranch]

namespace Checkout

theorem tracked_of_agree (h : c.index p = c.files p) : c.tracked p = c.files p := by
  cases hindex : c.index p with
  | some f => exact tracked_of_index hindex
  | none => rw [tracked_of_index_none hindex, ← h, hindex]

theorem changedFiles_of_agree (h : ∀ p ∈ b.paths, c.index p = c.files p) : c.changedFiles b = c.fileChanges b := by
  refine List.filter_congr fun p hp => decide_eq_decide.mpr ?_
  rw [mem_trackedChanges, mem_untracked, tracked_of_agree (h p hp)]
  constructor
  · rintro (⟨-, hne⟩ | ⟨-, hindex, hfile⟩)
    · exact hne
    · exact absurd ((h p hp).symm.trans hindex) hfile
  · exact fun hne => Or.inl ⟨hp, hne⟩

theorem Clean.agree (h : c.Clean b) : ∀ p ∈ b.paths, c.index p = c.files p := fun p hp => (h p hp).1

theorem normalized_files_of_not_mem (h : p ∉ b.paths) : (c.normalized b).files p = c.files p :=
  if_neg fun hchanged => h (mem_paths_of_changed hchanged)

end Checkout

theorem created_facts {m : ValidationState} {staged committed : Checkout}
    (hstage : m.checkout.stagePaths (m.checkout.changedFiles b) = .ok staged)
    (hcommit : commitResult b (amends b amendRepaired m.row) staged = .ok committed) (hclean : committed.Clean b) :
    committed.files = m.checkout.files ∧ committed.head.tree = staged.index ∧
      (∀ p ∈ b.paths, staged.index p = m.checkout.files p) ∧ committed.changedFiles b = m.checkout.fileChanges b := by
  obtain ⟨-, -, rfl⟩ := stagePaths_eq_ok.mp hstage
  obtain ⟨hfiles, hindex, -, htree⟩ := commitResult_frame hcommit
  refine ⟨hfiles, htree, fun p hp => ?_, ?_⟩
  · rw [← hindex, (hclean p hp).1, hfiles]
  · rw [Checkout.changedFiles_of_agree hclean.agree, Checkout.fileChanges, Checkout.fileChanges, hfiles]

theorem fileChanges_ne_nil {m : ValidationState} {staged committed : Checkout} (hsound : m.checkout.Sound b)
    (hhead : amends b amendRepaired m.row = true ∨ m.checkout.head.id = b.commit.id)
    (hstage : m.checkout.stagePaths (m.checkout.changedFiles b) = .ok staged)
    (hcommit : commitResult b (amends b amendRepaired m.row) staged = .ok committed) (hclean : committed.Clean b) :
    m.checkout.fileChanges b ≠ [] := by
  obtain ⟨-, -, hagree, -⟩ := created_facts hstage hcommit hclean
  have hdiffers : ∃ p ∈ b.paths, b.commit.tree p ≠ staged.index p := by
    cases hamend : amends b amendRepaired m.row with
    | true =>
      rw [hamend] at hcommit
      exact (amendCommit_eq_ok.mp hcommit).1
    | false =>
      rw [hamend] at hcommit hhead
      have hbase := hsound.base (hhead.resolve_left Bool.false_ne_true)
      have hkept : staged.head = m.checkout.head := (stagePaths_eq_ok.mp hstage).2.2 ▸ rfl
      have hcommit := (createCommit_eq_ok.mp hcommit).1
      rwa [hkept, hbase] at hcommit
  obtain ⟨p, hp, hne⟩ := hdiffers
  rw [hagree p hp] at hne
  exact List.ne_nil_of_mem (Checkout.mem_fileChanges.mpr ⟨hp, hne⟩)

/-- What an attempt that made a commit has done, from the retained state on. -/
structure Created (b : WorktreeBase) (policy : ResultPolicy) (amendRepaired : Bool) (s₀ : ValidationState)
    (e : ValidationEvidence) (t : ValidationState) (staged : Checkout) : Prop where
  recognized : recognize b amendRepaired s₀ = .ok none
  stage : (s₀.checkout.normalized b).stagePaths ((s₀.checkout.normalized b).changedFiles b) = .ok staged
  diffCheck : policy.diffCheck s₀.checkout.head.tree staged.index = true
  commit : commitResult b (amends b amendRepaired s₀.row) staged = .ok t.checkout
  child : requireChildOfBase b t.checkout = .ok ()
  clean : t.checkout.Clean b
  changedFiles : e.changedFiles = t.checkout.changedFiles b
  changed : t.checkout.changedFiles b ≠ []

namespace Created

variable {e : ValidationEvidence} {staged : Checkout} (h : Created b policy amendRepaired s₀ e t staged)
include h

theorem facts : t.checkout.files = (s₀.checkout.normalized b).files ∧ t.checkout.head.tree = staged.index ∧
    ∀ p ∈ b.paths, staged.index p = (s₀.checkout.normalized b).files p := by
  obtain ⟨hfiles, htree, hagree, -⟩ :=
    created_facts (m := { s₀ with checkout := s₀.checkout.normalized b }) h.stage h.commit h.clean
  exact ⟨hfiles, htree, hagree⟩

theorem staged_eq : staged = { s₀.checkout.normalized b with index := staged.index } := by
  obtain ⟨-, -, heq⟩ := stagePaths_eq_ok.mp h.stage
  rw [heq]

theorem standing_staged : Standing b s₀ { s₀ with checkout := staged } := by
  rw [h.staged_eq]
  exact ⟨rfl, rfl, rfl, fun p hp => Checkout.normalized_files_of_not_mem hp⟩

theorem repeatable (hs : Standing b s₀ s) (hretries : Retries b policy amendRepaired cuts' e t s) :
    Repeatable b policy s₀ s := by
  obtain ⟨e', t', hrun, htree, hchanged⟩ := hretries
  obtain ⟨finalized, hrecognize, hrun⟩ := run_validate_ok.mp hrun
  rw [hs.recognize h.recognized] at hrecognize
  cases hrecognize
  obtain ⟨hcheck, checkout, hsettles, rfl⟩ := run_conclude_ok.mp hrun
  cases hsettles with
  | noChange hrepaired hunchanged hclean =>
    exact absurd (h.changedFiles.symm.trans (hchanged.symm.trans hunchanged)) h.changed
  | created hstage hdiff hcommit hchild hclean =>
    obtain ⟨-, htree', hagree, -⟩ := created_facts hstage hcommit hclean
    refine ⟨funext fun p => ?_, (stagePaths_eq_ok.mp hstage).2.1, hcheck⟩
    by_cases hp : p ∈ b.paths
    · rw [← h.facts.2.2 p hp, ← h.facts.2.1, ← htree]
      exact (hagree p hp).symm.trans (congrFun htree'.symm p)
    · rw [Checkout.normalized_files_of_not_mem hp, Checkout.normalized_files_of_not_mem hp]
      exact hs.files p hp

theorem retries_of_rewriting (hrun : (validate b policy amendRepaired cuts).run (ValidationCommand.perform b) s₀ = (.ok e, t))
    (hs : Rewriting b s₀ s) (hrepeat : Repeatable b policy s₀ s) : Retries b policy amendRepaired cuts' e t s := by
  refine ⟨e, t, run_validate_ok.mpr ⟨none, hs.standing.recognize h.recognized, ?_⟩, rfl, rfl⟩
  obtain ⟨finalized, hrecognize, hrun⟩ := run_validate_ok.mp hrun
  rw [h.recognized] at hrecognize
  cases hrecognize
  obtain ⟨files, -, rfl⟩ := hs
  have hmeasured : (s₀.withFiles files).measured b none = s₀.measured b none := by
    show s₀.withFiles ((s₀.checkout.files, (s₀.withFiles files).checkout.normalized b).2.files) = _
    rw [hrepeat.1]
    rfl
  rw [hmeasured]
  exact hrun

theorem retries_of_staged (hrepeat : Repeatable b policy s₀ { s₀ with checkout := staged }) :
    Retries b policy amendRepaired cuts' e t { s₀ with checkout := staged } := by
  obtain ⟨hfiles, hstageable, hcheck⟩ := hrepeat
  obtain ⟨hfinal, -, hagree⟩ := h.facts
  have hstaged : staged.files = (s₀.checkout.normalized b).files := by rw [h.staged_eq]
  have hnormalized : staged.normalized b = staged := by
    have heta : staged.normalized b = { staged with files := (staged.normalized b).files } := rfl
    rw [heta, hfiles, ← hstaged]
  simp only [hnormalized] at hstageable hcheck
  have hchanged : staged.changedFiles b = t.checkout.changedFiles b := by
    rw [Checkout.changedFiles_of_agree fun p hp => (hagree p hp).trans (congrFun hstaged.symm p),
      Checkout.changedFiles_of_agree h.clean.agree]
    rw [Checkout.fileChanges, Checkout.fileChanges, hstaged, hfinal]
  have hstage : staged.stagePaths (staged.changedFiles b) = .ok staged := by
    refine stagePaths_eq_ok.mpr ⟨hchanged ▸ h.changed, hstageable, ?_⟩
    have hindex : (fun p => if p ∈ staged.changedFiles b then staged.files p else staged.index p) = staged.index := by
      refine funext fun p => ?_
      split
      · next hp => rw [hagree p (mem_paths_of_changed hp), hstaged]
      · rfl
    rw [hindex]
  have hhead : staged.head = s₀.checkout.head := by rw [h.staged_eq]; rfl
  have hmeasured : ValidationState.measured b none { s₀ with checkout := staged } = { s₀ with checkout := staged } := by
    show { s₀ with checkout := staged.normalized b } = _
    rw [hnormalized]
  have hsettles : Settles b policy amendRepaired { s₀ with checkout := staged } none
      (createdEvidence b (staged.inspect b) t.checkout) t.checkout :=
    .created hstage (hhead ▸ h.diffCheck) h.commit h.child h.clean
  have hrun : (validate b policy amendRepaired cuts').run (ValidationCommand.perform b) { s₀ with checkout := staged } =
      (.ok (createdEvidence b (staged.inspect b) t.checkout), ValidationCommand.perform b
        (.persist (createdEvidence b (staged.inspect b) t.checkout)) { s₀ with checkout := t.checkout }) := by
    refine run_validate_ok.mpr ⟨none, h.standing_staged.recognize h.recognized, ?_⟩
    rw [hmeasured]
    exact run_conclude_ok.mpr ⟨hcheck, t.checkout, hsettles, rfl⟩
  exact ⟨_, _, hrun, rfl, (if_neg h.changed).trans h.changedFiles.symm⟩

theorem head_id : t.checkout.head.id = s₀.checkout.nextCommit := by
  have hnext : staged.nextCommit = s₀.checkout.nextCommit := by rw [h.staged_eq]; rfl
  have hcommit := h.commit
  rw [← hnext]
  cases hamend : amends b amendRepaired s₀.row with
  | true =>
    rw [hamend] at hcommit
    rw [(amendCommit_eq_ok.mp hcommit).2]
  | false =>
    rw [hamend] at hcommit
    rw [(createCommit_eq_ok.mp hcommit).2]

theorem retries_of_committed (hsound : s₀.checkout.Sound b) (hresult : s₀.row.resultCommit = some s₀.checkout.head.id)
    (hhash : s₀.row.diffHash = some (s₀.checkout.diff b)) :
    Retries b policy amendRepaired cuts' e t { s₀ with checkout := t.checkout } ↔
      Recognizable b policy amendRepaired s₀ { s₀ with checkout := t.checkout } := by
  have hnew : t.checkout.head.id ≠ s₀.checkout.head.id := by rw [h.head_id]; exact hsound.head.ne'
  have hnewBase : t.checkout.head.id ≠ b.commit.id := by rw [h.head_id]; exact hsound.commit.ne'
  constructor
  · rintro ⟨e', t', hrun, -, -⟩
    obtain ⟨finalized, hrecognize, hrun⟩ := run_validate_ok.mp hrun
    cases hamend : amends b amendRepaired s₀.row with
    | true =>
      obtain ⟨-, -, hnow, -⟩ := (recognize_amend (s := { s₀ with checkout := t.checkout }) hamend).mp hrecognize
      exact absurd (Option.some.inj (hresult.symm.trans hnow)).symm hnew
    | false =>
      obtain ⟨-, hdiff, -, -, -, rfl⟩ :=
        (recognize_head (s := { s₀ with checkout := t.checkout }) hamend hnewBase).mp hrecognize
      exact ⟨hamend, Option.some.inj (hdiff.symm.trans hhash), (run_conclude_ok.mp hrun).1⟩
  · rintro ⟨hamend, hdiff, hcheck⟩
    have hbase : s₀.checkout.head.id = b.commit.id := by
      refine ((recognize_eq_none_iff h.recognized).mp rfl).resolve_left ?_
      rw [hamend]
      exact Bool.false_ne_true
    have hmarker : s₀.row.resultCommit = some b.commit.id := hbase ▸ hresult
    have hbranch : t.checkout.branch = s₀.row.branch := by
      have hkept : staged.branch = s₀.checkout.branch := by rw [h.staged_eq]; rfl
      rw [(commitResult_frame h.commit).2.2.1, hkept, branch_of_recognize h.recognized]
    have hrecognize : recognize b amendRepaired { s₀ with checkout := t.checkout } = .ok (some .recovered) :=
      (recognize_head (s := { s₀ with checkout := t.checkout }) hamend hnewBase).mpr ⟨hbranch,
        hhash.trans (congrArg some hdiff.symm), Or.inl hmarker, h.clean, h.child, (congrArg some (if_pos hmarker)).symm⟩
    have hsettles : Settles b policy amendRepaired { s₀ with checkout := t.checkout } (some .recovered) _ t.checkout :=
      .found .recovered h.changed
    exact ⟨_, _, run_validate_ok.mpr ⟨_, hrecognize, run_conclude_ok.mpr ⟨hcheck, _, hsettles, rfl⟩⟩, rfl,
      h.changedFiles.symm⟩

end Created

theorem created_of_run {e : ValidationEvidence} (hsound : s₀.checkout.Sound b)
    (hrun : (validate b policy amendRepaired cuts).run (ValidationCommand.perform b) s₀ = (.ok e, t))
    (hchange : e.kind ≠ .noChange) (hrecognize : recognize b amendRepaired s₀ = .ok none) :
    ∃ staged, Created b policy amendRepaired s₀ e t staged := by
  obtain ⟨finalized, hrecognize', hrun⟩ := run_validate_ok.mp hrun
  rw [hrecognize] at hrecognize'
  cases hrecognize'
  obtain ⟨-, checkout, hsettles, rfl⟩ := run_conclude_ok.mp hrun
  cases hsettles with
  | noChange hrepaired hunchanged hclean => exact absurd rfl hchange
  | created hstage hdiff hcommit hchild hclean =>
    have hchanged : checkout.changedFiles b ≠ [] := by
      rw [(created_facts hstage hcommit hclean).2.2.2]
      refine fileChanges_ne_nil (m := s₀.measured b none) ⟨hsound.base, hsound.head, hsound.commit⟩ ?_ hstage hcommit hclean
      exact (recognize_eq_none_iff hrecognize).mp rfl
    exact ⟨_, hrecognize, hstage, hdiff, hcommit, hchild, hclean, if_neg hchanged, hchanged⟩

/-- What the next attempt needs of the state `s` that an attempt from `s₀` left. -/
def Recoverable (b : WorktreeBase) (policy : ResultPolicy) (amendRepaired : Bool) (s₀ s : ValidationState) : Prop :=
  (amends b amendRepaired s₀.row = false ∧ s₀.checkout.head.id ≠ b.commit.id) ∨
    if s.checkout.head.id = s₀.checkout.head.id then Repeatable b policy s₀ s else Recognizable b policy amendRepaired s₀ s

/-- An attempt at a retained worktree succeeds with a change; another one dies before its `_persist` and leaves `s`. The next
    one gives the same commit and changed files exactly if `s` is recoverable. -/
theorem validation_crash_recoverable {retained : ValidationState} {e : ValidationEvidence} {n : Nat}
    (hretained : s₀ = retain b retained) (hsound : s₀.checkout.Sound b)
    (hrun : (validate b policy amendRepaired cuts).run (ValidationCommand.perform b) s₀ = (.ok e, t))
    (hchange : e.kind ≠ .noChange)
    (hlog : ¬Persisted ((validate b policy amendRepaired cuts).executed (ValidationCommand.perform b) n s₀))
    (hs : s = Program.interrupted (ValidationCommand.perform b) n (validate b policy amendRepaired cuts) s₀) :
    Retries b policy amendRepaired cuts' e t s ↔ Recoverable b policy amendRepaired s₀ s := by
  obtain ⟨finalized, hrecognize, -⟩ := run_validate_ok.mp hrun
  have hleft : Left b amendRepaired s₀ finalized s := hs ▸ left_of_interrupted hrecognize hlog
  cases finalized with
  | some kind =>
    have hfound := mt (recognize_eq_none_iff hrecognize).mpr (Option.some_ne_none kind)
    rw [not_or, Bool.not_eq_true] at hfound
    have hsame : s = s₀ := by
      rcases hleft with ⟨hnone, -⟩ | hleft
      · cases hnone
      · cases hleft
        rfl
    refine iff_of_true ⟨e, t, ?_, rfl, rfl⟩ (Or.inl hfound)
    rw [hsame]
    exact run_validate_ok.mpr (run_validate_ok.mp hrun)
  | none =>
    obtain ⟨staged, hcreated⟩ := created_of_run hsound hrun hchange hrecognize
    have hfirst : ¬(amends b amendRepaired s₀.row = false ∧ s₀.checkout.head.id ≠ b.commit.id) := by
      rintro ⟨hamend, hhead⟩
      rcases (recognize_eq_none_iff hrecognize).mp rfl with h | h
      · exact Bool.false_ne_true (hamend.symm.trans h)
      · exact hhead h
    rw [Recoverable, or_iff_right hfirst]
    have hrewriting : Rewriting b s₀ s → (Retries b policy amendRepaired cuts' e t s ↔
        if s.checkout.head.id = s₀.checkout.head.id then Repeatable b policy s₀ s
          else Recognizable b policy amendRepaired s₀ s) := by
      intro h
      rw [if_pos (congrArg GitCommit.id h.standing.head)]
      exact ⟨hcreated.repeatable h.standing, hcreated.retries_of_rewriting hrun h⟩
    rcases hleft with ⟨-, hleft⟩ | hleft
    · exact hrewriting hleft
    · cases hleft with
      | measured => exact hrewriting ⟨_, fun p hp => Checkout.normalized_files_of_not_mem hp, rfl⟩
      | staged hstage =>
        cases hstage.symm.trans hcreated.stage
        have hstanding := hcreated.standing_staged
        show _ ↔ if staged.head.id = s₀.checkout.head.id then _ else _
        rw [if_pos (congrArg GitCommit.id hstanding.head)]
        exact ⟨hcreated.repeatable hstanding, hcreated.retries_of_staged⟩
      | committed hstage hcommit =>
        cases hstage.symm.trans hcreated.stage
        cases hcommit.symm.trans hcreated.commit
        have hnew : t.checkout.head.id ≠ s₀.checkout.head.id := by
          rw [hcreated.head_id]
          exact hsound.head.ne'
        show _ ↔ if t.checkout.head.id = s₀.checkout.head.id then _ else _
        rw [if_neg hnew]
        subst hretained
        exact hcreated.retries_of_committed hsound rfl rfl

def retainedState (content : Bytes) : ValidationState := retain smallBase (smallState content ['z'])

abbrev smallAttempt (s : ValidationState) : Except ValidationError ValidationEvidence × ValidationState :=
  (validate smallBase lenientPolicy false fun _ => []).run (ValidationCommand.perform smallBase) s

abbrev smallLog (n : Nat) (s : ValidationState) : List ValidationCommand :=
  (validate smallBase lenientPolicy false fun _ => []).executed (ValidationCommand.perform smallBase) n s

abbrev smallCrash (n : Nat) (s : ValidationState) : ValidationState :=
  (validate smallBase lenientPolicy false fun _ => []).interrupted (ValidationCommand.perform smallBase) n s

theorem retainedState_sound (content : Bytes) : (retainedState content).checkout.Sound smallBase :=
  ⟨fun _ => rfl, Nat.zero_lt_one, Nat.zero_lt_one⟩

/-- The worker dies behind the commit of files that were normalised. -/
theorem validation_stuck_after_commit :
    ∃ e t, smallAttempt (retainedState [50, 32, 10]) = (.ok e, t) ∧ e.kind = .created ∧
      ¬Persisted (smallLog 8 (retainedState [50, 32, 10])) ∧
      ¬Retries smallBase lenientPolicy false (fun _ => []) e t (smallCrash 8 (retainedState [50, 32, 10])) := by
  have hrun : (smallAttempt (retainedState [50, 32, 10])).1 = .ok (smallEvidence [['m'], ['z']] ['z']) := by
    decide +kernel
  have hstuck : (smallAttempt (smallCrash 8 (retainedState [50, 32, 10]))).1 = .error "validation_precommitted" := by
    decide +kernel
  refine ⟨_, (smallAttempt (retainedState [50, 32, 10])).2, Prod.ext hrun rfl, rfl, not_persisted (by decide +kernel), ?_⟩
  rintro ⟨e', t', hretry, -⟩
  have hretry : (smallAttempt (smallCrash 8 (retainedState [50, 32, 10]))).1 = .ok e' := congrArg Prod.fst hretry
  exact absurd (hstuck.symm.trans hretry) nofun

theorem validation_crash_recoverable_after_commit :
    ∃ e t, smallAttempt (retainedState [50, 10]) = (.ok e, t) ∧ e.kind = .created ∧
      Retries smallBase lenientPolicy false (fun _ => []) e t (smallCrash 6 (retainedState [50, 10])) := by
  have hrun : (smallAttempt (retainedState [50, 10])).1 = .ok (smallEvidence [['m'], ['z']] ['z']) := by
    decide +kernel
  have hrun : smallAttempt (retainedState [50, 10]) = (_, (smallAttempt (retainedState [50, 10])).2) := Prod.ext hrun rfl
  have hmoved : (smallCrash 6 (retainedState [50, 10])).checkout.head.id ≠ (retainedState [50, 10]).checkout.head.id := by
    decide +kernel
  have hrecoverable : Recoverable smallBase lenientPolicy false (retainedState [50, 10])
      (smallCrash 6 (retainedState [50, 10])) := by
    rw [Recoverable, if_neg hmoved]
    exact Or.inr ⟨by decide +kernel, by decide +kernel, by decide +kernel⟩
  exact ⟨_, _, hrun, rfl, (validation_crash_recoverable rfl (retainedState_sound _) hrun nofun
    (not_persisted (by decide +kernel)) rfl).mpr hrecoverable⟩

end Vuzol.Execution
