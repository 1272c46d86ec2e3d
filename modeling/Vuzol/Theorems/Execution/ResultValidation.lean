import Mathlib.Data.List.Sort
import Vuzol.Execution.ResultValidation

/-! What a validation that succeeds has done, and when the diff hash that it records is the hash of the committed result. -/

namespace Vuzol.Execution

open Vuzol.Lib ValidationProgram
open Vuzol.Lib.Program (run_observe_bind run_command_bind run_bind)

variable {b : WorktreeBase} {policy : ResultPolicy} {amendRepaired : Bool} {cuts : GitPath → List Nat}
variable {c' : Checkout} {i : GitInspection} {e : ValidationEvidence}
  {s t : ValidationState} {c : Checkout} {α β : Type}

/-! ### Sections -/

namespace Checkout

variable {p : GitPath}

theorem mem_trackedChanges : p ∈ c.trackedChanges b ↔ p ∈ b.paths ∧ b.commit.tree p ≠ c.tracked p := by
  rw [trackedChanges, List.mem_filter, decide_eq_true_eq]

theorem mem_untracked : p ∈ c.untracked b ↔ p ∈ b.paths ∧ c.index p = none ∧ c.files p ≠ none := by
  rw [untracked, List.mem_filter, decide_eq_true_eq]

theorem tracked_of_index {f : GitFile} (h : c.index p = some f) : c.tracked p = c.files p := by
  rw [tracked, h]
  rfl

theorem tracked_of_index_none (h : c.index p = none) : c.tracked p = none := by
  rw [tracked, h]
  rfl

def fileChanges (b : WorktreeBase) (c : Checkout) : List GitPath := b.paths.filter fun p => b.commit.tree p ≠ c.files p

def fileDiff (b : WorktreeBase) (c : Checkout) : GitDiff :=
  (c.fileChanges b).map fun p => { path := p, before := b.commit.tree p, after := c.files p }

theorem mem_fileChanges : p ∈ c.fileChanges b ↔ p ∈ b.paths ∧ b.commit.tree p ≠ c.files p := by
  rw [fileChanges, List.mem_filter, decide_eq_true_eq]

theorem fileDiff_paths : (c.fileDiff b).map (·.path) = c.fileChanges b := by
  rw [fileDiff, List.map_map]
  exact List.map_id _

theorem diff_paths : (c.diff b).map (·.path) = c.trackedChanges b ++ c.untracked b := by
  rw [diff, List.map_append, List.map_map, List.map_map]
  exact congrArg₂ (· ++ ·) (List.map_id _) (List.map_id _)

def InOrder (b : WorktreeBase) (c : Checkout) : Prop := ∀ p ∈ c.trackedChanges b, ∀ q ∈ c.untracked b, p < q

instance : Decidable (c.InOrder b) := inferInstanceAs (Decidable (∀ p ∈ c.trackedChanges b, _))

theorem InOrder.not_both (h : c.InOrder b) (hp : p ∈ c.trackedChanges b) : p ∉ c.untracked b := fun hq =>
  lt_irrefl p (h p hp p hq)

theorem InOrder.after_eq (h : c.InOrder b) {p : GitPath} (hp : p ∈ c.trackedChanges b) : c.tracked p = c.files p := by
  cases hindex : c.index p with
  | some f => exact tracked_of_index hindex
  | none =>
    rw [tracked_of_index_none hindex]
    by_contra hfile
    exact h.not_both hp (mem_untracked.mpr ⟨(mem_trackedChanges.mp hp).1, hindex, fun hnone => hfile hnone.symm⟩)

theorem InOrder.before_eq (h : c.InOrder b) (hp : p ∈ c.untracked b) : b.commit.tree p = none := by
  by_contra hbase
  obtain ⟨hpath, hindex, -⟩ := mem_untracked.mp hp
  refine h.not_both (mem_trackedChanges.mpr ⟨hpath, ?_⟩) hp
  rw [tracked_of_index_none hindex]
  exact hbase

theorem changed_of_fileChange {p : GitPath} (hp : p ∈ c.fileChanges b) : p ∈ c.trackedChanges b ∨ p ∈ c.untracked b := by
  obtain ⟨hpath, hne⟩ := mem_fileChanges.mp hp
  cases hindex : c.index p with
  | some f => exact Or.inl (mem_trackedChanges.mpr ⟨hpath, by rwa [tracked_of_index hindex]⟩)
  | none =>
    by_cases hfile : c.files p = none
    · rw [hfile] at hne
      exact Or.inl (mem_trackedChanges.mpr ⟨hpath, by rwa [tracked_of_index_none hindex]⟩)
    · exact Or.inr (mem_untracked.mpr ⟨hpath, hindex, hfile⟩)

theorem InOrder.fileChanges_eq (h : c.InOrder b) : c.trackedChanges b ++ c.untracked b = c.fileChanges b := by
  have hsorted : ∀ {q : GitPath → Bool}, (b.paths.filter q).Pairwise (· < ·) := b.sorted.filter _
  refine List.Pairwise.eq_of_mem_iff (List.pairwise_append.mpr ⟨hsorted, hsorted, h⟩) hsorted fun p => ?_
  rw [List.mem_append]
  refine ⟨fun hp => ?_, changed_of_fileChange⟩
  rcases hp with hp | hp
  · exact mem_fileChanges.mpr ⟨(mem_trackedChanges.mp hp).1, h.after_eq hp ▸ (mem_trackedChanges.mp hp).2⟩
  · obtain ⟨hpath, -, hfile⟩ := mem_untracked.mp hp
    exact mem_fileChanges.mpr ⟨hpath, by rw [h.before_eq hp]; exact Ne.symm hfile⟩

theorem diff_eq_fileDiff : c.diff b = c.fileDiff b ↔ c.InOrder b := by
  constructor
  · intro heq p hp q hq
    have hpaths : c.trackedChanges b ++ c.untracked b = c.fileChanges b := by
      rw [← diff_paths, heq, fileDiff_paths]
    have hsorted : (c.fileChanges b).Pairwise (· < ·) := b.sorted.filter _
    rw [← hpaths] at hsorted
    exact (List.pairwise_append.mp hsorted).2.2 p hp q hq
  · intro h
    rw [diff, fileDiff, ← h.fileChanges_eq, List.map_append]
    refine congrArg₂ (· ++ ·) (List.map_congr_left fun p hp => ?_) (List.map_congr_left fun p hp => ?_)
    · rw [h.after_eq hp]
    · rw [h.before_eq hp]

theorem diff_of_clean (h : c.Clean b) : c.diff b = c.fileDiff b := by
  refine diff_eq_fileDiff.mpr fun p _ q hq => ?_
  obtain ⟨hpath, hindex, hfile⟩ := mem_untracked.mp hq
  exact absurd ((h q hpath).1.symm.trans hindex) hfile

end Checkout

/-! ### What a run has done -/

theorem run_check_bind {x : Except ValidationError α} {f : α → ValidationProgram β} :
    (check x >>= f).run (ValidationCommand.perform b) s =
      match x with
      | .ok a => (f a).run (ValidationCommand.perform b) s
      | .error e => (.error e, s) := by
  cases x <;> rfl

theorem run_check_bind_ok {x : Except ValidationError α} {f : α → ValidationProgram β} {r : β} :
    (check x >>= f).run (ValidationCommand.perform b) s = (.ok r, t) ↔
      ∃ a, x = .ok a ∧ (f a).run (ValidationCommand.perform b) s = (.ok r, t) := by
  rw [run_check_bind]
  cases x with
  | ok a =>
    constructor
    · exact fun h => ⟨a, rfl, h⟩
    · rintro ⟨_, ha, h⟩
      cases ha
      exact h
  | error e =>
    constructor
    · intro h
      cases h
    · rintro ⟨_, h, -⟩
      cases h

abbrev ValidationState.withFiles (s : ValidationState) (files : GitTree) : ValidationState :=
  { s with checkout := { s.checkout with files } }

theorem run_writeBytes {path : GitPath} {f : GitFile} :
    (writeBytes cuts path f).run (ValidationCommand.perform b) s =
      (.ok (), s.withFiles (Function.update s.checkout.files path (some f))) := by
  have hcuts : ∀ (ns : List Nat) (s : ValidationState), ∃ g : Option GitFile,
      ((ns.forM fun n => exec (.write path { f with content := f.content.take n }) : ValidationProgram Unit)).run
        (ValidationCommand.perform b) s = (.ok (), s.withFiles (Function.update s.checkout.files path g)) := by
    intro ns
    induction ns with
    | nil => exact fun s => ⟨s.checkout.files path, by rw [Function.update_eq_self]; rfl⟩
    | cons n ns ih =>
      intro s
      obtain ⟨g, hg⟩ := ih (s.withFiles (Function.update s.checkout.files path (some { f with content := f.content.take n })))
      refine ⟨g, hg.trans ?_⟩
      simp only [ValidationState.withFiles, Function.update_idem]
  obtain ⟨g, hg⟩ := hcuts (0 :: cuts path) s
  rw [writeBytes, run_bind, hg]
  show (Except.ok (), _) = _
  simp only [ValidationCommand.perform, ValidationState.withFiles, Function.update_idem]

/-- The body of the loop of `normalize`. -/
def normalizePath (cuts : GitPath → List Nat) (c : Checkout) (path : GitPath) : ValidationProgram Unit :=
  match c.files path with
  | none => .ret ()
  | some f => if normalizeFile f = f then .ret () else writeBytes cuts path (normalizeFile f)

theorem run_normalizePath {path : GitPath} (h : s.checkout.files path = c.files path) :
    (normalizePath cuts c path).run (ValidationCommand.perform b) s =
      (.ok (), s.withFiles (Function.update s.checkout.files path ((c.files path).map normalizeFile))) := by
  rw [normalizePath]
  cases hfile : c.files path with
  | none =>
    rw [hfile] at h
    dsimp only [Option.map_none]
    rw [← h, Function.update_eq_self]
    rfl
  | some f =>
    rw [hfile] at h
    dsimp only
    split
    · next hsame =>
      rw [Option.map_some, hsame, ← h, Function.update_eq_self]
      rfl
    · rw [run_writeBytes, Option.map_some]

theorem run_normalize_paths {paths : List GitPath} (hnodup : paths.Nodup)
    (hfiles : ∀ p ∈ paths, s.checkout.files p = c.files p) :
    (paths.forM (normalizePath cuts c)).run (ValidationCommand.perform b) s =
      (.ok (), s.withFiles fun p => if p ∈ paths then (c.files p).map normalizeFile else s.checkout.files p) := by
  induction paths generalizing s with
  | nil =>
    simp only [List.not_mem_nil, if_false]
    rfl
  | cons path paths ih =>
    obtain ⟨hnew, hnodup⟩ := List.nodup_cons.mp hnodup
    change ((normalizePath cuts c path >>= fun _ => paths.forM (normalizePath cuts c)).run _ s) = _
    rw [run_bind, run_normalizePath (hfiles path List.mem_cons_self)]
    dsimp only
    rw [ih hnodup fun p hp => ?_]
    · refine congrArg (Except.ok (), s.withFiles ·) (funext fun p => ?_)
      by_cases hp : p = path
      · subst hp
        rw [if_neg hnew, if_pos List.mem_cons_self]
        exact Function.update_self _ _ _
      · simp only [List.mem_cons, hp, false_or]
        split
        · rfl
        · exact Function.update_of_ne hp _ _
    · have hne : p ≠ path := fun heq => hnew (heq ▸ hp)
      show Function.update _ _ _ _ = _
      rw [Function.update_of_ne hne]
      exact hfiles p (List.mem_cons_of_mem _ hp)

theorem changedFiles_nodup : (c.changedFiles b).Nodup := (b.sorted.imp fun h => h.ne).filter _

theorem run_normalize :
    (normalize b cuts s.checkout).run (ValidationCommand.perform b) s =
      (.ok (), { s with checkout := s.checkout.normalized b }) :=
  run_normalize_paths changedFiles_nodup fun _ _ => rfl

theorem stagePaths_eq_ok {paths : List GitPath} :
    c.stagePaths paths = .ok c' ↔ paths ≠ [] ∧ (∀ p ∈ paths, c.index p = none → c.files p ≠ none) ∧
      c' = { c with index := fun p => if p ∈ paths then c.files p else c.index p } := by
  rw [@eq_comm _ c']
  simp only [Checkout.stagePaths, bind_eq_ok, raiseIf_eq_ok, not_exists, not_and, Except.ok.injEq, exists_const,
    ne_eq]

/-- The commit of a result: an amended one replaces the commit at `HEAD`. -/
def commitResult (b : WorktreeBase) (amend : Bool) (c : Checkout) : Except GitError Checkout :=
  if amend then c.amendCommit b else c.createCommit b

/-- What `finalize` returns of the commit that it made. -/
def createdEvidence (b : WorktreeBase) (i : GitInspection) (c : Checkout) : ValidationEvidence where
  kind := .created
  baseCommit := b.commit.id
  resultCommit := c.head.id
  branch := c.branch
  changedFiles := if c.changedFiles b = [] then i.changedFiles else c.changedFiles b
  diffHash := i.diffHash

/-- The end of `finalize`. -/
def confirm (b : WorktreeBase) (i : GitInspection) : ValidationProgram ValidationEvidence := do
  let s ← read
  check (requireChildOfBase b s.checkout)
  check (finalization (s.checkout.requireCleanWorktree b))
  .ret (createdEvidence b i s.checkout)

theorem run_confirm_ok :
    (confirm b i).run (ValidationCommand.perform b) s = (.ok e, t) ↔
      requireChildOfBase b s.checkout = .ok () ∧ s.checkout.Clean b ∧ e = createdEvidence b i s.checkout ∧ t = s := by
  rw [confirm, run_observe_bind rfl, run_check_bind_ok]
  constructor
  · rintro ⟨⟨⟩, hchild, h⟩
    obtain ⟨⟨⟩, hclean, h⟩ := run_check_bind_ok.mp h
    rw [finalization, mapError_eq_ok, Checkout.requireCleanWorktree, raiseIf_eq_ok, not_not] at hclean
    cases h
    exact ⟨hchild, hclean, rfl, rfl⟩
  · rintro ⟨hchild, hclean, rfl, rfl⟩
    refine ⟨(), hchild, run_check_bind_ok.mpr ⟨(), ?_, rfl⟩⟩
    rw [finalization, mapError_eq_ok, Checkout.requireCleanWorktree, raiseIf_eq_ok, not_not]
    exact hclean

theorem run_commit_ok (amend : Bool) (s : ValidationState) :
    ((if amend = true then do
        let _ ← check ((s.checkout.amendCommit b).mapError fun _ => "validation_git_finalization")
        exec .amend
        confirm b i
      else do
        let _ ← check ((s.checkout.createCommit b).mapError fun _ => "validation_git_finalization")
        exec .commit
        confirm b i : ValidationProgram ValidationEvidence)).run (ValidationCommand.perform b) s = (.ok e, t) ↔
      ∃ committed, commitResult b amend s.checkout = .ok committed ∧
        (confirm b i).run (ValidationCommand.perform b) { s with checkout := committed } = (.ok e, t) := by
  cases amend <;>
    simp only [commitResult, Bool.false_eq_true, if_true, if_false, run_check_bind_ok, mapError_eq_ok, exec,
      run_command_bind, ValidationCommand.perform]
  all_goals
    refine exists_congr fun committed => and_congr_right fun hcommitted => ?_
    rw [hcommitted]
    rfl

theorem run_finalize_ok {row : ResultRow} :
    (finalize b policy amendRepaired row i).run (ValidationCommand.perform b) s = (.ok e, t) ↔
      ∃ staged committed, s.checkout.stagePaths i.changedFiles = .ok staged ∧
        policy.diffCheck s.checkout.head.tree staged.index = true ∧
        commitResult b (amends b amendRepaired row) staged = .ok committed ∧
        requireChildOfBase b committed = .ok () ∧ committed.Clean b ∧
        e = createdEvidence b i committed ∧ t = { s with checkout := committed } := by
  rw [finalize, run_observe_bind rfl, run_check_bind_ok]
  simp only [mapError_eq_ok]
  refine exists_congr fun staged => ?_
  rw [exists_and_left]
  refine and_congr_right fun hstaged => ?_
  rw [exec, run_command_bind, run_observe_bind rfl, run_check_bind_ok]
  have hhead : staged.head = s.checkout.head := (stagePaths_eq_ok.mp hstaged).2.2 ▸ rfl
  have hperform : ValidationCommand.perform b (.stage i.changedFiles) s = { s with checkout := staged } := by
    show s.git _ = _
    rw [hstaged]
    rfl
  rw [hperform]
  simp only [raiseIf_eq_ok, hhead, Bool.not_eq_true', Bool.not_eq_false]
  constructor
  · rintro ⟨-, hdiff, h⟩
    obtain ⟨committed, hcommitted, h⟩ := (run_commit_ok _ { s with checkout := staged }).mp h
    exact ⟨committed, hdiff, hcommitted, run_confirm_ok.mp h⟩
  · rintro ⟨committed, hdiff, hcommitted, h⟩
    exact ⟨(), hdiff, (run_commit_ok _ { s with checkout := staged }).mpr ⟨committed, hcommitted, run_confirm_ok.mpr h⟩⟩

def foundEvidence (b : WorktreeBase) (i : GitInspection) (kind : ResultKind) (resultCommit : Nat) : ValidationEvidence where
  kind := kind
  baseCommit := b.commit.id
  resultCommit := resultCommit
  branch := i.branch
  changedFiles := i.changedFiles
  diffHash := i.diffHash

/-- The ways to settle the result of a measured checkout: the evidence, and the checkout after it. -/
inductive Settles (b : WorktreeBase) (policy : ResultPolicy) (amendRepaired : Bool) (m : ValidationState) :
    Option ResultKind → ValidationEvidence → Checkout → Prop
  | noChange (repaired : amendRepaired = false) (unchanged : m.checkout.changedFiles b = []) (clean : m.checkout.Clean b) :
    Settles b policy amendRepaired m none (foundEvidence b (m.checkout.inspect b) .noChange b.commit.id) m.checkout
  | found (kind : ResultKind) (changed : m.checkout.changedFiles b ≠ []) :
    Settles b policy amendRepaired m (some kind) (foundEvidence b (m.checkout.inspect b) kind m.checkout.head.id) m.checkout
  | created {staged committed : Checkout} (stage : m.checkout.stagePaths (m.checkout.changedFiles b) = .ok staged)
    (diffCheck : policy.diffCheck m.checkout.head.tree staged.index = true)
    (commit : commitResult b (amends b amendRepaired m.row) staged = .ok committed)
    (child : requireChildOfBase b committed = .ok ()) (clean : committed.Clean b) :
    Settles b policy amendRepaired m none (createdEvidence b (m.checkout.inspect b) committed) committed

variable {finalized : Option ResultKind}

theorem examine_eq_ok {settled : Option ValidationEvidence} :
    examine b policy amendRepaired finalized s = .ok settled ↔
      policy.check s.checkout.files (s.checkout.inspect b) = .ok () ∧
        ((s.checkout.changedFiles b = [] ∧ finalized = none ∧ amendRepaired = false ∧ s.checkout.Clean b ∧
            settled = some (foundEvidence b (s.checkout.inspect b) .noChange b.commit.id)) ∨
          (s.checkout.changedFiles b ≠ [] ∧
            settled = finalized.map fun kind => foundEvidence b (s.checkout.inspect b) kind s.checkout.head.id)) := by
  rw [examine]
  split
  · next h =>
    obtain ⟨hchanged, hfinalized, hrepaired⟩ := h
    change s.checkout.changedFiles b = [] at hchanged
    simp only [bind_eq_ok, raiseIf_eq_ok, not_not, Except.ok.injEq, exists_const, hchanged, hfinalized, hrepaired, true_and,
      ne_eq, not_true_eq_false, false_and, or_false, @eq_comm _ settled]
    constructor
    · rintro ⟨hclean, ⟨⟩, hcheck, hsettled⟩
      exact ⟨hcheck, hclean, hsettled⟩
    · rintro ⟨hcheck, hclean, hsettled⟩
      exact ⟨hclean, (), hcheck, hsettled⟩
  · next h =>
    change ¬(s.checkout.changedFiles b = [] ∧ finalized = none ∧ amendRepaired = false) at h
    simp only [bind_eq_ok, raiseIf_eq_ok, Except.ok.injEq, exists_const, @eq_comm _ settled]
    constructor
    · rintro ⟨hchanged, ⟨⟩, hcheck, hsettled⟩
      exact ⟨hcheck, Or.inr ⟨hchanged, hsettled⟩⟩
    · rintro ⟨hcheck, ⟨hchanged, hfinalized, hrepaired, -, -⟩ | ⟨hchanged, hsettled⟩⟩
      · exact absurd ⟨hchanged, hfinalized, hrepaired⟩ h
      · exact ⟨hchanged, (), hcheck, hsettled⟩

/-- `validate` behind the normalisation. -/
def conclude (b : WorktreeBase) (policy : ResultPolicy) (amendRepaired : Bool) (finalized : Option ResultKind) :
    ValidationProgram ValidationEvidence := do
  let s ← read
  let settled ← check (examine b policy amendRepaired finalized s)
  match settled with
  | some evidence =>
    exec (.persist evidence)
    .ret evidence
  | none =>
    let evidence ← finalize b policy amendRepaired s.row (s.checkout.inspect b)
    exec (.persist evidence)
    .ret evidence

theorem run_conclude_ok :
    (conclude b policy amendRepaired finalized).run (ValidationCommand.perform b) s = (.ok e, t) ↔
      policy.check s.checkout.files (s.checkout.inspect b) = .ok () ∧
        ∃ checkout, Settles b policy amendRepaired s finalized e checkout ∧
          t = ValidationCommand.perform b (.persist e) { s with checkout } := by
  rw [conclude, run_observe_bind rfl, run_check_bind_ok]
  constructor
  · rintro ⟨settled, hexamine, h⟩
    obtain ⟨hcheck, ⟨hchanged, rfl, hrepaired, hclean, rfl⟩ | ⟨hchanged, rfl⟩⟩ := examine_eq_ok.mp hexamine
    · cases h
      exact ⟨hcheck, _, .noChange hrepaired hchanged hclean, rfl⟩
    · refine ⟨hcheck, ?_⟩
      cases finalized with
      | some kind =>
        cases h
        exact ⟨_, .found kind hchanged, rfl⟩
      | none =>
        change ((finalize b policy amendRepaired s.row (s.checkout.inspect b) >>= _).run _ s) = _ at h
        rw [run_bind] at h
        split at h
        · next e' u hfinalize =>
          cases h
          obtain ⟨staged, committed, hstage, hdiff, hcommit, hchild, hclean, rfl, rfl⟩ := run_finalize_ok.mp hfinalize
          exact ⟨committed, .created hstage hdiff hcommit hchild hclean, rfl⟩
        · cases h
  · rintro ⟨hcheck, checkout, hsettles, rfl⟩
    cases hsettles with
    | noChange hrepaired hchanged hclean =>
      exact ⟨_, examine_eq_ok.mpr ⟨hcheck, Or.inl ⟨hchanged, rfl, hrepaired, hclean, rfl⟩⟩, rfl⟩
    | found kind hchanged => exact ⟨_, examine_eq_ok.mpr ⟨hcheck, Or.inr ⟨hchanged, rfl⟩⟩, rfl⟩
    | created hstage hdiff hcommit hchild hclean =>
      have hchanged : s.checkout.changedFiles b ≠ [] := (stagePaths_eq_ok.mp hstage).1
      refine ⟨none, examine_eq_ok.mpr ⟨hcheck, Or.inr ⟨hchanged, rfl⟩⟩, ?_⟩
      change ((finalize b policy amendRepaired s.row (s.checkout.inspect b) >>= _).run _ s) = _
      rw [run_bind, run_finalize_ok.mpr ⟨_, _, hstage, hdiff, hcommit, hchild, hclean, rfl, rfl⟩]
      rfl

def ValidationState.measured (b : WorktreeBase) (finalized : Option ResultKind) (s : ValidationState) : ValidationState :=
  if finalized = none then { s with checkout := s.checkout.normalized b } else s

theorem run_validate_ok {e : ValidationEvidence} :
    (validate b policy amendRepaired cuts).run (ValidationCommand.perform b) s = (.ok e, t) ↔
      ∃ finalized, recognize b amendRepaired s = .ok finalized ∧
        (conclude b policy amendRepaired finalized).run (ValidationCommand.perform b) (s.measured b finalized) =
          (.ok e, t) := by
  rw [validate, run_observe_bind rfl, run_check_bind_ok]
  refine exists_congr fun finalized => and_congr_right fun _ => ?_
  cases finalized with
  | some kind => 
    show (conclude b policy amendRepaired (some kind)).run _ s = _ ↔ _
    rfl
  | none =>
    show ((normalize b cuts s.checkout >>= fun _ => conclude b policy amendRepaired none).run _ s = _) ↔ _
    rw [run_bind, run_normalize]
    rfl

/-! ### The recognized commit -/

theorem recognize_amend (hamend : amends b amendRepaired s.row = true) :
    recognize b amendRepaired s = .ok finalized ↔ s.checkout.branch = s.row.branch ∧ finalized = none ∧
      s.row.resultCommit = some s.checkout.head.id ∧ requireChildOfBase b s.checkout = .ok () := by
  simp only [recognize, hamend, if_true, bind_eq_ok, raiseIf_eq_ok, not_not, exists_const, Except.ok.injEq,
    @eq_comm _ none, ne_eq]
  constructor
  · rintro ⟨hbranch, hresult, ⟨⟩, hchild, hnone⟩
    exact ⟨hbranch, hnone, hresult, hchild⟩
  · rintro ⟨hbranch, hnone, hresult, hchild⟩
    exact ⟨hbranch, hresult, (), hchild, hnone⟩

theorem recognize_base (hamend : amends b amendRepaired s.row = false) (hhead : s.checkout.head.id = b.commit.id) :
    recognize b amendRepaired s = .ok finalized ↔ s.checkout.branch = s.row.branch ∧ finalized = none := by
  have hhead' : (s.checkout.inspect b).head = b.commit.id := hhead
  simp only [recognize, hamend, hhead', Bool.false_eq_true, if_false, if_true, bind_eq_ok, raiseIf_eq_ok, not_not,
    exists_const, Except.ok.injEq, @eq_comm _ none, ne_eq]
  rfl

theorem recognize_head (hamend : amends b amendRepaired s.row = false)
    (hhead : s.checkout.head.id ≠ b.commit.id) :
    recognize b amendRepaired s = .ok finalized ↔ s.checkout.branch = s.row.branch ∧
      s.row.diffHash = some (s.checkout.diff b) ∧
      (s.row.resultCommit = some b.commit.id ∨ s.row.resultCommit = some s.checkout.head.id) ∧ s.checkout.Clean b ∧
      requireChildOfBase b s.checkout = .ok () ∧
      finalized = some (if s.row.resultCommit = some b.commit.id then .recovered else .alreadyFinalized) := by
  have hhead' : (s.checkout.inspect b).head ≠ b.commit.id := hhead
  simp only [recognize, hamend, hhead', Bool.false_eq_true, if_false, bind_eq_ok, raiseIf_eq_ok, not_not,
    exists_const, Except.ok.injEq, @eq_comm _ finalized, ne_eq, finalization, mapError_eq_ok, Checkout.requireCleanWorktree]
  constructor
  · rintro ⟨hbranch, ⟨hhash, hresult⟩, hclean, ⟨⟩, hchild, hfinalized⟩
    exact ⟨hbranch, hhash, hresult, hclean, hchild, hfinalized⟩
  · rintro ⟨hbranch, hhash, hresult, hclean, hchild, hfinalized⟩
    exact ⟨hbranch, ⟨hhash, hresult⟩, hclean, (), hchild, hfinalized⟩

theorem branch_of_recognize (h : recognize b amendRepaired s = .ok finalized) : s.checkout.branch = s.row.branch := by
  simp only [recognize, bind_eq_ok, raiseIf_eq_ok, not_not] at h
  exact h.choose_spec.1

theorem recognize_eq_none_iff (h : recognize b amendRepaired s = .ok finalized) :
    finalized = none ↔ amends b amendRepaired s.row = true ∨ s.checkout.head.id = b.commit.id := by
  cases hamend : amends b amendRepaired s.row with
  | true => exact iff_of_true ((recognize_amend hamend).mp h).2.1 (Or.inl rfl)
  | false =>
    by_cases hhead : s.checkout.head.id = b.commit.id
    · exact iff_of_true ((recognize_base hamend hhead).mp h).2 (Or.inr hhead)
    · obtain ⟨-, -, -, -, -, rfl⟩ := (recognize_head hamend hhead).mp h
      exact iff_of_false (Option.some_ne_none _) fun h' => h'.elim (fun h' => Bool.false_ne_true h') hhead

theorem clean_of_recognize {kind : ResultKind} (h : recognize b amendRepaired s = .ok (some kind)) :
    s.checkout.Clean b := by
  have hnone := mt (recognize_eq_none_iff h).mpr (Option.some_ne_none kind)
  rw [not_or, Bool.not_eq_true] at hnone
  exact ((recognize_head hnone.1 hnone.2).mp h).2.2.2.1

/-! ### The diff hash -/

theorem createCommit_eq_ok :
    c.createCommit b = .ok c' ↔ (∃ p ∈ b.paths, c.head.tree p ≠ c.index p) ∧
      c' = { c with
        head := { id := c.nextCommit, parent := some c.head.id, tree := c.index }, nextCommit := c.nextCommit + 1 } := by
  rw [@eq_comm _ c']
  simp only [Checkout.createCommit, bind_eq_ok, raiseIf_eq_ok, not_forall, Except.ok.injEq, exists_const, exists_prop,
    ne_eq]

theorem amendCommit_eq_ok :
    c.amendCommit b = .ok c' ↔ (∃ p ∈ b.paths, b.commit.tree p ≠ c.index p) ∧
      c' = { c with
        head := { id := c.nextCommit, parent := c.head.parent, tree := c.index }, nextCommit := c.nextCommit + 1 } := by
  rw [@eq_comm _ c']
  simp only [Checkout.amendCommit, bind_eq_ok, raiseIf_eq_ok, not_forall, Except.ok.injEq, exists_const, exists_prop,
    ne_eq]

theorem commitResult_frame {amend : Bool} {c' : Checkout} (h : commitResult b amend c = .ok c') :
    c'.files = c.files ∧ c'.index = c.index ∧ c'.branch = c.branch ∧ c'.head.tree = c.index := by
  cases amend with
  | true =>
    obtain ⟨-, rfl⟩ := amendCommit_eq_ok.mp h
    exact ⟨rfl, rfl, rfl, rfl⟩
  | false =>
    obtain ⟨-, rfl⟩ := createCommit_eq_ok.mp h
    exact ⟨rfl, rfl, rfl, rfl⟩

theorem committed_of_validate {e : ValidationEvidence}
    (h : (validate b policy amendRepaired cuts).run (ValidationCommand.perform b) s = (.ok e, t)) :
    ∃ finalized, recognize b amendRepaired s = .ok finalized ∧
      e.diffHash = (s.measured b finalized).checkout.diff b ∧
      t.checkout.files = (s.measured b finalized).checkout.files ∧ t.checkout.Clean b ∧
      t.checkout.branch = t.row.branch ∧ t.row.resultCommit = some t.checkout.head.id ∧ t.row.diffHash = some e.diffHash := by
  obtain ⟨finalized, hrecognize, h⟩ := run_validate_ok.mp h
  obtain ⟨-, checkout, hsettles, rfl⟩ := run_conclude_ok.mp h
  have hbranch := branch_of_recognize hrecognize
  refine ⟨finalized, hrecognize, ?_⟩
  cases hsettles with
  | noChange hrepaired hchanged hclean =>
    have hhead : s.checkout.head.id = b.commit.id := by
      refine ((recognize_eq_none_iff hrecognize).mp rfl).resolve_left fun hamend => ?_
      rw [amends, hrepaired] at hamend
      cases hamend
    exact ⟨rfl, rfl, hclean, hbranch, congrArg some hhead.symm, rfl⟩
  | found kind hchanged =>
    have hclean : s.checkout.Clean b := clean_of_recognize hrecognize
    exact ⟨rfl, rfl, hclean, hbranch, rfl, rfl⟩
  | created hstage hdiff hcommit hchild hclean =>
    obtain ⟨-, -, rfl⟩ := stagePaths_eq_ok.mp hstage
    obtain ⟨hfiles, -, hbranch', -⟩ := commitResult_frame hcommit
    exact ⟨rfl, hfiles, hclean, hbranch'.trans hbranch, rfl, rfl⟩

/-- The records of the diff hash of a result: the evidence, the row, the verdict of the review and the review evidence of
    the approval. -/
def RecordsDiffHash (b : WorktreeBase) (e : ValidationEvidence) (t : ValidationState) (hash : DiffHash) : Prop :=
  e.diffHash = hash ∧ t.row.diffHash = some hash ∧ measuredDiffHash b t = .ok hash ∧
    (measuredDiffHash b t >>= approvedDiffHash t.row) = .ok hash

theorem fileDiff_congr (h : c'.files = c.files) : c'.fileDiff b = c.fileDiff b := by
  rw [Checkout.fileDiff, Checkout.fileDiff, Checkout.fileChanges, Checkout.fileChanges, h]

/-- The hash that is recorded is the hash of the diff that the reviewers see of the committed result, exactly if no untracked
    file sorts before a change of a tracked one where the validation makes a commit. -/
theorem diff_hash_names_reviewed_diff {e : ValidationEvidence}
    (h : (validate b policy amendRepaired cuts).run (ValidationCommand.perform b) s = (.ok e, t)) :
    RecordsDiffHash b e t (t.checkout.inspect b).diffHash ↔
      (amends b amendRepaired s.row = true ∨ s.checkout.head.id = b.commit.id → (s.checkout.normalized b).InOrder b) := by
  obtain ⟨finalized, hrecognize, hhash, hfiles, hclean, hbranch, hresult, hrow⟩ := committed_of_validate h
  have hmeasured : measuredDiffHash b t = .ok e.diffHash := by
    have hhead : some (t.checkout.inspect b).head = t.row.resultCommit := hresult.symm
    have hbranch : (t.checkout.inspect b).branch = t.row.branch := hbranch
    rw [measuredDiffHash, raiseIf_of_not (not_not_intro hclean), ok_bind, raiseIf_of_not (not_not_intro hhead), ok_bind,
      raiseIf_of_not (not_not_intro hbranch), ok_bind, hrow]
    rfl
  have happroved : (measuredDiffHash b t >>= approvedDiffHash t.row) = .ok e.diffHash := by
    rw [hmeasured, ok_bind, approvedDiffHash, raiseIf_of_not (not_not_intro hrow.symm), ok_bind]
  have hrecords : RecordsDiffHash b e t (t.checkout.inspect b).diffHash ↔ e.diffHash = (t.checkout.inspect b).diffHash := by
    refine ⟨And.left, fun heq => ?_⟩
    rw [← heq]
    exact ⟨rfl, hrow, hmeasured, happroved⟩
  have hreviewed : (t.checkout.inspect b).diffHash = (s.measured b finalized).checkout.fileDiff b :=
    (Checkout.diff_of_clean hclean).trans (fileDiff_congr hfiles)
  rw [hrecords, hreviewed, hhash, Checkout.diff_eq_fileDiff, ← recognize_eq_none_iff hrecognize]
  cases finalized with
  | none => exact ⟨fun h _ => h, fun h => h rfl⟩
  | some kind =>
    have hclean : s.checkout.Clean b := clean_of_recognize hrecognize
    exact iff_of_true (Checkout.diff_eq_fileDiff.mp (Checkout.diff_of_clean hclean)) fun hnone => by cases hnone

/-- Nothing is forbidden and every gate passes. -/
def lenientPolicy : ResultPolicy where
  prohibited _ := false
  scaffoldViolation _ _ := false
  secret _ := false
  blocking _ := false
  gatesPass _ := true
  diffCheck _ _ := true

def plainFile (content : Bytes) : GitFile := ⟨.regular, content⟩

/-- A base commit with the file `m`. -/
def smallBase : WorktreeBase where
  commit := { id := 0, parent := none, tree := fun p => if p = ['m'] then some (plainFile [49, 10]) else none }
  paths := [['a'], ['m'], ['z']]
  sorted := by decide

/-- The checkout of a worker that has rewritten `m` and added a file. -/
def smallState (content : Bytes) (added : GitPath) : ValidationState where
  checkout :=
    { files := fun p => if p = ['m'] then some (plainFile content) else if p = added then some (plainFile [51, 10]) else none
      index := smallBase.commit.tree
      head := smallBase.commit
      branch := "work"
      nextCommit := 1 }
  row := { branch := "work" }

abbrev smallRun (added : GitPath) : Except ValidationError ValidationEvidence × ValidationState :=
  (validate smallBase lenientPolicy false fun _ => []).run (ValidationCommand.perform smallBase)
    (smallState [50, 32, 10] added)

def smallEvidence (changedFiles : List GitPath) (added : GitPath) : ValidationEvidence where
  kind := .created
  baseCommit := 0
  resultCommit := 1
  branch := "work"
  changedFiles := changedFiles
  diffHash := [⟨['m'], some (plainFile [49, 10]), some (plainFile [50, 10])⟩, ⟨added, none, some (plainFile [51, 10])⟩]

theorem diff_hash_of_untracked_first :
    ∃ e t, smallRun ['a'] = (.ok e, t) ∧ ¬RecordsDiffHash smallBase e t (t.checkout.inspect smallBase).diffHash := by
  have hrun : (smallRun ['a']).1 = .ok (smallEvidence [['a'], ['m']] ['a']) := by
    decide +kernel
  refine ⟨_, (smallRun ['a']).2, Prod.ext hrun rfl, fun h => absurd h.1 ?_⟩
  decide +kernel

theorem diff_hash_names_reviewed_diff_added :
    ∃ e t, smallRun ['z'] = (.ok e, t) ∧ RecordsDiffHash smallBase e t (t.checkout.inspect smallBase).diffHash := by
  have hrun : (smallRun ['z']).1 = .ok (smallEvidence [['m'], ['z']] ['z']) := by
    decide +kernel
  have hrun : smallRun ['z'] = (_, (smallRun ['z']).2) := Prod.ext hrun rfl
  exact ⟨_, _, hrun, (diff_hash_names_reviewed_diff hrun).mpr fun _ => by decide +kernel⟩

end Vuzol.Execution
