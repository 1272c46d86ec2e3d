import Vuzol.Execution.Worktrees

/-! Preparing a worktree again: at most one row is written for a run. A row is found again exactly while the branch that the
    run builds on stands where it stood, and a worktree is created exactly if no earlier attempt left its directory. -/

namespace Vuzol.Execution.Worktrees

open Vuzol.Lib Attempt
open Vuzol.Lib.Program (Keeps run_observe_bind run_failIf_bind run_failIf_raise run_bind)

variable {r : Request} {trial : Trial} {moves : Read → Refs → Refs} {w t : World} {α β : Type}
variable {message path : String}

/-- Where the branch that the run builds on stands when an attempt reads it: the default branch, or the integration branch of
    the run's package. -/
def headOf (moves : Read → Refs → Refs) (db : Database) (refs : Refs) (taskId : Uuid) (project : ProjectConfig) :
    Option Commit :=
  let refs := moves .defaultBranch refs
  (refs project.defaultBranch).bind fun base =>
    match db.links.find? (·.taskId = taskId) with
    | none => some base
    | some link =>
      (db.packages.find? (·.id = link.workPackageId)).bind fun package =>
        match package.integrationBranch, package.managedGoalId with
        | some _, _ => package.integrationHeadCommit.bind (moves .head refs)
        | none, none => moves .head refs base
        | none, some goalId =>
          (db.goals.find? (·.id = goalId)).bind fun goal =>
            let refs := moves .goalBranch refs
            match refs goal.integrationBranch with
            | some tip => moves .head refs tip
            | none =>
              let refs := moves .fallback refs
              (refs project.defaultBranch).bind (moves .head refs)

def Answers (program : Attempt α) (w : World) (answer : Option β) (of : α → β) : Prop :=
  ∃ refs, (answer = none ∧ ∃ e, program.run Command.perform w = (.error e, { w with refs })) ∨
    ∃ a, answer = some (of a) ∧ program.run Command.perform w = (.ok a, { w with refs })

variable {at_ : Read} {ref : String}

theorem run_resolve :
    (resolve moves at_ ref).run Command.perform w =
      (.ok (moves at_ w.refs ref), { w with refs := moves at_ w.refs }) := rfl

theorem run_resolveCommit :
    (resolveCommit moves at_ ref).run Command.perform w =
      (match moves at_ w.refs ref with
        | none => .error "Needed a single revision"
        | some commit => .ok commit, { w with refs := moves at_ w.refs }) := by
  rw [resolveCommit, run_bind, run_resolve]
  cases moves at_ w.refs ref <;> rfl

theorem run_found_some {f : α → Attempt β} {a : α} :
    (found (some a) message >>= f).run Command.perform w = (f a).run Command.perform w := rfl

theorem run_found_none {f : α → Attempt β} :
    (found none message >>= f).run Command.perform w = (.error message, w) := rfl

theorem run_resolveCommit_bind {f : Commit → Attempt β} :
    (resolveCommit moves at_ ref >>= f).run Command.perform w =
      match moves at_ w.refs ref with
        | none => (.error "Needed a single revision", { w with refs := moves at_ w.refs })
        | some commit => (f commit).run Command.perform { w with refs := moves at_ w.refs } := by
  rw [run_bind, run_resolveCommit]
  cases moves at_ w.refs ref <;> rfl

theorem answers_head {refs : Refs} {head : Commit} {targetBranch : Branch} {package : WorkPackage} :
    ∃ refs',
      (moves .head refs head = none ∧ ∃ e,
        (resolveCommit moves .head head >>= fun base => (.ret (base, targetBranch, some package) :
          Attempt (Commit × Branch × Option WorkPackage))).run Command.perform { w with refs } =
          (.error e, { w with refs := refs' })) ∨
      ∃ a, moves .head refs head = some (Prod.fst a) ∧
        (resolveCommit moves .head head >>= fun base => (.ret (base, targetBranch, some package) :
          Attempt (Commit × Branch × Option WorkPackage))).run Command.perform { w with refs } =
          (.ok a, { w with refs := refs' }) := by
  refine ⟨moves .head refs, ?_⟩
  rw [run_resolveCommit_bind]
  cases hhead : moves .head refs head with
  | none => exact Or.inl ⟨rfl, _, rfl⟩
  | some base => exact Or.inr ⟨(base, targetBranch, some package), rfl, rfl⟩

section Package
variable {db : Database} {project : ProjectConfig} {package : WorkPackage}

theorem bindManaged_bound {branch : Branch} (h : package.integrationBranch = some branch) :
    bindManaged moves db project package = .ret package := by
  rw [bindManaged, h]
  cases package.managedGoalId <;> rfl

theorem bindManaged_unmanaged (h : package.managedGoalId = none) : bindManaged moves db project package = .ret package := by
  rw [bindManaged, h]

theorem run_bindManaged {goalId : Uuid} {goal : ManagedGoal} (hunbound : package.integrationBranch = none)
    (hmanaged : package.managedGoalId = some goalId) (hgoal : db.goals.find? (·.id = goalId) = some goal) :
    (bindManaged moves db project package).run Command.perform w =
      match moves .goalBranch w.refs goal.integrationBranch with
      | some tip => (.ok (package.bind goal.integrationBranch goal.integrationBranch tip),
          { w with refs := moves .goalBranch w.refs })
      | none =>
        match moves .fallback (moves .goalBranch w.refs) project.defaultBranch with
        | some base => (.ok (package.bind goal.integrationBranch goal.integrationBranch base),
            { w with refs := moves .fallback (moves .goalBranch w.refs) })
        | none => (.error "Needed a single revision", { w with refs := moves .fallback (moves .goalBranch w.refs) }) := by
  rw [bindManaged, hmanaged, hunbound]
  dsimp only
  rw [hgoal, run_found_some, run_bind, run_resolve]
  dsimp only
  cases moves .goalBranch w.refs goal.integrationBranch with
  | some tip => rfl
  | none =>
    dsimp only
    rw [run_resolveCommit_bind]
    dsimp only
    cases moves .fallback (moves .goalBranch w.refs) project.defaultBranch <;> rfl

end Package

variable (moves w) in
/-- `prepare` reads the head of the branch that the run builds on. -/
theorem resolveBase_answers (taskId : Uuid) (project : ProjectConfig) :
    Answers (resolveBase moves w.db taskId project) w (headOf moves w.db w.refs taskId project) Prod.fst := by
  unfold Answers
  rw [resolveBase, headOf, run_resolveCommit_bind]
  dsimp only
  cases moves .defaultBranch w.refs project.defaultBranch with
  | none => exact ⟨_, Or.inl ⟨rfl, _, rfl⟩⟩
  | some base =>
  cases w.db.links.find? (·.taskId = taskId) with
  | none => exact ⟨_, Or.inr ⟨(base, project.defaultBranch, none), rfl, rfl⟩⟩
  | some link =>
  dsimp only
  cases w.db.packages.find? (·.id = link.workPackageId) with
  | none => exact ⟨_, Or.inl ⟨rfl, _, rfl⟩⟩
  | some package =>
  rw [run_found_some, Option.bind_some, Option.bind_some]
  cases hbranch : package.integrationBranch with
  | some branch =>
    rw [bindManaged_bound hbranch, Program.ret_bind, hbranch, if_neg (Option.some_ne_none _)]
    dsimp only
    cases package.integrationHeadCommit with
    | none => exact ⟨_, Or.inl ⟨rfl, _, run_found_none⟩⟩
    | some head => exact answers_head
  | none =>
    cases hmanaged : package.managedGoalId with
    | none =>
      rw [bindManaged_unmanaged hmanaged, Program.ret_bind, hbranch, if_pos rfl]
      exact answers_head
    | some goalId =>
      dsimp only
      cases hgoal : w.db.goals.find? (·.id = goalId) with
      | none =>
        rw [bindManaged, hmanaged, hbranch]
        dsimp only
        rw [hgoal]
        exact ⟨_, Or.inl ⟨rfl, _, rfl⟩⟩
      | some goal =>
        rw [run_bind, run_bindManaged hbranch hmanaged hgoal, Option.bind_some]
        dsimp only
        cases moves .goalBranch (moves .defaultBranch w.refs) goal.integrationBranch with
        | some tip => exact answers_head
        | none =>
          dsimp only
          cases moves .fallback (moves .goalBranch (moves .defaultBranch w.refs)) project.defaultBranch with
          | some tip => exact answers_head
          | none => exact ⟨_, Or.inl ⟨rfl, _, rfl⟩⟩

def Moved (w t : World) : Prop := ∃ refs, t = { w with refs }

def Reads (program : Attempt α) : Prop := ∀ w, Keeps Command.perform (Moved w) (fun _ => Moved w) program w

section Reads
variable {f : α → Attempt β} {program : Attempt α}

theorem Moved.refl (w : World) : Moved w w := ⟨w.refs, rfl⟩

theorem Moved.trans {u : World} (h : Moved w t) (h' : Moved t u) : Moved w u := by
  obtain ⟨_, rfl⟩ := h
  obtain ⟨refs, rfl⟩ := h'
  exact ⟨refs, rfl⟩

theorem Reads.ret (a : α) : Reads (.ret a) := fun w => .ret (.refl w) (.refl w)

theorem Reads.raise (message : String) : Reads (.raise message : Attempt α) := fun w => .raise (.refl w)

theorem Reads.bind (hp : Reads program) (hf : ∀ a, Reads (f a)) : Reads (program >>= f) := fun w =>
  (hp w).bind fun a t ht => (hf a t).mono (fun _ => ht.trans) fun _ _ => ht.trans

theorem Reads.found (a : Option α) (message : String) : Reads (found a message) := by
  cases a with
  | none => exact .raise message
  | some a => exact .ret a

theorem Reads.resolve (at_ : Read) (ref : String) : Reads (resolve moves at_ ref) := fun w =>
  .command_bind (.refl w) (.observe_bind rfl ⟨_, rfl⟩ (.ret ⟨_, rfl⟩ ⟨_, rfl⟩))

theorem Reads.resolveCommit (at_ : Read) (ref : String) : Reads (resolveCommit moves at_ ref) :=
  (Reads.resolve at_ ref).bind fun _ => .found _ _

theorem Reads.bindManaged (db : Database) (project : ProjectConfig) (package : WorkPackage) :
    Reads (bindManaged moves db project package) := by
  unfold Worktrees.bindManaged
  split
  · refine (Reads.found _ _).bind fun goal => (Reads.resolve _ _).bind fun tip => ?_
    cases tip with
    | none => exact (Reads.resolveCommit _ _).bind fun _ => .ret _
    | some tip => exact .ret _
  · exact .ret _

theorem Reads.resolveBase (db : Database) (taskId : Uuid) (project : ProjectConfig) :
    Reads (resolveBase moves db taskId project) := by
  unfold Worktrees.resolveBase
  refine (Reads.resolveCommit _ _).bind fun base => ?_
  split
  · exact .ret _
  · refine (Reads.found _ _).bind fun package => (Reads.bindManaged _ _ _).bind fun package => ?_
    exact (Reads.found _ _).bind fun head => (Reads.resolveCommit _ _).bind fun base => .ret _

end Reads

structure Sound (r : Request) (w : World) : Prop where
  unique : (w.db.worktrees.filter (·.runId = r.runId)).length ≤ 1
  row : ∀ x ∈ w.db.worktrees, x.runId = r.runId → r.Agrees x x.baseCommit ∧ w.directories r.path ≠ none

theorem Sound.moved (h : Sound r w) (ht : Moved w t) : Sound r t := by
  obtain ⟨refs, rfl⟩ := ht
  exact ⟨h.unique, h.row⟩

theorem sound_of_absent (h : ∀ x ∈ w.db.worktrees, x.runId ≠ r.runId) : Sound r w where
  unique := by
    rw [List.filter_eq_nil_iff.mpr fun x hx => by rw [decide_eq_true_eq]; exact h x hx]
    exact Nat.zero_le _
  row x hx hrun := absurd hrun (h x hx)

/-- The database of `w`. -/
abbrev SameDb (w t : World) : Prop := t.db = w.db

theorem cleanUp_keeps {Q : α → World → Prop} (h : SameDb w t) : Keeps Command.perform (SameDb w) Q (cleanUp path message) t :=
  .command_bind h (.command_bind h (.raise h))

theorem guarded_keeps {fault : Option Call} {call : Call} {c : Command} (h : SameDb w t) (hc : SameDb w (c.perform t)) :
    Keeps Command.perform (SameDb w) (fun _ => SameDb w) (guarded path fault call c) t := by
  unfold guarded
  split
  · exact cleanUp_keeps h
  · exact .command h hc hc

theorem addWorktree_keeps {branch : Branch} {base : Commit} {fault : Option Call} (h : SameDb w t) :
    Keeps Command.perform (SameDb w) (fun _ => SameDb w) (addWorktree path branch base fault) t := by
  refine .command_bind h (.command_bind h ?_)
  refine .bind (guarded_keeps h h) fun _ t ht => .bind (guarded_keeps ht ht) fun _ t ht => ?_
  exact .bind (guarded_keeps ht ht) fun _ t ht => guarded_keeps ht ht

/-- What `create` returns. -/
def Created (r : Request) (trial : Trial) (base : Commit) (targetBranch : Branch) (w : World) (row : Worktree) (t : World) :
    Prop :=
  SameDb w t ∧ row = r.row trial base targetBranch ∧
    ∃ d, t.directories r.path = some d ∧ d.head = some base ∧ d.branch = some r.branch

theorem create_keeps {base : Commit} {targetBranch : Branch} :
    Keeps Command.perform (SameDb w) (Created r trial base targetBranch w) (create r trial base targetBranch) w := by
  have h : SameDb w w := rfl
  refine .observe_bind rfl h (.failIf_bind h fun _ => .failIf_bind h fun _ => ?_)
  refine .bind (addWorktree_keeps h) fun _ t ht => .bind (guarded_keeps ht ht) fun _ t ht => .observe_bind rfl ht ?_
  dsimp only
  split
  · exact cleanUp_keeps ht
  · next hinspected =>
    obtain ⟨hhead, hbranch⟩ := not_or.mp hinspected
    split
    · exact cleanUp_keeps ht
    · split
      · exact cleanUp_keeps ht
      · refine .ret ht ⟨ht, rfl, ?_⟩
        cases hdirectory : t.directories r.path with
        | none =>
          rw [hdirectory] at hhead
          exact (hhead fun heq => by cases heq).elim
        | some d =>
          rw [hdirectory, Option.getD_some, not_not] at hhead hbranch
          exact ⟨d, rfl, hhead, hbranch⟩

theorem prepare_keeps (h : Sound r w) : Keeps Command.perform (Sound r) (fun _ => Sound r) (prepare r trial) w := by
  refine .observe_bind rfl h ?_
  refine .bind ((Reads.resolveBase w.db r.taskId r.project w).mono (fun _ => h.moved) fun _ _ ht => ht) ?_
  rintro ⟨base, targetBranch, package⟩ t ht
  have hsound := h.moved ht
  obtain ⟨refs, rfl⟩ := ht
  dsimp only
  cases hfind : w.db.worktrees.find? (·.runId = r.runId) with
  | some existing =>
    refine .failIf_bind hsound fun _ => .observe_bind rfl hsound (.failIf_bind hsound fun _ => ?_)
    have hdone : Sound r (Command.perform (.commit package none) { w with refs }) := by
      refine ⟨?_, ?_⟩ <;> simp only [Command.perform, Database.commit, Option.toList_none, List.append_nil]
      · exact h.unique
      · exact h.row
    exact .command_bind hsound (.ret hdone hdone)
  | none =>
    have habsent : ∀ x ∈ w.db.worktrees, x.runId ≠ r.runId := fun x hx heq =>
      List.find?_eq_none.mp hfind x hx (decide_eq_true heq)
    refine .bind (create_keeps.mono (fun t ht => sound_of_absent (ht ▸ habsent)) fun _ _ hQ => hQ) ?_
    rintro row t ⟨hdb, rfl, d, hd, -⟩
    have ht : Sound r t := sound_of_absent (hdb ▸ habsent)
    have hdone : Sound r (Command.perform (.commit package (some (r.row trial base targetBranch))) t) := by
      have hrows : (Command.perform (.commit package (some (r.row trial base targetBranch))) t).db.worktrees =
          w.db.worktrees ++ [r.row trial base targetBranch] := by rw [← hdb]; rfl
      refine ⟨?_, fun x hx hrun => ?_⟩
      · rw [hrows, List.filter_append, List.filter_eq_nil_iff.mpr fun x hx => by rw [decide_eq_true_eq]; exact habsent x hx]
        exact List.length_filter_le _ _
      · rw [hrows] at hx
        rcases List.mem_append.mp hx with hx | hx
        · exact absurd hrun (habsent x hx)
        · cases List.mem_singleton.mp hx
          refine ⟨⟨rfl, rfl, rfl, rfl, rfl, rfl⟩, fun hnone => ?_⟩
          rw [show t.directories r.path = none from hnone] at hd
          cases hd
    exact .command_bind ht (.ret hdone hdone)

theorem Sound.step {op : Op} (h : Sound r w) (hstep : w.step r op = .ok t) : Sound r t := by
  cases op with
  | prepare trial killed =>
    cases killed with
    | some n =>
      cases hstep
      exact (prepare_keeps h).interrupted n
    | none =>
      cases hstep
      exact (prepare_keeps h).run.1
  | others w' =>
    simp only [World.step, bind_eq_ok, raiseIf_eq_ok, not_or, not_not] at hstep
    obtain ⟨-, ⟨hrows, hdirectory⟩, hstep⟩ := hstep
    cases hstep
    refine ⟨by rw [hrows]; exact h.unique, fun x hx hrun => ?_⟩
    have hmem : x ∈ w.db.worktrees.filter (·.runId = r.runId) := by
      rw [← hrows]
      exact List.mem_filter.mpr ⟨hx, decide_eq_true hrun⟩
    rw [hdirectory]
    exact h.row x (List.mem_of_mem_filter hmem) hrun

def built (r : Request) (base : Commit) : Directory where
  branch := some r.branch
  fetched := some base
  head := some base

theorem run_addWorktree {base : Commit} :
    (addWorktree r.path r.branch base none).run Command.perform w =
      (.ok (), w.setDirectory r.path (some (built r base))) := by
  have hstep : (addWorktree r.path r.branch base none).run Command.perform w =
      (.ok (), (Command.checkout r.path r.branch).perform ((Command.fetch r.path base).perform
        ((Command.init r.path r.branch).perform ((Command.mkdir r.path).perform w)))) := rfl
  rw [hstep]
  simp only [Command.perform, World.setDirectory, Function.update_idem, Function.update_self, Option.map_some, built]

def Free (r : Request) (db : Database) : Prop :=
  ∀ x ∈ db.worktrees, x.path ≠ r.path ∧
    ¬(x.projectId = r.project.id ∧ x.repositoryIdentityHash = r.identity ∧ x.branch = r.branch)

theorem conflicts_eq_false {db : Database} {base : Commit} {targetBranch : Branch}
    (habsent : ∀ x ∈ db.worktrees, x.runId ≠ r.runId) :
    db.conflicts (r.row trial base targetBranch) = false ↔ Free r db := by
  rw [Database.conflicts, List.any_eq_false]
  refine forall₂_congr fun x hx => ?_
  change ¬(decide (x.runId = r.runId) || decide (x.path = r.path) || (decide (x.projectId = r.project.id) &&
    decide (x.repositoryIdentityHash = r.identity) && decide (x.branch = r.branch))) = true ↔ _
  simp [habsent x hx, and_assoc]

section Uninterrupted
variable {base : Commit} {targetBranch : Branch}

theorem run_guarded_query {call : Call} {f : Unit → Attempt β} :
    (guarded path none call .query >>= f).run Command.perform w = (f ()).run Command.perform w := rfl

theorem run_create_ok (hfault : trial.fault = none) (hclean : w.clean = true)
    (habsent : ∀ x ∈ w.db.worktrees, x.runId ≠ r.runId) (hnone : w.directories r.path = none) (hfree : Free r w.db) :
    (create r trial base targetBranch).run Command.perform w =
      (.ok (r.row trial base targetBranch), w.setDirectory r.path (some (built r base))) := by
  have hinspected : (w.setDirectory r.path (some (built r base))).directories r.path = some (built r base) :=
    Function.update_self _ _ _
  have hconflicts : ¬(w.setDirectory r.path (some (built r base))).db.conflicts (r.row trial base targetBranch) = true := by
    rw [Bool.not_eq_true]
    exact (conflicts_eq_false habsent).mpr hfree
  rw [create, run_observe_bind rfl, run_failIf_bind (by rw [hclean]; exact Bool.true_eq_false.mp),
    run_failIf_bind (not_not_intro hnone), run_bind, hfault, run_addWorktree]
  dsimp only
  rw [run_guarded_query, run_observe_bind rfl]
  split
  · next hbad =>
    rw [hinspected] at hbad
    exact absurd hbad (not_or.mpr ⟨not_not_intro rfl, not_not_intro rfl⟩)
  · rw [if_neg (show ¬none = some Call.flush from nofun)]
    rfl

variable (base targetBranch) in
theorem run_create_error (hfault : trial.fault = none) (hclean : w.clean = true)
    (habsent : ∀ x ∈ w.db.worktrees, x.runId ≠ r.runId) (hleft : ¬(w.directories r.path = none ∧ Free r w.db)) :
    ∃ e t, (create r trial base targetBranch).run Command.perform w = (.error e, t) := by
  rw [create, run_observe_bind rfl, run_failIf_bind (by rw [hclean]; exact Bool.true_eq_false.mp)]
  by_cases hnone : w.directories r.path = none
  · rw [run_failIf_bind (not_not_intro hnone), run_bind, hfault, run_addWorktree]
    dsimp only
    rw [run_guarded_query, run_observe_bind rfl]
    have hconflicts : (w.setDirectory r.path (some (built r base))).db.conflicts (r.row trial base targetBranch) = true := by
      rw [← Bool.not_eq_false, show (w.setDirectory r.path (some (built r base))).db = w.db from rfl,
        conflicts_eq_false habsent]
      exact fun hfree => hleft ⟨hnone, hfree⟩
    split
    · exact ⟨_, _, rfl⟩
    · rw [if_neg (show ¬none = some Call.flush from nofun)]
      exact ⟨_, _, rfl⟩
  · exact ⟨_, _, run_failIf_raise hnone⟩

end Uninterrupted

theorem run_prepare_existing {row : Worktree} (h : Sound r w) (hrow : row ∈ w.db.worktrees) (hrun : row.runId = r.runId) :
    (∃ t, (prepare r trial).run Command.perform w = (.ok row, t) ∧ t.db.worktrees = w.db.worktrees) ↔
      headOf trial.moves w.db w.refs r.taskId r.project = some row.baseCommit := by
  have hfind : w.db.worktrees.find? (·.runId = r.runId) = some row := by
    rw [← List.head?_filter]
    have hmem : row ∈ w.db.worktrees.filter (·.runId = r.runId) := List.mem_filter.mpr ⟨hrow, decide_eq_true hrun⟩
    obtain ⟨row', hone⟩ := List.length_eq_one_iff.mp (le_antisymm h.unique (List.length_pos_of_mem hmem))
    rw [hone] at hmem ⊢
    rw [List.mem_singleton.mp hmem]
    rfl
  obtain ⟨hagrees, hdirectory⟩ := h.row row hrow hrun
  obtain ⟨refs, ⟨hhead, e, hresolve⟩ | ⟨⟨base, targetBranch, package⟩, hhead, hresolve⟩⟩ :=
    resolveBase_answers trial.moves w r.taskId r.project
  · rw [prepare, run_observe_bind rfl, run_bind, hresolve, hhead]
    refine ⟨fun ⟨t, heq, _⟩ => (by cases heq), fun heq => (by cases heq)⟩
  · rw [prepare, run_observe_bind rfl, run_bind, hresolve, hhead]
    dsimp only
    rw [hfind]
    by_cases hbase : row.baseCommit = base
    · subst hbase
      rw [run_failIf_bind (not_not_intro hagrees), run_observe_bind rfl, run_failIf_bind hdirectory]
      exact ⟨fun _ => rfl, fun _ => ⟨_, rfl, List.append_nil _⟩⟩
    · rw [run_failIf_raise (show ¬r.Agrees row base from fun ha => hbase ha.2.2.2.1)]
      refine ⟨fun ⟨t, heq, _⟩ => (by cases heq), fun heq => absurd (Option.some.inj heq).symm hbase⟩

theorem run_prepare_absent (hfault : trial.fault = none) (hclean : w.clean = true)
    (habsent : ∀ x ∈ w.db.worktrees, x.runId ≠ r.runId) :
    (∃ row t, (prepare r trial).run Command.perform w = (.ok row, t) ∧ t.db.worktrees = w.db.worktrees ++ [row] ∧
        row.runId = r.runId ∧ t.directories r.path = some (built r row.baseCommit)) ↔
      (headOf trial.moves w.db w.refs r.taskId r.project).isSome ∧ w.directories r.path = none ∧ Free r w.db := by
  have hfind : w.db.worktrees.find? (·.runId = r.runId) = none :=
    List.find?_eq_none.mpr fun x hx => by rw [decide_eq_true_eq]; exact habsent x hx
  obtain ⟨refs, ⟨hhead, e, hresolve⟩ | ⟨⟨base, targetBranch, package⟩, hhead, hresolve⟩⟩ :=
    resolveBase_answers trial.moves w r.taskId r.project
  · rw [prepare, run_observe_bind rfl, run_bind, hresolve, hhead]
    exact ⟨fun ⟨row, t, heq, _⟩ => (by cases heq), fun ⟨heq, _⟩ => (by cases heq)⟩
  · rw [prepare, run_observe_bind rfl, run_bind, hresolve, hhead]
    dsimp only
    rw [hfind]
    dsimp only
    rw [run_bind]
    by_cases hplace : w.directories r.path = none ∧ Free r w.db
    · rw [run_create_ok (w := { w with refs }) hfault hclean habsent hplace.1 hplace.2]
      exact ⟨fun _ => ⟨rfl, hplace⟩, fun _ => ⟨_, _, rfl, rfl, rfl, Function.update_self _ _ _⟩⟩
    · obtain ⟨e, t, hcreate⟩ := run_create_error base targetBranch (w := { w with refs }) hfault
        hclean habsent hplace
      rw [hcreate]
      exact ⟨fun ⟨row, t, heq, _⟩ => (by cases heq), fun ⟨_, hp⟩ => absurd hp hplace⟩

/-- A run has one row at most. An attempt that is not interrupted returns it exactly while the branch that the run builds on
    stands at the recorded base; without a row it creates the worktree exactly if an earlier attempt left no directory, the
    base can be resolved, and the names are free. -/
theorem prepare_crash_safe (r : Request) {w₀ w : World} (hnew : ∀ x ∈ w₀.db.worktrees, x.runId ≠ r.runId)
    (h : Reach (World.step r) (fun _ _ => True) w₀ w) (trial : Trial) (hfault : trial.fault = none) (hclean : w.clean = true) :
    (w.db.worktrees.filter (·.runId = r.runId)).length ≤ 1 ∧
      (∀ row ∈ w.db.worktrees, row.runId = r.runId →
        ((∃ t, (prepare r trial).run Command.perform w = (.ok row, t) ∧ t.db.worktrees = w.db.worktrees) ↔
          headOf trial.moves w.db w.refs r.taskId r.project = some row.baseCommit)) ∧
      ((∀ x ∈ w.db.worktrees, x.runId ≠ r.runId) →
        ((∃ row t, (prepare r trial).run Command.perform w = (.ok row, t) ∧ t.db.worktrees = w.db.worktrees ++ [row] ∧
            row.runId = r.runId ∧ t.directories r.path = some (built r row.baseCommit)) ↔
          (headOf trial.moves w.db w.refs r.taskId r.project).isSome ∧ w.directories r.path = none ∧ Free r w.db)) := by
  have S : Sound r w := h.invariant (sound_of_absent hnew) fun hu _ hs => hu.step hs
  exact ⟨S.unique, fun row hrow hrun => run_prepare_existing S hrow hrun, run_prepare_absent hfault hclean⟩

def demoRequest : Request where
  taskId := { int := 1, bounded := Uuid.one_lt }
  runId := { int := 2, bounded := by decide }
  project := { id := "project-a", defaultBranch := "main" }
  root := "/srv/worktrees"
  identity := "identity"

def demoTrial : Trial where
  owner := "executor-a"
  rowId := { int := 3, bounded := by decide }
  moves := fun _ refs => refs
  fault := none

/-- A clean repository with `main` at `tip`. -/
def demoWorld (tip : Commit) : World where
  db := { }
  refs := fun ref => if ref = "main" then some tip else none
  clean := true
  directories := fun _ => none

/-- The first attempt dies behind its `mkdir`. -/
def killedWorld : World := (prepare demoRequest demoTrial).interrupted Command.perform 6 (demoWorld "base")

/-- The first attempt succeeds, and then another run is applied to `main`. -/
def preparedWorld : World := ((prepare demoRequest demoTrial).run Command.perform (demoWorld "base")).2

def advancedWorld : World := { preparedWorld with refs := (demoWorld "applied").refs }

/-- The directory of the killed attempt stops every later one; the row of the prepared one is refused after the advance. -/
theorem prepare_stuck :
    (Reach (World.step demoRequest) (fun _ _ => True) (demoWorld "base") killedWorld ∧ killedWorld.db.worktrees = [] ∧
      killedWorld.clean = true ∧ ((prepare demoRequest demoTrial).run Command.perform killedWorld).1 =
        .error "derived worktree path already exists without a record") ∧
    Reach (World.step demoRequest) (fun _ _ => True) (demoWorld "base") advancedWorld ∧
      advancedWorld.db.worktrees.length = 1 ∧ advancedWorld.clean = true ∧
      ((prepare demoRequest demoTrial).run Command.perform advancedWorld).1 =
        .error "persisted worktree identity does not match the request" := by
  have hprepared : Reach (World.step demoRequest) (fun _ _ => True) (demoWorld "base") preparedWorld :=
    .step (a := .prepare demoTrial none) .refl trivial rfl
  refine ⟨⟨.step (a := .prepare demoTrial (some 6)) .refl trivial rfl, rfl, rfl, ?_⟩, ?_, rfl, rfl, ?_⟩
  · exact eq_error_of_raises (by decide +kernel)
  · refine .step (a := .others advancedWorld) hprepared trivial ?_
    exact bind_eq_ok.mpr ⟨(), raiseIf_eq_ok.mpr (not_or.mpr ⟨not_not_intro rfl, not_not_intro rfl⟩), rfl⟩
  · exact eq_error_of_raises (by decide +kernel)

theorem prepare_crash_safe_again :
    (∃ row t, (prepare demoRequest demoTrial).run Command.perform (demoWorld "base") = (.ok row, t) ∧
      t.db.worktrees = [row] ∧ t.directories demoRequest.path = some (built demoRequest row.baseCommit)) ∧
    ∃ row t, (prepare demoRequest demoTrial).run Command.perform preparedWorld = (.ok row, t) ∧
      t.db.worktrees = preparedWorld.db.worktrees := by
  have hnew : ∀ x ∈ (demoWorld "base").db.worktrees, x.runId ≠ demoRequest.runId := fun x hx => by cases hx
  have hreach : Reach (World.step demoRequest) (fun _ _ => True) (demoWorld "base") preparedWorld :=
    .step (a := .prepare demoTrial none) .refl trivial rfl
  obtain ⟨-, -, habsent⟩ := prepare_crash_safe demoRequest hnew .refl demoTrial rfl rfl
  obtain ⟨-, hthere, -⟩ := prepare_crash_safe demoRequest hnew hreach demoTrial rfl rfl
  obtain ⟨row, t, hrun, hrows, -, hbuilt⟩ := (habsent hnew).mpr ⟨by decide +kernel, rfl, fun x hx => by cases hx⟩
  obtain ⟨t', hrun', hkept⟩ := (hthere (demoRequest.row demoTrial "base" "main") (by decide +kernel) rfl).mpr (by decide +kernel)
  exact ⟨⟨row, t, hrun, hrows, hbuilt⟩, _, t', hrun', hkept⟩

end Vuzol.Execution.Worktrees
