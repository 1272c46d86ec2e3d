import Vuzol.Backup.Orchestrator

/-! What must have been called before a restore process is started, and which reports say that the target may be dirty. -/

namespace Vuzol.Backup.Orchestrator

open Vuzol.Lib

variable (w : Inputs)

def path : List Call :=
  [.package, .target] ++ (if w.probeCaptureLock.isSome then [.probe] else []) ++
    (if w.assertEmptyTarget.isSome then [.empty] else []) ++ [.package, .target, .bind, .buildArgv, .unwrap, .decrypt]

def PassedBoth (first : Bool) : Prop :=
  (∃ r, w.packagePreflight first = .ok r ∧ r.ok = true) ∧ ∃ r, w.targetPreflight first = .ok r ∧ r.ok = true

/-- What a started restore process was asked for. -/
structure Gated : Prop where
  mode : w.mode.resolve = some .apply
  authorized : w.applyAuthorized = .true_
  passedFirst : PassedBoth w true
  lock : ∀ answer, w.probeCaptureLock = some answer → answer = .ok .true_
  empty : ∀ answer, w.assertEmptyTarget = some answer → answer = .ok ()
  passedSecond : PassedBoth w false
  kek : ∃ b, w.kek = .bytes b ∧ b.length = 32
  dek : ∃ b, w.unwrap = .ok (.bytes b) ∧ b.length = 32
  order : calls w = path w ++ [.runRestore, .close]

def MayHaveStarted : Prop := ∀ result, w.runRestore = .ok result → result.processStarted = true

def Finished : Prop := ∃ result, w.runRestore = .ok result ∧ isRestored result = true

def Early : Exit → List Call → Prop
  | .report r, log => .runRestore ∉ log ∧ (r.targetMayBeDirty = false ∨ w.binder = .injected (.ok (some r)))
  | .escaped _, log => .runRestore ∉ log

variable {w : Inputs} {log : List Call} {mode : RestoreMode}

abbrev Stage (w : Inputs) {α : Type} (p : Restoring α) (post : α → List Call → Prop) (log : List Call) : Prop :=
  p.Ends (fun _ s => s) post (Early w) log ()

theorem not_mem_snoc {c : Call} (hlog : Call.runRestore ∉ log) (hc : c ≠ .runRestore) : Call.runRestore ∉ log ++ [c] := by
  rw [List.mem_append, List.mem_singleton, not_or]
  exact ⟨hlog, hc.symm⟩

theorem ask_stage {α : Type} {c : Call} {answer : Answer α} {refuse : Raised → Option RestoreOrchestrationReport}
    (hlog : .runRestore ∉ log) (hc : c ≠ .runRestore)
    (hrefuse : ∀ e r, refuse e = some r → r.targetMayBeDirty = false) :
    Stage w (ask c answer refuse) (fun a log' => answer = .ok a ∧ log' = log ++ [c]) log := by
  have hnext := not_mem_snoc hlog hc
  unfold ask Stage Program.Ends
  cases answer with
  | ok a => exact ⟨rfl, rfl⟩
  | error e =>
    dsimp only
    split
    · rename_i r hr
      exact ⟨hnext, Or.inl (hrefuse e r hr)⟩
    · exact hnext

theorem refuseIf_stage {p : Prop} [Decidable p] {r : RestoreOrchestrationReport} (hlog : .runRestore ∉ log)
    (hr : r.targetMayBeDirty = false) : Stage w (refuseIf p r) (fun _ log' => ¬p ∧ log' = log) log := by
  unfold refuseIf
  split
  · exact ⟨hlog, Or.inl hr⟩
  · rename_i hp
    exact ⟨hp, rfl⟩

theorem uncaught_clean (e : Raised) (r : RestoreOrchestrationReport) (h : uncaught e = some r) : r.targetMayBeDirty = false := by
  cases h

theorem onException_clean {r' : RestoreOrchestrationReport} (hr' : r'.targetMayBeDirty = false) (e : Raised)
    (r : RestoreOrchestrationReport) (h : onException r' e = some r) : r.targetMayBeDirty = false := by
  cases e <;> cases h <;> exact hr'

theorem onCrypto_clean {c o : RestoreOrchestrationReport} (hc : c.targetMayBeDirty = false) (ho : o.targetMayBeDirty = false)
    (e : Raised) (r : RestoreOrchestrationReport) (h : onCrypto c o e = some r) : r.targetMayBeDirty = false := by
  cases e <;> cases h
  · exact hc
  · exact ho

def Passed.Of (passed : Passed) (w : Inputs) (first : Bool) : Prop :=
  (w.packagePreflight first = .ok passed.1 ∧ passed.1.ok = true) ∧ w.targetPreflight first = .ok passed.2 ∧ passed.2.ok = true

variable {passed : Passed}

theorem Passed.Of.both {first : Bool} (h : passed.Of w first) : PassedBoth w first :=
  ⟨⟨_, h.1⟩, ⟨_, h.2⟩⟩

section
variable (hlog : .runRestore ∉ log)
include hlog

theorem pass_stage (first : Bool) :
    Stage w (pass w mode first) (fun passed log' => passed.Of w first ∧ log' = log ++ [.package] ++ [.target]) log := by
  have hlog1 : Call.runRestore ∉ log ++ [.package] := not_mem_snoc hlog (by decide)
  unfold pass
  refine Program.ends_bind (ask_stage hlog (by decide) uncaught_clean) ?_
  rintro package _ ⟨⟩ ⟨hpackage, rfl⟩
  refine Program.ends_bind (refuseIf_stage hlog1 rfl) ?_
  rintro ⟨⟩ _ ⟨⟩ ⟨hpackageOk, rfl⟩
  refine Program.ends_bind (ask_stage hlog1 (by decide) uncaught_clean) ?_
  rintro target _ ⟨⟩ ⟨htarget, rfl⟩
  refine Program.ends_bind (refuseIf_stage (not_mem_snoc hlog1 (by decide)) rfl) ?_
  rintro ⟨⟩ _ ⟨⟩ ⟨htargetOk, rfl⟩
  exact ⟨⟨⟨hpackage, Bool.not_eq_false _ ▸ hpackageOk⟩, htarget, Bool.not_eq_false _ ▸ htargetOk⟩, rfl⟩

theorem probeLock_stage (passed : Passed) :
    Stage w (probeLock w passed) (fun _ log' => (∀ answer, w.probeCaptureLock = some answer → answer = .ok .true_) ∧
      log' = log ++ (if w.probeCaptureLock.isSome then [.probe] else [])) log := by
  unfold probeLock
  cases h : w.probeCaptureLock with
  | none => exact ⟨fun _ hanswer => (by cases hanswer), (List.append_nil log).symm⟩
  | some answer =>
    refine Program.ends_bind (ask_stage hlog (by decide) uncaught_clean) ?_
    rintro free _ ⟨⟩ ⟨hfree, rfl⟩
    refine Program.Ends.mono (refuseIf_stage (not_mem_snoc hlog (by decide)) rfl) ?_
    rintro ⟨⟩ _ ⟨htrue, rfl⟩
    rw [not_not] at htrue
    exact ⟨fun _ hanswer => (by rw [← Option.some.inj hanswer, hfree, htrue]), rfl⟩

theorem requireEmpty_stage (passed : Passed) :
    Stage w (requireEmpty w passed) (fun _ log' => (∀ answer, w.assertEmptyTarget = some answer → answer = .ok ()) ∧
      log' = log ++ (if w.assertEmptyTarget.isSome then [.empty] else [])) log := by
  unfold requireEmpty
  cases h : w.assertEmptyTarget with
  | none => exact ⟨fun _ hanswer => (by cases hanswer), (List.append_nil log).symm⟩
  | some answer =>
    refine Program.Ends.mono (ask_stage hlog (by decide) (onException_clean rfl)) ?_
    rintro ⟨⟩ _ ⟨hempty, rfl⟩
    exact ⟨fun _ hanswer => (by rw [← Option.some.inj hanswer, hempty]), rfl⟩

theorem bindPackage_stage (passed : Passed) :
    Stage w (bindPackage w mode passed) (fun _ log' => log' = log ++ [.bind]) log := by
  have hlog1 : Call.runRestore ∉ log ++ [.bind] := not_mem_snoc hlog (by decide)
  unfold bindPackage
  refine Program.ends_bind (ask_stage hlog (by decide) uncaught_clean) ?_
  rintro handle _ ⟨⟩ ⟨hhandle, rfl⟩
  cases handle with
  | none => exact rfl
  | some r =>
    refine ⟨hlog1, ?_⟩
    cases hbinder : w.binder with
    | standard failure =>
      rw [hbinder] at hhandle
      obtain ⟨failed, -, hfailed⟩ := map_eq_ok.mp hhandle
      obtain ⟨x, -, rfl⟩ := Option.map_eq_some_iff.mp hfailed
      exact Or.inl rfl
    | injected answer =>
      rw [hbinder] at hhandle
      exact Or.inr (congrArg Binder.injected hhandle)

theorem requireKek_stage (passed : Passed) :
    Stage w (requireKek w mode passed) (fun _ log' => w.kek.isKeyBytes32 = true ∧ log' = log) log := by
  refine Program.Ends.mono (refuseIf_stage hlog rfl) ?_
  rintro ⟨⟩ _ ⟨hkek, rfl⟩
  exact ⟨Bool.not_eq_false _ ▸ hkek, rfl⟩

theorem unwrapDek_stage (passed : Passed) :
    Stage w (unwrapDek w mode passed) (fun _ log' => (∃ dek, w.unwrap = .ok dek ∧ dek.isKeyBytes32 = true) ∧
      log' = log ++ [.unwrap]) log := by
  unfold unwrapDek
  refine Program.ends_bind (ask_stage hlog (by decide) (onCrypto_clean rfl rfl)) ?_
  rintro dek _ ⟨⟩ ⟨hdek, rfl⟩
  refine Program.Ends.mono (refuseIf_stage (not_mem_snoc hlog (by decide)) rfl) ?_
  rintro ⟨⟩ _ ⟨hlength, rfl⟩
  exact ⟨⟨dek, hdek, Bool.not_eq_false _ ▸ hlength⟩, rfl⟩

end

theorem isKeyBytes32_iff {k : KeyMaterial} : k.isKeyBytes32 = true ↔ ∃ b, k = .bytes b ∧ b.length = 32 := by
  cases k with
  | bytes b => simp [KeyMaterial.isKeyBytes32]
  | other => simp [KeyMaterial.isKeyBytes32]

variable (w) in
structure Ready : Prop where
  passedFirst : PassedBoth w true
  lock : ∀ answer, w.probeCaptureLock = some answer → answer = .ok .true_
  empty : ∀ answer, w.assertEmptyTarget = some answer → answer = .ok ()
  passedSecond : PassedBoth w false
  kek : w.kek.isKeyBytes32 = true
  dek : ∃ dek, w.unwrap = .ok dek ∧ dek.isKeyBytes32 = true

variable (w) in
def Launched (log : List Call) : Prop := Ready w ∧ log = path w ++ [.runRestore, .close]

variable (w) in
def Late : Exit → List Call → Prop
  | .report r, log => Early w (.report r) log
  | .escaped _, log => .runRestore ∉ log ∨ Launched w log

variable (w) in
def Returned (r : RestoreOrchestrationReport) (log : List Call) : Prop :=
  (.runRestore ∉ log ∧ r.targetMayBeDirty = false) ∨
    (Launched w log ∧ (r.targetMayBeDirty = true ↔ MayHaveStarted w ∧ ¬Finished w))

theorem late_of_early (e : Exit) (log : List Call) (h : Early w e log) : Late w e log := by
  cases e with
  | report r => exact h
  | escaped e => exact Or.inl h

theorem Stage.late {α : Type} {p : Restoring α} {post : α → List Call → Prop} (h : Stage w p post log) :
    p.Ends (fun _ s => s) post (Late w) log () :=
  Program.Ends.weaken h (fun _ _ hpost => hpost) late_of_early

theorem processReport_dirty {r : RestoreOrchestrationReport}
    (h : processReport passed w.runRestore = .ok r) : r.targetMayBeDirty = true ↔ MayHaveStarted w ∧ ¬Finished w := by
  unfold MayHaveStarted Finished
  cases hrun : w.runRestore with
  | ok result =>
    rw [hrun] at h
    cases h
    simp
  | error e =>
    rw [hrun] at h
    cases e with
    | base => cases h
    | crypto =>
      cases h
      simp
    | exception =>
      cases h
      simp

theorem closing_ends (hlaunched : Launched w (log ++ [.close])) :
    (closing w (processReport passed w.runRestore)).Ends (fun _ s => s) (Returned w) (Late w) log () := by
  unfold closing Program.Ends
  split
  · exact Or.inr hlaunched
  · split
    · rename_i r hr
      exact Or.inr ⟨hlaunched, processReport_dirty hr⟩
    · exact Or.inr hlaunched

theorem apply_ends : (apply w).Ends (fun _ s => s) (Returned w) (Late w) [] () := by
  unfold apply
  refine Program.ends_bind (pass_stage List.not_mem_nil true).late ?_
  rintro first log1 ⟨⟩ ⟨hfirst, hlog1⟩
  have hmem1 : Call.runRestore ∉ log1 := by
    rw [hlog1]
    decide
  refine Program.ends_bind (probeLock_stage hmem1 first).late ?_
  rintro ⟨⟩ log2 ⟨⟩ ⟨hlock, hlog2⟩
  have hmem2 : Call.runRestore ∉ log2 := by
    rw [hlog2, List.mem_append, not_or]
    refine ⟨hmem1, ?_⟩
    split <;> decide
  refine Program.ends_bind (requireEmpty_stage hmem2 first).late ?_
  rintro ⟨⟩ log3 ⟨⟩ ⟨hempty, hlog3⟩
  have hmem3 : Call.runRestore ∉ log3 := by
    rw [hlog3, List.mem_append, not_or]
    refine ⟨hmem2, ?_⟩
    split <;> decide
  refine Program.ends_bind (pass_stage hmem3 false).late ?_
  rintro passed _ ⟨⟩ ⟨hsecond, rfl⟩
  have hmem4 := not_mem_snoc (c := .target) (not_mem_snoc (c := .package) hmem3 (by decide)) (by decide)
  refine Program.ends_bind (bindPackage_stage hmem4 passed).late ?_
  rintro ⟨⟩ _ ⟨⟩ rfl
  have hmem5 := not_mem_snoc (c := .bind) hmem4 (by decide)
  refine Program.ends_bind (requireKek_stage hmem5 passed).late ?_
  rintro ⟨⟩ _ ⟨⟩ ⟨hkek, rfl⟩
  refine Program.ends_bind (ask_stage hmem5 (by decide) (onException_clean rfl)).late ?_
  rintro argv _ ⟨⟩ ⟨-, rfl⟩
  have hmem6 := not_mem_snoc (c := .buildArgv) hmem5 (by decide)
  refine Program.ends_bind (unwrapDek_stage hmem6 passed).late ?_
  rintro ⟨⟩ _ ⟨⟩ ⟨hdek, rfl⟩
  have hmem7 := not_mem_snoc (c := .unwrap) hmem6 (by decide)
  refine Program.ends_bind (ask_stage hmem7 (by decide) (onCrypto_clean rfl rfl)).late ?_
  rintro ⟨⟩ _ ⟨⟩ ⟨-, rfl⟩
  refine closing_ends ⟨⟨hfirst.both, hlock, hempty, hsecond.both, hkek, hdek⟩, ?_⟩
  rw [hlog3, hlog2, hlog1, path]
  simp

theorem dryRun_ends (verify : Bool) : Stage w (dryRun w verify)
    (fun r log => .runRestore ∉ log ∧ r.targetMayBeDirty = false) [] := by
  unfold dryRun
  refine Program.ends_bind (pass_stage List.not_mem_nil true) ?_
  rintro passed _ ⟨⟩ ⟨-, rfl⟩
  split
  · unfold verifyCrypto
    refine Program.ends_bind (requireKek_stage (by decide) passed) ?_
    rintro ⟨⟩ _ ⟨⟩ ⟨-, rfl⟩
    refine Program.ends_bind (bindPackage_stage (by decide) passed) ?_
    rintro ⟨⟩ _ ⟨⟩ rfl
    refine Program.ends_bind (unwrapDek_stage (by decide) passed) ?_
    rintro ⟨⟩ _ ⟨⟩ ⟨-, rfl⟩
    refine Program.ends_bind (ask_stage (by decide) (by decide) (onCrypto_clean rfl rfl)) ?_
    rintro ⟨⟩ _ ⟨⟩ ⟨-, rfl⟩
    have hmem : Call.runRestore ∉ [] ++ [Call.package] ++ [.target] ++ [.bind] ++ [.unwrap] ++ [.decrypt] ++ [.consume] ++ [.close] := by
      decide
    unfold closing Program.Ends Program.Ends
    split
    · exact hmem
    · cases w.consume with
      | ok => exact ⟨hmem, rfl⟩
      | error e =>
        cases e with
        | crypto => exact ⟨hmem, rfl⟩
        | exception => exact ⟨hmem, rfl⟩
        | base => exact hmem
  · exact ⟨by decide, rfl⟩

variable (w) in
def Judged (log : List Call) (p : Prop) : Prop :=
  .runRestore ∉ log ∨ (w.mode.resolve = some .apply ∧ w.applyAuthorized = .true_ ∧ Launched w log ∧ p)

variable (w) in
def Sound (r : RestoreOrchestrationReport) (log : List Call) : Prop :=
  Judged w log (r.targetMayBeDirty = true ↔ MayHaveStarted w ∧ ¬Finished w) ∧
    (.runRestore ∉ log → r.targetMayBeDirty = false ∨ w.binder = .injected (.ok (some r)))

theorem orchestrate_ends : (orchestrate w).Ends (fun _ s => s) (Sound w)
    (fun e log => match e with
      | .report r => Sound w r log
      | .escaped _ => Judged w log True) [] () := by
  have hclean : ∀ r : RestoreOrchestrationReport, r.targetMayBeDirty = false → Sound w r [] := fun r hr =>
    ⟨Or.inl List.not_mem_nil, fun _ => Or.inl hr⟩
  unfold orchestrate
  split
  · exact hclean _ rfl
  · rename_i mode hmode
    split
    · exact hclean _ rfl
    · cases mode with
      | dryRun =>
        refine (dryRun_ends _).weaken (fun r log h => ⟨Or.inl h.1, fun _ => Or.inl h.2⟩) fun e log h => ?_
        cases e with
        | report r => exact ⟨Or.inl h.1, fun _ => h.2⟩
        | escaped e => exact Or.inl h
      | apply =>
        dsimp only
        split
        · exact hclean _ rfl
        · rename_i hauthorized
          rw [not_not] at hauthorized
          refine apply_ends.weaken (fun r log h => ?_) fun e log h => ?_
          · rcases h with ⟨hmem, hdirty⟩ | ⟨hlaunched, hdirty⟩
            · exact ⟨Or.inl hmem, fun _ => Or.inl hdirty⟩
            · exact ⟨Or.inr ⟨hmode, hauthorized, hlaunched, hdirty⟩, fun hmem => absurd (hlaunched.2 ▸ by simp) hmem⟩
          · cases e with
            | report r => exact ⟨Or.inl h.1, fun _ => h.2⟩
            | escaped e => exact h.imp_right fun hlaunched => ⟨hmode, hauthorized, hlaunched, trivial⟩

theorem gated_of_judged {p : Prop} (h : Judged w (calls w) p) (hcall : .runRestore ∈ calls w) : Gated w ∧ p := by
  rcases h with hmem | ⟨hmode, hauthorized, ⟨R, horder⟩, hp⟩
  · exact absurd hcall hmem
  · obtain ⟨dek, hdek, hlength⟩ := R.dek
    obtain ⟨b, rfl, hb⟩ := isKeyBytes32_iff.mp hlength
    exact ⟨{ mode := hmode, authorized := hauthorized, passedFirst := R.passedFirst, lock := R.lock, empty := R.empty,
             passedSecond := R.passedSecond, kek := isKeyBytes32_iff.mp R.kek, dek := ⟨b, hdek, hb⟩, order := horder }, hp⟩

theorem gated_of_runRestore (hcall : .runRestore ∈ calls w) : Gated w := by
  have hends := (orchestrate_ends (w := w)).run
  rw [List.nil_append] at hends
  split at hends
  · exact (gated_of_judged hends.1 hcall).1
  · rename_i e he
    cases e with
    | report r => exact (gated_of_judged hends.1 hcall).1
    | escaped e => exact (gated_of_judged hends hcall).1

/-- A restore process is asked for behind all its gates only, never by a dry run; a report says that the target may be
    dirty exactly where the process may have been started and did not finish, unless it is an injected binder's own. -/
theorem restore_gating (w : Inputs) :
    (.runRestore ∈ calls w → Gated w) ∧ (w.mode.resolve = some .dryRun → .runRestore ∉ calls w) ∧
    ∀ r, outcome w = .ok r → (r.targetMayBeDirty = true ↔ .runRestore ∈ calls w ∧ MayHaveStarted w ∧ ¬Finished w) ∨
      w.binder = .injected (.ok (some r)) := by
  have hends := (orchestrate_ends (w := w)).run
  rw [List.nil_append] at hends
  have hsound : ∀ r, outcome w = .ok r → Sound w r (calls w) := fun r hr => by
    unfold outcome at hr
    split at hends
    · rename_i r' hr'
      rw [hr'] at hr
      cases hr
      exact hends
    · rename_i e he
      rw [he] at hr
      cases e with
      | report r' =>
        cases hr
        exact hends
      | escaped e => cases hr
  refine ⟨gated_of_runRestore, fun hmode hcall => ?_, fun r hr => ?_⟩
  · rw [(gated_of_runRestore hcall).mode] at hmode
    cases hmode
  · obtain ⟨hjudged, hearly⟩ := hsound r hr
    by_cases hcall : .runRestore ∈ calls w
    · have hdirty := (gated_of_judged hjudged hcall).2
      exact Or.inl ⟨fun h => ⟨hcall, hdirty.mp h⟩, fun h => hdirty.mpr h.2⟩
    · rcases hearly hcall with hclean | hbinder
      · exact Or.inl ⟨fun h => absurd (hclean.symm.trans h) Bool.false_ne_true, fun h => absurd h.1 hcall⟩
      · exact Or.inr hbinder

end Vuzol.Backup.Orchestrator
