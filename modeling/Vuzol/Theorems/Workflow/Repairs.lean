import Vuzol.Theorems.Workflow.Agreement

/-! The repairs of a step. Its row counts them all and names the fingerprints of the latest ones only, so that the
    guard against an identical repair sees as far as the history goes. -/

namespace Vuzol.Workflow

open Vuzol.Lib

section Repairs
variable {s t : State} {w w' : RepairRun} {x y : Step} {f : Facts} {o : StepOutcome} {op : Op} {m : Materialization}
variable {id : Nat} {r : Repair} {p : Step → Bool}
  {token : LeaseToken}

def latest (fingerprints : List String) : List String :=
  fingerprints.drop (fingerprints.length - fingerprintHistoryLimit)

def RepairRun.forgotten (w : RepairRun) (id : Nat) : List String :=
  (w.of id).take ((w.of id).length - fingerprintHistoryLimit)

theorem appendFingerprintHistory_latest (fingerprints : List String) (fingerprint : String) :
    appendFingerprintHistory (latest fingerprints) fingerprint = latest (fingerprints ++ [fingerprint]) := by
  have hgrown : latest fingerprints ++ [fingerprint] =
      (fingerprints ++ [fingerprint]).drop (fingerprints.length - fingerprintHistoryLimit) := by
    rw [List.drop_append_of_le_length (Nat.sub_le _ _)]
    rfl
  simp only [appendFingerprintHistory, latest]
  simp only [latest] at hgrown
  rw [hgrown, List.drop_drop]
  congr 1
  simp only [List.length_drop, List.length_append, List.length_singleton, fingerprintHistoryLimit]
  omega

theorem RepairRun.mem_of_iff {fingerprint : String} (w : RepairRun) (id : Nat) :
    fingerprint ∈ w.of id ↔ fingerprint ∈ w.forgotten id ∨ fingerprint ∈ latest (w.of id) := by
  have hsplit : w.forgotten id ++ latest (w.of id) = w.of id := List.take_append_drop _ _
  rw [← List.mem_append, hsplit]

theorem RepairRun.forgotten_nil (h : (w.of id).length ≤ fingerprintHistoryLimit) : w.forgotten id = [] := by
  unfold RepairRun.forgotten
  rw [Nat.sub_eq_zero_of_le h, List.take_zero]

theorem RepairRun.mem_log_iff (w : RepairRun) : r ∈ w.log ↔ r.fingerprint ∈ w.of r.stepId := by
  simp only [RepairRun.of, List.mem_map, List.mem_filter, decide_eq_true_eq]
  constructor
  · intro h
    exact ⟨r, ⟨h, rfl⟩, rfl⟩
  · rintro ⟨⟨id, fingerprint⟩, ⟨h, hid⟩, hf⟩
    cases hid
    cases hf
    exact h

def Step.isRepair (x : Step) : Bool := x.templateKey = .repairCode

/-- What a commit that schedules a repair of the row `x` stores. -/
structure Scheduling (f : Facts) (x z repair : Step) (s t : State) : Prop where
  rows : t.steps = put Step.key z (s.steps ++ [repair])
  row : z.toStepSpec = x.toStepSpec
  repairs : z.payload.repairs =
    (x.payload.repairCount + 1, appendFingerprintHistory x.payload.failureFingerprintHistory f.fingerprint)
  new : repair.id = s.steps.length
  isRepair : repair.isRepair = true
  unrepaired : repair.payload.repairs = (0, [])

theorem scheduleBoundedRepair_eq_ok {r : State × Step} (h : scheduleBoundedRepair f s x o = .ok (some r)) :
    decideRecovery (buildRecoveryState f s x o) s.run.recoveryPolicy = .repair ∧
      ∃ worker y, r = ((s.appendStep (repairStep f s x worker)).putStep y, y) ∧ y.toStepSpec = x.toStepSpec ∧
        y.status = .blocked ∧ y.payload.repairs =
          (x.payload.repairCount + 1, appendFingerprintHistory x.payload.failureFingerprintHistory f.fingerprint) := by
  unfold scheduleBoundedRepair at h
  simp only at h
  split_ifs at h with _ hdecide
  · cases h
  · cases h
  · split at h
    · cases h
    · rename_i worker _
      obtain ⟨-, h⟩ := transitionStep_bind.mp h
      cases h
      exact ⟨not_not.mp hdecide, worker, _, rfl, rfl, rfl, rfl⟩

theorem commitRows_schedules (hsched : repairScheduled f s x o = true) (h : commitRows f s x o = .ok t) :
    decideRecovery (buildRecoveryState f s x o) s.run.recoveryPolicy = .repair ∧
      ∃ z repair, Scheduling f x z repair s t := by
  simp only [repairScheduled, Bool.and_eq_true, decide_eq_true_eq] at hsched
  obtain ⟨hkind, hend⟩ := hsched
  obtain ⟨scheduled, hsched, hsome⟩ := exists_of_ends hend
  obtain ⟨r, rfl⟩ := Option.isSome_iff_exists.mp hsome
  obtain ⟨hdecide, worker, y, rfl, hspec, hblocked, hrepairs⟩ := scheduleBoundedRepair_eq_ok hsched
  refine ⟨hdecide, ?_⟩
  -- A repairable step is no dependency step.
  have htype : x.stepType ≠ .ensureDependencies := by
    intro hx
    have hrep : x.stepType = .validate ∨ x.stepType = .review :=
      (RecoveryState.repairable_iff (decideRecovery_repair hdecide).2.1).1
    rw [hx] at hrep
    rcases hrep with hrep | hrep <;> cases hrep
  have hblock : blockedOutcome f s x o = .ok ((s.appendStep (repairStep f s x worker)).putStep y, y) := by
    unfold blockedOutcome
    rw [hsched]
    rfl
  have happly : applyOutcome f s x o = .ok ((s.appendStep (repairStep f s x worker)).putStep y, y) := by
    simpa [applyOutcome, hkind, htype] using hblock
  unfold commitRows at h
  rw [happly, ok_bind] at h
  have hz : releaseStep o y = { y with failureCategory := o.category, failureSummary := o.summary
                                       leaseOwner := none, leaseExpiresAt := none } := by
    simp [releaseStep, hkind]
  have hnc : (releaseStep o y).status ≠ .completed := by
    rw [hz]
    simp [hblocked]
  simp only [if_neg hnc, Except.ok.injEq] at h
  refine ⟨releaseStep o y, repairStep f s x worker, ?_, by rw [hz]; exact hspec, by rw [hz]; exact hrepairs, rfl, rfl, rfl⟩
  rw [← h, State.putStep_steps, recordRunFailure_steps, State.putStep_steps, State.appendStep_steps, put_put]
  rw [hz]

theorem Op.repair_eq_some {r : Repair} (h : op.repair s = some r) : ∃ f token o x, op = .commitStepOutcome f token o ∧
    r = { stepId := token.stepId, fingerprint := f.fingerprint } ∧ leasedRow s token = .ok x ∧
    repairScheduled f s x o = true := by
  cases op with
  | commitStepOutcome f token o =>
    simp only [Op.repair] at h
    split_ifs at h with hend
    cases h
    obtain ⟨x, hx, hsched⟩ := exists_of_ends hend
    exact ⟨f, token, o, x, rfl, rfl, hx, hsched⟩
  | _ => cases h

theorem perform_schedules (hr : op.repair s = some r) (h : perform s op = .ok t) :
    ∃ f o x z repair, s.step? r.stepId = some x ∧ r.fingerprint = f.fingerprint ∧
      (∃ token, op = .commitStepOutcome f token o ∧ token.stepId = r.stepId) ∧
      decideRecovery (buildRecoveryState f s x o) s.run.recoveryPolicy = .repair ∧ Scheduling f x z repair s t := by
  obtain ⟨f, token, o, x, rfl, rfl, hx, hsched⟩ := Op.repair_eq_some hr
  obtain ⟨x', hx', h⟩ := bind_eq_ok.mp h
  obtain rfl : x' = x := Except.ok.inj (hx'.symm.trans hx)
  obtain ⟨u, hu, h⟩ := bind_eq_ok.mp h
  obtain ⟨hdecide, z, repair, hs⟩ := commitRows_schedules hsched hu
  refine ⟨f, o, x', z, repair, (leasedRow_eq_ok hx).1, rfl, ⟨token, rfl, rfl⟩, hdecide, ?_⟩
  exact ⟨by rw [projectTask_steps h, hs.rows], hs.row, hs.repairs, hs.new, hs.isRepair, hs.unrepaired⟩

structure Counted (w : RepairRun) : Prop where
  keyed : Keyed w.state
  rows : ∀ x ∈ w.state.steps, x.payload.repairs = ((w.of x.id).length, latest (w.of x.id))
  logged : ∀ r ∈ w.log, r.stepId < w.state.steps.length
  total : w.log.length ≤ w.state.steps.countP Step.isRepair

theorem RepairRun.of_fresh (h : ∀ r ∈ w.log, r.stepId ≠ id) : w.of id = [] := by
  rw [RepairRun.of, List.map_eq_nil_iff, List.filter_eq_nil_iff]
  intro r hr
  simpa using h r hr

theorem RepairRun.of_append {u : State} :
    RepairRun.of { state := u, log := w.log ++ [r] } id =
      w.of id ++ if r.stepId = id then [r.fingerprint] else [] := by
  by_cases h : r.stepId = id <;> simp [RepairRun.of, h]

theorem RepairRun.length_of_le (w : RepairRun) (id : Nat) : (w.of id).length ≤ w.log.length := by
  rw [RepairRun.of, List.length_map]
  exact List.length_filter_le _ _

theorem Keyed.exists_id (hk : Keyed s) (h : id < s.steps.length) : ∃ x ∈ s.steps, x.id = id := by
  have hid : id ∈ s.steps.map Step.key := by
    rw [hk]
    exact List.mem_range.mpr h
  exact List.mem_map.mp hid

theorem Keyed.id_lt (hk : Keyed s) (hx : x ∈ s.steps) : x.id < s.steps.length := by
  have hid : x.id ∈ s.steps.map Step.key := List.mem_map_of_mem hx
  rw [hk] at hid
  exact List.mem_range.mp hid

theorem countP_put {rows : List Step} (h : ∀ z ∈ rows, Step.key z = Step.key y → p z = p y) :
    (put Step.key y rows).countP p = rows.countP p := by
  have hcount : ∀ rows : List Step, rows.countP p = (rows.map p).countP id := fun rows => by
    rw [List.countP_map]
    rfl
  rw [hcount, hcount, map_put h]

structure Carries (s t : State) : Prop where
  keyed : Keyed t
  rows : ∀ y ∈ t.steps, (∃ x ∈ s.steps, x.id = y.id ∧ y.payload.repairs = x.payload.repairs) ∨
    (s.steps.length ≤ y.id ∧ y.payload.repairs = (0, []))
  length : s.steps.length ≤ t.steps.length
  repairs : s.steps.countP Step.isRepair ≤ t.steps.countP Step.isRepair

theorem Writes.row_repairs (hk : Keyed s) (h : Writes False s t) (hy : y ∈ t.steps) :
    (∃ x ∈ s.steps, x.id = y.id ∧ y.payload.repairs = x.payload.repairs) ∨
      (s.steps.length ≤ y.id ∧ y.payload.repairs = (0, [])) := by
  by_cases hlt : y.id < s.steps.length
  · obtain ⟨x, hx, hid⟩ := hk.exists_id hlt
    obtain ⟨z, hz, hw⟩ := h.rows.kept x hx
    obtain rfl : z = y := eq_of_key_eq h.keyed.nodup hz hy (hw.id_eq.trans hid)
    exact Or.inl ⟨x, hx, hid, hw.repairs.resolve_left id⟩
  · rcases h.rows.source y hy with ⟨x, hx, hw⟩ | hnew
    · exact Or.inl ⟨x, hx, hw.id_eq.symm, hw.repairs.resolve_left id⟩
    · exact Or.inr ⟨Nat.le_of_not_lt hlt, hnew.unrepaired.resolve_left id⟩

theorem Writes.keys_subset {q : Prop} (h : Writes q s t) (hp : ∀ {x y}, Wrote q x y → p x = true → p y = true) :
    (s.steps.filter p).map Step.key ⊆ (t.steps.filter p).map Step.key := by
  intro k hmem
  obtain ⟨x, hx, rfl⟩ := List.mem_map.mp hmem
  obtain ⟨hx, hr⟩ := List.mem_filter.mp hx
  obtain ⟨y, hy, hw⟩ := h.rows.kept x hx
  exact List.mem_map.mpr ⟨y, List.mem_filter.mpr ⟨hy, hp hw hr⟩, hw.key⟩

theorem Writes.countP_le {q : Prop} (hk : Keyed s) (h : Writes q s t) (hp : ∀ {x y}, Wrote q x y → p x = true → p y = true) :
    s.steps.countP p ≤ t.steps.countP p := by
  have hn : ((s.steps.filter p).map Step.key).Nodup := hk.nodup.sublist (List.filter_sublist.map Step.key)
  have hle := (List.subperm_of_subset hn (h.keys_subset hp)).length_le
  simpa [List.countP_eq_length_filter] using hle

theorem Writes.carries (hk : Keyed s) (h : Writes False s t) : Carries s t where
  keyed := h.keyed
  rows _ hy := h.row_repairs hk hy
  length := by
    have hle := h.countP_le (p := fun _ => true) hk fun _ _ => rfl
    simpa using hle
  repairs := h.countP_le hk fun hw hr => by
    unfold Step.isRepair at hr ⊢
    rw [hw.toStepSpec]
    exact hr

theorem Carries.put (hk : Keyed s) (hx : x ∈ s.steps) (hs : y.toStepSpec = x.toStepSpec)
    (hp : y.payload.repairs = x.payload.repairs) (ht : t.steps = Lib.put Step.key y s.steps) : Carries s t where
  keyed := hk.put ht
  rows z hz := by
    rw [ht] at hz
    rcases mem_or_of_mem_put hz with rfl | hz
    · exact Or.inl ⟨x, hx, (congrArg StepSpec.id hs).symm, hp⟩
    · exact Or.inl ⟨z, hz, rfl, rfl⟩
  length := by rw [ht, length_put]
  repairs := by
    have hcol : (Lib.put Step.key y s.steps).countP Step.isRepair = s.steps.countP Step.isRepair := by
      refine countP_put fun z hz hkey => ?_
      obtain rfl : z = x := eq_of_key_eq hk.nodup hz hx (hkey.trans (congrArg StepSpec.id hs))
      unfold Step.isRepair
      rw [hs]
    rw [ht, hcol]

theorem perform_carries (hk : Keyed s) (hr : op.repair s = none) (h : Workflow.perform s op = .ok t) : Carries s t := by
  by_cases hop : ∃ c, op = .claimStep c
  · obtain ⟨c, rfl⟩ := hop
    rcases perform_claim_cases h with rfl | ⟨x, hfind, -, rfl⟩
    · exact (Writes.refl hk).carries hk
    · exact .put (y := leaseStep c x) hk (State.mem_of_step? hfind).1 rfl rfl rfl
  · have hw := perform_writes hk (fun c hc => hop ⟨c, hc⟩) h
    simp only [hr, Option.isSome_none, Bool.false_eq_true] at hw
    exact hw.carries hk

theorem Counted.keep (h : Counted w) (hw : Carries w.state t) : Counted { state := t, log := w.log } where
  keyed := hw.keyed
  rows y hy := by
    rcases hw.rows y hy with ⟨x, hx, hid, hrep⟩ | ⟨hnew, hrep⟩
    · rw [hrep, h.rows x hx, hid]
      rfl
    · have hnil : RepairRun.of { state := t, log := w.log } y.id = [] :=
        RepairRun.of_fresh fun r hr hid => absurd (h.logged r hr) (by omega)
      rw [hrep, hnil]
      rfl
  logged r hr := Nat.lt_of_lt_of_le (h.logged r hr) hw.length
  total := Nat.le_trans h.total hw.repairs

theorem Scheduling.countP {z repair : Step} (h : Scheduling f x z repair s t) (hk : Keyed s) (hx : x ∈ s.steps) :
    t.steps.countP Step.isRepair = s.steps.countP Step.isRepair + 1 := by
  have hid : z.id = x.id := congrArg StepSpec.id h.row
  have hcol : (put Step.key z (s.steps ++ [repair])).countP Step.isRepair = (s.steps ++ [repair]).countP Step.isRepair := by
    refine countP_put fun y hy hkey => ?_
    rcases Lib.mem_concat.mp hy with hy | rfl
    · obtain rfl : y = x := eq_of_key_eq hk.nodup hy hx (hkey.trans hid)
      unfold Step.isRepair
      rw [h.row]
    · have hlt := hk.id_lt hx
      have hnew := h.new
      have hkey' : y.id = z.id := hkey
      omega
  rw [h.rows, hcol, List.countP_append]
  simp [h.isRepair]

theorem Counted.schedule {z repair : Step} (h : Counted w) (ht : Keyed t) (hx : x ∈ w.state.steps) (hid : x.id = r.stepId)
    (hf : r.fingerprint = f.fingerprint) (hs : Scheduling f x z repair w.state t) :
    Counted { state := t, log := w.log ++ [r] } where
  keyed := ht
  rows y hy := by
    have hzid : z.id = r.stepId := (congrArg StepSpec.id hs.row).trans hid
    rw [RepairRun.of_append]
    rw [hs.rows] at hy
    rcases mem_put.mp hy with ⟨rfl, -⟩ | ⟨hy, hkey⟩
    · have hrow := h.rows x hx
      simp only [Payload.repairs, Prod.mk.injEq] at hrow
      rw [hs.repairs, hrow.1, hrow.2, appendFingerprintHistory_latest, hid, if_pos hzid.symm, hzid, hf]
      simp
    · have hne : r.stepId ≠ y.id := fun he => hkey (he.symm.trans hzid.symm)
      rw [if_neg hne, List.append_nil]
      rcases Lib.mem_concat.mp hy with hy | rfl
      · exact h.rows y hy
      · have hnil : w.of y.id = [] := RepairRun.of_fresh fun r' hr' hrid => by
          have hlt := h.logged r' hr'
          have hnew := hs.new
          omega
        rw [hs.unrepaired, hnil]
        rfl
  logged r' hr' := by
    have hlen : t.steps.length = w.state.steps.length + 1 := by
      rw [hs.rows, length_put, List.length_append, List.length_singleton]
    rw [hlen]
    rcases Lib.mem_concat.mp hr' with hr' | rfl
    · exact Nat.lt_succ_of_lt (h.logged r' hr')
    · rw [← hid]
      exact Nat.lt_succ_of_lt (h.keyed.id_lt hx)
  total := by
    have htotal := h.total
    rw [hs.countP h.keyed hx, List.length_append, List.length_singleton]
    omega

theorem RepairRun.perform_eq_ok (h : w.perform op = .ok w') :
    ∃ t, Workflow.perform w.state op = .ok t ∧ w' = { state := t, log := w.log ++ (op.repair w.state).toList } := by
  obtain ⟨t, ht, h⟩ := bind_eq_ok.mp h
  cases h
  exact ⟨t, ht, rfl⟩

theorem Counted.perform (h : Counted w) (hop : w.perform op = .ok w') : Counted w' := by
  obtain ⟨t, ht, rfl⟩ := RepairRun.perform_eq_ok hop
  cases hr : op.repair w.state with
  | none =>
    have hlog : w.log ++ (none : Option Repair).toList = w.log := List.append_nil _
    rw [hlog]
    exact h.keep (perform_carries h.keyed hr ht)
  | some r =>
    obtain ⟨f, o, x, z, repair, hfind, hf, -, -, hs⟩ := perform_schedules hr ht
    obtain ⟨hx, hid⟩ := State.mem_of_step? hfind
    exact h.schedule (perform_keyed h.keyed ht) hx hid hf hs

theorem Counted.init (hm : materializeRun m = .ok s) : Counted { state := s } where
  keyed := by
    have hinv : Inv True m.chain s := .init hm
    exact hinv.live.rows.laid.keys
  rows x hx := by
    rw [(materializeRun_eq_ok hm).2.2] at hx
    obtain ⟨i, d, -, rfl⟩ := mem_compileWorkflow hx
    rfl
  logged r hr := by cases hr
  total := Nat.zero_le _

def RecoveryPolicy.withinHistory (policy : RecoveryPolicy) : Prop :=
  policy.stepRepairCap ≤ fingerprintHistoryLimit + 1 ∨ policy.taskRepairCap ≤ fingerprintHistoryLimit + 1

def Remembers (w : RepairRun) : Op → Prop
  | .commitStepOutcome f token _ =>
    w.state.run.recoveryPolicy.withinHistory ∨ f.fingerprint ∉ w.forgotten token.stepId
  | _ => True

instance (policy : RecoveryPolicy) : Decidable policy.withinHistory := inferInstanceAs (Decidable (_ ∨ _))

instance (w : RepairRun) (op : Op) : Decidable (Remembers w op) := by
  unfold Remembers
  split <;> infer_instance

theorem decideRecovery_repair_bounds {state : RecoveryState} {policy : RecoveryPolicy} {fingerprint : String}
    (h : decideRecovery state policy = .repair) (hf : state.fingerprint = some fingerprint) :
    fingerprint ∉ state.seenFingerprints ∧ state.repairCount < policy.stepRepairCap ∧
      state.taskRepairCount < policy.taskRepairCap := by
  unfold decideRecovery at h
  split_ifs at h with _ _ _ _ _ hseen hstep htask
  refine ⟨fun hmem => hseen ?_, Nat.lt_of_not_le hstep, Nat.lt_of_not_le htask⟩
  simpa [hf] using hmem

section
variable (h : Counted w) (hr : op.repair w.state = some r) (hop : Workflow.perform w.state op = .ok t)
include h hr hop

/-- A repair that is scheduled is not the repeat of one in the history; and below the caps of a small policy the
    history is complete. -/
theorem Counted.guarded :
    r.fingerprint ∉ latest (w.of r.stepId) ∧
      (w.state.run.recoveryPolicy.withinHistory → w.forgotten r.stepId = []) := by
  obtain ⟨f, o, x, z, repair, hfind, hf, -, hdecide, -⟩ := perform_schedules hr hop
  obtain ⟨hx, hid⟩ := State.mem_of_step? hfind
  have hrow := h.rows x hx
  simp only [Payload.repairs, Prod.mk.injEq, hid] at hrow
  obtain ⟨hseen, hstep, htask⟩ := decideRecovery_repair_bounds hdecide (rfl : _ = some f.fingerprint)
  simp only [buildRecoveryState, hrow.1, hrow.2] at hseen hstep htask
  refine ⟨hf ▸ hseen, fun hpolicy => RepairRun.forgotten_nil ?_⟩
  rcases hpolicy with hcap | hcap
  · omega
  · have hlen := w.length_of_le r.stepId
    have htotal := h.total
    have hcount : w.state.steps.countP (fun y => y.templateKey = .repairCode) =
        w.state.steps.countP Step.isRepair := rfl
    omega

theorem Counted.repeats_iff : r ∈ w.log ↔ ¬Remembers w op := by
  obtain ⟨hlatest, hsmall⟩ := h.guarded hr hop
  obtain ⟨f, o, x, z, repair, -, hf, ⟨token, rfl, htoken⟩, -, -⟩ := perform_schedules hr hop
  rw [w.mem_log_iff, w.mem_of_iff, or_iff_left hlatest]
  simp only [Remembers, not_or, not_not, htoken, ← hf]
  constructor
  · intro hforgot
    refine ⟨fun hpolicy => ?_, hforgot⟩
    rw [hsmall hpolicy] at hforgot
    cases hforgot
  · exact And.right

end

theorem Counted.nodup_iff (h : Counted w) (hn : w.log.Nodup) (hop : w.perform op = .ok w') :
    w'.log.Nodup ↔ Remembers w op ∨ op.repair w.state = none := by
  obtain ⟨t, ht, rfl⟩ := RepairRun.perform_eq_ok hop
  cases hr : op.repair w.state with
  | none => simpa using hn
  | some r =>
    have hrep := h.repeats_iff hr ht
    have happ : (w.log ++ [r]).Nodup ↔ r ∉ w.log := by
      rw [List.nodup_append_comm, List.singleton_append, List.nodup_cons, and_iff_left hn]
    simp only [Option.toList_some, reduceCtorEq, or_false]
    rw [happ, hrep, not_not]

/-- No step is repaired twice for one failure fingerprint in a run that only commits failures which the history of
    their step has not dropped, and the first repair of a dropped one is a repeat. -/
theorem no_identical_repair (h : RepairRun.Reached Remembers m w) :
    w.log.Nodup ∧ ∀ op w', w.perform op = .ok w' → (w'.log.Nodup ↔ Remembers w op ∨ op.repair w.state = none) := by
  obtain ⟨s, hm, hreach⟩ := h
  have hboth : Counted w ∧ w.log.Nodup :=
    hreach.invariant (P := fun w => Counted w ∧ w.log.Nodup) ⟨.init hm, List.nodup_nil⟩ fun ⟨hu, hn⟩ ha hop =>
      ⟨hu.perform hop, (hu.nodup_iff hn hop).mpr (Or.inl ha)⟩
  exact ⟨hboth.2, fun op w' hop => hboth.1.nodup_iff hboth.2 hop⟩

/-- The validation fails for the `k`-th time, and its source is repaired. -/
def repairRound (k : Nat) (fingerprint : String) : List Op :=
  [.claimStep (sampleClaim 6), .startStep ⟨6, "worker", k + 1⟩,
   .commitStepOutcome { fingerprint := fingerprint } ⟨6, "worker", k + 1⟩
     { kind := .blocked, category := some "validation_gate_failed" }] ++ finishSteps [13 + k]

def upToValidation : List Op := [.startRun {}] ++ finishSteps [1, 2, 3, 4, 5]

theorem no_identical_repair_once : ∃ w, RepairRun.Reached Remembers sampleRun w ∧
    w.log = [⟨6, "a"⟩, ⟨6, "b"⟩] ∧ w.log.Nodup := by
  obtain ⟨s, hm, hs⟩ := exists_of_ends (r := materializeRun sampleRun) (p := fun s =>
    ends (fun w : RepairRun => w.log == [⟨6, "a"⟩, ⟨6, "b"⟩])
      (runOps (fun w op => if Remembers w op then w.perform op else .error (.valueError "")) { state := s }
        (upToValidation ++ repairRound 0 "a" ++ repairRound 1 "b"))) (by decide +kernel)
  obtain ⟨w, hw, hlog⟩ := exists_of_ends hs
  have hreach : RepairRun.Reached Remembers sampleRun w := ⟨s, hm, reach_of_guarded hw⟩
  exact ⟨w, hreach, beq_iff_eq.mp hlog, (no_identical_repair hreach).1⟩

def oscillation : List Op :=
  upToValidation ++ (["a", "b", "c", "d", "e", "f", "g", "h", "i", "a"].mapIdx repairRound).flatten

def patientRun : Materialization :=
  { sampleRun with recoveryPolicy :=
      { defaultRecoveryPolicy with
        stepRepairCap := 10, taskRepairCap := 10, stepRepairCap_pos := by decide, taskRepairCap_pos := by decide } }

theorem identical_repair_repeated : ∃ w, RepairRun.Reached (fun _ _ => True) patientRun w ∧ ¬w.log.Nodup := by
  obtain ⟨s, hm, hs⟩ := exists_of_ends (r := materializeRun patientRun) (p := fun s =>
    ends (fun w : RepairRun => w.log.count ⟨6, "a"⟩ == 2) (runOps RepairRun.perform { state := s } oscillation))
    (by decide +kernel)
  obtain ⟨w, hw, hlog⟩ := exists_of_ends hs
  refine ⟨w, ⟨s, hm, reach_of_runOps (fun _ _ _ => trivial) hw⟩, fun hn => ?_⟩
  have hle := List.nodup_iff_count_le_one.mp hn ⟨6, "a"⟩
  rw [beq_iff_eq.mp hlog] at hle
  exact absurd hle (by decide)

end Repairs

end Vuzol.Workflow
