import Vuzol.Discussion.Memory

/-! The units that the writer derives from accepted decisions. A job reads the decision it was enqueued for, but not whether
    it is still active, so the units converge to the active decisions in the runs where an extraction that comes too late
    has a job behind it that takes its unit out of recall again. -/

namespace Vuzol.Memory
open Lib DecisionMemory

variable {limits : MemoryLimits} {s t : DecisionMemory}
variable {e : AcceptedDecision} {units : List MemoryUnit} {u : MemoryUnit} {key : Text}

/-! ### Runs in order -/

def RetractionPending (s : DecisionMemory) (d : AcceptedDecision) : Prop :=
  ∃ j ∈ s.jobs, j.operation = .retractUnits ∧ j.decisionId = d.id ∧ j.executed = 0

def ReplacementPending (s : DecisionMemory) (d : AcceptedDecision) : Prop :=
  ∃ e ∈ s.decisions, e.key = d.key ∧ d.id < e.id ∧
    ∃ j ∈ s.jobs, j.operation = .extractDecision ∧ j.decisionId = e.id ∧ j.executed = 0

/-- The effective times that the extraction of `d` compares are in the order of acceptance. -/
def ComparedInOrder (s : DecisionMemory) (d : AcceptedDecision) : Prop :=
  ∀ u ∈ s.activeChain d.key, u.sourceDecisionId ≠ d.id → (u.sourceDecisionId < d.id ↔ u.effectiveAt < d.createdAt)

/-- The extraction of `d` is going to write a unit: there is none of `d`, and none that stands in its way. -/
def WritesUnit (s : DecisionMemory) (d : AcceptedDecision) : Prop :=
  (∀ u ∈ s.units, u.sourceDecisionId ≠ d.id) ∧ ∀ u ∈ s.activeChain d.key, u.effectiveAt < d.createdAt

def templateSafe (key statement : Text) (userId : Nat) : Bool :=
  match validateDecision key statement with
  | .ok (key, statement) => (decisionTemplate key statement userId).isOk
  | .error _ => true

/-- The operation meets no decision whose template is refused, no times out of order, and no extraction of a decision
    withdrawn in the meantime whose unit nothing is left to remove. -/
def InOrder (s : DecisionMemory) : MemoryOp → Prop
  | .accept key statement userId _ _ => templateSafe key statement userId = true
  | .supersede key statement userId _ _ => templateSafe key statement userId = true
  | .retract _ => True
  | .execute jobId => ∀ j ∈ s.jobs, j.id = jobId → j.operation = .extractDecision →
      ∀ d ∈ s.decisions, d.id = j.decisionId →
        ComparedInOrder s d ∧ (d.status ≠ .active → WritesUnit s d → RetractionPending s d ∨ ReplacementPending s d)

instance (d : AcceptedDecision) : Decidable (RetractionPending s d) :=
  inferInstanceAs (Decidable (∃ j ∈ s.jobs, _))

instance (d : AcceptedDecision) : Decidable (ReplacementPending s d) :=
  inferInstanceAs (Decidable (∃ e ∈ s.decisions, _))

instance (d : AcceptedDecision) : Decidable (ComparedInOrder s d) :=
  inferInstanceAs (Decidable (∀ u ∈ s.activeChain d.key, _))

instance (d : AcceptedDecision) : Decidable (WritesUnit s d) :=
  inferInstanceAs (Decidable ((∀ u ∈ s.units, _) ∧ ∀ u ∈ s.activeChain d.key, _))

instance : (op : MemoryOp) → Decidable (InOrder s op)
  | .accept _ _ _ _ _ => inferInstanceAs (Decidable (_ = true))
  | .supersede _ _ _ _ _ => inferInstanceAs (Decidable (_ = true))
  | .retract _ => inferInstanceAs (Decidable True)
  | .execute _ => inferInstanceAs (Decidable (∀ j ∈ s.jobs, _))

/-! ### The texts of decisions -/

theorem validateDecision_key {statement k t : Text} (h : validateDecision key statement = .ok (k, t)) : k.length ≤ 64 := by
  obtain ⟨_, hkey, h⟩ := bind_eq_ok.mp h
  obtain ⟨_, -, h⟩ := bind_eq_ok.mp h
  obtain ⟨_, -, h⟩ := bind_eq_ok.mp h
  cases h
  rw [raiseIf_eq_ok] at hkey
  omega

theorem extractionIdentity_ok (hkey : key.length ≤ 64) (trigger : Nat) :
    extractionIdentity trigger ("decision:".toList ++ key) =
      .ok { triggerEventId := trigger, unitKey := strip ("decision:".toList ++ key) } := by
  have hlen : ("decision:".toList ++ key).length = key.length + 9 := by simp
  have hle := length_strip_le ("decision:".toList ++ key)
  have hd : 'd' ∈ strip ("decision:".toList ++ key) := mem_strip (List.mem_append_left _ (by decide)) (by decide)
  have hne : strip ("decision:".toList ++ key) ≠ [] := List.ne_nil_of_mem hd
  have hok : ¬(strip ("decision:".toList ++ key) = [] ∨ 128 < (strip ("decision:".toList ++ key)).length) := by
    rintro (h | h)
    · exact hne h
    · omega
  show (raiseIf _ "invalid_memory_unit" >>= fun _ => _) = _
  rw [raiseIf_of_not hok]
  rfl

/-! ### What a job writes -/

/-- `v` is `u`, or `u` taken out of recall. -/
structure Demoted (u v : MemoryUnit) : Prop where
  id : v.id = u.id
  identity : v.extractionIdentity = u.extractionIdentity
  sourceKey : v.sourceKey = u.sourceKey
  decision : v.sourceDecisionId = u.sourceDecisionId
  effectiveAt : v.effectiveAt = u.effectiveAt
  text : v.text = u.text
  recallable : v.status.isRecallable = true → v = u

theorem Demoted.refl (u : MemoryUnit) : Demoted u u := ⟨rfl, rfl, rfl, rfl, rfl, rfl, fun _ => rfl⟩

def superseding (winner : Nat) (u : MemoryUnit) : MemoryUnit := { u with status := .superseded, supersededBy := some winner }

def retracting (u : MemoryUnit) : MemoryUnit := { u with status := .retracted }

theorem superseding_demoted (winner : Nat) (u : MemoryUnit) : Demoted u (superseding winner u) :=
  ⟨rfl, rfl, rfl, rfl, rfl, rfl, fun h => nomatch h⟩

theorem retracting_demoted (u : MemoryUnit) : Demoted u (retracting u) :=
  ⟨rfl, rfl, rfl, rfl, rfl, rfl, fun h => nomatch h⟩

theorem checkStatusTransition_of_recallable {source : MemoryUnitStatus} (h : source.isRecallable = true) :
    checkStatusTransition source .superseded = .ok () ∧ checkStatusTransition source .retracted = .ok () := by
  cases source <;> first | exact ⟨rfl, rfl⟩ | cases h

theorem foldlM_units {p : MemoryUnit → Bool} {g : MemoryUnit → MemoryUnit}
    {write : DecisionMemory → MemoryUnit → Except String DecisionMemory} (hn : (s.units.map MemoryUnit.id).Nodup)
    (hg : ∀ u, (g u).id = u.id)
    (hwrite : ∀ u ∈ s.units, p u = true → ∀ t : DecisionMemory,
      write t u = .ok { t with units := put MemoryUnit.id (g u) t.units }) :
    (s.units.filter p).foldlM write s = .ok { s with units := s.units.map fun u => if p u then g u else u } := by
  have hfold : ∀ (us : List MemoryUnit) (t : DecisionMemory),
      us.foldl (fun t u => { t with units := put MemoryUnit.id (g u) t.units }) t =
        { t with units := us.foldl (fun units u => put MemoryUnit.id (g u) units) t.units } := by
    intro us
    induction us with
    | nil => intro t; rfl
    | cons u us ih => intro t; rw [List.foldl_cons, ih, List.foldl_cons]
  have hchain : ((s.units.filter p).map MemoryUnit.id).Nodup := hn.sublist (List.filter_sublist.map _)
  rw [foldlM_ok (k := fun t u => { t with units := put MemoryUnit.id (g u) t.units })
    fun u hu t => hwrite u (List.mem_filter.mp hu).1 (List.mem_filter.mp hu).2 t, hfold,
    foldl_put hg hn hchain fun _ hu => (List.mem_filter.mp hu).1]
  congr 2
  apply List.map_congr_left
  intro u hu
  simp [List.mem_filter, hu]

theorem setUnitStatus_retracted (hu : u.status.isRecallable = true) (t : DecisionMemory) :
    t.setUnitStatus u .retracted = .ok { t with units := put MemoryUnit.id (retracting u) t.units } := by
  unfold setUnitStatus
  rw [(checkStatusTransition_of_recallable hu).2]
  rfl

theorem markSuperseded_eq (hu : u.status.isRecallable = true) (winner : Nat) (t : DecisionMemory) :
    t.markSuperseded u winner = .ok { t with units := put MemoryUnit.id (superseding winner u) t.units } := by
  unfold markSuperseded
  rw [(checkStatusTransition_of_recallable hu).1]
  rfl

theorem retractDecisionUnits_eq (hn : (s.units.map MemoryUnit.id).Nodup) (j : MemoryJob) :
    s.retractDecisionUnits j = .ok { s with
      units := s.units.map fun u =>
        if decide (u.sourceDecisionId = j.decisionId ∧ u.status.isRecallable = true) then retracting u else u } :=
  foldlM_units hn (fun _ => rfl) fun _ _ hp t => setUnitStatus_retracted (of_decide_eq_true hp).2 t

def supersedeOthers (key : Text) (keep : Nat) (units : List MemoryUnit) : List MemoryUnit :=
  units.map fun u =>
    if decide (u.id ≠ keep) && decide (u.sourceKey = key ∧ u.status.isRecallable = true) then superseding keep u else u

theorem supersedeChain_eq (hn : (s.units.map MemoryUnit.id).Nodup) (key : Text) (keep : Nat) :
    (s.activeChain key).foldlM (fun s u => if u.id ≠ keep then s.markSuperseded u keep else .ok s) s =
      .ok { s with units := supersedeOthers key keep s.units } := by
  have hfilter : (s.activeChain key).foldlM (fun s u => if u.id ≠ keep then s.markSuperseded u keep else .ok s) s =
      ((s.activeChain key).filter fun u => decide (u.id ≠ keep)).foldlM (fun s u => s.markSuperseded u keep) s := by
    rw [List.foldlM_filter]
    simp
  rw [hfilter, activeChain, List.filter_filter]
  refine foldlM_units hn (fun _ => rfl) fun u _ hp t => ?_
  rw [Bool.and_eq_true, decide_eq_true_eq, decide_eq_true_eq] at hp
  exact markSuperseded_eq hp.2.2 keep t

theorem map_id_supersedeOthers (key : Text) (keep : Nat) (units : List MemoryUnit) :
    (supersedeOthers key keep units).map MemoryUnit.id = units.map MemoryUnit.id := by
  rw [supersedeOthers, List.map_map]
  apply List.map_congr_left
  intro u _
  simp only [Function.comp_apply]
  split <;> rfl

theorem source_supersedeOthers {keep : Nat} {v : MemoryUnit} (h : v ∈ supersedeOthers key keep units) :
    ∃ u ∈ units, Demoted u v := by
  obtain ⟨u, hu, rfl⟩ := List.mem_map.mp h
  refine ⟨u, hu, ?_⟩
  split
  · exact superseding_demoted keep u
  · exact Demoted.refl u

theorem mem_supersedeOthers {keep : Nat} {v : MemoryUnit} (hlive : v.status.isRecallable = true) :
    v ∈ supersedeOthers key keep units ↔ v ∈ units ∧ (v.id = keep ∨ v.sourceKey ≠ key) := by
  rw [supersedeOthers, List.mem_map]
  constructor
  · rintro ⟨u, hu, heq⟩
    split at heq
    · subst heq
      cases hlive
    · rename_i hnot
      subst heq
      rw [Bool.and_eq_true, decide_eq_true_eq, decide_eq_true_eq, not_and] at hnot
      refine ⟨hu, ?_⟩
      by_cases hid : u.id = keep
      · exact Or.inl hid
      · exact Or.inr fun hkey => hnot hid ⟨hkey, hlive⟩
  · rintro ⟨hv, hkept⟩
    refine ⟨v, hv, if_neg ?_⟩
    rw [Bool.and_eq_true, decide_eq_true_eq, decide_eq_true_eq]
    rintro ⟨hid, hkey, -⟩
    rcases hkept with hk | hk
    · exact hid hk
    · exact hk hkey

/-! ### The invariant -/

def ExtractJob (s : DecisionMemory) (d : AcceptedDecision) (j : MemoryJob) : Prop :=
  j ∈ s.jobs ∧ j.operation = .extractDecision ∧ j.decisionId = d.id

structure DerivedFrom (s : DecisionMemory) (u : MemoryUnit) (d : AcceptedDecision) : Prop where
  decision : u.sourceDecisionId = d.id
  sourceKey : u.sourceKey = d.key
  effectiveAt : u.effectiveAt = d.createdAt
  text : decisionTemplate d.key d.statement d.acceptedByUserId = .ok u.text
  extracted : ∃ j, ExtractJob s d j ∧ 0 < j.executed ∧
    extractionIdentity j.triggerEventId ("decision:".toList ++ d.key) = .ok u.extractionIdentity

def Awaited (s : DecisionMemory) (d : AcceptedDecision) : Prop :=
  d.status = .active ∨ RetractionPending s d ∨ ReplacementPending s d

/-- What the commands keep of the decisions and of the jobs they enqueue. -/
structure Recorded (s : DecisionMemory) : Prop where
  decisionIds : (s.decisions.map AcceptedDecision.id).Nodup
  jobIds : (s.jobs.map MemoryJob.id).Nodup
  decisionBound : ∀ d ∈ s.decisions, d.id < s.nextId
  jobBound : ∀ j ∈ s.jobs, j.id < s.nextId
  trigger : ∀ j ∈ s.jobs, j.triggerEventId = j.id
  extract : ∀ j ∈ s.jobs, j.operation = .extractDecision → j.decisionId = j.id
  source : ∀ j ∈ s.jobs, ∃ d ∈ s.decisions, d.id = j.decisionId ∧ (j.operation = .retractUnits → d.status = .retracted)
  hasJob : ∀ d ∈ s.decisions, ∃ j, ExtractJob s d j
  keyLength : ∀ d ∈ s.decisions, d.key.length ≤ 64
  template : ∀ d ∈ s.decisions, ∃ text, decisionTemplate d.key d.statement d.acceptedByUserId = .ok text
  latest : ∀ d ∈ s.decisions, ∀ e ∈ s.decisions, d.key = e.key → d.id < e.id → d.status ≠ .active

/-- What the jobs keep of the units; the decision of a unit in recall is one with `P`. -/
structure Derived (s : DecisionMemory) (P : AcceptedDecision → Prop) : Prop where
  unitIds : (s.units.map MemoryUnit.id).Nodup
  unitBound : ∀ u ∈ s.units, u.id < s.nextId
  derived : ∀ u ∈ s.units, ∃ d ∈ s.decisions, DerivedFrom s u d
  oneLive : ∀ u ∈ s.units, ∀ v ∈ s.units, u.status.isRecallable → v.status.isRecallable → u.sourceKey = v.sourceKey → u = v
  awaited : ∀ u ∈ s.units, u.status.isRecallable → ∀ d ∈ s.decisions, d.id = u.sourceDecisionId → P d
  kept : ∀ d ∈ s.decisions, d.status = .active → ∀ j, ExtractJob s d j → 0 < j.executed →
    ∃ u ∈ s.units, u.status.isRecallable ∧ u.sourceDecisionId = d.id

structure Sound (s : DecisionMemory) : Prop where
  recorded : Recorded s
  derived : Derived s (Awaited s)

theorem Sound.init : Sound {} where
  recorded := by constructor <;> simp
  derived := by constructor <;> simp

section
variable (inv : Recorded s)
include inv

theorem Recorded.decision_eq {d : AcceptedDecision} (hd : d ∈ s.decisions) (he : e ∈ s.decisions) (h : d.id = e.id) :
    d = e := eq_of_key_eq inv.decisionIds hd he h

theorem Recorded.job_eq {i j : MemoryJob} (hi : i ∈ s.jobs) (hj : j ∈ s.jobs) (h : i.id = j.id) : i = j :=
  eq_of_key_eq inv.jobIds hi hj h

theorem Recorded.extractJob_eq {d : AcceptedDecision} {i j : MemoryJob} (hi : ExtractJob s d i) (hj : ExtractJob s d j) :
    i = j :=
  inv.job_eq hi.1 hj.1 (by rw [← inv.extract i hi.1 hi.2.1, ← inv.extract j hj.1 hj.2.1, hi.2.2, hj.2.2])

theorem Recorded.decision?_eq {d : AcceptedDecision} (hd : d ∈ s.decisions) : s.decision? d.id = some d :=
  find?_key inv.decisionIds hd

theorem Recorded.active_last {d : AcceptedDecision} (hd : d ∈ s.decisions) (he : e ∈ s.decisions) (hact : d.status = .active)
    (hkey : e.key = d.key) (hne : e.id ≠ d.id) : e.id < d.id := by
  have hnot : ¬d.id < e.id := fun hlt => inv.latest d hd e he hkey.symm hlt hact
  omega

end

/-! ### Commands -/

structure Grows (s t : DecisionMemory) : Prop where
  decisions : ∀ d ∈ s.decisions, ∃ e ∈ t.decisions, e.id = d.id ∧ e.key = d.key
  jobs : ∀ j ∈ s.jobs, j ∈ t.jobs

theorem Grows.extractJob {d : AcceptedDecision} {j : MemoryJob} (g : Grows s t) (hid : e.id = d.id) (h : ExtractJob s d j) :
    ExtractJob t e j := ⟨g.jobs j h.1, h.2.1, h.2.2.trans hid.symm⟩

theorem Grows.derivedFrom {d : AcceptedDecision} (g : Grows s t) (h : DerivedFrom s u d) (status : AcceptedDecisionStatus) :
    DerivedFrom t u { d with status := status } where
  decision := h.decision
  sourceKey := h.sourceKey
  effectiveAt := h.effectiveAt
  text := h.text
  extracted := by
    obtain ⟨j, hj, hrun, hidentity⟩ := h.extracted
    exact ⟨j, g.extractJob rfl hj, hrun, hidentity⟩

theorem Grows.awaited {d : AcceptedDecision} (g : Grows s t) (h : Awaited s d) : Awaited t d := by
  rcases h with hact | ⟨j, hj, hop, hid, hrun⟩ | ⟨e, he, hkey, hlt, j, hj, hop, hid, hrun⟩
  · exact Or.inl hact
  · exact Or.inr (Or.inl ⟨j, g.jobs j hj, hop, hid, hrun⟩)
  · obtain ⟨e', he', hid', hkey'⟩ := g.decisions e he
    exact Or.inr (Or.inr ⟨e', he', hkey'.trans hkey, hid'.symm ▸ hlt, j, g.jobs j hj, hop, hid.trans hid'.symm, hrun⟩)

section
variable {d : AcceptedDecision} {status : AcceptedDecisionStatus}

theorem mem_setDecisionStatus (hd : d ∈ s.decisions) :
    e ∈ (s.setDecisionStatus d status).decisions ↔ e = { d with status := status } ∨ (e ∈ s.decisions ∧ e.id ≠ d.id) := by
  rw [setDecisionStatus, mem_put]
  constructor
  · rintro (⟨rfl, -⟩ | h)
    · exact Or.inl rfl
    · exact Or.inr h
  · rintro (rfl | h)
    · exact Or.inl ⟨rfl, d, hd, rfl⟩
    · exact Or.inr h

theorem source_setDecisionStatus (hd : d ∈ s.decisions) (he : e ∈ (s.setDecisionStatus d status).decisions) :
    ∃ e' ∈ s.decisions, e = { e' with status := e.status } ∧ (e.status = status ∧ e'.id = d.id ∨ e.status = e'.status) := by
  rcases (mem_setDecisionStatus hd).mp he with rfl | ⟨he, -⟩
  · exact ⟨d, hd, rfl, Or.inl ⟨rfl, rfl⟩⟩
  · exact ⟨e, he, rfl, Or.inr rfl⟩

theorem grows_setDecisionStatus (inv : Recorded s) (hd : d ∈ s.decisions) : Grows s (s.setDecisionStatus d status) where
  decisions e he := by
    by_cases hid : e.id = d.id
    · cases inv.decision_eq he hd hid
      exact ⟨_, (mem_setDecisionStatus hd).mpr (Or.inl rfl), rfl, rfl⟩
    · exact ⟨e, (mem_setDecisionStatus hd).mpr (Or.inr ⟨he, hid⟩), rfl, rfl⟩
  jobs _ hj := hj

theorem Recorded.withdraw (inv : Recorded s) (hd : d ∈ s.decisions) (hact : d.status = .active) (hst : status ≠ .active) :
    Recorded (s.setDecisionStatus d status) where
  decisionIds := by
    rw [setDecisionStatus, map_put fun _ _ hk => hk]
    exact inv.decisionIds
  jobIds := inv.jobIds
  decisionBound e he := by
    obtain ⟨e', he', heq, -⟩ := source_setDecisionStatus hd he
    rw [heq]
    exact inv.decisionBound e' he'
  jobBound := inv.jobBound
  trigger := inv.trigger
  extract := inv.extract
  source j hj := by
    obtain ⟨e, he, hid, hret⟩ := inv.source j hj
    by_cases hed : e.id = d.id
    · cases inv.decision_eq he hd hed
      refine ⟨_, (mem_setDecisionStatus hd).mpr (Or.inl rfl), hid, fun hop => ?_⟩
      rw [hret hop] at hact
      cases hact
    · exact ⟨e, (mem_setDecisionStatus hd).mpr (Or.inr ⟨he, hed⟩), hid, hret⟩
  hasJob e he := by
    obtain ⟨e', he', heq, -⟩ := source_setDecisionStatus hd he
    obtain ⟨j, hj⟩ := inv.hasJob e' he'
    exact ⟨j, hj.1, hj.2.1, by rw [hj.2.2, heq]⟩
  keyLength e he := by
    obtain ⟨e', he', heq, -⟩ := source_setDecisionStatus hd he
    rw [heq]
    exact inv.keyLength e' he'
  template e he := by
    obtain ⟨e', he', heq, -⟩ := source_setDecisionStatus hd he
    rw [heq]
    exact inv.template e' he'
  latest e he f hf hkey hlt := by
    obtain ⟨e', he', heq, hst'⟩ := source_setDecisionStatus hd he
    obtain ⟨f', hf', hfeq, -⟩ := source_setDecisionStatus hd hf
    rw [heq, hfeq] at hkey hlt
    rcases hst' with ⟨hst', -⟩ | hst'
    · rw [hst']
      exact hst
    · rw [hst']
      exact inv.latest e' he' f' hf' hkey hlt

theorem Derived.withdraw (inv : Recorded s) (h : Derived s (Awaited s)) (hd : d ∈ s.decisions) (hst : status ≠ .active) :
    Derived (s.setDecisionStatus d status) fun e => Awaited (s.setDecisionStatus d status) e ∨ e.id = d.id where
  unitIds := h.unitIds
  unitBound := h.unitBound
  derived u hu := by
    obtain ⟨e, he, hue⟩ := h.derived u hu
    have g : Grows s (s.setDecisionStatus d status) := grows_setDecisionStatus inv hd
    by_cases hid : e.id = d.id
    · cases inv.decision_eq he hd hid
      exact ⟨_, (mem_setDecisionStatus hd).mpr (Or.inl rfl), g.derivedFrom hue status⟩
    · exact ⟨e, (mem_setDecisionStatus hd).mpr (Or.inr ⟨he, hid⟩), g.derivedFrom hue e.status⟩
  oneLive := h.oneLive
  awaited u hu hlive e he hid := by
    rcases (mem_setDecisionStatus hd).mp he with rfl | ⟨he, -⟩
    · exact Or.inr rfl
    · exact Or.inl ((grows_setDecisionStatus inv hd).awaited (h.awaited u hu hlive e he hid))
  kept e he hact j hj hrun := by
    rcases (mem_setDecisionStatus hd).mp he with rfl | ⟨he, -⟩
    · exact absurd hact hst
    · exact h.kept e he hact j hj hrun

end

variable {userId now : Nat}

theorem Recorded.addDecision {statement : Text} (inv : Recorded s)
    (hnone : ∀ d ∈ s.decisions, d.key = key → d.status ≠ .active) (hlen : key.length ≤ 64)
    (hsafe : ∃ text, decisionTemplate key statement userId = .ok text) :
    Recorded (s.addDecision key statement userId now) where
  decisionIds := nodup_map_append inv.decisionIds fun d hd => (inv.decisionBound d hd).ne
  jobIds := nodup_map_append inv.jobIds fun j hj => (inv.jobBound j hj).ne
  decisionBound d hd := by
    rcases Lib.mem_concat.mp hd with hd | rfl
    · exact Nat.lt_succ_of_lt (inv.decisionBound d hd)
    · exact Nat.lt_succ_self _
  jobBound j hj := by
    rcases Lib.mem_concat.mp hj with hj | rfl
    · exact Nat.lt_succ_of_lt (inv.jobBound j hj)
    · exact Nat.lt_succ_self _
  trigger j hj := by
    rcases Lib.mem_concat.mp hj with hj | rfl
    · exact inv.trigger j hj
    · rfl
  extract j hj hop := by
    rcases Lib.mem_concat.mp hj with hj | rfl
    · exact inv.extract j hj hop
    · rfl
  source j hj := by
    rcases Lib.mem_concat.mp hj with hj | rfl
    · obtain ⟨d, hd, h⟩ := inv.source j hj
      exact ⟨d, List.mem_append_left _ hd, h⟩
    · exact ⟨_, List.mem_append_right _ (List.mem_singleton_self _), rfl, fun h => nomatch h⟩
  hasJob d hd := by
    rcases Lib.mem_concat.mp hd with hd | rfl
    · obtain ⟨j, hj, h⟩ := inv.hasJob d hd
      exact ⟨j, List.mem_append_left _ hj, h⟩
    · exact ⟨_, List.mem_append_right _ (List.mem_singleton_self _), rfl, rfl⟩
  keyLength d hd := by
    rcases Lib.mem_concat.mp hd with hd | rfl
    · exact inv.keyLength d hd
    · exact hlen
  template d hd := by
    rcases Lib.mem_concat.mp hd with hd | rfl
    · exact inv.template d hd
    · exact hsafe
  latest d hd e he hkey hlt := by
    rcases Lib.mem_concat.mp hd with hd | rfl
    · rcases Lib.mem_concat.mp he with he | rfl
      · exact inv.latest d hd e he hkey hlt
      · exact hnone d hd hkey
    · rcases Lib.mem_concat.mp he with he | rfl
      · exact absurd (inv.decisionBound e he) (Nat.not_lt.mpr hlt.le)
      · exact absurd hlt (Nat.lt_irrefl _)

theorem Derived.addDecision {statement : Text} (inv : Recorded s) (h : Derived s fun d => Awaited s d ∨ d.key = key) :
    Derived (s.addDecision key statement userId now) (Awaited (s.addDecision key statement userId now)) := by
  have g : Grows s (s.addDecision key statement userId now) :=
    ⟨fun d hd => ⟨d, List.mem_append_left _ hd, rfl, rfl⟩, fun j hj => List.mem_append_left _ hj⟩
  have hold : ∀ d ∈ (s.addDecision key statement userId now).decisions, d.id ≠ s.nextId → d ∈ s.decisions := by
    intro d hd hne
    rcases List.mem_append.mp hd with hd | hd
    · exact hd
    · exact absurd (by rw [List.mem_singleton.mp hd]) hne
  have hbound : ∀ u ∈ s.units, u.sourceDecisionId < s.nextId := by
    intro u hu
    obtain ⟨d, hd, hud⟩ := h.derived u hu
    exact hud.decision ▸ inv.decisionBound d hd
  exact {
    unitIds := h.unitIds
    unitBound := fun u hu => Nat.lt_succ_of_lt (h.unitBound u hu)
    derived := by
      intro u hu
      obtain ⟨d, hd, hud⟩ := h.derived u hu
      exact ⟨d, List.mem_append_left _ hd, g.derivedFrom hud d.status⟩
    oneLive := h.oneLive
    awaited := by
      intro u hu hlive d hd hid
      have hd := hold d hd (by have := hbound u hu; omega)
      rcases h.awaited u hu hlive d hd hid with haw | hkey
      · exact g.awaited haw
      · exact Or.inr (Or.inr ⟨_, List.mem_append_right _ (List.mem_singleton_self _), hkey.symm, inv.decisionBound d hd, _,
          List.mem_append_right _ (List.mem_singleton_self _), rfl, rfl, rfl⟩)
    kept := by
      intro d hd hact j hj hrun
      rcases Lib.mem_concat.mp hj.1 with hjs | rfl
      · have hd := hold d hd fun he => by
          have := inv.jobBound j hjs
          have := inv.extract j hjs hj.2.1
          have := hj.2.2
          omega
        exact h.kept d hd hact j ⟨hjs, hj.2⟩ hrun
      · exact absurd hrun (Nat.lt_irrefl _) }

theorem Sound.addRetraction {d : AcceptedDecision} (inv : Recorded s) (h : Derived s fun e => Awaited s e ∨ e.id = d.id)
    (hd : d ∈ s.decisions) (hret : d.status = .retracted) (ht : t = { s with
      jobs := s.jobs ++ [{ id := s.nextId, operation := .retractUnits, decisionId := d.id, triggerEventId := s.nextId }]
      nextId := s.nextId + 1 }) : Sound t := by
  have g : Grows s t := by
    subst ht
    exact ⟨fun e he => ⟨e, he, rfl, rfl⟩, fun j hj => List.mem_append_left _ hj⟩
  have hextract : ∀ {e j}, ExtractJob t e j → ExtractJob s e j := by
    subst ht
    rintro e j ⟨hj, hop, hid⟩
    rcases Lib.mem_concat.mp hj with hj | rfl
    · exact ⟨hj, hop, hid⟩
    · cases hop
  subst ht
  constructor
  · exact {
      decisionIds := inv.decisionIds
      jobIds := nodup_map_append inv.jobIds fun j hj => (inv.jobBound j hj).ne
      decisionBound := fun e he => Nat.lt_succ_of_lt (inv.decisionBound e he)
      jobBound := by
        intro j hj
        rcases Lib.mem_concat.mp hj with hj | rfl
        · exact Nat.lt_succ_of_lt (inv.jobBound j hj)
        · exact Nat.lt_succ_self _
      trigger := by
        intro j hj
        rcases Lib.mem_concat.mp hj with hj | rfl
        · exact inv.trigger j hj
        · rfl
      extract := by
        intro j hj hop
        rcases Lib.mem_concat.mp hj with hj | rfl
        · exact inv.extract j hj hop
        · cases hop
      source := by
        intro j hj
        rcases Lib.mem_concat.mp hj with hj | rfl
        · exact inv.source j hj
        · exact ⟨d, hd, rfl, fun _ => hret⟩
      hasJob := by
        intro e he
        obtain ⟨j, hj⟩ := inv.hasJob e he
        exact ⟨j, g.extractJob rfl hj⟩
      keyLength := inv.keyLength
      template := inv.template
      latest := inv.latest }
  · exact {
      unitIds := h.unitIds
      unitBound := fun u hu => Nat.lt_succ_of_lt (h.unitBound u hu)
      derived := by
        intro u hu
        obtain ⟨e, he, hue⟩ := h.derived u hu
        exact ⟨e, he, g.derivedFrom hue e.status⟩
      oneLive := h.oneLive
      awaited := by
        intro u hu hlive e he hid
        rcases h.awaited u hu hlive e he hid with haw | hed
        · exact g.awaited haw
        · exact Or.inr (Or.inl ⟨_, List.mem_append_right _ (List.mem_singleton_self _), rfl, hed.symm, rfl⟩)
      kept := fun e he hact j hj hrun => h.kept e he hact j (hextract hj) hrun }

theorem activeDecision_eq_none (h : s.activeDecision key = none) : ∀ d ∈ s.decisions, d.key = key → d.status ≠ .active := by
  intro d hd hkey hact
  have hnot := List.find?_eq_none.mp h d hd
  exact hnot (decide_eq_true ⟨hkey, hact⟩)

theorem activeDecision_eq_some {d : AcceptedDecision} (h : s.activeDecision key = some d) :
    d ∈ s.decisions ∧ d.key = key ∧ d.status = .active := by
  unfold activeDecision at h
  have hd := List.find?_some h
  exact ⟨List.mem_of_find?_eq_some h, of_decide_eq_true hd⟩

theorem templateSafe_iff {key statement k st : Text} {userId : Nat} (h : validateDecision key statement = .ok (k, st))
    (hsafe : templateSafe key statement userId = true) : ∃ text, decisionTemplate k st userId = .ok text := by
  simp only [templateSafe, h] at hsafe
  cases htext : decisionTemplate k st userId with
  | ok text => exact ⟨text, rfl⟩
  | error e =>
    rw [htext] at hsafe
    cases hsafe

theorem Sound.accept {key statement : Text} {sourceTurn : Bool} (inv : Sound s)
    (hsafe : templateSafe key statement userId = true)
    (h : s.acceptDecision limits key statement userId sourceTurn now = .ok t) : Sound t := by
  obtain ⟨⟨k, st⟩, hvalid, h⟩ := bind_eq_ok.mp h
  cases hact : s.activeDecision k with
  | some d =>
    simp only [hact] at h
    obtain ⟨-, h⟩ := check_eq_ok.mp h
    cases h
    exact inv
  | none =>
    simp only [hact] at h
    obtain ⟨_, -, h⟩ := bind_eq_ok.mp h
    obtain ⟨_, -, h⟩ := bind_eq_ok.mp h
    cases h
    refine ⟨inv.recorded.addDecision (activeDecision_eq_none hact) (validateDecision_key hvalid)
      (templateSafe_iff hvalid hsafe), Derived.addDecision inv.recorded ?_⟩
    exact { inv.derived with awaited := fun u hu hlive d hd hid => Or.inl (inv.derived.awaited u hu hlive d hd hid) }

theorem Sound.supersede {key statement : Text} {sourceTurn : Bool} (inv : Sound s)
    (hsafe : templateSafe key statement userId = true)
    (h : s.supersedeDecision key statement userId sourceTurn now = .ok t) : Sound t := by
  obtain ⟨⟨k, st⟩, hvalid, h⟩ := bind_eq_ok.mp h
  cases hact : s.activeDecision k with
  | none =>
    simp only [hact] at h
    cases h
  | some d =>
    simp only [hact] at h
    obtain ⟨hd, hkey, hst⟩ := activeDecision_eq_some hact
    split at h
    · cases h
      exact inv
    · obtain ⟨_, -, h⟩ := bind_eq_ok.mp h
      cases h
      have hsup : AcceptedDecisionStatus.superseded ≠ .active := by decide
      have hrec := inv.recorded.withdraw hd hst hsup
      have hder := Derived.withdraw inv.recorded inv.derived hd hsup
      refine ⟨hrec.addDecision ?_ (validateDecision_key hvalid) (templateSafe_iff hvalid hsafe),
        Derived.addDecision hrec ?_⟩
      · -- The decision withdrawn was the only active one of its key.
        intro e he hek heact
        rcases (mem_setDecisionStatus hd).mp he with rfl | ⟨he, hne⟩
        · cases heact
        · have hlt := inv.recorded.active_last hd he hst (hek.trans hkey.symm) hne
          exact inv.recorded.latest e he d hd (hek.trans hkey.symm) hlt heact
      · refine { hder with awaited := fun u hu hlive e he hid => ?_ }
        rcases hder.awaited u hu hlive e he hid with haw | hed
        · exact Or.inl haw
        · cases hrec.decision_eq he ((mem_setDecisionStatus hd).mpr (Or.inl rfl)) hed
          exact Or.inr hkey

theorem Sound.retract {decisionId : Nat} (inv : Sound s) (h : s.retractDecision decisionId = .ok t) : Sound t := by
  unfold retractDecision at h
  cases hd : s.decision? decisionId with
  | none =>
    simp only [hd] at h
    cases h
  | some d =>
    simp only [hd] at h
    split at h
    · cases h
      exact inv
    · obtain ⟨_, hst, h⟩ := bind_eq_ok.mp h
      cases h
      rw [raiseIf_eq_ok, ne_eq, not_not] at hst
      have hmem := List.mem_of_find?_eq_some hd
      have hret : AcceptedDecisionStatus.retracted ≠ .active := by decide
      exact Sound.addRetraction (d := { d with status := .retracted }) (inv.recorded.withdraw hmem hst hret)
        (Derived.withdraw inv.recorded inv.derived hmem hret) ((mem_setDecisionStatus hmem).mpr (Or.inl rfl)) rfl rfl

/-! ### Jobs -/

def ran (j : MemoryJob) : MemoryJob := { j with executed := j.executed + 1 }

section
variable {j : MemoryJob}

theorem ran_or_mem {jobs : List MemoryJob} {i : MemoryJob} (h : i ∈ put MemoryJob.id (ran j) jobs) :
    i = ran j ∨ (i ∈ jobs ∧ i.id ≠ j.id) := by
  rcases mem_put.mp h with ⟨hi, -⟩ | hi
  · exact Or.inl hi
  · exact Or.inr hi

/-- What the execution of the job leaves in the units. -/
structure Executed (s : DecisionMemory) (j : MemoryJob) (units : List MemoryUnit) (nextId : Nat) : Prop where
  grows : s.nextId ≤ nextId
  ids : (units.map MemoryUnit.id).Nodup
  bound : ∀ v ∈ units, v.id < nextId
  oneLive : ∀ u ∈ units, ∀ v ∈ units, u.status.isRecallable → v.status.isRecallable → u.sourceKey = v.sourceKey → u = v
  origin : ∀ v ∈ units, (∃ u ∈ s.units, Demoted u v) ∨ ∃ d ∈ s.decisions, ExtractJob s d j ∧
    v.sourceDecisionId = d.id ∧ v.sourceKey = d.key ∧ v.effectiveAt = d.createdAt ∧
    decisionTemplate d.key d.statement d.acceptedByUserId = .ok v.text ∧
    extractionIdentity j.triggerEventId ("decision:".toList ++ d.key) = .ok v.extractionIdentity
  awaited : ∀ v ∈ units, v.status.isRecallable → ∀ d ∈ s.decisions, d.id = v.sourceDecisionId → Awaited s d ∧
    (j.operation = .retractUnits → j.decisionId ≠ d.id) ∧
    (j.operation = .extractDecision → ∀ e ∈ s.decisions, e.id = j.decisionId → e.key = d.key → ¬d.id < e.id)
  kept : ∀ d ∈ s.decisions, d.status = .active → (∃ u ∈ s.units, u.status.isRecallable ∧ u.sourceDecisionId = d.id) ∨
      ExtractJob s d j → ∃ v ∈ units, v.status.isRecallable ∧ v.sourceDecisionId = d.id

theorem Sound.executed {nextId : Nat} (inv : Sound s) (hj : j ∈ s.jobs) (h : Executed s j units nextId) (ht : t = { s with
      units := units
      jobs := put MemoryJob.id (ran j) s.jobs
      nextId := nextId }) : Sound t := by
  have hran : ran j ∈ t.jobs := by
    subst ht
    exact mem_put_self hj rfl
  have hother : ∀ i ∈ s.jobs, i ≠ j → i ∈ t.jobs := by
    subst ht
    exact fun i hi hne => mem_put_of_ne hi fun hid => hne (inv.recorded.job_eq hi hj hid)
  have hback : ∀ i ∈ t.jobs, ∃ i' ∈ s.jobs, i.id = i'.id ∧ i.operation = i'.operation ∧ i.decisionId = i'.decisionId ∧
      i.triggerEventId = i'.triggerEventId ∧ (i' = j ∨ i = i') := by
    subst ht
    intro i hi
    rcases ran_or_mem hi with rfl | ⟨hi, -⟩
    · exact ⟨j, hj, rfl, rfl, rfl, rfl, Or.inl rfl⟩
    · exact ⟨i, hi, rfl, rfl, rfl, rfl, Or.inr rfl⟩
  have hforth : ∀ {d i}, ExtractJob s d i → ∃ i', ExtractJob t d i' ∧ i'.triggerEventId = i.triggerEventId ∧
      i.executed ≤ i'.executed ∧ (i = j → 0 < i'.executed) := by
    rintro d i ⟨hi, hop, hid⟩
    by_cases hij : i = j
    · subst hij
      exact ⟨ran i, ⟨hran, hop, hid⟩, rfl, Nat.le_succ _, fun _ => Nat.succ_pos _⟩
    · exact ⟨i, ⟨hother i hi hij, hop, hid⟩, rfl, Nat.le_refl _, fun h => absurd h hij⟩
  have hdec : t.decisions = s.decisions := by rw [ht]
  have hawait : ∀ v ∈ units, v.status.isRecallable → ∀ d ∈ s.decisions, d.id = v.sourceDecisionId → Awaited t d := by
    intro v hv hlive d hd hid
    obtain ⟨haw, hretract, hextract⟩ := h.awaited v hv hlive d hd hid
    rcases haw with hact | ⟨i, hi, hop, hdi, hrun⟩ | ⟨e, he, hkey, hlt, i, hi, hop, hdi, hrun⟩
    · exact Or.inl hact
    · have hne : i ≠ j := by
        rintro rfl
        exact hretract hop hdi
      exact Or.inr (Or.inl ⟨i, hother i hi hne, hop, hdi, hrun⟩)
    · have hne : i ≠ j := by
        rintro rfl
        exact hextract hop e he hdi.symm hkey hlt
      exact Or.inr (Or.inr ⟨e, hdec ▸ he, hkey, hlt, i, hother i hi hne, hop, hdi, hrun⟩)
  constructor
  · exact {
      decisionIds := hdec ▸ inv.recorded.decisionIds
      jobIds := by
        subst ht
        rw [map_put fun _ _ hk => hk]
        exact inv.recorded.jobIds
      decisionBound := by
        subst ht
        exact fun d hd => lt_of_lt_of_le (inv.recorded.decisionBound d hd) h.grows
      jobBound := by
        intro i hi
        obtain ⟨i', hi', hid, -⟩ := hback i hi
        subst ht
        exact hid ▸ lt_of_lt_of_le (inv.recorded.jobBound i' hi') h.grows
      trigger := by
        intro i hi
        obtain ⟨i', hi', hid, -, -, htrig, -⟩ := hback i hi
        rw [hid, htrig, inv.recorded.trigger i' hi']
      extract := by
        intro i hi hop
        obtain ⟨i', hi', hid, hop', hdid, -⟩ := hback i hi
        rw [hid, hdid, inv.recorded.extract i' hi' (hop' ▸ hop)]
      source := by
        intro i hi
        obtain ⟨i', hi', -, hop, hdid, -⟩ := hback i hi
        obtain ⟨d, hd, hdi, hret⟩ := inv.recorded.source i' hi'
        exact ⟨d, hdec ▸ hd, hdi.trans hdid.symm, fun ho => hret (hop ▸ ho)⟩
      hasJob := by
        intro d hd
        obtain ⟨i, hi⟩ := inv.recorded.hasJob d (hdec ▸ hd)
        obtain ⟨i', hi', -⟩ := hforth hi
        exact ⟨i', hi'⟩
      keyLength := hdec ▸ inv.recorded.keyLength
      template := hdec ▸ inv.recorded.template
      latest := hdec ▸ inv.recorded.latest }
  · exact {
      unitIds := by
        subst ht
        exact h.ids
      unitBound := by
        subst ht
        exact h.bound
      derived := by
        intro v hv
        have hv : v ∈ units := by
          rw [ht] at hv
          exact hv
        rcases h.origin v hv with ⟨u, hu, hdem⟩ | ⟨d, hd, hjob, hid, hkey, heff, htext, hidentity⟩
        · obtain ⟨d, hd, hud⟩ := inv.derived.derived u hu
          obtain ⟨i, hi, hrun, hidentity⟩ := hud.extracted
          obtain ⟨i', hi', htrig, hle, -⟩ := hforth hi
          exact ⟨d, hdec ▸ hd, hdem.decision.trans hud.decision, hdem.sourceKey.trans hud.sourceKey,
            hdem.effectiveAt.trans hud.effectiveAt, hdem.text ▸ hud.text, i', hi', lt_of_lt_of_le hrun hle,
            by rw [htrig, hdem.identity, hidentity]⟩
        · obtain ⟨i', hi', htrig, -, hpos⟩ := hforth hjob
          exact ⟨d, hdec ▸ hd, hid, hkey, heff, htext, i', hi', hpos rfl, by rw [htrig, hidentity]⟩
      oneLive := by
        subst ht
        exact h.oneLive
      awaited := by
        intro v hv hlive d hd hid
        rw [hdec] at hd
        rw [ht] at hv
        exact hawait v hv hlive d hd hid
      kept := by
        intro d hd hact i hi hrun
        obtain ⟨i', hi', -, hop, hdid, -, hcase⟩ := hback i hi.1
        have hjob : ExtractJob s d i' := ⟨hi', hop ▸ hi.2.1, hdid ▸ hi.2.2⟩
        rw [hdec] at hd
        rw [ht]
        rcases hcase with rfl | rfl
        · exact h.kept d hd hact (Or.inr hjob)
        · exact h.kept d hd hact (Or.inl (inv.derived.kept d hd hact i hjob hrun)) }

/-! ### Retractions -/

theorem Executed.retract (inv : Sound s) (hj : j ∈ s.jobs) (hop : j.operation = .retractUnits) :
    Executed s j (s.units.map fun u =>
      if decide (u.sourceDecisionId = j.decisionId ∧ u.status.isRecallable = true) then retracting u else u) s.nextId := by
  have hsource : ∀ v ∈ (s.units.map fun u =>
      if decide (u.sourceDecisionId = j.decisionId ∧ u.status.isRecallable = true) then retracting u else u),
      ∃ u ∈ s.units, Demoted u v ∧ (v.status.isRecallable = true → u.sourceDecisionId ≠ j.decisionId) := by
    intro v hv
    obtain ⟨u, hu, rfl⟩ := List.mem_map.mp hv
    refine ⟨u, hu, ?_⟩
    split
    · exact ⟨retracting_demoted u, fun h => nomatch h⟩
    · rename_i hnot
      exact ⟨Demoted.refl u, fun hlive hid => hnot (decide_eq_true ⟨hid, hlive⟩)⟩
  exact {
    grows := Nat.le_refl _
    ids := by
      have hids : (s.units.map fun u => if decide (u.sourceDecisionId = j.decisionId ∧ u.status.isRecallable = true)
          then retracting u else u).map MemoryUnit.id = s.units.map MemoryUnit.id := by
        rw [List.map_map]
        apply List.map_congr_left
        intro u _
        simp only [Function.comp_apply]
        split <;> rfl
      exact hids ▸ inv.derived.unitIds
    bound := by
      intro v hv
      obtain ⟨u, hu, hdem, -⟩ := hsource v hv
      exact hdem.id ▸ inv.derived.unitBound u hu
    oneLive := by
      intro v hv w hw hlv hlw hkey
      obtain ⟨u, hu, hdem, -⟩ := hsource v hv
      obtain ⟨x, hx, hdem', -⟩ := hsource w hw
      cases hdem.recallable hlv
      cases hdem'.recallable hlw
      exact inv.derived.oneLive _ hu _ hx hlv hlw hkey
    origin := by
      intro v hv
      obtain ⟨u, hu, hdem, -⟩ := hsource v hv
      exact Or.inl ⟨u, hu, hdem⟩
    awaited := by
      intro v hv hlive d hd hid
      obtain ⟨u, hu, hdem, hne⟩ := hsource v hv
      cases hdem.recallable hlive
      refine ⟨inv.derived.awaited _ hu hlive d hd hid, fun _ heq => hne hlive (hid.symm.trans heq.symm), fun h => ?_⟩
      rw [hop] at h
      cases h
    kept := by
      rintro d hd hact (⟨u, hu, hlive, hid⟩ | hjob)
      · -- The retraction is of a withdrawn decision, so the unit is not one of its units.
        obtain ⟨e, he, hej, hret⟩ := inv.recorded.source j hj
        have hne : u.sourceDecisionId ≠ j.decisionId := by
          intro heq
          cases inv.recorded.decision_eq hd he (by rw [← hid, heq, hej])
          rw [hret hop] at hact
          cases hact
        refine ⟨u, List.mem_map.mpr ⟨u, hu, if_neg ?_⟩, hlive, hid⟩
        rw [decide_eq_true_eq]
        exact fun h => hne h.1
      · rw [hjob.2.1] at hop
        cases hop }

/-! ### Extractions -/

theorem Sound.identity_iff {d : AcceptedDecision} {identity : ExtractionIdentity} (inv : Sound s) (hjob : ExtractJob s d j)
    (hu : u ∈ s.units) (hid : extractionIdentity j.triggerEventId ("decision:".toList ++ d.key) = .ok identity)
    (hd : d ∈ s.decisions) : u.extractionIdentity = identity ↔ u.sourceDecisionId = d.id := by
  obtain ⟨e, he, hue⟩ := inv.derived.derived u hu
  obtain ⟨i, hi, -, hiid⟩ := hue.extracted
  constructor
  · rintro rfl
    rw [extractionIdentity_ok (inv.recorded.keyLength d hd)] at hid
    rw [extractionIdentity_ok (inv.recorded.keyLength e he)] at hiid
    have htrig : i.triggerEventId = j.triggerEventId := by
      rw [← hid, Except.ok.injEq, ExtractionIdentity.mk.injEq] at hiid
      exact hiid.1
    rw [inv.recorded.trigger i hi.1, inv.recorded.trigger j hjob.1] at htrig
    cases inv.recorded.job_eq hi.1 hjob.1 htrig
    rw [hue.decision, ← hi.2.2, hjob.2.2]
  · intro heq
    cases inv.recorded.decision_eq he hd (hue.decision.symm.trans heq)
    cases inv.recorded.extractJob_eq hi hjob
    rw [hid] at hiid
    exact (Except.ok.inj hiid).symm

theorem mem_activeChain : u ∈ s.activeChain key ↔ u ∈ s.units ∧ u.sourceKey = key ∧ u.status.isRecallable = true := by
  rw [activeChain, List.mem_filter, decide_eq_true_eq]

section
variable (inv : Sound s)
include inv

/-- What an extraction does: it finds a unit in its way, or supersedes the key's unit by the one of its decision. -/
theorem Sound.extract_cases {d : AcceptedDecision} (hd : d ∈ s.decisions) (hjob : ExtractJob s d j) :
    ((∃ u ∈ s.activeChain d.key, u.sourceDecisionId = d.id ∨ ¬u.effectiveAt < d.createdAt) ∧
      s.extractDecision j = .ok s) ∨
    ((∀ u ∈ s.activeChain d.key, u.sourceDecisionId ≠ d.id ∧ u.effectiveAt < d.createdAt) ∧
      ((∃ r ∈ s.units, r.sourceDecisionId = d.id ∧
          s.extractDecision j = .ok { s with units := supersedeOthers d.key r.id s.units }) ∨
        ((∀ u ∈ s.units, u.sourceDecisionId ≠ d.id) ∧ ∃ identity text,
          extractionIdentity j.triggerEventId ("decision:".toList ++ d.key) = .ok identity ∧
          decisionTemplate d.key d.statement d.acceptedByUserId = .ok text ∧
          s.extractDecision j = .ok { s with
            units := supersedeOthers d.key s.nextId (s.units ++ [templateOf s.nextId d identity text])
            nextId := s.nextId + 1 }))) := by
  have hidentity := extractionIdentity_ok (inv.recorded.keyLength d hd) j.triggerEventId
  obtain ⟨text, htext⟩ := inv.recorded.template d hd
  have hfind : s.decision? j.decisionId = some d := by
    rw [hjob.2.2]
    exact inv.recorded.decision?_eq hd
  generalize hI : ({ triggerEventId := j.triggerEventId, unitKey := strip ("decision:".toList ++ d.key) } :
    ExtractionIdentity) = identity at hidentity
  have hiff : ∀ u ∈ s.units, u.extractionIdentity = identity ↔ u.sourceDecisionId = d.id := fun u hu =>
    inv.identity_iff hjob hu hidentity hd
  have hunfold : s.extractDecision j = if (s.activeChain d.key).any fun u =>
        u.extractionIdentity = identity ∨ shouldSupersede u.effectiveAt d.createdAt = false then .ok s
      else
        ((s.createUnit (templateOf s.nextId d identity text)).1.activeChain d.key).foldlM
          (fun t u => if u.id ≠ (s.createUnit (templateOf s.nextId d identity text)).2.id then
            t.markSuperseded u (s.createUnit (templateOf s.nextId d identity text)).2.id else .ok t)
          (s.createUnit (templateOf s.nextId d identity text)).1 := by
    simp only [extractDecision, hfind, hidentity, htext, ok_bind]
  by_cases hany : (s.activeChain d.key).any (fun u =>
      u.extractionIdentity = identity ∨ shouldSupersede u.effectiveAt d.createdAt = false) = true
  · refine Or.inl ⟨?_, hunfold.trans (if_pos hany)⟩
    obtain ⟨u, hu, hcase⟩ := List.any_eq_true.mp hany
    refine ⟨u, hu, ?_⟩
    rcases of_decide_eq_true hcase with hid | hold
    · exact Or.inl ((hiff u (mem_activeChain.mp hu).1).mp hid)
    · exact Or.inr (of_decide_eq_false hold)
  · refine Or.inr ⟨?_, ?_⟩
    · intro u hu
      have hnot : ¬(u.extractionIdentity = identity ∨ shouldSupersede u.effectiveAt d.createdAt = false) := fun h =>
        hany (List.any_eq_true.mpr ⟨u, hu, decide_eq_true h⟩)
      rw [not_or, Bool.not_eq_false] at hnot
      exact ⟨fun h => hnot.1 ((hiff u (mem_activeChain.mp hu).1).mpr h), of_decide_eq_true hnot.2⟩
    rw [if_neg hany] at hunfold
    cases hrow : s.units.find? fun u => u.extractionIdentity = (templateOf s.nextId d identity text).extractionIdentity with
    | some r =>
      have hr := List.mem_of_find?_eq_some hrow
      have hfound := List.find?_some hrow
      have hrid : r.extractionIdentity = identity := of_decide_eq_true hfound
      have hcreate : s.createUnit (templateOf s.nextId d identity text) = (s, r) := by rw [createUnit, hrow]
      refine Or.inl ⟨r, hr, (hiff r hr).mp hrid, ?_⟩
      rw [hunfold, hcreate]
      exact supersedeChain_eq inv.derived.unitIds d.key r.id
    | none =>
      have hcreate : s.createUnit (templateOf s.nextId d identity text) =
          ({ s with units := s.units ++ [templateOf s.nextId d identity text], nextId := s.nextId + 1 },
            templateOf s.nextId d identity text) := by rw [createUnit, hrow]
      refine Or.inr ⟨?_, identity, text, hidentity, htext, ?_⟩
      · intro u hu hsrc
        have hnot := List.find?_eq_none.mp hrow u hu
        exact hnot (decide_eq_true ((hiff u hu).mpr hsrc))
      · rw [hunfold, hcreate]
        exact supersedeChain_eq (nodup_map_append inv.derived.unitIds fun u hu => (inv.derived.unitBound u hu).ne) d.key
          s.nextId

theorem Executed.blocked {d : AcceptedDecision} (hd : d ∈ s.decisions) (hjob : ExtractJob s d j)
    (horder : ComparedInOrder s d) (hu : u ∈ s.activeChain d.key)
    (hway : u.sourceDecisionId = d.id ∨ ¬u.effectiveAt < d.createdAt) : Executed s j s.units s.nextId where
  grows := Nat.le_refl _
  ids := inv.derived.unitIds
  bound := inv.derived.unitBound
  oneLive := inv.derived.oneLive
  origin v hv := Or.inl ⟨v, hv, Demoted.refl v⟩
  awaited v hv hlive c hc hid := by
    refine ⟨inv.derived.awaited v hv hlive c hc hid, fun h => ?_, fun _ e he hej hkey hlt => ?_⟩
    · rw [hjob.2.1] at h
      cases h
    · -- The unit of the earlier decision would be the one in the way, but it gives way.
      cases inv.recorded.decision_eq he hd (hej.trans hjob.2.2)
      obtain ⟨c', hc', hvc⟩ := inv.derived.derived v hv
      cases inv.recorded.decision_eq hc' hc (hvc.decision.symm.trans hid.symm)
      obtain ⟨humem, hukey, hulive⟩ := mem_activeChain.mp hu
      cases inv.derived.oneLive v hv u humem hlive hulive (by rw [hvc.sourceKey, hukey, hkey])
      have hne : u.sourceDecisionId ≠ d.id := by
        rw [← hid]
        exact hlt.ne
      rcases hway with hsrc | hold
      · exact hne hsrc
      · exact hold ((horder u hu hne).mp (hid ▸ hlt))
  kept a ha hact h := by
    rcases h with h | hja
    · exact h
    · cases inv.recorded.decision_eq ha hd (hja.2.2.symm.trans hjob.2.2)
      obtain ⟨humem, hukey, hulive⟩ := mem_activeChain.mp hu
      refine ⟨u, humem, hulive, ?_⟩
      by_contra hne
      obtain ⟨c, hc, huc⟩ := inv.derived.derived u humem
      have hlt := inv.recorded.active_last ha hc hact (huc.sourceKey.symm.trans hukey) (huc.decision ▸ hne)
      rcases hway with hsrc | hold
      · exact hne hsrc
      · exact hold ((horder u hu hne).mp (huc.decision ▸ hlt))

theorem Sound.active_spared {d a : AcceptedDecision} (hd : d ∈ s.decisions) (horder : ComparedInOrder s d)
    (hway : ∀ u ∈ s.activeChain d.key, u.sourceDecisionId ≠ d.id ∧ u.effectiveAt < d.createdAt) (ha : a ∈ s.decisions)
    (hact : a.status = .active) (hu : u ∈ s.units) (hlive : u.status.isRecallable = true) (hid : u.sourceDecisionId = a.id) :
    u.sourceKey ≠ d.key := by
  intro hkey
  have hchain := mem_activeChain.mpr ⟨hu, hkey, hlive⟩
  obtain ⟨hne, hlt⟩ := hway u hchain
  obtain ⟨a', ha', hua⟩ := inv.derived.derived u hu
  cases inv.recorded.decision_eq ha' ha (hua.decision.symm.trans hid)
  have hbefore := (horder u hchain hne).mpr hlt
  exact inv.recorded.latest a ha d hd (hua.sourceKey.symm.trans hkey) (hid ▸ hbefore) hact

/-- An extraction that supersedes the key's unit by a unit that is there already, and out of recall. -/
theorem Executed.redelivered {d : AcceptedDecision} {r : MemoryUnit} (hd : d ∈ s.decisions)
    (hjob : ExtractJob s d j) (horder : ComparedInOrder s d)
    (hway : ∀ u ∈ s.activeChain d.key, u.sourceDecisionId ≠ d.id ∧ u.effectiveAt < d.createdAt) (hr : r ∈ s.units)
    (hrd : r.sourceDecisionId = d.id) : Executed s j (supersedeOthers d.key r.id s.units) s.nextId := by
  obtain ⟨d', hd', hrd'⟩ := inv.derived.derived r hr
  cases inv.recorded.decision_eq hd' hd (hrd'.decision.symm.trans hrd)
  have hkeep : ∀ v ∈ supersedeOthers d.key r.id s.units, v.status.isRecallable = true →
      v ∈ s.units ∧ v.sourceKey ≠ d.key := by
    intro v hv hlive
    obtain ⟨hv, hid | hkey⟩ := (mem_supersedeOthers hlive).mp hv
    · cases eq_of_key_eq inv.derived.unitIds hv hr hid
      exact absurd hrd (hway r (mem_activeChain.mpr ⟨hr, hrd'.sourceKey, hlive⟩)).1
    · exact ⟨hv, hkey⟩
  exact {
    grows := Nat.le_refl _
    ids := by
      rw [map_id_supersedeOthers]
      exact inv.derived.unitIds
    bound := by
      intro v hv
      obtain ⟨u, hu, hdem⟩ := source_supersedeOthers hv
      exact hdem.id ▸ inv.derived.unitBound u hu
    oneLive := fun v hv w hw hlv hlw =>
      inv.derived.oneLive v (hkeep v hv hlv).1 w (hkeep w hw hlw).1 hlv hlw
    origin := fun v hv => Or.inl (source_supersedeOthers hv)
    awaited := by
      intro v hv hlive c hc hid
      obtain ⟨hv, hkey⟩ := hkeep v hv hlive
      refine ⟨inv.derived.awaited v hv hlive c hc hid, fun h => ?_, fun _ e he hej hek _ => ?_⟩
      · rw [hjob.2.1] at h
        cases h
      · cases inv.recorded.decision_eq he hd (hej.trans hjob.2.2)
        obtain ⟨c', hc', hvc⟩ := inv.derived.derived v hv
        cases inv.recorded.decision_eq hc' hc (hvc.decision.symm.trans hid.symm)
        exact hkey (hvc.sourceKey.trans hek.symm)
    kept := by
      intro a ha hact h
      have hunit : ∃ u ∈ s.units, u.status.isRecallable ∧ u.sourceDecisionId = a.id := by
        rcases h with h | hja
        · exact h
        · cases inv.recorded.decision_eq ha hd (hja.2.2.symm.trans hjob.2.2)
          obtain ⟨i, hi, hrun, -⟩ := hrd'.extracted
          exact inv.derived.kept d hd hact i hi hrun
      obtain ⟨u, hu, hlive, hid⟩ := hunit
      have hkey := inv.active_spared hd horder hway ha hact hu hlive hid
      exact ⟨u, (mem_supersedeOthers hlive).mpr ⟨hu, Or.inr hkey⟩, hlive, hid⟩ }

theorem Executed.written {d : AcceptedDecision} {identity : ExtractionIdentity} {text : Text} (hd : d ∈ s.decisions)
    (hjob : ExtractJob s d j) (horder : ComparedInOrder s d)
    (hway : ∀ u ∈ s.activeChain d.key, u.sourceDecisionId ≠ d.id ∧ u.effectiveAt < d.createdAt)
    (haw : Awaited s d) (hid : extractionIdentity j.triggerEventId ("decision:".toList ++ d.key) = .ok identity)
    (htext : decisionTemplate d.key d.statement d.acceptedByUserId = .ok text) :
    Executed s j (supersedeOthers d.key s.nextId (s.units ++ [templateOf s.nextId d identity text])) (s.nextId + 1) := by
  have hids : ((s.units ++ [templateOf s.nextId d identity text]).map MemoryUnit.id).Nodup :=
    nodup_map_append inv.derived.unitIds fun u hu => (inv.derived.unitBound u hu).ne
  have hkeep : ∀ v ∈ supersedeOthers d.key s.nextId (s.units ++ [templateOf s.nextId d identity text]),
      v.status.isRecallable = true → (v ∈ s.units ∧ v.sourceKey ≠ d.key) ∨ v = templateOf s.nextId d identity text := by
    intro v hv hlive
    obtain ⟨hv, hcase⟩ := (mem_supersedeOthers hlive).mp hv
    rcases List.mem_append.mp hv with hv | hv
    · rcases hcase with hid | hkey
      · exact absurd hid (inv.derived.unitBound v hv).ne
      · exact Or.inl ⟨hv, hkey⟩
    · exact Or.inr (List.mem_singleton.mp hv)
  exact {
    grows := Nat.le_succ _
    ids := by
      rw [map_id_supersedeOthers]
      exact hids
    bound := by
      intro v hv
      obtain ⟨u, hu, hdem⟩ := source_supersedeOthers hv
      rw [hdem.id]
      rcases Lib.mem_concat.mp hu with hu | rfl
      · exact Nat.lt_succ_of_lt (inv.derived.unitBound u hu)
      · exact Nat.lt_succ_self _
    oneLive := by
      intro v hv w hw hlv hlw hkey
      rcases hkeep v hv hlv with ⟨hv, hvk⟩ | rfl
      · rcases hkeep w hw hlw with ⟨hw, -⟩ | rfl
        · exact inv.derived.oneLive v hv w hw hlv hlw hkey
        · exact absurd hkey hvk
      · rcases hkeep w hw hlw with ⟨-, hwk⟩ | rfl
        · exact absurd hkey.symm hwk
        · rfl
    origin := by
      intro v hv
      obtain ⟨u, hu, hdem⟩ := source_supersedeOthers hv
      rcases Lib.mem_concat.mp hu with hu | rfl
      · exact Or.inl ⟨u, hu, hdem⟩
      · exact Or.inr ⟨d, hd, hjob, hdem.decision, hdem.sourceKey, hdem.effectiveAt, hdem.text ▸ htext,
          hdem.identity ▸ hid⟩
    awaited := by
      intro v hv hlive c hc hcid
      have hret : j.operation = .retractUnits → j.decisionId ≠ c.id := fun h => by
        rw [hjob.2.1] at h
        cases h
      rcases hkeep v hv hlive with ⟨hv, hkey⟩ | rfl
      · refine ⟨inv.derived.awaited v hv hlive c hc hcid, hret, fun _ e he hej hek _ => ?_⟩
        cases inv.recorded.decision_eq he hd (hej.trans hjob.2.2)
        obtain ⟨c', hc', hvc⟩ := inv.derived.derived v hv
        cases inv.recorded.decision_eq hc' hc (hvc.decision.symm.trans hcid.symm)
        exact hkey (hvc.sourceKey.trans hek.symm)
      · cases inv.recorded.decision_eq hc hd hcid
        refine ⟨haw, hret, fun _ e he hej _ hlt => ?_⟩
        rw [hej, hjob.2.2] at hlt
        exact absurd hlt (Nat.lt_irrefl _)
    kept := by
      intro a ha hact h
      by_cases had : a.id = d.id
      · exact ⟨_, (mem_supersedeOthers rfl).mpr ⟨List.mem_append_right _ (List.mem_singleton_self _), Or.inl rfl⟩, rfl,
          had.symm⟩
      · rcases h with ⟨u, hu, hlive, huid⟩ | hja
        · have hkey := inv.active_spared hd horder hway ha hact hu hlive huid
          exact ⟨u, (mem_supersedeOthers hlive).mpr ⟨List.mem_append_left _ hu, Or.inr hkey⟩, hlive, huid⟩
        · exact absurd (hja.2.2.symm.trans hjob.2.2) had }

theorem Sound.execute (hj : j ∈ s.jobs) (horder : InOrder s (.execute j.id)) : Sound (s.execute j) := by
  cases hop : j.operation with
  | retractUnits =>
    have hrun : s.dispatch j = s.retractDecisionUnits j := by rw [dispatch, hop]
    refine inv.executed hj (Executed.retract inv hj hop) ?_
    rw [DecisionMemory.execute, hrun, retractDecisionUnits_eq inv.derived.unitIds]
    rfl
  | extractDecision =>
    have hrun : s.dispatch j = s.extractDecision j := by rw [dispatch, hop]
    obtain ⟨d, hd, hdj, -⟩ := inv.recorded.source j hj
    have hjob : ExtractJob s d j := ⟨hj, hop, hdj.symm⟩
    obtain ⟨hcompared, hlate⟩ := horder j hj rfl hop d hd hdj
    rcases inv.extract_cases hd hjob with ⟨⟨u, hu, hway⟩, heq⟩ | ⟨hway, ⟨r, hr, hrd, heq⟩ | ⟨hnone, identity, text, hid, htext, heq⟩⟩
    · refine inv.executed hj (Executed.blocked inv hd hjob hcompared hu hway) ?_
      rw [DecisionMemory.execute, hrun, heq]
      rfl
    · refine inv.executed hj (Executed.redelivered inv hd hjob hcompared hway hr hrd) ?_
      rw [DecisionMemory.execute, hrun, heq]
      rfl
    · have haw : Awaited s d := by
        by_cases hact : d.status = .active
        · exact Or.inl hact
        · exact Or.inr (hlate hact ⟨hnone, fun u hu => (hway u hu).2⟩)
      refine inv.executed hj (Executed.written inv hd hjob hcompared hway haw hid htext) ?_
      rw [DecisionMemory.execute, hrun, heq]
      rfl

end

end

/-! ### Runs -/

theorem Sound.step {op : MemoryOp} (inv : Sound s) (horder : InOrder s op) (h : s.perform limits op = .ok t) : Sound t := by
  cases op with
  | accept key statement userId sourceTurn now => exact inv.accept horder h
  | supersede key statement userId sourceTurn now => exact inv.supersede horder h
  | retract decisionId => exact inv.retract h
  | execute jobId =>
    simp only [perform] at h
    cases hj : s.jobs.find? fun j => j.id == jobId with
    | none =>
      rw [hj] at h
      cases h
    | some j =>
      obtain ⟨hmem, rfl⟩ := mem_of_find?_key hj
      rw [hj] at h
      cases h
      exact inv.execute hmem horder

theorem Sound.of_reach (h : Reach (perform limits) InOrder {} s) : Sound s :=
  h.invariant Sound.init fun inv horder hstep => inv.step horder hstep

structure Converged (s : DecisionMemory) : Prop where
  active : ∀ d ∈ s.decisions, d.status = .active → ∃ u, s.activeChain d.key = [u] ∧ u.sourceDecisionId = d.id ∧
    decisionTemplate d.key d.statement d.acceptedByUserId = .ok u.text
  withdrawn : ∀ key, (∀ d ∈ s.decisions, d.key = key → d.status ≠ .active) → s.activeChain key = []

theorem Sound.converged (inv : Sound s) (hall : ∀ j ∈ s.jobs, 0 < j.executed) : Converged s := by
  have hactive : ∀ u ∈ s.units, u.status.isRecallable = true → ∀ d ∈ s.decisions, d.id = u.sourceDecisionId →
      d.status = .active := by
    intro u hu hlive d hd hid
    rcases inv.derived.awaited u hu hlive d hd hid with hact | ⟨j, hj, -, -, hrun⟩ | ⟨e, -, -, -, j, hj, -, -, hrun⟩
    · exact hact
    · exact absurd hrun (hall j hj).ne'
    · exact absurd hrun (hall j hj).ne'
  constructor
  · intro d hd hact
    obtain ⟨j, hjob⟩ := inv.recorded.hasJob d hd
    obtain ⟨u, hu, hlive, hid⟩ := inv.derived.kept d hd hact j hjob (hall j hjob.1)
    obtain ⟨d', hd', hud⟩ := inv.derived.derived u hu
    cases inv.recorded.decision_eq hd' hd (hud.decision.symm.trans hid)
    refine ⟨u, ?_, hid, hud.text⟩
    have hchain : u ∈ s.activeChain d.key := mem_activeChain.mpr ⟨hu, hud.sourceKey, hlive⟩
    rcases filter_eq_nil_or_singleton (p := fun u => u.sourceKey = d.key ∧ u.status.isRecallable) inv.derived.unitIds
        fun v hv w hw hpv hpw => inv.derived.oneLive v hv w hw (of_decide_eq_true hpv).2 (of_decide_eq_true hpw).2
          ((of_decide_eq_true hpv).1.trans (of_decide_eq_true hpw).1.symm) with hnil | ⟨v, -, -, hone⟩
    · rw [activeChain, hnil] at hchain
      cases hchain
    · rw [activeChain, hone] at hchain
      rw [activeChain, hone, List.mem_singleton.mp hchain]
  · intro key hnone
    rw [List.eq_nil_iff_forall_not_mem]
    intro u hu
    obtain ⟨humem, hkey, hlive⟩ := mem_activeChain.mp hu
    obtain ⟨d, hd, hud⟩ := inv.derived.derived u humem
    exact hnone d hd (hud.sourceKey.symm.trans hkey) (hactive u humem hlive d hd hud.decision.symm)

/-- Once every job of a run in order has been executed, whatever their order, the units in recall are those of the active
    decisions. -/
theorem decision_memory_converges (h : Reach (perform limits) InOrder {} s) (hall : ∀ j ∈ s.jobs, 0 < j.executed) :
    Converged s := (Sound.of_reach h).converged hall

/-- A decision replaced before its extraction runs, and one that is retracted. -/
theorem decision_memory_converges_delayed : ∃ s, Reach (perform {}) InOrder {} s ∧ s.decisions.length = 3 ∧ Converged s := by
  have hrun : ends (fun s => decide (s.decisions.length = 3) && s.jobs.all fun j => decide (0 < j.executed))
      (runOps (fun s op => if InOrder s op then perform {} s op else .error "late") {}
        [.accept "database".toList "use Postgres".toList 7 true 1,
          .supersede "database".toList "use SQLite".toList 7 true 2, .execute 1, .execute 0,
          .accept "editor".toList "use vi".toList 7 true 3, .retract 3, .execute 3, .execute 4, .execute 3]) = true := by
    decide +kernel
  obtain ⟨s, hs, hok⟩ := exists_of_ends hrun
  rw [Bool.and_eq_true, decide_eq_true_eq, List.all_eq_true] at hok
  have hreach : Reach (perform {}) InOrder {} s := reach_of_guarded hs
  exact ⟨s, hreach, hok.1, decision_memory_converges hreach fun j hj => of_decide_eq_true (hok.2 j hj)⟩

/-- A decision that is retracted, and whose retraction runs before its extraction, is recalled as verified. -/
theorem withdrawn_decision_recalled : ¬∀ (limits : MemoryLimits) (s : DecisionMemory),
    Reach (perform limits) (fun _ _ => True) {} s → (∀ j ∈ s.jobs, 0 < j.executed) → Converged s := by
  intro hclaim
  have hrun : ends (fun s => (s.jobs.all fun j => decide (0 < j.executed)) &&
      (s.decisions.all fun d => decide (d.status ≠ .active)) && decide (s.activeChain "database".toList ≠ []))
      (runOps (perform {}) {} [.accept "database".toList "use Postgres".toList 7 true 1, .retract 0, .execute 1,
        .execute 0]) = true := by decide +kernel
  obtain ⟨s, hs, hok⟩ := exists_of_ends hrun
  rw [Bool.and_eq_true, Bool.and_eq_true, List.all_eq_true, List.all_eq_true, decide_eq_true_eq] at hok
  have hconv := hclaim {} s (reach_of_runOps (fun _ _ _ => trivial) hs) fun j hj => of_decide_eq_true (hok.1.1 j hj)
  exact hok.2 (hconv.withdrawn _ fun d hd _ => of_decide_eq_true (hok.1.2 d hd))

/-- A decision whose template is refused has no unit. -/
example : ends (fun s => s.jobs.all (fun j => decide (0 < j.executed)) && s.units.isEmpty)
    (runOps (perform {}) {} [.accept "reset-password".toList "requires a second factor".toList 7 true 1, .execute 0]) =
      true := by decide +kernel

end Vuzol.Memory
