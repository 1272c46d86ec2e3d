import Mathlib.Data.List.MinMax
import Vuzol.Workflow.Engine

/-! The layout of a run's rows: the compiled chain in front, the steps the engine added behind it, every
    row under its own number. No operation changes the layout other than by adding a row. -/

namespace Vuzol.Workflow

open Vuzol.Lib

variable {m : Materialization} {id now : Nat}

namespace State
variable {s : State} {x : Step}

@[simp] theorem putStep_steps : (s.putStep x).steps = put Step.key x s.steps := rfl
@[simp] theorem putStep_run : (s.putStep x).run = s.run := rfl
@[simp] theorem putStep_task : (s.putStep x).task = s.task := rfl
@[simp] theorem putStep_approvals : (s.putStep x).approvals = s.approvals := rfl
@[simp] theorem putStep_effects : (s.putStep x).effects = s.effects := rfl

@[simp] theorem appendStep_steps : (s.appendStep x).steps = s.steps ++ [x] := rfl
@[simp] theorem appendStep_run : (s.appendStep x).run = s.run := rfl
@[simp] theorem appendStep_task : (s.appendStep x).task = s.task := rfl
@[simp] theorem appendStep_approvals : (s.appendStep x).approvals = s.approvals := rfl
@[simp] theorem appendStep_effects : (s.appendStep x).effects = s.effects := rfl

theorem mem_of_step? (h : s.step? id = some x) : x ∈ s.steps ∧ x.id = id := mem_of_find?_key h

theorem step?_of_mem (hn : (s.steps.map Step.key).Nodup) (hx : x ∈ s.steps) : s.step? x.id = some x :=
  find?_key hn hx

end State

@[simp] theorem recordTaskProgress_steps {s : State} : (recordTaskProgress s).steps = s.steps := rfl
@[simp] theorem recordTaskProgress_run {s : State} : (recordTaskProgress s).run = s.run := rfl

@[simp] theorem abandonCapabilityInstallation_steps {s : State} :
    (abandonCapabilityInstallation s id).steps = s.steps := rfl

@[simp] theorem grantAttempt_status {x : Step} : (grantAttempt x).status = x.status := rfl

def addedStepTypes : List StepType :=
  [.executeCode, .executeAgent, .validate, .ensureCapabilities, .ensureDependencies]

def follows : StepType → StepType → Bool
  | .ensureCapabilities, next => next = .prepareContext
  | .prepareContext, next => next = .prepareWorktree
  | .validate, next => next = .review
  | .review, next => next = .produceArtifacts || next = .approval
  | _, _ => true

/-- What the engine relies on in a compiled chain. -/
structure Chain (chain : List StepSpec) : Prop where
  pos : 0 < chain.length
  id : ∀ {i : Nat} {c : StepSpec}, chain[i]? = some c → c.id = i
  ordinal : ∀ {i : Nat} {c : StepSpec}, chain[i]? = some c → c.ordinal = i
  predecessors : ∀ {i : Nat} {c : StepSpec}, chain[i]? = some c → c.predecessorOrdinals = if i = 0 then [] else [i - 1]
  links : ∀ {i : Nat} {c : StepSpec}, chain[i]? = some c → c.links = {}
  finalize : ∀ {i : Nat} {c : StepSpec}, chain[i]? = some c → c.stepType = .finalize → i + 1 = chain.length
  last : ∀ {i : Nat} {c : StepSpec}, chain[i]? = some c → i + 1 = chain.length → c.stepType = .finalize
  follows : ∀ {i : Nat} {c d : StepSpec}, chain[i]? = some c → chain[i + 1]? = some d →
    follows c.stepType d.stepType = true

def Materialization.chain (m : Materialization) : List StepSpec := (compileWorkflow m.draft m.now).map Step.toStepSpec

variable {i : Nat} {c : StepSpec}

theorem Materialization.getElem?_chain (h : m.chain[i]? = some c) :
    ∃ d, (stepDefinitions m.draft)[i]? = some d ∧ c = (materializedStep m.draft.report m.now i d).toStepSpec := by
  simp only [chain, compileWorkflow, List.getElem?_map, List.getElem?_mapIdx, Option.map_map,
    Option.map_eq_some_iff] at h
  obtain ⟨d, hd, rfl⟩ := h
  exact ⟨d, hd, rfl⟩

def chainKeys (report : Bool) : List StepType :=
  if report then
    [.interpret, .ensureCapabilities, .prepareContext, .prepareWorktree, .executeAgent, .ensureDependencies, .validate,
     .review, .approval, .finalize]
  else
    [.interpret, .ensureCapabilities, .prepareContext, .prepareWorktree, .executeCode, .ensureDependencies, .validate,
     .review, .produceArtifacts, .buildStatic, .approval, .publishStatic, .finalize]

theorem stepDefinitions_keys (draft : TaskDraft) : (stepDefinitions draft).map (·.key) = chainKeys draft.report := by
  unfold stepDefinitions chainKeys
  cases draft.report <;> rfl

theorem Materialization.chain_key (h : m.chain[i]? = some c) : (chainKeys m.draft.report)[i]? = some c.stepType := by
  obtain ⟨d, hd, rfl⟩ := Materialization.getElem?_chain h
  rw [← stepDefinitions_keys, List.getElem?_map, hd]
  rfl

theorem chainKeys_finalize (report : Bool) : ∀ i < (chainKeys report).length,
    (chainKeys report)[i]? = some .finalize → i + 1 = (chainKeys report).length := by
  cases report <;> decide

theorem chainKeys_last (report : Bool) : (chainKeys report)[(chainKeys report).length - 1]? = some .finalize := by
  cases report <;> decide

theorem chainKeys_follows (report : Bool) : ∀ i < (chainKeys report).length,
    ∀ a ∈ (chainKeys report)[i]?, ∀ b ∈ (chainKeys report)[i + 1]?, follows a b = true := by
  cases report <;> decide

theorem Materialization.length_chain : m.chain.length = (chainKeys m.draft.report).length := by
  rw [← stepDefinitions_keys, List.length_map, chain, compileWorkflow, List.length_map, List.length_mapIdx]

theorem Materialization.compiled (m : Materialization) : Chain m.chain where
  pos := by
    rw [length_chain]
    cases m.draft.report <;> decide
  id h := by
    obtain ⟨d, -, rfl⟩ := getElem?_chain h
    rfl
  ordinal h := by
    obtain ⟨d, -, rfl⟩ := getElem?_chain h
    rfl
  predecessors h := by
    obtain ⟨d, -, rfl⟩ := getElem?_chain h
    rfl
  links h := by
    obtain ⟨d, -, rfl⟩ := getElem?_chain h
    rfl
  finalize h hf := by
    have hk := chain_key h
    rw [hf] at hk
    rw [length_chain]
    exact chainKeys_finalize _ _ (List.getElem?_eq_some_iff.mp hk).1 hk
  last h hi := by
    have hk := chain_key h
    rw [length_chain] at hi
    have hlast := chainKeys_last (m.draft.report)
    rw [← hi, Nat.add_sub_cancel, hk] at hlast
    exact Option.some.inj hlast
  follows h h' := by
    have hk := chain_key h
    exact chainKeys_follows _ _ (List.getElem?_eq_some_iff.mp hk).1 _ hk _ (chain_key h')

structure Laid (chain specs : List StepSpec) : Prop where
  ids : specs.map (·.id) = List.range specs.length
  ordinals : specs.map (·.ordinal) = List.range specs.length
  compiled : chain <+: specs
  added : ∀ c ∈ specs, chain.length ≤ c.id →
    c.links ≠ {} ∧ c.predecessorOrdinals = [] ∧ c.stepType ∈ addedStepTypes

section Layout
variable {chain specs : List StepSpec} {rows : List Step} {x y : Step}

def specsOf (rows : List Step) : List StepSpec := rows.map Step.toStepSpec

@[simp] theorem length_specsOf : (specsOf rows).length = rows.length := List.length_map _

theorem mem_specsOf (hx : x ∈ rows) : x.toStepSpec ∈ specsOf rows := List.mem_map_of_mem hx

section
variable (h : Laid chain (specsOf rows))
include h

theorem Laid.keys : rows.map Step.key = List.range rows.length := by
  have hids := h.ids
  rw [specsOf, List.map_map, List.length_map] at hids
  exact hids

theorem Laid.nodup : (rows.map Step.key).Nodup := by
  rw [h.keys]
  exact List.nodup_range

theorem Laid.eq_of_id (hx : x ∈ rows) (hy : y ∈ rows) (hid : x.id = y.id) : x = y :=
  eq_of_key_eq h.nodup hx hy hid

theorem Laid.id_lt (hx : x ∈ rows) : x.id < rows.length := by
  have hmem : x.id ∈ rows.map Step.key := List.mem_map_of_mem hx
  rw [h.keys] at hmem
  exact List.mem_range.mp hmem

theorem Laid.exists_id (hi : i < rows.length) : ∃ x ∈ rows, x.id = i := by
  have hmem : i ∈ rows.map Step.key := by
    rw [h.keys]
    exact List.mem_range.mpr hi
  exact List.mem_map.mp hmem

theorem Laid.size : chain.length ≤ rows.length := by
  simpa using h.compiled.length_le

end

theorem Laid.getElem?_specs (h : Laid chain specs) (hc : c ∈ specs) : specs[c.id]? = some c := by
  obtain ⟨i, hi, rfl⟩ := List.getElem_of_mem hc
  have hid : (specs.map (·.id))[i]? = some i := by
    rw [h.ids]
    simp [hi]
  have hid' : specs[i].id = i := by simpa [hi] using hid
  rw [hid']
  exact List.getElem?_eq_getElem hi

section
variable (h : Laid chain (specsOf rows)) (hx : x ∈ rows)
include h hx

theorem Laid.ordinal_eq : x.ordinal = x.id := by
  have hget := h.getElem?_specs (mem_specsOf hx)
  have hord : ((specsOf rows).map (·.ordinal))[x.id]? = some x.id := by
    rw [h.ordinals, length_specsOf]
    exact List.getElem?_range (h.id_lt hx)
  rw [List.getElem?_map, hget] at hord
  simpa using hord

theorem Laid.compiled_row (hlt : x.id < chain.length) : chain[x.id]? = some x.toStepSpec := by
  rw [← h.getElem?_specs (mem_specsOf hx), List.getElem?_eq_getElem hlt]
  exact (List.prefix_iff_getElem?.mp h.compiled x.id hlt).symm

theorem Laid.added_row (hle : chain.length ≤ x.id) :
    x.links ≠ {} ∧ x.predecessorOrdinals = [] ∧ x.stepType ∈ addedStepTypes := h.added _ (mem_specsOf hx) hle

end

theorem Laid.links_iff (hc : Chain chain) (h : Laid chain (specsOf rows)) (hx : x ∈ rows) :
    x.links = {} ↔ x.id < chain.length := by
  constructor
  · intro hl
    by_contra hlt
    exact (h.added_row hx (Nat.le_of_not_lt hlt)).1 hl
  · intro hlt
    exact hc.links (h.compiled_row hx hlt)

theorem specsOf_put (hn : (rows.map Step.key).Nodup) (hx : x ∈ rows) (hy : y.toStepSpec = x.toStepSpec) :
    specsOf (put Step.key y rows) = specsOf rows := by
  apply map_put
  intro z hz hk
  have hid : y.id = x.id := by rw [hy]
  rw [eq_of_key_eq hn hz hx (hk.trans hid), hy]

@[simp] theorem specsOf_append {more : List Step} : specsOf (rows ++ more) = specsOf rows ++ specsOf more :=
  List.map_append

theorem Laid.append (h : Laid chain (specsOf rows)) (hid : x.id = rows.length) (hord : x.ordinal = rows.length)
    (hl : x.links ≠ {}) (hp : x.predecessorOrdinals = []) (ht : x.stepType ∈ addedStepTypes) :
    Laid chain (specsOf (rows ++ [x])) where
  ids := by
    have hids := h.ids
    simp only [length_specsOf] at hids
    rw [specsOf_append, List.map_append, hids]
    simp [specsOf, hid, List.range_succ]
  ordinals := by
    have hords := h.ordinals
    simp only [length_specsOf] at hords
    rw [specsOf_append, List.map_append, hords]
    simp [specsOf, hord, List.range_succ]
  compiled := by
    rw [specsOf_append]
    exact h.compiled.trans (List.prefix_append _ _)
  added := by
    intro c hc hle
    rw [specsOf_append, List.mem_append] at hc
    rcases hc with hc | hc
    · exact h.added c hc hle
    · obtain rfl : c = x.toStepSpec := by simpa [specsOf] using hc
      exact ⟨hl, hp, ht⟩

theorem foldl_max_range (n : Nat) : (List.range (n + 1)).foldl max 0 = n := by
  induction n with
  | zero => rfl
  | succ n ih =>
    rw [List.range_succ, List.foldl_append, ih]
    simp

theorem Laid.nextOrdinal {s : State} (hc : Chain chain) (h : Laid chain (specsOf s.steps)) :
    s.nextOrdinal = s.steps.length := by
  have hords : s.steps.map (·.ordinal) = List.range s.steps.length := by
    have hords := h.ordinals
    rw [specsOf, List.map_map, List.length_map] at hords
    exact hords
  obtain ⟨n, hn⟩ : ∃ n, s.steps.length = n + 1 :=
    Nat.exists_eq_succ_of_ne_zero (Nat.ne_of_gt (Nat.lt_of_lt_of_le hc.pos h.size))
  rw [State.nextOrdinal, hords, hn, foldl_max_range]

end Layout

theorem Materialization.laid (m : Materialization) : Laid m.chain (specsOf (compileWorkflow m.draft m.now)) where
  ids := by
    apply List.ext_getElem?
    intro i
    simp only [specsOf, compileWorkflow, List.getElem?_map, List.getElem?_mapIdx, List.length_map, List.length_mapIdx,
      List.range_eq_range']
    by_cases hi : i < (stepDefinitions m.draft).length <;> simp [hi, materializedStep]
  ordinals := by
    apply List.ext_getElem?
    intro i
    simp only [specsOf, compileWorkflow, List.getElem?_map, List.getElem?_mapIdx, List.length_map, List.length_mapIdx,
      List.range_eq_range']
    by_cases hi : i < (stepDefinitions m.draft).length <;> simp [hi, materializedStep]
  compiled := List.prefix_rfl
  added := by
    intro c hc hle
    obtain ⟨i, hi, rfl⟩ := List.getElem_of_mem hc
    have hget : m.chain[i]? = some (specsOf (compileWorkflow m.draft m.now))[i] := List.getElem?_eq_getElem hi
    rw [m.compiled.id hget] at hle
    exact absurd (List.getElem?_eq_some_iff.mp hget).1 (Nat.not_lt_of_le hle)

end Vuzol.Workflow
