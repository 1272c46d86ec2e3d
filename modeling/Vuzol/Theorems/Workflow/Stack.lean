import Vuzol.Theorems.Workflow.Layout

/-! The waiting stack of a run. The chain advances one step at a time; a step of the chain that waits for a
    step the engine added is parked below it, and the added step may be parked below another one. The rows
    that are neither pending nor settled are, in ordinal order, exactly this stack: every row but the last
    one is parked, and the last one is the only row that can be worked on. -/

namespace Vuzol.Workflow

open Vuzol.Lib

variable {a : StepStatus}

def StepStatus.isOpen : StepStatus → Bool
  | .queued | .leased | .running | .waitingApproval | .awaitingUser | .blocked => true
  | .pending | .failed | .cancelled | .completed => false

def StepStatus.isLive : StepStatus → Bool
  | .queued | .leased | .running | .waitingApproval | .awaitingUser => true
  | .blocked | .pending | .failed | .cancelled | .completed => false

theorem StepStatus.isOpen_of_isLive (h : a.isLive = true) : a.isOpen = true := by
  cases a <;> first | rfl | cases h

theorem StepStatus.isLive_of_isHeld (h : a.isHeld = true) : a.isLive = true := by
  cases a <;> first | rfl | cases h

theorem StepStatus.isLive_or_blocked (h : a.isOpen = true) : a.isLive = true ∨ a = .blocked := by
  cases a <;> simp_all [StepStatus.isOpen, StepStatus.isLive]

theorem Step.unfinished_iff {x : Step} : x.unfinished = true ↔ x.status.isLive = true ∨ x.status = .pending := by
  unfold Step.unfinished
  cases x.status <;> decide

def openRows (rows : List Step) : List Step := rows.filter fun x => x.status.isOpen

section Front
variable {n k : Nat} {rows : List Step} {x y : Step}

structure AtFront (n k : Nat) (x : Step) : Prop where
  before : x.id < k → x.status = .completed
  here : x.id = k → k < n → x.status ≠ .completed
  after : k < x.id → x.id < n → x.status = .pending
  added : n ≤ x.id → x.status ≠ .pending

/-- The first `k` steps of the chain are completed, and those after the next one are untouched. -/
structure Front (n k : Nat) (rows : List Step) : Prop where
  le : k ≤ n
  row : ∀ x ∈ rows, AtFront n k x

theorem AtFront.id_eq (h : AtFront n k x) (hopen : x.status.isOpen = true) (hlt : x.id < n) : x.id = k := by
  rcases Nat.lt_trichotomy x.id k with hk | hk | hk
  · rw [h.before hk] at hopen
    cases hopen
  · exact hk
  · rw [h.after hk hlt] at hopen
    cases hopen

theorem AtFront.moved (h : AtFront n k x) (hopen : x.status.isOpen = true) (hid : y.id = x.id)
    (hc : y.status ≠ .completed) (hp : y.status ≠ .pending) (hle : k ≤ n) : AtFront n k y where
  before hk := by
    rw [hid] at hk
    exact absurd (h.id_eq hopen (Nat.lt_of_lt_of_le hk hle)) (Nat.ne_of_lt hk)
  here _ _ := hc
  after hk hlt := by
    rw [hid] at hk hlt
    exact absurd (h.id_eq hopen hlt) (Nat.ne_of_gt hk)
  added _ := hp

theorem Front.put_row (h : Front n k rows) (hy : AtFront n k y) : Front n k (put Step.key y rows) where
  le := h.le
  row z hz := by
    rcases mem_or_of_mem_put hz with rfl | hz
    · exact hy
    · exact h.row z hz

theorem Front.advance (h : Front n k rows) (hx : x ∈ rows) (hopen : x.status.isOpen = true) (hlt : x.id < n)
    (hid : y.id = x.id) (hy : y.status = .completed) : Front n (k + 1) (put Step.key y rows) where
  le := by
    rw [(h.row x hx).id_eq hopen hlt] at hlt
    exact hlt
  row z hz := by
    have hk := (h.row x hx).id_eq hopen hlt
    rcases mem_put.mp hz with ⟨rfl, -⟩ | ⟨hz, hne⟩
    · exact ⟨fun _ => hy, fun h' => by omega, fun h' => by omega, fun h' => by omega⟩
    · have hz := h.row z hz
      have hne : z.id ≠ k := by
        intro hzk
        exact hne (by change z.id = y.id; omega)
      refine ⟨fun h' => hz.before (by omega), fun h' hlt' => ?_, fun h' => hz.after (by omega), hz.added⟩
      rw [hz.after (by omega) (by omega)]
      decide

theorem Front.settle (h : Front n k rows) (hx : x ∈ rows) (hopen : x.status.isOpen = true) (hid : y.id = x.id)
    (hp : y.status ≠ .pending) : ∃ k', Front n k' (put Step.key y rows) := by
  by_cases hc : y.status = .completed
  · by_cases hlt : x.id < n
    · exact ⟨k + 1, h.advance hx hopen hlt hid hc⟩
    · refine ⟨k, h.put_row ⟨fun h' => ?_, fun h' hk => ?_, fun _ h' => ?_, fun _ => hp⟩⟩
      · have := h.le
        omega
      · omega
      · omega
  · exact ⟨k, h.put_row ((h.row x hx).moved hopen hid hc hp h.le)⟩

theorem Front.append (h : Front n k rows) (hn : n ≤ y.id) (hp : y.status ≠ .pending) : Front n k (rows ++ [y]) where
  le := h.le
  row z hz := by
    rcases Lib.mem_concat.mp hz with hz | rfl
    · exact h.row z hz
    · have := h.le
      exact ⟨fun h' => by omega, fun h' hk => by omega, fun _ h' => by omega, fun _ => hp⟩

end Front

structure Parked (p : Step) : Prop where
  blocked : p.status = .blocked
  clean : p.unknownEffects = false
  category : repairableCategory p.failureCategory = true ∨ p.failureCategory = some "capability_preflight_required"

/-- `c` repairs the source for the validation or the review `p`. -/
structure Repairs (p : Step) (c : StepSpec) : Prop where
  parent : p.stepType = .validate ∨ p.stepType = .review
  stepType : c.stepType.isWorker = true
  key : c.templateKey = .repairCode
  ordinal : c.repairForOrdinal = some p.ordinal
  links : c.links = { repairForStepId := some p.id }
  bound : p.payload.repairScheduledStepId = some c.id

/-- `c` validates the repaired source before the review `p` repeats. -/
structure Revalidates (p : Step) (c : StepSpec) : Prop where
  parent : p.stepType = .review
  stepType : c.stepType = .validate
  links : c.links = { resumeAfterValidationStepId := some p.id }

/-- `c` installs the shared capabilities that the dependency step `p` misses. -/
structure Preflights (p : Step) (c : StepSpec) : Prop where
  parent : p.stepType = .ensureDependencies
  stepType : c.stepType = .ensureCapabilities
  key : c.templateKey = .ensureCapabilitiesAfterCode
  links : c.links = { capabilityForStepId := some p.id }
  bound : p.payload.capabilityPreflightStepId = some c.id
  category : p.failureCategory = some "capability_preflight_required"

/-- `c` prepares the environment that the validation `p` misses. -/
structure Prepares (p : Step) (c : StepSpec) : Prop where
  parent : p.stepType = .validate
  stepType : c.stepType = .ensureDependencies
  key : c.templateKey = .validationEnvironmentRecovery
  links : c.links = { validationEnvironmentForStepId := some p.id }
  bound : p.payload.environmentRecoveryStepId = some c.id

inductive Waits (p : Step) (c : StepSpec) : Prop
  | repair (h : Repairs p c)
  | revalidate (h : Revalidates p c)
  | preflight (h : Preflights p c)
  | prepare (h : Prepares p c)

/-- The parked steps below a step, the oldest first. A repair of a revalidation and a preflight of a
    preparation are the two ways in which two steps are parked. -/
inductive Stack : List Step → StepSpec → Prop
  | root {c : StepSpec} (hl : c.links = {}) : Stack [] c
  | one {p : Step} {c : StepSpec} (hp : Parked p) (hl : p.links = {}) (h : Waits p c) : Stack [p] c
  | repairAgain {q p : Step} {c : StepSpec} (hq : Parked q) (hl : q.links = {}) (h1 : Revalidates q p.toStepSpec)
      (hp : Parked p) (h2 : Repairs p c) : Stack [q, p] c
  | preflightAgain {q p : Step} {c : StepSpec} (hq : Parked q) (hl : q.links = {}) (h1 : Prepares q p.toStepSpec)
      (hp : Parked p) (h2 : Preflights p c) : Stack [q, p] c

section Stack
variable {ps : List Step} {p q x y : Step} {c : StepSpec}

theorem Waits.links_ne (h : Waits p c) : c.links ≠ {} := by
  rcases h with h | h | h | h <;> rw [h.links] <;> simp

theorem Waits.stepType_mem (h : Waits p c) : c.stepType ∈ addedStepTypes := by
  rcases h with h | h | h | h
  · have hw := h.stepType
    cases hc : c.stepType <;> simp_all [StepType.isWorker, addedStepTypes]
  · rw [h.stepType]; decide
  · rw [h.stepType]; decide
  · rw [h.stepType]; decide

theorem Stack.parked (h : Stack ps c) (hp : p ∈ ps) : Parked p := by
  cases h with
  | root => cases hp
  | one hpk => rcases List.mem_singleton.mp hp with rfl; exact hpk
  | repairAgain hqk _ _ hpk =>
    rcases List.mem_pair.mp hp with rfl | rfl
    · exact hqk
    · exact hpk
  | preflightAgain hqk _ _ hpk =>
    rcases List.mem_pair.mp hp with rfl | rfl
    · exact hqk
    · exact hpk

theorem Stack.waits (h : Stack (ps ++ [p]) c) : Waits p c := by
  generalize hqs : ps ++ [p] = qs at h
  cases h with
  | root => simp at hqs
  | one _ _ h =>
    obtain ⟨-, rfl⟩ := List.append_singleton_inj.mp (hqs.trans (List.nil_append _).symm)
    exact h
  | @repairAgain q p' _ _ _ _ _ h =>
    obtain ⟨-, rfl⟩ := List.append_singleton_inj.mp (hqs.trans (List.singleton_append (x := q) (l := [p'])).symm)
    exact .repair h
  | @preflightAgain q p' _ _ _ _ _ h =>
    obtain ⟨-, rfl⟩ := List.append_singleton_inj.mp (hqs.trans (List.singleton_append (x := q) (l := [p'])).symm)
    exact .preflight h

theorem Stack.pop (h : Stack (ps ++ [p]) c) : Stack ps p.toStepSpec := by
  generalize hqs : ps ++ [p] = qs at h
  cases h with
  | root => simp at hqs
  | one _ hl _ =>
    obtain ⟨rfl, rfl⟩ := List.append_singleton_inj.mp (hqs.trans (List.nil_append _).symm)
    exact .root hl
  | @repairAgain q p' _ hq hl h1 _ _ =>
    obtain ⟨rfl, rfl⟩ := List.append_singleton_inj.mp (hqs.trans (List.singleton_append (x := q) (l := [p'])).symm)
    exact .one hq hl (.revalidate h1)
  | @preflightAgain q p' _ hq hl h1 _ _ =>
    obtain ⟨rfl, rfl⟩ := List.append_singleton_inj.mp (hqs.trans (List.singleton_append (x := q) (l := [p'])).symm)
    exact .one hq hl (.prepare h1)

theorem Stack.eq_nil (h : Stack ps c) (hl : c.links = {}) : ps = [] := by
  rcases List.eq_nil_or_concat ps with rfl | ⟨qs, q, rfl⟩
  · rfl
  · rw [List.concat_eq_append] at h
    exact absurd hl h.waits.links_ne

theorem Stack.push_repair (h : Stack ps x.toStepSpec) (hy : y.toStepSpec = x.toStepSpec) (hp : Parked y)
    (hr : Repairs y c) : Stack (ps ++ [y]) c := by
  rw [← hy] at h
  have htype := hr.parent
  cases h with
  | root hl => exact .one hp hl (.repair hr)
  | one hq hl hw =>
    rcases hw with hw | hw | hw | hw
    · rcases htype with ht | ht <;> have := hw.stepType <;> simp [ht, StepType.isWorker] at this
    · exact .repairAgain hq hl hw hp hr
    · rcases htype with ht | ht <;> have := hw.stepType <;> simp [ht] at this
    · rcases htype with ht | ht <;> have := hw.stepType <;> simp [ht] at this
  | repairAgain _ _ _ _ hw =>
    rcases htype with ht | ht <;> have := hw.stepType <;> simp [ht, StepType.isWorker] at this
  | preflightAgain _ _ _ _ hw =>
    rcases htype with ht | ht <;> have := hw.stepType <;> simp [ht] at this

theorem Stack.push_preflight (h : Stack ps x.toStepSpec) (hy : y.toStepSpec = x.toStepSpec) (hp : Parked y)
    (hf : Preflights y c) : Stack (ps ++ [y]) c := by
  rw [← hy] at h
  have ht := hf.parent
  cases h with
  | root hl => exact .one hp hl (.preflight hf)
  | one hq hl hw =>
    rcases hw with hw | hw | hw | hw
    · have := hw.stepType; simp [ht, StepType.isWorker] at this
    · have := hw.stepType; simp [ht] at this
    · have := hw.stepType; simp [ht] at this
    · exact .preflightAgain hq hl hw hp hf
  | repairAgain _ _ _ _ hw => have := hw.stepType; simp [ht, StepType.isWorker] at this
  | preflightAgain _ _ _ _ hw => have := hw.stepType; simp [ht] at this

theorem Stack.below_review (h : Stack ps c) (ht : c.stepType = .review) : ps = [] := by
  cases h with
  | root => rfl
  | one _ _ hw => rcases hw with hw | hw | hw | hw <;> have := hw.stepType <;> simp [ht, StepType.isWorker] at this
  | repairAgain _ _ _ _ hw => have := hw.stepType; simp [ht, StepType.isWorker] at this
  | preflightAgain _ _ _ _ hw => have := hw.stepType; simp [ht] at this

theorem Stack.push_revalidate (h : Stack (ps ++ [p]) x.toStepSpec) (hr : Revalidates p c) : Stack (ps ++ [p]) c := by
  have hparked := h.parked (p := p) (by simp)
  have hpop := h.pop
  obtain rfl := hpop.below_review hr.parent
  cases hpop with
  | root hl => exact .one hparked hl (.revalidate hr)

end Stack

/-- The open rows are the stack `ps` below `x`. -/
structure Tip (rows ps : List Step) (x : Step) : Prop where
  opens : openRows rows = ps ++ [x]
  stack : Stack ps x.toStepSpec

structure Rows (chain : List StepSpec) (rows : List Step) : Prop where
  laid : Laid chain (specsOf rows)
  front : ∃ k, Front chain.length k rows
  waiting : openRows rows = [] ∨ ∃ ps x, Tip rows ps x
  clean : ∀ x ∈ rows, x.unfinished = true → x.unknownEffects = false

section Rows
variable {chain : List StepSpec} {rows ps : List Step} {x y z c : Step}

theorem mem_openRows : x ∈ openRows rows ↔ x ∈ rows ∧ x.status.isOpen = true := List.mem_filter

theorem Tip.mem (h : Tip rows ps x) : x ∈ rows := (mem_openRows.mp (by rw [h.opens]; simp)).1

theorem Tip.isOpen (h : Tip rows ps x) : x.status.isOpen = true := (mem_openRows.mp (by rw [h.opens]; simp)).2

theorem Tip.mem_parent (h : Tip rows ps x) {p : Step} (hp : p ∈ ps) : p ∈ rows :=
  (mem_openRows.mp (by rw [h.opens]; simp [hp])).1

theorem Tip.eq_of_isLive (h : Tip rows ps x) (hy : y ∈ rows) (hlive : y.status.isLive = true) : y = x := by
  have hmem : y ∈ openRows rows := mem_openRows.mpr ⟨hy, StepStatus.isOpen_of_isLive hlive⟩
  rw [h.opens, List.mem_append, List.mem_singleton] at hmem
  rcases hmem with hp | rfl
  · rw [(h.stack.parked hp).blocked] at hlive
    cases hlive
  · rfl

section
variable (h : Rows chain rows) (hx : x ∈ rows)
include h hx

theorem Rows.tip_of_isOpen (hopen : x.status.isOpen = true) : ∃ ps z, Tip rows ps z ∧ (x = z ∨ x ∈ ps) := by
  have hmem : x ∈ openRows rows := mem_openRows.mpr ⟨hx, hopen⟩
  rcases h.waiting with hnil | ⟨ps, z, htip⟩
  · rw [hnil] at hmem
    cases hmem
  · refine ⟨ps, z, htip, ?_⟩
    rw [htip.opens, List.mem_append, List.mem_singleton] at hmem
    exact hmem.symm

theorem Rows.clean_of_isLive (hlive : x.status.isLive = true) :
    x.unknownEffects = false := h.clean x hx (Step.unfinished_iff.mpr (Or.inl hlive))

theorem Rows.tip_of_isLive (hlive : x.status.isLive = true) : ∃ ps, Tip rows ps x := by
  obtain ⟨ps, z, htip, -⟩ := h.tip_of_isOpen hx (StepStatus.isOpen_of_isLive hlive)
  rw [← htip.eq_of_isLive hx hlive] at htip
  exact ⟨ps, htip⟩

theorem Rows.live_unique (hy : y ∈ rows) (hlx : x.status.isLive = true) (hly : y.status.isLive = true) : x = y := by
  obtain ⟨ps, htip⟩ := h.tip_of_isLive hx hlx
  exact (htip.eq_of_isLive hy hly).symm

end

theorem Tip.nodup (hn : (rows.map Step.key).Nodup) (h : Tip rows ps x) : ((ps ++ [x]).map Step.key).Nodup := by
  rw [← h.opens]
  exact hn.sublist (List.filter_sublist.map _)

theorem Tip.parent_ne (hn : (rows.map Step.key).Nodup) (h : Tip rows ps x) {p : Step} (hp : p ∈ ps) : p.id ≠ x.id := by
  have hnd := h.nodup hn
  rw [List.map_append, List.nodup_append] at hnd
  exact hnd.2.2 p.id (List.mem_map_of_mem hp) x.id (by simp)

theorem Tip.root (h : Tip rows ps x) : ∃ z ∈ rows, z.status.isOpen = true ∧ z.links = {} := by
  have hstack := h.stack
  rcases hps : ps with _ | ⟨q, qs⟩
  · rw [hps] at hstack
    cases hstack with
    | root hl => exact ⟨x, h.mem, h.isOpen, hl⟩
  · have hq : q ∈ ps := by simp [hps]
    have hopen : q.status.isOpen = true := by rw [(hstack.parked hq).blocked]; rfl
    refine ⟨q, h.mem_parent hq, hopen, ?_⟩
    rw [hps] at hstack
    cases hstack with
    | one _ hl _ => exact hl
    | repairAgain _ hl _ _ _ => exact hl
    | preflightAgain _ hl _ _ _ => exact hl

theorem openRows_retip (hn : (rows.map Step.key).Nodup) (h : Tip rows ps x) (hid : y.id = x.id)
    (hopen : y.status.isOpen = true) : openRows (put Step.key y rows) = ps ++ [y] := by
  have hps : put Step.key y ps = ps := put_of_not_mem fun p hp hk => h.parent_ne hn hp (Eq.trans hk hid)
  have heq : ∀ z ∈ rows, Step.key z = Step.key y → z.status.isOpen = y.status.isOpen := by
    intro z hz hk
    rw [eq_of_key_eq hn hz h.mem (hk.trans hid), h.isOpen, hopen]
  rw [openRows, filter_put_of_eq heq]
  change put Step.key y (openRows rows) = _
  rw [h.opens, put_append, hps]
  simp [hid]

theorem openRows_close (hn : (rows.map Step.key).Nodup) (h : Tip rows ps x) (hid : y.id = x.id)
    (hopen : y.status.isOpen = false) : openRows (put Step.key y rows) = ps := by
  rw [openRows, filter_put_of_not (p := fun z : Step => z.status.isOpen) hopen]
  change (openRows rows).filter _ = _
  have hps : ps.filter (fun z => decide (Step.key z ≠ Step.key y)) = ps := by
    rw [List.filter_eq_self]
    intro p hp
    simpa [hid] using h.parent_ne hn hp
  rw [h.opens, List.filter_append, hps]
  simp [hid]

section
variable (h : Rows chain rows)
include h

theorem Rows.retip (htip : Tip rows ps x) (hy : y.toStepSpec = x.toStepSpec)
    (hopen : y.status.isOpen = true) (hclean : y.status.isLive = true → y.unknownEffects = false) :
    Rows chain (put Step.key y rows) ∧ Tip (put Step.key y rows) ps y := by
  have hn := h.laid.nodup
  have hid : y.id = x.id := by rw [hy]
  have htip' : Tip (put Step.key y rows) ps y := ⟨openRows_retip hn htip hid hopen, by rw [hy]; exact htip.stack⟩
  obtain ⟨k, hk⟩ := h.front
  have hc : y.status ≠ .completed := by rintro hs; rw [hs] at hopen; cases hopen
  have hp : y.status ≠ .pending := by rintro hs; rw [hs] at hopen; cases hopen
  refine ⟨⟨?_, ⟨k, ?_⟩, Or.inr ⟨ps, y, htip'⟩, ?_⟩, htip'⟩
  · rw [specsOf_put hn htip.mem hy]
    exact h.laid
  · exact hk.put_row ((hk.row x htip.mem).moved htip.isOpen hid hc hp hk.le)
  · intro z hz hlive
    rcases mem_or_of_mem_put hz with rfl | hz
    · exact hclean ((Step.unfinished_iff.mp hlive).resolve_right hp)
    · exact h.clean z hz hlive

theorem Rows.close (htip : Tip rows ps x) (hy : y.toStepSpec = x.toStepSpec)
    (hopen : y.status.isOpen = false) (hp : y.status ≠ .pending) :
    Rows chain (put Step.key y rows) ∧ openRows (put Step.key y rows) = ps ∧
      ∀ qs q, ps = qs ++ [q] → Tip (put Step.key y rows) qs q := by
  have hn := h.laid.nodup
  have hid : y.id = x.id := by rw [hy]
  have hopens := openRows_close hn htip hid hopen
  have hpop : ∀ qs q, ps = qs ++ [q] → Tip (put Step.key y rows) qs q := by
    rintro qs q rfl
    exact ⟨hopens, htip.stack.pop⟩
  obtain ⟨k, hk⟩ := h.front
  refine ⟨⟨?_, hk.settle htip.mem htip.isOpen hid hp, ?_, ?_⟩, hopens, hpop⟩
  · rw [specsOf_put hn htip.mem hy]
    exact h.laid
  · rcases List.eq_nil_or_concat ps with hnil | ⟨qs, q, hqs⟩
    · exact Or.inl (hopens.trans hnil)
    · exact Or.inr ⟨qs, q, hpop qs q (by rw [hqs, List.concat_eq_append])⟩
  · intro z hz hlive
    rcases mem_or_of_mem_put hz with rfl | hz
    · rcases Step.unfinished_iff.mp hlive with hlive | hpend
      · rw [StepStatus.isOpen_of_isLive hlive] at hopen
        cases hopen
      · exact absurd hpend hp
    · exact h.clean z hz hlive

theorem Rows.push (hps : openRows rows = ps) (hne : ps ≠ [])
    (hstack : Stack ps c.toStepSpec) (hid : c.id = rows.length) (hord : c.ordinal = rows.length)
    (hpred : c.predecessorOrdinals = []) (hlive : c.status.isLive = true) (hclean : c.unknownEffects = false) :
    Rows chain (rows ++ [c]) ∧ Tip (rows ++ [c]) ps c := by
  have hopen := StepStatus.isOpen_of_isLive hlive
  have htip : Tip (rows ++ [c]) ps c := by
    refine ⟨?_, hstack⟩
    rw [openRows, List.filter_append]
    change openRows rows ++ _ = _
    rw [hps]
    simp [hopen]
  obtain ⟨k, hk⟩ := h.front
  have hp : c.status ≠ .pending := by rintro hs; rw [hs] at hopen; cases hopen
  obtain ⟨qs, q, hqs⟩ : ∃ qs q, ps = qs ++ [q] := by
    rcases List.eq_nil_or_concat ps with hnil | ⟨qs, q, hqs⟩
    · exact absurd hnil hne
    · exact ⟨qs, q, by rw [hqs, List.concat_eq_append]⟩
  have hw : Waits q c.toStepSpec := by
    rw [hqs] at hstack
    exact hstack.waits
  refine ⟨⟨h.laid.append hid hord hw.links_ne hpred hw.stepType_mem, ⟨k, hk.append ?_ hp⟩, Or.inr ⟨ps, c, htip⟩, ?_⟩,
    htip⟩
  · rw [hid]
    exact h.laid.size
  · intro z hz hlz
    rcases Lib.mem_concat.mp hz with hz | rfl
    · exact h.clean z hz hlz
    · exact hclean

theorem Rows.park (htip : Tip rows ps x) (hy : y.toStepSpec = x.toStepSpec)
    (hblocked : y.status = .blocked) (hstack : Stack (ps ++ [y]) c.toStepSpec) (hid : c.id = rows.length)
    (hord : c.ordinal = rows.length) (hpred : c.predecessorOrdinals = []) (hlive : c.status.isLive = true)
    (hclean : c.unknownEffects = false) :
    Rows chain (put Step.key y rows ++ [c]) ∧ Tip (put Step.key y rows ++ [c]) (ps ++ [y]) c := by
  obtain ⟨hr, htip'⟩ := h.retip htip hy (by rw [hblocked]; rfl) (fun hl => by rw [hblocked] at hl; cases hl)
  exact hr.push htip'.opens (by simp) hstack (by rw [length_put, hid]) (by rw [length_put, hord]) hpred hlive hclean

theorem Rows.wake {qs : List Step} {p p' : Step} (htip : Tip rows (qs ++ [p]) x)
    (hy : y.toStepSpec = x.toStepSpec) (hopen : y.status.isOpen = false) (hpend : y.status ≠ .pending)
    (hp : p'.toStepSpec = p.toStepSpec) (hopen' : p'.status.isOpen = true)
    (hclean : p'.status.isLive = true → p'.unknownEffects = false) :
    Rows chain (put Step.key p' (put Step.key y rows)) ∧ Tip (put Step.key p' (put Step.key y rows)) qs p' := by
  obtain ⟨hr, -, hpop⟩ := h.close htip hy hopen hpend
  exact hr.retip (hpop qs p rfl) hp hopen' hclean

theorem Rows.enter (hc : Chain chain) (hnil : openRows rows = []) (hx : x ∈ rows)
    (hlt : x.id < chain.length) (hk : Front chain.length x.id rows) (hy : y.toStepSpec = x.toStepSpec)
    (hlive : y.status.isLive = true) (hclean : y.unknownEffects = false) :
    Rows chain (put Step.key y rows) ∧ Tip (put Step.key y rows) [] y := by
  have hn := h.laid.nodup
  have hid : y.id = x.id := by rw [hy]
  have hopen := StepStatus.isOpen_of_isLive hlive
  have htip : Tip (put Step.key y rows) [] y := by
    refine ⟨filter_put_of_nil hn hnil hx hid.symm hopen, .root ?_⟩
    rw [hy]
    exact (h.laid.links_iff hc hx).mpr hlt
  have hyc : y.status ≠ .completed := by rintro hs; rw [hs] at hopen; cases hopen
  refine ⟨⟨?_, ⟨x.id, ?_⟩, Or.inr ⟨[], y, htip⟩, ?_⟩, htip⟩
  · rw [specsOf_put hn hx hy]
    exact h.laid
  · refine hk.put_row ⟨fun h' => ?_, fun _ _ => hyc, fun h' => ?_, fun h' => ?_⟩ <;> omega
  · intro z hz hlz
    rcases mem_or_of_mem_put hz with rfl | hz
    · exact hclean
    · exact h.clean z hz hlz

end

end Rows

end Vuzol.Workflow
