import Vuzol.Lib.Forest
import Vuzol.Theorems.Providers.Allowance

/-! The family of a task under an explicit money cap. The root is found by a walk up and the family by a walk down
    from it, of twenty steps at most, so that the family is the whole tree as long as no task has more than
    twenty ancestors. -/

namespace Vuzol.Providers

open Vuzol.Lib

/-- `parent_task_id` -/
def Registry.parent (g : Registry) (id : Nat) : Option Nat := (g.task? id).bind (·.parentTaskId)

def Registry.taskFamilyRoot (g : Registry) (taskId : Nat) : Nat := g.familyRoot 20 [taskId] taskId

structure Registry.Forest (g : Registry) : Prop where
  ids : (g.tasks.map (·.id)).Nodup
  ends : IsForest g.parent

/-- An event `budget.cost_uncertainty_accepted`: the task it is recorded for, and the receipts it names. -/
structure Acceptance where
  taskId : Nat
  usageIds : List Nat

def acceptedUnknownUsageIds (events : List Acceptance) (family : List Nat) : List Nat :=
  (events.filter fun e => family.contains e.taskId).flatMap (·.usageIds)

/-- The rows that `_enforce_explicit_money_cap` reads for a task. -/
def Registry.reading (g : Registry) (events : List Acceptance) (taskId : Nat) : Registry :=
  { g with acceptedUnknown := acceptedUnknownUsageIds events (g.explicitMoneyFamily taskId) }

def Ledger.explicitSpent (l : Ledger) (tree : List Nat) : Nat :=
  (totalOf ((l.familyUsage tree true).map (·.amounts))).costUnits + l.familyReserved tree +
    (totalOf ((l.familyUsage tree false).map (·.amounts))).costUnits

/-- The tree below a root has one cap: its tasks agree on the root and on the family, which is the tree, share
    nothing with the family of a task outside, and admit no estimate over the cap of the whole tree. -/
structure OneCap (g : Registry) (r : Nat) : Prop where
  roots : ∀ a ∈ treeOf g.parent r, ∀ b ∈ treeOf g.parent r, g.taskFamilyRoot a = g.taskFamilyRoot b
  families : ∀ a ∈ treeOf g.parent r, ∀ c, c ∈ g.explicitMoneyFamily a ↔ c ∈ treeOf g.parent r
  apart : ∀ a ∈ treeOf g.parent r, ∀ b ∉ treeOf g.parent r, ∀ c ∈ g.explicitMoneyFamily a, c ∉ g.explicitMoneyFamily b
  capped : ∀ (events : List Acceptance) (l : Ledger) (q : ReserveRequest) (a cap : Nat) (tree : List Nat),
    a ∈ treeOf g.parent r → q.taskId = some a → q.limits.explicitMoneyCapUnits = some cap →
    (∀ c, c ∈ tree ↔ c ∈ treeOf g.parent r) →
    enforceExplicitMoneyCap (g.reading events a) q (q.answers (g.reading events a) l) = .ok () →
    (∀ u ∈ l.familyUsage tree false, u.id ∈ acceptedUnknownUsageIds events tree) ∧
      l.explicitSpent tree + q.estimate.costUnits ≤ cap

section Walks
variable {g : Registry} {a b c r : Nat} {k n : Nat}

theorem familyRoot_above (hf : IsForest g.parent) {seen : List Nat} (hseen : ∀ x ∈ seen, ∃ k, above g.parent k x = some a)
    (h : RootAt g.parent k a r) : above g.parent (min n k) a = some (g.familyRoot n seen a) := by
  induction n generalizing a k seen with
  | zero => rw [Nat.zero_min]; rfl
  | succ n ih =>
    rw [Registry.familyRoot, show (g.task? a).bind (·.parentTaskId) = g.parent a from rfl]
    cases hp : g.parent a with
    | none =>
      obtain ⟨rfl, -⟩ := above_of_top hp h.path
      rw [Nat.min_zero]
      rfl
    | some p =>
      have hstep : above g.parent 1 a = some p := by simp [above, hp]
      have hnot : seen.contains p = false := by
        rw [List.contains_eq_mem, decide_eq_false_iff_not]
        intro hmem
        obtain ⟨j, hj⟩ := hseen p hmem
        have hcycle := hf.no_cycle (above_trans hstep hj)
        omega
      obtain ⟨k, rfl⟩ : ∃ k', k = 1 + k' := by
        cases k with
        | zero =>
          rw [Option.some.inj h.path] at hp
          rw [h.top] at hp
          cases hp
        | succ k => exact ⟨k, Nat.add_comm _ _⟩
      have htop : RootAt g.parent k p r := ⟨by simpa using above_sub (Nat.le_add_right 1 k) hstep h.path, h.top⟩
      have hbelow : ∀ x ∈ p :: seen, ∃ k, above g.parent k x = some p := by
        intro x hx
        rcases List.mem_cons.mp hx with rfl | hx
        · exact ⟨0, rfl⟩
        · obtain ⟨j, hj⟩ := hseen x hx
          exact ⟨j + 1, above_trans hj hstep⟩
      simp only [hnot, Bool.false_eq_true, if_false]
      have hup := above_trans hstep (ih hbelow htop)
      rwa [show min (n + 1) (1 + k) = 1 + min n k by omega]

theorem taskFamilyRoot_above (hf : IsForest g.parent) (h : RootAt g.parent k a r) :
    above g.parent (min 20 k) a = some (g.taskFamilyRoot a) :=
  familyRoot_above hf (fun x hx => ⟨0, by rw [List.mem_singleton.mp hx]; rfl⟩) h

theorem Registry.Forest.task? (hg : g.Forest) {t : BudgetTask} (ht : t ∈ g.tasks) : g.task? t.id = some t :=
  find?_key hg.ids ht

theorem mem_children (hg : g.Forest) {frontier : List Nat} :
    c ∈ (g.tasks.filter fun t => t.parentTaskId.any frontier.contains).map (·.id) ↔ ∃ p ∈ frontier, g.parent c = some p := by
  simp only [List.mem_map, List.mem_filter, Option.any_eq_true, List.contains_iff_mem]
  constructor
  · rintro ⟨t, ⟨ht, p, hp, hmem⟩, rfl⟩
    exact ⟨p, hmem, by rw [Registry.parent, hg.task? ht]; exact hp⟩
  · rintro ⟨p, hmem, hp⟩
    unfold Registry.parent at hp
    obtain ⟨t, ht, hp⟩ := Option.bind_eq_some_iff.mp hp
    have hid : t.id = c := by simpa using List.find?_some ht
    exact ⟨t, ⟨List.mem_of_find?_eq_some ht, p, hp, hmem⟩, hid⟩

/-- The walk down, level by level: the family has what it has gone through, and the frontier its last level. -/
theorem mem_familyBelow (hg : g.Forest) {family frontier : List Nat} (hfamily : ∀ c, c ∈ family ↔ ∃ j ≤ k, above g.parent j c = some r)
    (hfrontier : ∀ c, c ∈ frontier ↔ above g.parent k c = some r) :
    c ∈ g.familyBelow n family frontier ↔ ∃ j ≤ k + n, above g.parent j c = some r := by
  induction n generalizing k family frontier with
  | zero => exact hfamily c
  | succ n ih =>
    have hlevel : ∀ c, (∃ p ∈ frontier, g.parent c = some p) ↔ above g.parent (k + 1) c = some r := by
      intro c
      rw [Nat.add_comm, above_add]
      constructor
      · rintro ⟨p, hmem, hp⟩
        simpa [above, hp] using (hfrontier p).mp hmem
      · intro h
        obtain ⟨p, hp, hup⟩ := Option.bind_eq_some_iff.mp h
        exact ⟨p, (hfrontier p).mpr hup, by simpa [above] using hp⟩
    have hnext : ∀ c, c ∈ ((g.tasks.filter fun t => t.parentTaskId.any frontier.contains).map (·.id)).filter
        (fun c => !(family.contains c)) ↔ above g.parent (k + 1) c = some r := by
      intro c
      rw [List.mem_filter, mem_children hg, hlevel]
      refine ⟨fun h => h.1, fun h => ⟨h, ?_⟩⟩
      simp only [List.contains_eq_mem, Bool.not_eq_true', decide_eq_false_iff_not]
      intro hmem
      obtain ⟨j, hj, hup⟩ := (hfamily c).mp hmem
      have heq := hg.ends.above_unique h hup
      omega
    unfold Registry.familyBelow
    refine (ih (k := k + 1) (fun c => ?_) hnext).trans ?_
    · rw [List.mem_append, hfamily, hnext]
      constructor
      · rintro (⟨j, hj, hup⟩ | hup)
        · exact ⟨j, by omega, hup⟩
        · exact ⟨k + 1, Nat.le_refl _, hup⟩
      · rintro ⟨j, hj, hup⟩
        rcases Nat.lt_or_ge j (k + 1) with hlt | hge
        · exact Or.inl ⟨j, by omega, hup⟩
        · exact Or.inr (by rwa [show k + 1 = j by omega])
    · rw [show k + 1 + n = k + (n + 1) by omega]

theorem mem_explicitMoneyFamily (hg : g.Forest) :
    c ∈ g.explicitMoneyFamily a ↔ ∃ j ≤ 20, above g.parent j c = some (g.taskFamilyRoot a) := by
  have hfrontier : ∀ c, c ∈ [g.taskFamilyRoot a] ↔ above g.parent 0 c = some (g.taskFamilyRoot a) := by
    intro c
    rw [List.mem_singleton]
    exact ⟨fun heq => by rw [heq]; rfl, fun hup => Option.some.inj hup⟩
  have hfamily : ∀ c, c ∈ [g.taskFamilyRoot a] ↔ ∃ j ≤ 0, above g.parent j c = some (g.taskFamilyRoot a) := by
    intro c
    rw [hfrontier c]
    refine ⟨fun hup => ⟨0, Nat.le_refl 0, hup⟩, fun ⟨j, hj, hup⟩ => ?_⟩
    rwa [Nat.le_zero.mp hj] at hup
  have h := mem_familyBelow (c := c) (n := 20) hg hfamily hfrontier
  rw [Nat.zero_add] at h
  exact h

theorem explicitMoneyFamily_subset (hg : g.Forest) (htop : g.parent r = none) (ha : a ∈ treeOf g.parent r)
    (hc : c ∈ g.explicitMoneyFamily a) : c ∈ treeOf g.parent r := by
  obtain ⟨k, s, hs⟩ := hg.ends a
  obtain ⟨j, -, hup⟩ := (mem_explicitMoneyFamily hg).mp hc
  exact mem_treeOf_of_above hup (mem_treeOf_above htop (taskFamilyRoot_above hg.ends hs) ha)

end Walks

section Cap
variable {g : Registry} {r : Nat}
variable {l : Ledger} {family tree : List Nat}

section
variable (h : ∀ c, c ∈ family ↔ c ∈ tree)
include h

theorem familyUsage_congr (known : Bool) : l.familyUsage family known = l.familyUsage tree known := by
  unfold Ledger.familyUsage
  congr 1
  funext u
  have hcontains : family.contains = tree.contains := by
    funext c
    simp [h c]
  rw [hcontains]

theorem familyReserved_congr : l.familyReserved family = l.familyReserved tree := by
  have hcontains : family.contains = tree.contains := by
    funext c
    simp [h c]
  unfold Ledger.familyReserved
  rw [hcontains]

theorem acceptedUnknownUsageIds_congr {events : List Acceptance} :
    acceptedUnknownUsageIds events family = acceptedUnknownUsageIds events tree := by
  unfold acceptedUnknownUsageIds
  congr 2
  funext e
  simp [h e.taskId]

end

theorem answers_explicit {q : ReserveRequest} {cap : Nat} (htask : q.taskId.isSome = true)
    (hcap : q.limits.explicitMoneyCapUnits = some cap) :
    (q.answers g l).unknownUsage = l.familyUsage (q.family g) false ∧
      (q.answers g l).knownUsage = (totalOf ((l.familyUsage (q.family g) true).map (·.amounts))).costUnits ∧
      (q.answers g l).familyReserved = l.familyReserved (q.family g) := by
  have hmem : ∀ x ∈ q.explicitQueries, x ∈ q.queries g := by
    intro x hx
    unfold ReserveRequest.queries
    split <;> exact List.mem_append_right _ hx
  have hall : q.explicitQueries = [.unknownUsage, .knownUsage, .familyReserved] := by
    simp [ReserveRequest.explicitQueries, htask, hcap]
  refine ⟨?_, ?_, ?_⟩
  · exact foldl_ask (·.unknownUsage) .unknownUsage (fun a y => by cases y <;> rfl) _ _
      (Or.inl (hmem _ (by simp [hall])))
  · exact foldl_ask (·.knownUsage) .knownUsage (fun a y => by cases y <;> rfl) _ _
      (Or.inl (hmem _ (by simp [hall])))
  · exact foldl_ask (·.familyReserved) .familyReserved (fun a y => by cases y <;> rfl) _ _
      (Or.inl (hmem _ (by simp [hall])))

theorem enforceExplicitMoneyCap_ok {q : ReserveRequest} {a cap : Nat} (htask : q.taskId = some a)
    (hcap : q.limits.explicitMoneyCapUnits = some cap) (h : enforceExplicitMoneyCap g q (q.answers g l) = .ok ()) :
    (∀ u ∈ l.familyUsage (g.explicitMoneyFamily a) false, u.id ∈ g.acceptedUnknown) ∧
      l.explicitSpent (g.explicitMoneyFamily a) + q.estimate.costUnits ≤ cap := by
  obtain ⟨hunknown, hknown, hreserved⟩ := answers_explicit (g := g) (l := l) (q := q) (by rw [htask]; rfl) hcap
  have hfamily : q.family g = g.explicitMoneyFamily a := by simp [ReserveRequest.family, htask]
  rw [hfamily] at hunknown hknown hreserved
  simp only [enforceExplicitMoneyCap, htask, hcap, hunknown, hknown, hreserved] at h
  obtain ⟨_, haccepted, h⟩ := bind_eq_ok.mp h
  rw [require_eq_ok, List.all_eq_true] at haccepted
  have hsum := of_decide_eq_true (require_eq_ok.mp h)
  exact ⟨fun u hu => by simpa using haccepted u hu, hsum⟩

/-- The tree below a root has one cap exactly when its tasks have at most twenty ancestors. -/
theorem one_money_cap_per_tree (hg : g.Forest) (htop : g.parent r = none) :
    OneCap g r ↔ ∀ a n, above g.parent n a = some r → n ≤ 20 := by
  constructor
  · intro h a n hn
    have hup := taskFamilyRoot_above hg.ends ⟨hn, htop⟩
    have htop' : RootAt g.parent 0 r r := ⟨rfl, htop⟩
    have hroot := taskFamilyRoot_above hg.ends htop'
    rw [Nat.min_zero] at hroot
    have heq := h.roots a ⟨n, hn⟩ r mem_treeOf_self
    rw [heq, ← Option.some.inj hroot] at hup
    have hlen := hg.ends.above_unique hup hn
    omega
  · intro h
    have hroot : ∀ a ∈ treeOf g.parent r, g.taskFamilyRoot a = r := by
      rintro a ⟨n, hn⟩
      have hup := taskFamilyRoot_above hg.ends ⟨hn, htop⟩
      rw [Nat.min_eq_right (h a n hn), hn] at hup
      exact (Option.some.inj hup).symm
    have hfamily : ∀ a ∈ treeOf g.parent r, ∀ c, c ∈ g.explicitMoneyFamily a ↔ c ∈ treeOf g.parent r := by
      intro a ha c
      refine ⟨explicitMoneyFamily_subset hg htop ha, fun ⟨n, hn⟩ => ?_⟩
      rw [mem_explicitMoneyFamily hg, hroot a ha]
      exact ⟨n, h c n hn, hn⟩
    refine ⟨fun a ha b hb => (hroot a ha).trans (hroot b hb).symm, hfamily, fun a ha b hb c hc hcb => ?_, ?_⟩
    · -- The root of the other task is the root of the one they would share.
      obtain ⟨m, s, hs⟩ := hg.ends b
      have hcs := explicitMoneyFamily_subset hg hs.top ⟨m, hs.path⟩ hcb
      obtain ⟨i, hi⟩ := hcs
      obtain ⟨j, hj⟩ := (hfamily a ha c).mp hc
      obtain ⟨-, rfl⟩ := (RootAt.mk hi hs.top).unique (RootAt.mk hj htop)
      exact hb ⟨m, hs.path⟩
    · intro events l q a cap tree ha htask hcap htree hok
      have hsame : ∀ c, c ∈ g.explicitMoneyFamily a ↔ c ∈ tree := fun c => (hfamily a ha c).trans (htree c).symm
      obtain ⟨haccepted, hsum⟩ := enforceExplicitMoneyCap_ok htask hcap hok
      change ∀ u ∈ l.familyUsage (g.explicitMoneyFamily a) false,
        u.id ∈ acceptedUnknownUsageIds events (g.explicitMoneyFamily a) at haccepted
      change l.explicitSpent (g.explicitMoneyFamily a) + _ ≤ _ at hsum
      unfold Ledger.explicitSpent at hsum ⊢
      rw [familyUsage_congr hsame, acceptedUnknownUsageIds_congr hsame] at haccepted
      rw [familyUsage_congr hsame, familyUsage_congr hsame, familyReserved_congr hsame] at hsum
      exact ⟨haccepted, hsum⟩

end Cap

section Check

def taskChain (n : Nat) : Registry where
  tasks := (List.range n).map fun id => { id := id, parentTaskId := if id = 0 then none else some (id - 1) }

theorem taskChain_parent {n a p : Nat} (h : (taskChain n).parent a = some p) : p < a := by
  unfold Registry.parent Registry.task? at h
  obtain ⟨t, ht, hp⟩ := Option.bind_eq_some_iff.mp h
  obtain ⟨id, -, rfl⟩ := List.mem_map.mp (List.mem_of_find?_eq_some ht)
  have hid : id = a := by simpa using List.find?_some ht
  by_cases h0 : id = 0
  · simp [h0] at hp
  · simp only [h0, if_false, Option.some.injEq] at hp
    omega

theorem taskChain_forest (n : Nat) : (taskChain n).Forest where
  ids := by
    simp only [taskChain, List.map_map, Function.comp_def, List.map_id']
    exact List.nodup_range
  ends := .of_lt fun _ _ => taskChain_parent

theorem one_money_cap_per_tree_pair : OneCap (taskChain 2) 0 := by
  refine (one_money_cap_per_tree (taskChain_forest 2) (by decide)).mpr fun a n hn => ?_
  match n with
  | 0 => omega
  | 1 => omega
  | n + 2 =>
    -- The chain has no third task.
    obtain ⟨p, hp, hn⟩ := Option.bind_eq_some_iff.mp hn
    obtain ⟨p', hp', -⟩ := Option.bind_eq_some_iff.mp hn
    have h1 := taskChain_parent hp
    have h2 := taskChain_parent hp'
    unfold Registry.parent Registry.task? at hp
    obtain ⟨t, ht, -⟩ := Option.bind_eq_some_iff.mp hp
    obtain ⟨id, hid, rfl⟩ := List.mem_map.mp (List.mem_of_find?_eq_some ht)
    have hlt := List.mem_range.mp hid
    have hida : id = a := by simpa using List.find?_some ht
    omega

def capUsedUp : Ledger where
  reservations := [{ id := 0, taskId := some 0, stepId := some 0, reserved := { costUnits := 10 } }]

/-- A call of the last of twenty-two tasks, under the same cap. -/
def deepCall : ReserveRequest where
  entry := .workflow (some 1) none 1 false
  taskId := some 21
  estimate := { costUnits := 10 }
  limits := { explicitMoneyCapUnits := some 10 }

/-- Twenty-two tasks in a chain: the last one takes the second for its root, and is admitted beside a reservation
    of the first that uses up the cap. -/
theorem deep_task_has_fresh_ceiling :
    (taskChain 22).taskFamilyRoot 21 = 1 ∧ (taskChain 22).taskFamilyRoot 0 = 0 ∧
      21 ∉ (taskChain 22).explicitMoneyFamily 0 ∧ 0 ∉ (taskChain 22).explicitMoneyFamily 21 ∧
      capUsedUp.explicitSpent (List.range 22) + deepCall.estimate.costUnits = 20 ∧
      enforceExplicitMoneyCap ((taskChain 22).reading [] 21) deepCall
        (deepCall.answers ((taskChain 22).reading [] 21) capUsedUp) = .ok () := by
  have h : ends (fun _ => true) (enforceExplicitMoneyCap ((taskChain 22).reading [] 21) deepCall
      (deepCall.answers ((taskChain 22).reading [] 21) capUsedUp)) = true := by decide +kernel
  obtain ⟨_, hok, -⟩ := exists_of_ends h
  exact ⟨by decide +kernel, by decide +kernel, by decide +kernel, by decide +kernel, by decide +kernel, hok⟩

end Check

end Vuzol.Providers
