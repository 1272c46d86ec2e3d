import Vuzol.Plans.Draft

/-! A plan is refused for repeated identities, unknown dependencies and cycles only; otherwise its items are put in an
    order in which each comes after those it needs, and what is in order stays where it is. -/

namespace Vuzol.Plans
open Lib Relation

/-- Some `local_id` needs, directly or through others, itself. -/
def Needs (items : List PlanItemDraft) : Text → Text → Prop := NeedsName (·.localId) (·.dependencies) items

def UnknownDependency (items : List PlanItemDraft) : Prop :=
  ∃ x ∈ items, ∃ d ∈ x.dependencies, ∀ y ∈ items, y.localId ≠ some d

def HasCycle (items : List PlanItemDraft) : Prop := ∃ a, TransGen (Needs items) a a

def Refused (items : List PlanItemDraft) : Prop :=
  ¬(items.filterMap (·.localId)).Nodup ∨ ¬(items.filterMap (·.itemId)).Nodup ∨ UnknownDependency items ∨ HasCycle items

def InOrder (items : List PlanItemDraft) : Prop :=
  ∀ before x after, items = before ++ x :: after → ∀ d ∈ x.dependencies, ∃ y ∈ before, y.localId = some d

variable {title : Text} {items ordered : List PlanItemDraft} {delta : EnvironmentDeltaDraft} {a b : Text}

theorem inOrder_iff : InOrder items ↔ precedes (·.localId) (·.dependencies) [] items = true := by
  simp only [InOrder, precedes_iff, List.not_mem_nil, false_or]

theorem mem_known : a ∈ known items ↔ ∃ y ∈ items, y.localId = some a := List.mem_filterMap

theorem needs_of_mem_edges (h : b ∈ edges items a) : Needs items a b := by
  unfold edges at h
  cases hfind : items.find? (·.localId = some a) with
  | none => rw [hfind] at h; cases h
  | some x =>
    rw [hfind] at h
    exact ⟨x, List.mem_of_find?_eq_some hfind, by simpa using List.find?_some hfind, h⟩

theorem leads_iff (hlocal : (known items).Nodup) : Leads (edges items) a b ↔ Needs items a b := by
  refine ⟨needs_of_mem_edges, fun ⟨x, hx, hname, hb⟩ => ?_⟩
  have hfind : items.find? (·.localId = some a) = some x := by
    cases hfind : items.find? (·.localId = some a) with
    | none => exact absurd hname (by simpa using List.find?_eq_none.mp hfind x hx)
    | some y =>
      have hy : y.localId = some a := by simpa using List.find?_some hfind
      rw [eq_of_name_eq hlocal (List.mem_of_find?_eq_some hfind) hx hy hname]
  show b ∈ edges items a
  rw [edges, hfind]
  exact hb

theorem transGen_leads (hlocal : (known items).Nodup) : TransGen (Leads (edges items)) a b ↔ TransGen (Needs items) a b := by
  have hrel : Leads (edges items) = Needs items := by
    funext c d
    exact propext (leads_iff hlocal)
  rw [hrel]

theorem mem_known_of_needs (h : Needs items a b) : a ∈ known items := by
  obtain ⟨x, hx, hname, -⟩ := h
  exact mem_known.mpr ⟨x, hx, hname⟩

theorem validatePlanDependencies_cases (hlocal : (known items).Nodup) :
    (∃ e, validatePlanDependencies items = .error (.domain e) ∧ (UnknownDependency items ∨ HasCycle items)) ∨
      (validatePlanDependencies items = .ok () ∧ ¬UnknownDependency items ∧ ¬HasCycle items) := by
  unfold validatePlanDependencies
  cases hfind : (items.flatMap (·.dependencies)).find? (· ∉ known items) with
  | some d =>
    left
    obtain ⟨x, hx, hd⟩ := List.mem_flatMap.mp (List.mem_of_find?_eq_some hfind)
    have hnot : d ∉ known items := by simpa using List.find?_some hfind
    exact ⟨_, rfl, Or.inl ⟨x, hx, d, hd, fun y hy hname => hnot (mem_known.mpr ⟨y, hy, hname⟩)⟩⟩
  | none =>
    have hall : ∀ x ∈ items, ∀ d ∈ x.dependencies, d ∈ known items := by
      intro x hx d hd
      simpa using List.find?_eq_none.mp hfind d (List.mem_flatMap.mpr ⟨x, hx, hd⟩)
    have hunknown : ¬UnknownDependency items := by
      rintro ⟨x, hx, d, hd, hnone⟩
      obtain ⟨y, hy, hname⟩ := mem_known.mp (hall x hx d hd)
      exact hnone y hy hname
    have hclosed : ∀ v ∈ known items, ∀ b ∈ edges items v, b ∈ known items := by
      intro v _ b hb
      obtain ⟨x, hx, -, hd⟩ := needs_of_mem_edges hb
      exact hall x hx b hd
    have hsearch := search_meets hclosed
    cases hrun : search (edges items) ((known items).length + 1) (known items) with
    | error e =>
      left
      obtain ⟨c, rfl, hcycle⟩ := hsearch.of_error hrun
      exact ⟨_, rfl, Or.inr ⟨c, (transGen_leads hlocal).mp hcycle⟩⟩
    | ok visited =>
      right
      refine ⟨rfl, hunknown, fun ⟨c, hcycle⟩ => ?_⟩
      obtain ⟨d, hd, -⟩ := TransGen.head'_iff.mp hcycle
      exact hsearch.of_ok hrun c (mem_known_of_needs hd) ((transGen_leads hlocal).mpr hcycle)

theorem exists_stableOrder (hunknown : ¬UnknownDependency items) (hcycle : ¬HasCycle items) :
    ∃ out, stableOrder (·.localId) (·.dependencies) items = some out := by
  have hknown : ∀ x ∈ items, ∀ d ∈ x.dependencies, d ∈ [] ∨ ∃ y ∈ items, y.localId = some d := by
    intro x hx d hd
    by_contra hnot
    exact hunknown ⟨x, hx, d, hd, fun y hy hname => hnot (Or.inr ⟨y, hy, hname⟩)⟩
  exact exists_orderFrom (fun c h => hcycle ⟨c, h⟩) (fun _ hx => hx) hknown (Nat.le_refl _)

section
variable (h : stableOrder (·.localId) (·.dependencies) items = some ordered)
include h

theorem stableOrder_perm : ordered.Perm items :=
  (orderFrom_sound h).1

theorem stableOrder_inOrder : InOrder ordered :=
  inOrder_iff.mpr (orderFrom_sound h).2

theorem stableOrder_take {k : Nat} (hk : InOrder (items.take k)) : ordered.take k = items.take k := by
  unfold stableOrder at h
  rw [← List.take_append_drop k items] at h
  obtain ⟨rest, hrest⟩ := orderFrom_append h (inOrder_iff.mp hk)
  have hlen : ordered.length = items.length := by
    rw [List.take_append_drop] at h
    exact (orderFrom_sound h).1.length_eq
  rcases Nat.le_total k items.length with hle | hge
  · rw [hrest, List.take_append_of_le_length (by rw [List.length_take]; omega), List.take_of_length_le]
    rw [List.length_take]
    omega
  · rw [List.take_of_length_le hge] at hrest ⊢
    have hnil : rest = [] := by
      rw [hrest, List.length_append] at hlen
      exact List.length_eq_zero_iff.mp (by omega)
    rw [hrest, hnil, List.append_nil, List.take_of_length_le hge]

end

theorem stableOrder_of_inOrder (h : InOrder items) : stableOrder (·.localId) (·.dependencies) items = some items :=
  orderFrom_of_precedes (Nat.le_refl _) (inOrder_iff.mp h)

theorem idxOf_lt_of_needs (hlocal : (known items).Nodup) (hin : InOrder items) (h : Needs items a b) :
    (known items).idxOf b < (known items).idxOf a := by
  obtain ⟨x, hx, hname, hb⟩ := h
  obtain ⟨before, after, rfl⟩ := List.append_of_mem hx
  obtain ⟨y, hy, hyname⟩ := hin before x after rfl b hb
  have hknown : known (before ++ x :: after) = known before ++ a :: known after := by
    have hname' : x.localId = some a := hname
    simp [known, hname']
  rw [hknown] at hlocal ⊢
  have hmem : b ∈ known before := mem_known.mpr ⟨y, hy, hyname⟩
  have hnot : a ∉ known before := fun ha => (List.nodup_append.mp hlocal).2.2 a ha a List.mem_cons_self rfl
  rw [List.idxOf_append_of_mem hmem, List.idxOf_append_of_notMem hnot, List.idxOf_cons_self]
  exact Nat.lt_add_right 0 (List.idxOf_lt_length_of_mem hmem)

theorem not_refused_of_inOrder (hlocal : (known items).Nodup) (hids : (items.filterMap (·.itemId)).Nodup)
    (hin : InOrder items) : ¬Refused items := by
  rintro (h | h | ⟨x, hx, d, hd, hnone⟩ | ⟨a, hcycle⟩)
  · exact h hlocal
  · exact h hids
  · obtain ⟨before, after, rfl⟩ := List.append_of_mem hx
    obtain ⟨y, hy, hname⟩ := hin before x after rfl d hd
    exact hnone y (List.mem_append_left _ hy) hname
  · have hlt : ∀ {c}, TransGen (Needs items) a c → (known items).idxOf c < (known items).idxOf a := by
      intro c hc
      induction hc with
      | single h => exact idxOf_lt_of_needs hlocal hin h
      | tail _ h ih => exact (idxOf_lt_of_needs hlocal hin h).trans ih
    exact Nat.lt_irrefl _ (hlt hcycle)

theorem construct_of_error {e : PlanError} (h : postInit title items = .error e) :
    PlanDraft.construct title items delta = .error e := by
  unfold PlanDraft.construct
  split
  · rename_i e' h'
    rw [h] at h'
    cases h'
    rfl
  · rename_i ordered h'
    rw [h] at h'
    cases h'

theorem construct_of_ok (delta : EnvironmentDeltaDraft) (h : postInit title items = .ok ordered) :
    ∃ p, PlanDraft.construct title items delta = .ok p ∧ p.title = title ∧ p.items = ordered ∧ p.environmentDelta = delta := by
  unfold PlanDraft.construct
  split
  · rename_i e h'
    rw [h] at h'
    cases h'
  · rename_i ordered' h'
    rw [h] at h'
    cases h'
    exact ⟨_, rfl, rfl, rfl, rfl⟩

theorem postInit_cases (htitle : titleFits title) (hne : items ≠ []) :
    (∃ e, postInit title items = .error (.domain e) ∧ Refused items) ∨
      (¬Refused items ∧ ∃ ordered, stableOrder (·.localId) (·.dependencies) items = some ordered ∧
        postInit title items = .ok ordered) := by
  unfold postInit
  rw [raiseIf_of_not (not_not.mpr htitle), raiseIf_of_not hne, ok_bind, ok_bind]
  by_cases hlocal : (known items).Nodup
  case neg => exact Or.inl ⟨_, by rw [raiseIf, if_pos hlocal, error_bind], Or.inl hlocal⟩
  rw [raiseIf_of_not (not_not.mpr hlocal), ok_bind]
  by_cases hids : (items.filterMap (·.itemId)).Nodup
  case neg => exact Or.inl ⟨_, by rw [raiseIf, if_pos hids, error_bind], Or.inr (Or.inl hids)⟩
  rw [raiseIf_of_not (not_not.mpr hids), ok_bind]
  rcases validatePlanDependencies_cases hlocal with ⟨e, hdeps, hwhy⟩ | ⟨hdeps, hunknown, hcycle⟩
  · exact Or.inl ⟨e, by rw [hdeps, error_bind], Or.inr (Or.inr hwhy)⟩
  · right
    obtain ⟨ordered, horder⟩ := exists_stableOrder hunknown hcycle
    refine ⟨?_, ordered, horder, by rw [hdeps, ok_bind, horder]⟩
    rintro (h | h | h | h)
    · exact h hlocal
    · exact h hids
    · exact hunknown h
    · exact hcycle h

theorem Refused.perm (hperm : ordered.Perm items) (h : Refused ordered) : Refused items := by
  have hmem : ∀ x ∈ ordered, x ∈ items := fun x hx => hperm.mem_iff.mp hx
  rcases h with h | h | ⟨x, hx, d, hd, hnone⟩ | ⟨a, hcycle⟩
  · exact Or.inl fun hn => h ((hperm.filterMap _).nodup_iff.mpr hn)
  · exact Or.inr (Or.inl fun hn => h ((hperm.filterMap _).nodup_iff.mpr hn))
  · exact Or.inr (Or.inr (Or.inl ⟨x, hmem x hx, d, hd, fun y hy => hnone y (hperm.mem_iff.mpr hy)⟩))
  · have hneeds : ∀ c d, Needs ordered c d → Needs items c d := fun c d ⟨x, hx, hname, hd⟩ => ⟨x, hmem x hx, hname, hd⟩
    exact Or.inr (Or.inr (Or.inr ⟨a, TransGen.mono hneeds a a hcycle⟩))

/-- The constructor of a plan is a stable topological sort. -/
theorem construct_stable_sort (delta : EnvironmentDeltaDraft) (htitle : titleFits title) (hne : items ≠ []) :
    ((∃ e, PlanDraft.construct title items delta = .error (.domain e)) ↔ Refused items) ∧
      (¬Refused items → ∃ p, PlanDraft.construct title items delta = .ok p ∧ p.title = title ∧ p.environmentDelta = delta ∧
        p.items.Perm items ∧ InOrder p.items ∧ (∀ k, InOrder (items.take k) → p.items.take k = items.take k) ∧
        (InOrder items → p.items = items) ∧ PlanDraft.construct title p.items delta = .ok p) := by
  rcases postInit_cases htitle hne with ⟨e, hpost, href⟩ | ⟨href, ordered, horder, hpost⟩
  · have herr : PlanDraft.construct title items delta = .error (.domain e) := construct_of_error hpost
    exact ⟨⟨fun _ => href, fun _ => ⟨e, herr⟩⟩, fun hnot => absurd href hnot⟩
  · obtain ⟨p, hp, htitle', hitems, hdelta⟩ := construct_of_ok delta hpost
    refine ⟨⟨fun ⟨e, he⟩ => ?_, fun h => absurd h href⟩, fun _ => ⟨p, hp, htitle', hdelta, ?_, ?_, ?_, ?_, ?_⟩⟩
    · rw [hp] at he
      cases he
    · exact hitems ▸ stableOrder_perm horder
    · exact hitems ▸ stableOrder_inOrder horder
    · exact fun k hk => hitems ▸ stableOrder_take horder hk
    · intro hin
      rw [stableOrder_of_inOrder hin] at horder
      rw [hitems, Option.some.inj horder]
    · -- The order of the kept items is their own.
      have hperm := stableOrder_perm horder
      have hne' : p.items ≠ [] := p.nonempty
      rcases postInit_cases htitle hne' with ⟨e, -, h⟩ | ⟨-, again, hagain, hpost'⟩
      · exact absurd (h.perm (hitems ▸ hperm)) href
      · rw [stableOrder_of_inOrder (inOrder_iff.mpr p.ordered)] at hagain
        cases hagain
        obtain ⟨q, hq, hqt, hqi, hqd⟩ := construct_of_ok delta hpost'
        have heq : q = p := by
          cases q
          cases p
          simp_all
        rw [hq, heq]

def sampleFields (localId : Text) (dependencies : List Text) : PlanItemFields where
  summary := ['s']
  goal := ['g']
  expectedOutcome := ['o']
  completionCriteria := [['c']]
  allowedScope := ['a']
  localId := some localId
  dependencies := dependencies

def sampleBuild : PlanItemDraft := ⟨sampleFields ['b'] [], by decide +kernel⟩

def sampleTest : PlanItemDraft := ⟨sampleFields ['t'] [['b']], by decide +kernel⟩

/-- A forward reference is sorted. -/
theorem construct_stable_sort_forward : ∃ p, PlanDraft.construct ['p'] [sampleTest, sampleBuild] = .ok p ∧
    p.items = [sampleBuild, sampleTest] ∧ PlanDraft.construct ['p'] p.items = .ok p := by
  have hpost : postInit ['p'] [sampleTest, sampleBuild] = .ok [sampleBuild, sampleTest] := by decide +kernel
  obtain ⟨q, hq, -, hitems, -⟩ := construct_of_ok .none hpost
  have hsort := construct_stable_sort .none (by decide +kernel : titleFits ['p']) (by decide : [sampleTest, sampleBuild] ≠ [])
  have hfine : ¬Refused [sampleTest, sampleBuild] := fun h => by
    obtain ⟨e, he⟩ := hsort.1.mpr h
    rw [hq] at he
    cases he
  obtain ⟨p, hp, -, -, -, -, -, -, hagain⟩ := hsort.2 hfine
  cases hq.symm.trans hp
  exact ⟨q, hq, hitems, hagain⟩

end Vuzol.Plans
