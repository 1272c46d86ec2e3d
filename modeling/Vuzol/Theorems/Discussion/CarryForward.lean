import Vuzol.Theorems.Discussion.Sequencing

/-! What a new revision takes over from the old one. A managed package is revised behind its cursor only, so
    that the items that were passed keep their place; a start then finds the completed ones among them. -/

namespace Vuzol.Discussion

open Vuzol.Lib

variable {digest : PlanBody → Digest} {s t : State}
variable {ordinal : Nat} {r revision : PlanRevision} {item : PlanRevisionItem}

/-! ### Resolved identities -/

theorem resolveItemIdentity_again {drafts drafts' more more' : List WorkItemDraft} {item : PlanItemDraft} {id id' : Nat}
    (h : resolveItemIdentity drafts item = .ok (id, drafts')) (hold : id < drafts.length) (hpre : drafts <+: more)
    (h' : resolveItemIdentity more item = .ok (id', more')) : id' = id := by
  unfold resolveItemIdentity at h h'
  cases hi : item.itemId with
  | some k =>
    simp only [hi] at h h'
    cases hrow : drafts.find? (·.id == k) with
    | none => simp [hrow] at h
    | some row =>
      have hmore := hpre.find?_eq_some hrow
      simp only [hrow, guard_eq_ok, Except.ok.injEq, Prod.mk.injEq] at h
      simp only [hmore, guard_eq_ok, Except.ok.injEq, Prod.mk.injEq] at h'
      exact h'.2.1.symm.trans h.2.1
  | none =>
    simp only [hi] at h h'
    cases hrow : item.localId.bind fun l => drafts.find? (·.localId == some l) with
    | none =>
      simp only [hrow, Except.ok.injEq, Prod.mk.injEq] at h
      exact absurd h.1 hold.ne'
    | some row =>
      obtain ⟨l, hl, hfind⟩ := Option.bind_eq_some_iff.mp hrow
      have hmore : (item.localId.bind fun l => more.find? (·.localId == some l)) = some row := by
        rw [hl]
        exact hpre.find?_eq_some hfind
      simp only [hrow, Except.ok.injEq, Prod.mk.injEq] at h
      simp only [hmore, Except.ok.injEq, Prod.mk.injEq] at h'
      exact h'.1.symm.trans h.1

theorem resolveItemIdentities_again {drafts drafts' more more' : List WorkItemDraft} {items : List PlanItemDraft}
    {ids ids' : List Nat} (hids : drafts.map (·.id) = List.range drafts.length)
    (hmore : more.map (·.id) = List.range more.length) (h : resolveItemIdentities drafts items = .ok (ids, drafts'))
    (hpre : drafts' <+: more) (h' : resolveItemIdentities more items = .ok (ids', more')) {n k id : Nat} (hn : n ≤ drafts.length)
    (hk : ids[k]? = some id) (hold : id < n) : ids'[k]? = some id := by
  induction items generalizing drafts more ids ids' k with
  | nil => cases h; simp at hk
  | cons item items ih =>
    simp only [resolveItemIdentities, bind_eq_ok, Except.ok.injEq, Prod.mk.injEq] at h h'
    obtain ⟨⟨i, mid⟩, hi, ⟨rest, fin⟩, hrest, rfl, rfl⟩ := h
    obtain ⟨⟨i', mid'⟩, hi', ⟨rest', fin'⟩, hrest', rfl, rfl⟩ := h'
    obtain ⟨hmid, hids, -⟩ := resolveItemIdentity_ok hids hi
    have hfin := (resolveItemIdentities_ok hids hrest).1
    cases k with
    | zero =>
      simp only [List.getElem?_cons_zero, Option.some.injEq] at hk ⊢
      subst hk
      exact resolveItemIdentity_again hi (hold.trans_le hn) ((hmid.trans hfin).trans hpre) hi'
    | succ k =>
      simp only [List.getElem?_cons_succ] at hk ⊢
      obtain ⟨hpre', hmore, -⟩ := resolveItemIdentity_ok hmore hi'
      exact ih hids hmore hrest (hpre.trans hpre') hrest' (hn.trans hmid.length_le) hk

theorem mem_revisionItems {plan : PlanDraft} {ids ids' : List Nat} (hkeeps : keepsItem plan ids item = true)
    (hpos : 1 ≤ item.ordinal) (hagain : ∀ k : Nat, ids[k]? = some item.itemId → ids'[k]? = some item.itemId) :
    item ∈ revisionItems plan ids' := by
  unfold keepsItem at hkeeps
  split at hkeeps
  · cases hkeeps
  · rename_i draft id hat
    simp only [Bool.and_eq_true, beq_iff_eq, decide_eq_true_eq] at hkeeps
    obtain ⟨rfl, hcontract⟩ := hkeeps
    obtain ⟨hdraft, hid⟩ := List.getElem?_zip_eq_some.mp hat
    have hid' := hagain _ hid
    have hk : item.ordinal - 1 < plan.items.length := (List.getElem?_eq_some_iff.mp hdraft).1
    have hrow : (numbered plan.items ids')[item.ordinal - 1]? = some (item.ordinal, draft, item.itemId) := by
      unfold numbered
      rw [List.getElem?_zip_eq_some]
      refine ⟨?_, List.getElem?_zip_eq_some.mpr ⟨hdraft, hid'⟩⟩
      rw [List.getElem?_range' hk]
      congr 1
      omega
    refine List.mem_map.mpr ⟨_, List.mem_of_getElem? hrow, ?_⟩
    simp only [hcontract]

theorem history_kept (hs : Rows digest s) {previous : PlanRevision} {plan : PlanDraft} {ids ids₀ : List Nat}
    {resolved drafts : List WorkItemDraft} (hprev : previous ∈ s.revisions)
    (hnew : NewRevision digest { s with drafts := resolved } plan ids drafts revision)
    (hres : resolveItemIdentities s.drafts plan.items = .ok (ids₀, resolved)) (hi : item ∈ previous.items)
    (hkeeps : keepsItem plan ids₀ item = true) : item ∈ revision.items := by
  rw [hnew.items]
  refine mem_revisionItems hkeeps (hs.ordinal_range hprev hi).1 fun k hk => ?_
  exact resolveItemIdentities_again hs.draftIds (resolveItemIdentities_ok hs.draftIds hres).2.1 hres List.prefix_rfl
    hnew.resolved le_rfl hk (hs.known previous hprev item hi)

/-! ### What a start finds -/

def Done (s : State) (item : PlanRevisionItem) : Prop := (∃ l ∈ s.links, CompletedBy s item l) ∨ Skipped s item.itemId

theorem Rows.items_sorted (h : Rows digest s) (hr : r ∈ s.revisions) : r.items.Pairwise fun i j => i.ordinal < j.ordinal := by
  rw [← List.pairwise_map (f := PlanRevisionItem.ordinal) (R := (· < ·)), h.ordinals r hr]
  exact List.pairwise_lt_range'

/-- Everything before the first unfinished ordinal is completed by another revision; the item there is not. -/
theorem firstUnfinishedOrdinal_spec (h : Rows digest s) {r : PlanRevision} (hr : r ∈ s.revisions) :
    (∀ item ∈ r.items, item.ordinal < firstUnfinishedOrdinal s r → completedElsewhere s r item = true) ∧
      (∀ item ∈ r.items, item.ordinal = firstUnfinishedOrdinal s r → completedElsewhere s r item = false) ∧
      firstUnfinishedOrdinal s r ≤ r.items.length + 1 := by
  unfold firstUnfinishedOrdinal
  cases hfind : r.items.find? fun item => !completedElsewhere s r item with
  | none =>
    have hall := List.find?_eq_none.mp hfind
    refine ⟨fun item hi _ => by simpa using hall item hi, fun item hi heq => ?_, le_rfl⟩
    have hrange := h.ordinal_range hr hi
    simp only at heq
    omega
  | some found =>
    obtain ⟨hnot, before, after, hsplit, hbefore⟩ := List.find?_eq_some_iff_append.mp hfind
    have hmem : found ∈ r.items := List.mem_of_find?_eq_some hfind
    refine ⟨fun item hi hlt => ?_, fun item hi heq => ?_, ?_⟩
    · have hsorted := h.items_sorted hr
      rw [hsplit] at hi hsorted
      rcases List.mem_append.mp hi with hi | hi
      · simpa using hbefore item hi
      · -- The items that follow have greater ordinals.
        obtain ⟨-, htail, -⟩ := List.pairwise_append.mp hsorted
        rcases List.mem_cons.mp hi with rfl | hi
        · exact absurd hlt (lt_irrefl _)
        · exact absurd hlt (List.rel_of_pairwise_cons htail hi).not_gt
    · have hsame : some item = some found := (h.itemAt_eq hr hi).symm.trans (heq ▸ h.itemAt_eq hr hmem)
      cases hsame
      simpa using hnot
    · exact (h.ordinal_range hr hmem).2.trans (Nat.le_succ _)

theorem completedElsewhere_iff (h : Rows digest s) :
    completedElsewhere s r item = true ↔ ∃ l ∈ s.links, l.planRevisionId ≠ r.id ∧ CompletedBy s item l := by
  simp [completedElsewhere, completesItem_iff h]

/-! ### History -/

/-- What the plan `items` of a package says about its history. -/
structure Kept (s : State) (items : List PlanRevisionItem) : Prop where
  untouched : s.package.cursorOrdinal = none →
    (s.links = [] ∧ ∀ id, ¬Skipped s id) ∨ s.package.status = .completed ∨ s.package.status = .discarded
  linked : ∀ l ∈ s.links, ∃ item ∈ items, item.ordinal = l.ordinal ∧ item.itemId = l.workItemDraftId
  passed : ∀ c, s.package.cursorOrdinal = some c → ∀ l ∈ s.links, l.ordinal ≤ c
  skipped : ∀ c, s.package.cursorOrdinal = some c → ∀ id, Skipped s id →
    ∃ item ∈ items, item.itemId = id ∧ item.ordinal < c
  done : ∀ c, s.package.cursorOrdinal = some c → ∀ item ∈ items, item.ordinal < c →
    (∃ l ∈ s.links, Behind s l ∧ CompletedBy s item l) ∨ Skipped s item.itemId
  bounded : ∀ c, s.package.cursorOrdinal = some c → c ≤ items.length + 1

namespace Kept
variable {items : List PlanRevisionItem}

theorem keep (h : Kept s items) (he : Extends s t) (hlinks : t.links = s.links) (hskips : t.events = s.events)
    (hcursor : t.package.cursorOrdinal = s.package.cursorOrdinal)
    (hended : s.package.status = .completed ∨ s.package.status = .discarded →
      t.package.status = .completed ∨ t.package.status = .discarded) : Kept t items := by
  have hskipped : ∀ id, Skipped t id ↔ Skipped s id := fun id => by unfold Skipped; rw [hskips]
  constructor
  · intro hc
    rw [hlinks]
    rcases h.untouched (hcursor ▸ hc) with ⟨hnil, hnone⟩ | hend
    · exact Or.inl ⟨hnil, fun id => (hskipped id).not.mpr (hnone id)⟩
    · exact Or.inr (hended hend)
  · rw [hlinks]
    exact h.linked
  · rw [hlinks, hcursor]
    exact h.passed
  · simp only [hcursor, hskipped]
    exact h.skipped
  · intro c hc item hi hlt
    rw [hcursor] at hc
    rcases h.done c hc item hi hlt with ⟨l, hl, hb, hdone⟩ | hskip
    · exact Or.inl ⟨l, he.links l hl hb, hb.ahead he.ahead, hdone.mono he⟩
    · exact Or.inr ((hskipped _).mpr hskip)
  · rw [hcursor]
    exact h.bounded

theorem pass (h : Kept s items) (he : Extends s t) (hlinks : t.links = s.links) {c : Nat}
    (hc : s.package.cursorOrdinal = some c) (hc' : t.package.cursorOrdinal = some (c + 1))
    (hrange : c ≤ items.length)
    (hskips : ∀ id, Skipped t id → Skipped s id ∨ ∃ item ∈ items, item.itemId = id ∧ item.ordinal = c)
    (hdone : ∀ item ∈ items, item.ordinal = c →
      (∃ l ∈ t.links, Behind t l ∧ CompletedBy t item l) ∨ Skipped t item.itemId) : Kept t items := by
  constructor
  · rw [hc']
    exact fun hnone => by cases hnone
  · rw [hlinks]
    exact h.linked
  · intro c' hc'' l hl
    cases hc'.symm.trans hc''
    exact (h.passed c hc l (hlinks ▸ hl)).trans (Nat.le_succ c)
  · intro c' hc'' id hid
    cases hc'.symm.trans hc''
    rcases hskips id hid with hold | ⟨item, hi, hid, hord⟩
    · obtain ⟨item, hi, hid, hlt⟩ := h.skipped c hc id hold
      exact ⟨item, hi, hid, hlt.trans (Nat.lt_succ_self c)⟩
    · exact ⟨item, hi, hid, by omega⟩
  · intro c' hc'' item hi hlt
    cases hc'.symm.trans hc''
    rcases Nat.lt_succ_iff_lt_or_eq.mp hlt with hlt | heq
    · rcases h.done c hc item hi hlt with ⟨l, hl, hb, hdone⟩ | hskip
      · exact Or.inl ⟨l, he.links l hl hb, hb.ahead he.ahead, hdone.mono he⟩
      · exact Or.inr (hskip.mono he)
    · exact hdone item hi heq
  · intro c' hc''
    cases hc'.symm.trans hc''
    omega

variable {l : MaterializationLink}

theorem current_item (hs : Sound digest s) (hr : r ∈ s.revisions) (hhead : s.package.headRevisionId = some r.id)
    (hl : l ∈ s.links) (hcur : isCurrent s l = true) :
    ∃ item ∈ r.items, item.ordinal = l.ordinal ∧ item.itemId = l.workItemDraftId ∧
      r.id = l.planRevisionId := by
  obtain ⟨hst, hrun, -⟩ := isCurrent_iff.mp hcur
  obtain ⟨honhead, -⟩ := hs.queue.onHead (by rw [hst]; rfl)
  have hid : r.id = l.planRevisionId := Option.some.inj (hhead.symm.trans (honhead.symm.trans hrun))
  obtain ⟨r0, hr0, hid0, item, hi, hord, hdraft⟩ := hs.queue.linkItem l hl
  cases hs.rows.revision_unique hr0 hr (hid0.trans hid.symm)
  exact ⟨item, hi, hord, hdraft, hid⟩

section
variable (h : Kept s items) (hs : Sound digest s) (hr : r ∈ s.revisions) (hhead : s.package.headRevisionId = some r.id)
    (hitems : r.items = items)
include h hs hr hhead hitems

theorem advance {x : Task} (hl : l ∈ s.links) (hx : s.task? l.taskId = some x)
    (hdone : x.status = .completed) (hcur : isCurrent s l = true) : Kept (advanceCursor s l.ordinal) items := by
  subst hitems
  have hm : Move digest s (advanceCursor s l.ordinal) := .advance hl hx hdone hcur
  obtain ⟨-, hrun, hc⟩ := isCurrent_iff.mp hcur
  obtain ⟨item, hi, hord, hdraft, hid⟩ := current_item hs hr hhead hl hcur
  refine h.pass (.move hs hm) rfl hc rfl (hord ▸ (hs.rows.ordinal_range hr hi).2) (fun id hid => Or.inl hid) ?_
  intro item' hi' hord'
  have hsame : some item' = some item :=
    (hs.rows.itemAt_eq hr hi').symm.trans ((hord'.trans hord.symm) ▸ hs.rows.itemAt_eq hr hi)
  cases hsame
  obtain ⟨hxmem, hxid⟩ := mem_of_task? hx
  refine Or.inl ⟨l, hl, Or.inr ⟨hrun, fun c hc' => ?_⟩, hdraft.symm, ⟨x, hxmem, hxid, hdone⟩, r, hr, hid, item, hi, hord, rfl⟩
  cases hc'
  exact Nat.lt_succ_self _

theorem skip (hon : StandsOn s revision ordinal item) : Kept (passItem s revision ordinal item) items := by
  subst hitems
  have hm : Move digest s (passItem s revision ordinal item) := .skip hon
  have hdisp : s.package.status.isDispatching = true := by
    rcases hon.status with hst | hst <;> rw [hst] <;> rfl
  have hid : revision.id = r.id := by
    have honhead := (hs.queue.onHead hdisp).1
    exact Option.some.inj (hon.running.symm.trans (honhead.trans hhead))
  cases hs.rows.revision_unique hon.mem hr hid
  obtain ⟨hi, hord⟩ := mem_of_itemAt hon.found
  refine h.pass (.move hs hm) rfl hon.cursor rfl (hord ▸ (hs.rows.ordinal_range hr hi).2) ?_ ?_
  · rintro id ⟨k, o, hmem⟩
    rcases List.mem_append.mp hmem with hmem | hmem
    · exact Or.inl ⟨k, o, hmem⟩
    · cases List.mem_singleton.mp hmem
      exact Or.inr ⟨item, hi, rfl, hord⟩
  · intro item' hi' hord'
    have hsame : some item' = some item := (hs.rows.itemAt_eq hr hi').symm.trans (hord' ▸ hon.found)
    cases hsame
    exact Or.inr ⟨_, ordinal, List.mem_append_right _ (List.mem_singleton_self _)⟩

end

theorem materialize (h : Kept s items) (he : Extends s (addMaterialization s revision item ordinal)) (hi : item ∈ items)
    (hm : Materializes s revision item ordinal) : Kept (addMaterialization s revision item ordinal) items := by
  have hskipped : ∀ id, Skipped (addMaterialization s revision item ordinal) id → Skipped s id := by
    rintro id ⟨k, o, hmem⟩
    rcases List.mem_append.mp hmem with hmem | hmem
    · exact ⟨k, o, hmem⟩
    · cases List.mem_singleton.mp hmem
  constructor
  · intro hnone
    exact absurd (hm.cursor.symm.trans hnone) (by simp)
  · intro l hl
    rcases Lib.mem_concat.mp hl with hl | rfl
    · exact h.linked l hl
    · exact ⟨item, hi, (mem_of_itemAt hm.found).2, rfl⟩
  · intro c hc l hl
    rcases Lib.mem_concat.mp hl with hl | rfl
    · exact h.passed c hc l hl
    · exact (Option.some.inj (hm.cursor.symm.trans hc)).le
  · exact fun c hc id hid => h.skipped c hc id (hskipped id hid)
  · intro c hc i hi' hlt
    rcases h.done c hc i hi' hlt with ⟨l, hl, hb, hdone⟩ | hskip
    · exact Or.inl ⟨l, he.links l hl hb, hb.ahead he.ahead, hdone.mono he⟩
    · exact Or.inr (hskip.mono he)
  · exact h.bounded

theorem revise (h : Kept s items) {items' : List PlanRevisionItem} (he : Extends s t) (hlinks : t.links = s.links)
    (hevents : t.events = s.events) (hcursor : t.package.cursorOrdinal = s.package.cursorOrdinal)
    (hopen : s.package.status ≠ .completed ∧ s.package.status ≠ .discarded)
    (hold : items.map (·.ordinal) = List.range' 1 items.length)
    (hnew : items'.map (·.ordinal) = List.range' 1 items'.length)
    (hkept : ∀ c, s.package.cursorOrdinal = some c → ∀ item ∈ items,
      item.ordinal < c ∨ (∃ l ∈ s.links, l.workItemDraftId = item.itemId) → item ∈ items') : Kept t items' := by
  have hsame : Kept t items := h.keep he hlinks hevents hcursor fun hend => by
    rcases hend with hend | hend
    · exact absurd hend hopen.1
    · exact absurd hend hopen.2
  rw [← hcursor, ← hlinks] at hkept
  constructor
  · exact hsame.untouched
  · intro l hl
    cases hc : t.package.cursorOrdinal with
    | none =>
      rcases h.untouched (hcursor ▸ hc) with ⟨hnil, -⟩ | hend
      · rw [hlinks, hnil] at hl
        cases hl
      · exact absurd hend (by simp [hopen])
    | some c =>
      obtain ⟨item, hi, hord, hid⟩ := hsame.linked l hl
      exact ⟨item, hkept c hc item hi (Or.inr ⟨l, hl, hid.symm⟩), hord, hid⟩
  · exact hsame.passed
  · intro c hc id hid
    obtain ⟨item, hi, hid', hlt⟩ := hsame.skipped c hc id hid
    exact ⟨item, hkept c hc item hi (Or.inl hlt), hid', hlt⟩
  · -- An item behind the cursor is in the old plan at the same place, so that it is the old item.
    intro c hc item hi hlt
    have hpos : item.ordinal ∈ items'.map (·.ordinal) := List.mem_map_of_mem hi
    have hb := hsame.bounded c hc
    have hmem : item.ordinal ∈ items.map (·.ordinal) := by
      rw [hnew, List.mem_range'_1] at hpos
      rw [hold, List.mem_range'_1]
      omega
    obtain ⟨old, hi', hord⟩ := List.mem_map.mp hmem
    have hkeeps := hkept c hc old hi' (Or.inl (hord ▸ hlt))
    have hnd : (items'.map (·.ordinal)).Nodup := by
      rw [hnew]
      exact List.nodup_range'
    cases eq_of_key_eq hnd hkeeps hi hord
    exact hsame.done c hc _ hi' hlt
  · intro c hc
    by_contra hgt
    have hb := hsame.bounded c hc
    -- The last item that was passed would be missing.
    have hmem : items'.length + 1 ∈ items.map (·.ordinal) := by
      rw [hold, List.mem_range'_1]
      omega
    obtain ⟨old, hi, hord⟩ := List.mem_map.mp hmem
    have hkeeps := hkept c hc old hi (Or.inl (by omega))
    have hlast : old.ordinal ∈ items'.map (·.ordinal) := List.mem_map_of_mem hkeeps
    rw [hnew, List.mem_range'_1] at hlast
    omega

/-- The cursor of a start lies at or past the old one when every skipped item is completed as well. -/
theorem start (h : Kept s items) (hs : Sound digest s) (hstart : Startable s r) (hitems : r.items = items)
    (hskips : ∀ item ∈ items, Skipped s item.itemId → ∃ l ∈ s.links, CompletedBy s item l) :
    Kept (startRevision s r) items := by
  subst hitems
  obtain ⟨hbefore, -, hle⟩ := firstUnfinishedOrdinal_spec hs.rows hstart.mem
  have hnew := (hs.head_unstarted hstart).2
  have he : Extends s (startRevision s r) := .start hs hstart
  have hunended : s.package.status ≠ .completed ∧ s.package.status ≠ .discarded := by simp [hstart.status]
  have hcursor : ∀ c, s.package.cursorOrdinal = some c → c ≤ firstUnfinishedOrdinal s r := by
    intro c hc
    by_contra hgt
    -- The first unfinished item was passed, so that it is completed after all.
    have hb := h.bounded c hc
    have hmem : firstUnfinishedOrdinal s r ∈ r.items.map (·.ordinal) := by
      have hpos := firstUnfinishedOrdinal_pos hs.rows hstart.mem
      rw [hs.rows.ordinals r hstart.mem, List.mem_range'_1]
      omega
    obtain ⟨item, hi, hord⟩ := List.mem_map.mp hmem
    have hcompleted : ∃ l ∈ s.links, CompletedBy s item l := by
      rcases h.done c hc item hi (by omega) with ⟨l, hl, -, hdone⟩ | hskip
      · exact ⟨l, hl, hdone⟩
      · exact hskips item hi hskip
    obtain ⟨l, hl, hdone⟩ := hcompleted
    have helse := (completedElsewhere_iff hs.rows).mpr ⟨l, hl, (hnew l hl).ne, hdone⟩
    rw [(firstUnfinishedOrdinal_spec hs.rows hstart.mem).2.1 item hi hord] at helse
    cases helse
  -- A package without a cursor has no history yet.
  have hcase : (s.links = [] ∧ ∀ id, ¬Skipped s id) ∨ ∃ c, s.package.cursorOrdinal = some c := by
    cases hc : s.package.cursorOrdinal with
    | none => exact Or.inl ((h.untouched hc).resolve_right (by simp [hunended]))
    | some c => exact Or.inr ⟨c, rfl⟩
  constructor
  · exact fun hnone => by cases hnone
  · exact h.linked
  · intro c hc l hl
    cases hc
    rcases hcase with ⟨hnil, -⟩ | ⟨c, hc⟩
    · rw [show (startRevision s r).links = s.links from rfl, hnil] at hl
      cases hl
    · exact (h.passed c hc l hl).trans (hcursor c hc)
  · intro c hc id hid
    cases hc
    rcases hcase with ⟨-, hnone⟩ | ⟨c, hc⟩
    · exact absurd hid (hnone id)
    · obtain ⟨item, hi, hid', hlt⟩ := h.skipped c hc id hid
      exact ⟨item, hi, hid', hlt.trans_le (hcursor c hc)⟩
  · intro c hc item hi hlt
    cases hc
    obtain ⟨l, hl, -, hdone⟩ := (completedElsewhere_iff hs.rows).mp (hbefore item hi hlt)
    exact Or.inl ⟨l, hl, Or.inl ⟨r.id, rfl, hnew l hl⟩, hdone.mono he⟩
  · intro c hc
    cases hc
    exact hle

theorem replaceTask (h : Kept s items) (hl : s.currentLink = some l) : Kept (replaceTask s l) items := by
  have he : Extends s (Discussion.replaceTask s l) := .replaceTask hl
  obtain ⟨hmem, -, hcur⟩ := currentLink_ok hl
  have hskipped : ∀ id, Skipped (Discussion.replaceTask s l) id → Skipped s id := by
    rintro id ⟨k, o, he⟩
    rcases List.mem_append.mp he with he | he
    · exact ⟨k, o, he⟩
    · cases List.mem_singleton.mp he
  have hback : ∀ k ∈ (Discussion.replaceTask s l).links,
      ∃ k0 ∈ s.links, k0.ordinal = k.ordinal ∧ k0.workItemDraftId = k.workItemDraftId := by
    intro k hk
    rcases mem_or_of_mem_put hk with rfl | hk
    · exact ⟨l, hmem, rfl, rfl⟩
    · exact ⟨k, hk, rfl, rfl⟩
  constructor
  · exact fun hnone => absurd (hcur.symm.trans hnone) (by simp)
  · intro k hk
    obtain ⟨k0, hk0, hord, hid⟩ := hback k hk
    rw [← hord, ← hid]
    exact h.linked k0 hk0
  · intro c hc k hk
    obtain ⟨k0, hk0, hord, -⟩ := hback k hk
    exact hord ▸ h.passed c hc k0 hk0
  · exact fun c hc id hid => h.skipped c hc id (hskipped id hid)
  · intro c hc item hi hlt
    rcases h.done c hc item hi hlt with ⟨k, hk, hb, hdone⟩ | hskip
    · exact Or.inl ⟨k, he.links k hk hb, hb.ahead he.ahead, hdone.mono he⟩
    · exact Or.inr (hskip.mono he)
  · exact h.bounded

end Kept

def Carried (s : State) : Prop := ∃ r ∈ s.revisions, s.package.headRevisionId = some r.id ∧ Kept s r.items

def Ready (s : State) : Prop :=
  s.package.status.isDispatching = true → ∀ c, s.package.cursorOrdinal = some c →
    (∀ l ∈ s.links, s.package.runningRevisionId = some l.planRevisionId → l.ordinal ≠ c) →
      ∀ l ∈ s.links, l.ordinal < c

theorem Carried.move (h : Carried s) (hs : Sound digest s) (hmanaged : s.isManaged = true) (hm : Move digest s t) :
    Carried t := by
  obtain ⟨r, hr, hhead, hkept⟩ := h
  have he := Extends.move hs hm
  cases hm with
  | side hc =>
    refine ⟨r, hc.revisions ▸ hr, hc.head.trans hhead, hkept.keep he hc.links hc.events hc.cursor ?_⟩
    rw [hc.status]
    exact id
  | task => exact ⟨r, hr, hhead, hkept.keep he rfl rfl rfl id⟩
  | @revise previous revision plan ids resolved drafts hprev hhead' hstatus hresolved hnew hkeeps =>
    have hpr : previous = r := hs.rows.revision_unique hprev hr (Option.some.inj (hhead'.symm.trans hhead))
    subst hpr
    have hrows : Rows digest (addRevision (supersede s previous) drafts revision) :=
      hs.rows.move (.revise hprev hhead' hstatus hresolved hnew hkeeps)
    have hmem : revision ∈ (addRevision (supersede s previous) drafts revision).revisions :=
      List.mem_append_right _ (List.mem_singleton_self _)
    refine ⟨revision, hmem, rfl, ?_⟩
    refine hkept.revise he rfl rfl rfl hstatus (hs.rows.ordinals previous hr) (hrows.ordinals revision hmem) ?_
    intro c hc item hi hhist
    obtain ⟨ids0, hres, hall⟩ := (hkeeps hmanaged).2 c hc
    refine history_kept hs.rows hprev hnew hres hi (hall item hi ?_)
    simpa [isHistory] using hhist
  | @approve revision r' _ hwait hsame =>
    have hpr : revision = r := hs.rows.revision_unique hwait.mem hr (Option.some.inj (hwait.head.symm.trans hhead))
    subst hpr
    have hmem : { r' with state := .approved } ∈ put PlanRevision.key { r' with state := .approved } s.revisions :=
      mem_put_self hr hsame.id.symm
    refine ⟨_, hmem, hsame.id ▸ hhead, ?_⟩
    rw [show ({ r' with state := .approved } : PlanRevision).items = revision.items from hsame.items]
    exact hkept.keep he rfl rfl rfl (by simp [hwait.status])
  | @close revision hmem hhead' =>
    have hpr : revision = r := hs.rows.revision_unique hmem hr (Option.some.inj (hhead'.symm.trans hhead))
    subst hpr
    have hput : { revision with state := .discarded } ∈
        put PlanRevision.key { revision with state := .discarded } s.revisions := mem_put_self hr rfl
    exact ⟨_, hput, hhead, hkept.keep he rfl rfl rfl fun _ => Or.inr rfl⟩
  | stop hlive =>
    refine ⟨r, hr, hhead, hkept.keep he rfl rfl rfl fun hend => ?_⟩
    rcases hend with hend | hend <;> rw [hend] at hlive <;> cases hlive
  | @pause ordinal hst hcursor =>
    obtain ⟨-, c, hc, -⟩ := hs.queue.onHead (by rw [hst]; rfl)
    refine ⟨r, hr, hhead, hkept.keep he rfl rfl ?_ (by simp [hst])⟩
    rw [hc, hcursor c hc]
    rfl
  | advance hl hx hdone hcur => exact ⟨r, hr, hhead, hkept.advance hs hr hhead rfl hl hx hdone hcur⟩
  | skip hon => exact ⟨r, hr, hhead, hkept.skip hs hr hhead rfl hon⟩
  | complete =>
    refine ⟨r, hr, hhead, ⟨fun _ => Or.inr (Or.inl rfl), hkept.linked, ?_, ?_, ?_, ?_⟩⟩ <;>
      exact fun c hc => by cases hc
  | @materialize revision item ordinal hst hrun hmem hm =>
    obtain ⟨honhead, -⟩ := hs.queue.onHead (by rw [hst]; rfl)
    have hpr : revision = r :=
      hs.rows.revision_unique hmem hr (Option.some.inj (hrun.symm.trans (honhead.trans hhead)))
    subst hpr
    exact ⟨revision, hr, hhead, hkept.materialize he (mem_of_itemAt hm.found).1 hm⟩

theorem Carried.moves (h : Carried s) (hs : Sound digest s) (hmanaged : s.isManaged = true) (hm : Moves digest s t) :
    Carried t := by
  induction hm with
  | refl => exact h
  | tail hmoves hmove ih => exact ih.move (hs.moves hmoves) ((Moves.managed hmoves).trans hmanaged) hmove

theorem Ready.move (h : Ready s) (hs : Sound digest s) (hc : Carried s) (hm : Move digest s t) : Ready t := by
  obtain ⟨r, -, -, hkept⟩ := hc
  cases hm with
  | side hc =>
    unfold Ready
    rw [hc.status, hc.cursor, hc.links, hc.running]
    exact h
  | task => exact h
  | revise | approve | close | stop | complete => exact fun ht => by cases ht
  | @pause ordinal hst hcursor =>
    have hdisp : s.package.status.isDispatching = true := by rw [hst]; rfl
    obtain ⟨-, c, hc, -⟩ := hs.queue.onHead hdisp
    intro _ c' hc'
    cases hc'
    rw [← hcursor c hc]
    exact h hdisp c hc
  | @advance l x hl hx hdone hcur =>
    intro _ c hc _ k hk
    cases hc
    exact Nat.lt_succ_of_le (hkept.passed l.ordinal (isCurrent_iff.mp hcur).2.2 k hk)
  | @skip revision ordinal item hon =>
    intro _ c hc _ k hk
    cases hc
    exact Nat.lt_succ_of_le (hkept.passed ordinal hon.cursor k hk)
  | @materialize revision item ordinal hst hrun hmem hm =>
    intro _ c hc hfree
    have hcur : ordinal = c := Option.some.inj (hm.cursor.symm.trans hc)
    exact absurd hcur (hfree _ (List.mem_append_right _ (List.mem_singleton_self _)) hrun)

theorem Ready.moves (h : Ready s) (hs : Sound digest s) (hmanaged : s.isManaged = true) (hc : Carried s)
    (hm : Moves digest s t) : Ready t := by
  induction hm with
  | refl => exact h
  | tail hmoves hmove ih => exact ih.move (hs.moves hmoves) (hc.moves hs hmanaged hmoves) hmove

/-! ### Starts -/

/-- The commands of a plan and of its queue, the observations and what other subsystems write; not the
    owner's skip that names no item, and not the return of a parked package. -/
def Op.replans : Op → Bool
  | .skipItem _ | .unparkGoal .. => false
  | _ => true

def SkipsCompleted (s : State) : Prop :=
  ∀ r ∈ s.revisions, s.package.headRevisionId = some r.id → ∀ item ∈ r.items, Skipped s item.itemId →
    ∃ l ∈ s.links, CompletedBy s item l

def StartMeets (s : State) (op : Op) : Prop := ∀ r, op = .start r → SkipsCompleted s

theorem start_cases (hs : Sound digest s) {r : StartRequest} {result : SequenceResult}
    (hstart : startable digest s r = .ok revision)
    (hm : materializeCurrent (startRevision s revision) revision r.now = .ok (t, result)) :
    Startable s revision ∧
      ((t = completePackage (startRevision s revision) ∧
          revision.itemAt (firstUnfinishedOrdinal s revision) = none) ∨
        ∃ item, Materializes (startRevision s revision) revision item (firstUnfinishedOrdinal s revision) ∧
          t = addMaterialization (startRevision s revision) revision item (firstUnfinishedOrdinal s revision)) := by
  obtain ⟨-, -, hs'⟩ := startable_ok hstart
  refine ⟨hs', ?_⟩
  rcases materializeCurrent_ok hm with ⟨rfl, hpending | ⟨ordinal, l, hc, hl⟩⟩ | ⟨rfl, c, hc, hnone⟩ |
    ⟨item, c, hmat, rfl, -⟩
  · rw [show (startRevision s revision).goal = s.goal from rfl, hs'.settled] at hpending
    cases hpending
  · obtain ⟨hmem, hrev, -⟩ := mem_of_linkAt hl
    exact absurd hrev ((hs.head_unstarted hs').2 l hmem).ne
  · cases hc
    exact Or.inl ⟨rfl, hnone⟩
  · cases hmat.cursor
    exact Or.inr ⟨item, hmat, rfl⟩

theorem Carried.start (h : Carried s) (hs : Sound digest s) (hstart : Startable s revision) (hskips : SkipsCompleted s) :
    Carried (startRevision s revision) := by
  obtain ⟨r, hr, hhead, hkept⟩ := h
  cases hs.rows.revision_unique hr hstart.mem (Option.some.inj (hhead.symm.trans hstart.head))
  exact ⟨_, hr, hhead, hkept.start hs hstart rfl (hskips _ hr hhead)⟩

variable {op : Op}

theorem Carried.perform (h : Carried s) (hs : Sound digest s) (hmanaged : s.isManaged = true)
    (hop : op.replans = true) (hmeets : StartMeets s op) (hp : perform digest s op = .ok t) : Carried t := by
  cases perform_effect hp with
  | moves hm => exact h.moves hs hmanaged hm
  | start hstart hm =>
    obtain ⟨hs', hmoves⟩ := start_moves hstart hm
    exact (h.start hs hs' (hmeets _ rfl)).moves (hs.start hs') hmanaged hmoves
  | retryFailedItem hst hl =>
    obtain ⟨r, hr, hhead, hkept⟩ := h
    exact ⟨r, hr, hhead, hkept.replaceTask hl⟩
  | @retryItem _ u _ hu hst hsame =>
    obtain ⟨r, hr, hhead, hkept⟩ := h.moves hs hmanaged hu
    refine ⟨r, hsame.revisions ▸ hr, hsame.head.trans hhead, ?_⟩
    have he : Extends u t := Extends.resume.trans (.sameCore hsame)
    exact hkept.keep he hsame.links hsame.events hsame.cursor (by simp [hst])
  | skipItem | unparkGoal => cases hop

theorem Ready.perform (h : Ready s) (hs : Sound digest s) (hmanaged : s.isManaged = true) (hc : Carried s)
    (hop : op.replans = true) (hp : perform digest s op = .ok t) : Ready t := by
  cases perform_effect hp with
  | moves hm => exact h.moves hs hmanaged hc hm
  | start hstart hm =>
    obtain ⟨-, ⟨rfl, -⟩ | ⟨item, -, rfl⟩⟩ := start_cases hs hstart hm
    · exact fun ht => by cases ht
    · intro _ c hc hfree
      cases hc
      exact absurd rfl (hfree _ (List.mem_append_right _ (List.mem_singleton_self _)) rfl)
  | @retryFailedItem _ l hst hl =>
    obtain ⟨hmem, hrun, hcur⟩ := currentLink_ok hl
    intro _ c hc hfree
    have hc' : l.ordinal = c := Option.some.inj (hcur.symm.trans hc)
    have hput : { l with taskId := s.tasks.length } ∈ (replaceTask s l).links := mem_put_self hmem rfl
    have hne := hfree _ hput hrun
    exact absurd hc' hne
  | retryItem hu hst hsame =>
    have hready := h.moves hs hmanaged hc hu
    unfold Ready
    rw [hsame.cursor, hsame.links, hsame.running]
    exact fun _ => hready (by rw [hst]; rfl)
  | skipItem | unparkGoal => cases hop

/-! ### Items run once -/

def IsFirstOpen (s : State) (r : PlanRevision) (n : Nat) : Prop :=
  1 ≤ n ∧ n ≤ r.items.length + 1 ∧ (∀ item ∈ r.items, item.ordinal < n → Done s item) ∧
    ∀ item ∈ r.items, item.ordinal = n → ¬Done s item

def OpensUndone (s t : State) : Prop :=
  ∀ l ∈ t.links, (∀ l₀ ∈ s.links, l₀.key ≠ l.key) → ∃ r ∈ t.revisions, r.id = l.planRevisionId ∧
    ∃ item ∈ r.items, item.ordinal = l.ordinal ∧ item.itemId = l.workItemDraftId ∧ ¬Done s item

theorem Done.mono (h : Done s item) (he : Extends s t) (hlinks : s.links ⊆ t.links) : Done t item := by
  rcases h with ⟨l, hl, hdone⟩ | hskip
  · exact Or.inl ⟨l, hlinks hl, hdone.mono he⟩
  · exact Or.inr (hskip.mono he)

theorem Move.links_subset (hm : Move digest s t) : s.links ⊆ t.links := by
  cases hm with
  | side hc => rw [hc.links]; exact fun _ h => h
  | materialize => exact List.subset_append_left _ _
  | _ => exact fun _ h => h

theorem Moves.links_subset (hm : Moves digest s t) : s.links ⊆ t.links := by
  induction hm with
  | refl => exact fun _ h => h
  | tail _ hmove ih => exact fun _ h => hmove.links_subset (ih h)

theorem Ready.undone (h : Ready s) (hs : Sound digest s) (hc : Carried s) (hst : s.package.status = .running)
    (hrun : s.package.runningRevisionId = some revision.id) (hmem : revision ∈ s.revisions)
    (hm : Materializes s revision item ordinal) : ¬Done s item := by
  obtain ⟨r, hr, hhead, hkept⟩ := hc
  have hdisp : s.package.status.isDispatching = true := by rw [hst]; rfl
  obtain ⟨honhead, -⟩ := hs.queue.onHead hdisp
  cases hs.rows.revision_unique hmem hr (Option.some.inj (hrun.symm.trans (honhead.trans hhead)))
  obtain ⟨hi, hord⟩ := mem_of_itemAt hm.found
  have hfree : ∀ l ∈ s.links, s.package.runningRevisionId = some l.planRevisionId → l.ordinal ≠ ordinal := by
    intro l hl hrun' hord'
    have hnone := List.find?_eq_none.mp hm.unlinked l hl
    have hid := Option.some.inj (hrun.symm.trans hrun')
    simp [hid, hord'] at hnone
  rintro (⟨l, hl, hdraft, -⟩ | hskip)
  · -- A link of the item has its ordinal, and every link lies behind.
    have hlt := h hdisp ordinal hm.cursor hfree l hl
    obtain ⟨i, hi', hord', hid⟩ := hkept.linked l hl
    cases hs.rows.item_unique hr hi' hi (hid.trans hdraft)
    omega
  · obtain ⟨i, hi', hid, hlt⟩ := hkept.skipped ordinal hm.cursor _ hskip
    cases hs.rows.item_unique hr hi' hi hid
    omega

theorem OpensUndone.refl : OpensUndone s s := fun l hl hnew => absurd rfl (hnew l hl)

theorem OpensUndone.moves (hs : Sound digest s) (hmanaged : s.isManaged = true) (hc : Carried s) (hr : Ready s)
    (hm : Moves digest s t) : OpensUndone s t := by
  induction hm with
  | refl => exact .refl
  | @tail u t hmoves hmove ih =>
    have hu : Sound digest u := hs.moves hmoves
    intro l hl hnew
    by_cases hold : l ∈ u.links
    · obtain ⟨r, hr, hid, item, hi, hrest⟩ := ih l hold hnew
      obtain ⟨r', hr', hsame⟩ := hmove.plans hu.rows r hr
      exact ⟨r', hr', hsame.id.trans hid, item, hsame.items ▸ hi, hrest⟩
    · cases hmove with
      | side hc => exact absurd (hc.links ▸ hl) hold
      | @materialize revision item ordinal hst hrun hmem hm =>
        have hlast := (List.mem_append.mp hl).resolve_left hold
        rw [List.mem_singleton.mp hlast]
        obtain ⟨hi, hord⟩ := mem_of_itemAt hm.found
        refine ⟨revision, hmem, rfl, item, hi, hord, rfl, fun hdone => ?_⟩
        have hready := hr.moves hs hmanaged hc hmoves
        exact hready.undone hu (hc.moves hs hmanaged hmoves) hst hrun hmem hm
          (hdone.mono (.moves hs hmoves) (Moves.links_subset hmoves))
      | _ => exact absurd hl hold

theorem firstUnfinishedOrdinal_undone (hs : Sound digest s) (hstart : Startable s revision) (hskips : SkipsCompleted s)
    (hi : item ∈ revision.items) (hord : item.ordinal = firstUnfinishedOrdinal s revision) : ¬Done s item := by
  intro hdone
  have hcompleted : ∃ l ∈ s.links, CompletedBy s item l := by
    rcases hdone with hdone | hskip
    · exact hdone
    · exact hskips revision hstart.mem hstart.head item hi hskip
  obtain ⟨l, hl, hby⟩ := hcompleted
  have helse := (completedElsewhere_iff hs.rows).mpr ⟨l, hl, ((hs.head_unstarted hstart).2 l hl).ne, hby⟩
  rw [(firstUnfinishedOrdinal_spec hs.rows hstart.mem).2.1 item hi hord] at helse
  cases helse

theorem firstUnfinishedOrdinal_isFirstOpen (hs : Sound digest s) (hstart : Startable s revision) (hskips : SkipsCompleted s) :
    IsFirstOpen s revision (firstUnfinishedOrdinal s revision) := by
  obtain ⟨hbefore, -, hle⟩ := firstUnfinishedOrdinal_spec hs.rows hstart.mem
  refine ⟨firstUnfinishedOrdinal_pos hs.rows hstart.mem, hle, fun item hi hlt => ?_,
    fun item hi hord => firstUnfinishedOrdinal_undone hs hstart hskips hi hord⟩
  obtain ⟨l, hl, -, hdone⟩ := (completedElsewhere_iff hs.rows).mp (hbefore item hi hlt)
  exact Or.inl ⟨l, hl, hdone⟩

theorem OpensUndone.perform (hs : Sound digest s) (hmanaged : s.isManaged = true) (hc : Carried s) (hr : Ready s)
    (hop : op.replans = true) (hmeets : StartMeets s op) (hp : perform digest s op = .ok t) : OpensUndone s t := by
  cases perform_effect hp with
  | moves hm => exact .moves hs hmanaged hc hr hm
  | @start _ revision _ _ hstart hm =>
    obtain ⟨hs', ⟨rfl, -⟩ | ⟨item, hmat, rfl⟩⟩ := start_cases hs hstart hm
    · exact .refl
    · intro l hl hnew
      rcases Lib.mem_concat.mp hl with hl | rfl
      · exact absurd rfl (hnew l hl)
      · obtain ⟨hi, hord⟩ := mem_of_itemAt hmat.found
        exact ⟨revision, hs'.mem, rfl, item, hi, hord, rfl,
          firstUnfinishedOrdinal_undone hs hs' (hmeets _ rfl) hi hord⟩
  | @retryFailedItem _ l hst hl =>
    intro k hk hnew
    rcases mem_or_of_mem_put hk with rfl | hk
    · exact absurd rfl (hnew l (currentLink_ok hl).1)
    · exact absurd rfl (hnew k hk)
  | @retryItem _ u _ hu hst hsame =>
    intro l hl hnew
    rw [hsame.links] at hl
    obtain ⟨r, hr', hrest⟩ := OpensUndone.moves hs hmanaged hc hr hu l hl hnew
    exact ⟨r, hsame.revisions ▸ hr', hrest⟩
  | skipItem | unparkGoal => cases hop

theorem start_at_first_open (hs : Sound digest s) (hskips : SkipsCompleted s) {r : StartRequest}
    (hp : perform digest s (.start r) = .ok t) :
    ∃ revision ∈ s.revisions, t.package.runningRevisionId = some revision.id ∧ ∃ n, IsFirstOpen s revision n ∧
      ((∃ c, t.package.cursorOrdinal = some c ∧ n ≤ c) ∨
        (t.package.status = .completed ∧ revision.items.length < n)) := by
  obtain ⟨⟨u, result⟩, hu, rfl⟩ := map_eq_ok.mp hp
  obtain ⟨revision, hstart, hm⟩ := start_ok hu
  obtain ⟨hs', hcase⟩ := start_cases hs hstart hm
  have hopen := firstUnfinishedOrdinal_isFirstOpen hs hs' hskips
  rcases hcase with ⟨rfl, hnone⟩ | ⟨item, -, rfl⟩
  · exact ⟨revision, hs'.mem, rfl, _, hopen, Or.inr ⟨rfl, hs.rows.lt_of_itemAt_none hs'.mem hopen.1 hnone⟩⟩
  · exact ⟨revision, hs'.mem, rfl, _, hopen, Or.inl ⟨_, rfl, le_rfl⟩⟩

theorem Kept.created (h : Created digest s) : Carried s ∧ Ready s := by
  obtain ⟨topic, goal, delegations, plan, commit, h⟩ := h
  simp only [createDraft, guard_eq_ok] at h
  obtain ⟨-, -, -, h⟩ := h
  obtain ⟨ids, drafts, revision, -, -, rfl⟩ := createRevision_ok h
  refine ⟨⟨revision, List.mem_singleton_self _, rfl, ⟨fun _ => Or.inl ⟨rfl, ?_⟩, ?_, ?_, ?_, ?_, ?_⟩⟩, fun ht => ?_⟩
  · rintro id ⟨k, o, hmem⟩
    cases hmem
  · exact fun l hl => by cases hl
  all_goals exact fun c hc => by cases hc

/-- In a run of a managed package whose starts leave no skipped item undone, a start stands no lower than the
    first item that is neither completed under its contract nor skipped, and no item is materialized that
    is completed under its contract or was skipped. -/
theorem carried_items_run_once {s₀ : State} (hc : Created digest s₀) (hmanaged : s₀.isManaged = true)
    (h : Reach (perform digest) (fun s op => op.replans = true ∧ StartMeets s op) s₀ s) {op : Op}
    (hop : op.replans = true) (hmeets : StartMeets s op) (hp : perform digest s op = .ok t) :
    (∀ r, op = .start r → ∃ revision ∈ s.revisions, t.package.runningRevisionId = some revision.id ∧
      ∃ n, IsFirstOpen s revision n ∧ ((∃ c, t.package.cursorOrdinal = some c ∧ n ≤ c) ∨
        (t.package.status = .completed ∧ revision.items.length < n))) ∧
    ∀ l ∈ t.links, (∀ l₀ ∈ s.links, l₀.key ≠ l.key) → ∃ r ∈ t.revisions, r.id = l.planRevisionId ∧
      ∃ item ∈ r.items, item.ordinal = l.ordinal ∧ item.itemId = l.workItemDraftId ∧ ¬Done s item := by
  have hscope : ∀ op : Op, op.replans = true → ∀ a b c, op ≠ .unparkGoal a b c := by
    rintro op hop a b c rfl
    cases hop
  have hinv : Sound digest s ∧ s.isManaged = true ∧ Carried s ∧ Ready s := by
    refine h.invariant (P := fun s => Sound digest s ∧ s.isManaged = true ∧ Carried s ∧ Ready s)
      ⟨.created hc, hmanaged, Kept.created hc⟩ ?_
    rintro u v op ⟨hu, hm, hcar, hready⟩ ⟨hop, hmeets⟩ hp
    exact ⟨hu.perform (hscope op hop) hp, (perform_managed hp).trans hm, hcar.perform hu hm hop hmeets hp,
      hready.perform hu hm hcar hop hp⟩
  obtain ⟨hs, hm, hcar, hready⟩ := hinv
  refine ⟨?_, OpensUndone.perform hs hm hcar hready hop hmeets hp⟩
  rintro r rfl
  exact start_at_first_open hs (hmeets r rfl) hp

/-- The first item is completed, the second fails, the plan is revised and started again: it goes on at the second item. -/
theorem carried_items_run_once_replanned :
    ∃ u v : State, (∃ l ∈ u.links, l.ordinal = 1 ∧ ∃ x ∈ u.tasks, x.id = l.taskId ∧ x.status = .completed) ∧
      (∃ revision ∈ u.revisions, v.package.runningRevisionId = some revision.id ∧ ∃ n ≤ 2, IsFirstOpen u revision n) ∧
      v.package.cursorOrdinal = some 2 ∧ (∃ l ∈ v.links, ∀ l₀ ∈ u.links, l₀.key ≠ l.key) ∧
      ∀ l ∈ v.links, (∀ l₀ ∈ u.links, l₀.key ≠ l.key) → ∃ r ∈ v.revisions, r.id = l.planRevisionId ∧
        ∃ item ∈ r.items, item.ordinal = l.ordinal ∧ item.itemId = l.workItemDraftId ∧ ¬Done u item := by
  let bind : Op :=
    .bindDelegatedApproval { fence := { revisionNumber := 1, h8 := "plan", generation := 1 }, delegationId := 0 }
  let start : Op := .start { fence := { revisionNumber := 1, h8 := "plan", generation := 2 }, agent := true }
  let replan : List Op := [
    .taskMoves 0 .executing, .taskMoves 0 .completed, .processSequenceItem 0 4 0, .materializeRunning 0,
    .taskMoves 1 .executing, .taskMoves 1 .failed, .processSequenceItem 1 4 0,
    .reviseDraft { generation := 5, plan := Sample.longerPlan },
    .bindDelegatedApproval { fence := { revisionNumber := 2, h8 := "longer", generation := 6 }, delegationId := 0 }]
  let restart : Op := .start { fence := { revisionNumber := 2, h8 := "longer", generation := 7 }, agent := true }
  obtain ⟨s0, s, hs0, hreach, hs⟩ := Sample.reach (fun s op => op.replans = true ∧ StartMeets s op) [bind]
    (fun s => s.isManaged && s.events = [] && ends (fun t => ends (fun u =>
        (u.revisions.all fun r => r.items.all fun item => !itemWasSkipped u item.itemId) &&
        (u.links.any fun l => l.ordinal = 1 && u.tasks.any fun x => x.id = l.taskId && x.status = .completed) &&
        ends (fun v => v.package.status = .running && v.package.cursorOrdinal = some 2 &&
          v.links.any fun l => u.links.all fun l₀ => l₀.key ≠ l.key)
          (perform Sample.digest u restart)) (runOps (perform Sample.digest) t replan)) (perform Sample.digest s start))
    (by simp [bind, Op.replans, StartMeets]) (by decide)
  simp only [Bool.and_eq_true, decide_eq_true_eq] at hs
  obtain ⟨⟨hmanaged, hevents⟩, hstart⟩ := hs
  obtain ⟨t, ht, hrest⟩ := exists_of_ends hstart
  obtain ⟨u, hu, hcheck⟩ := exists_of_ends hrest
  simp only [Bool.and_eq_true, decide_eq_true_eq, List.all_eq_true, List.any_eq_true, Bool.not_eq_true'] at hcheck
  obtain ⟨⟨hunskipped, hfirst⟩, hagain⟩ := hcheck
  obtain ⟨v, hv, hlast⟩ := exists_of_ends hagain
  simp only [Bool.and_eq_true, decide_eq_true_eq, List.all_eq_true, List.any_eq_true] at hlast
  obtain ⟨⟨hrunning, hcursor⟩, hfresh⟩ := hlast
  have hmanaged0 : s0.isManaged = true := by
    refine hreach.invariant (P := fun u => u.isManaged = true → s0.isManaged = true) id ?_ hmanaged
    exact fun hu _ hp hv => hu ((perform_managed hp).symm.trans hv)
  have hmeets : StartMeets s start := by
    rintro r - revision - - item - ⟨k, o, hmem⟩
    rw [hevents] at hmem
    cases hmem
  have hmeets' : StartMeets u restart := by
    rintro r - revision hrevision - item hitem hskipped
    have hnot := hunskipped revision hrevision item hitem
    rw [itemWasSkipped_iff.mpr hskipped] at hnot
    cases hnot
  have hreach' : Reach (perform Sample.digest) (fun s op => op.replans = true ∧ StartMeets s op) s0 u :=
    (hreach.step ⟨rfl, hmeets⟩ ht).trans
      (reach_of_runOps (by simp [replan, Op.replans, StartMeets]) hu)
  obtain ⟨hopen, hnew⟩ := carried_items_run_once ⟨_, _, _, _, _, hs0⟩ hmanaged0 hreach' rfl hmeets' hv
  obtain ⟨revision, hrevision, hid, n, hn, ⟨c, hc, hle⟩ | ⟨hcompleted, -⟩⟩ := hopen _ rfl
  · cases hcursor.symm.trans hc
    exact ⟨u, v, hfirst, ⟨revision, hrevision, hid, n, hle, hn⟩, hcursor, hfresh, hnew⟩
  · cases hrunning.symm.trans hcompleted

namespace Sample

def replanned : List Op := started ++ [
  .taskMoves 0 .executing, .taskMoves 0 .failed, .processSequenceItem 0 4 0,
  .skipCurrent .settles 0, .materializeRunning 0,
  .taskMoves 1 .executing, .taskMoves 1 .failed, .processSequenceItem 1 4 0,
  .reviseDraft { generation := 6, plan := longerPlan },
  .bindDelegatedApproval { fence := { revisionNumber := 2, h8 := "longer", generation := 7 }, delegationId := 0 }]

def restarted : Op := .start { fence := { revisionNumber := 2, h8 := "longer", generation := 8 }, agent := true }

end Sample

/-- The start of the revised plan materializes the item that was skipped, below the first one that is open. -/
theorem skipped_item_runs_again :
    ∃ s₀ s t, Created Sample.digest s₀ ∧ s₀.isManaged = true ∧
      Reach (perform Sample.digest) (fun _ op => op.replans = true) s₀ s ∧
      perform Sample.digest s Sample.restarted = .ok t ∧ t.package.cursorOrdinal = some 1 ∧
      ∃ l ∈ t.links, (∀ l₀ ∈ s.links, l₀.key ≠ l.key) ∧ Skipped s l.workItemDraftId := by
  have hrun : ends (fun s => ends (fun t => t.package.cursorOrdinal = some 1 &&
      t.links.any fun l => s.links.all (fun l₀ => l₀.key ≠ l.key) && itemWasSkipped s l.workItemDraftId)
        (perform Sample.digest s Sample.restarted))
      (Sample.package >>= fun s => runOps (perform Sample.digest) s Sample.replanned) = true := by decide
  obtain ⟨s₀, s, hs0, hreach, hs⟩ := Sample.reach (fun _ op => op.replans = true) Sample.replanned _
    (by simp [Sample.replanned, Sample.started, Op.replans]) hrun
  obtain ⟨t, ht, hcheck⟩ := exists_of_ends hs
  simp only [Bool.and_eq_true, decide_eq_true_eq, List.any_eq_true, List.all_eq_true, itemWasSkipped_iff] at hcheck
  obtain ⟨hcursor, l, hl, hnew, hskip⟩ := hcheck
  refine ⟨s₀, s, t, ⟨_, _, _, _, _, hs0⟩, ?_, hreach, ht, hcursor, l, hl, hnew, hskip⟩
  have hmanaged : ends State.isManaged Sample.package = true := by decide
  obtain ⟨s1, hs1, hm⟩ := exists_of_ends hmanaged
  cases hs0.symm.trans hs1
  exact hm

end Vuzol.Discussion
