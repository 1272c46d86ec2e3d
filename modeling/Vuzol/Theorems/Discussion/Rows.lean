import Vuzol.Theorems.Discussion.Moves

/-! The tables of a package: identities are places, the items of a revision are numbered from 1, and a
    revision keeps the plan it was created with. -/

namespace Vuzol.Discussion

open Vuzol.Lib

variable {digest : PlanBody → Digest} {s t : State}
variable {ids : List Nat} {plan : PlanDraft}

theorem resolveItemIdentity_ok {drafts drafts' : List WorkItemDraft} {item : PlanItemDraft} {id : Nat}
    (hids : drafts.map (·.id) = List.range drafts.length) (h : resolveItemIdentity drafts item = .ok (id, drafts')) :
    drafts <+: drafts' ∧ drafts'.map (·.id) = List.range drafts'.length ∧ id < drafts'.length := by
  have hold : ∀ row ∈ drafts, row.id < drafts.length := fun row hrow => by
    have hmem : row.id ∈ drafts.map (·.id) := List.mem_map_of_mem hrow
    simpa [hids] using hmem
  unfold resolveItemIdentity at h
  split at h
  · split at h
    · cases h
    · rename_i row hrow
      obtain ⟨-, h⟩ := guard_eq_ok.mp h
      cases h
      exact ⟨List.prefix_rfl, hids, hold row (List.mem_of_find?_eq_some hrow)⟩
  · split at h
    · rename_i row hrow
      obtain ⟨l, -, hfind⟩ := Option.bind_eq_some_iff.mp hrow
      cases h
      exact ⟨List.prefix_rfl, hids, hold row (List.mem_of_find?_eq_some hfind)⟩
    · cases h
      refine ⟨List.prefix_append _ _, ?_, by simp⟩
      simp [hids, List.range_succ]

theorem resolveItemIdentities_ok {drafts drafts' : List WorkItemDraft} {items : List PlanItemDraft} {ids : List Nat}
    (hids : drafts.map (·.id) = List.range drafts.length)
    (h : resolveItemIdentities drafts items = .ok (ids, drafts')) :
    drafts <+: drafts' ∧ drafts'.map (·.id) = List.range drafts'.length ∧ ids.length = items.length ∧
      ∀ id ∈ ids, id < drafts'.length := by
  induction items generalizing drafts ids with
  | nil =>
    cases h
    exact ⟨List.prefix_rfl, hids, rfl, by simp⟩
  | cons item items ih =>
    simp only [resolveItemIdentities, bind_eq_ok, Except.ok.injEq, Prod.mk.injEq] at h
    obtain ⟨⟨id, mid⟩, hid, ⟨rest, fin⟩, hrest, rfl, rfl⟩ := h
    obtain ⟨hpre, hids', hlt⟩ := resolveItemIdentity_ok hids hid
    obtain ⟨hpre', hids'', hlen, hall⟩ := ih hids' hrest
    refine ⟨hpre.trans hpre', hids'', by simp [hlen], ?_⟩
    intro k hk
    rcases List.mem_cons.mp hk with rfl | hk
    · exact Nat.lt_of_lt_of_le hlt hpre'.length_le
    · exact hall k hk

section
variable (hlen : ids.length = plan.items.length)
include hlen

theorem revisionItems_ordinals : (revisionItems plan ids).map (·.ordinal) = List.range' 1 plan.items.length := by
  simp only [revisionItems, numbered, List.map_map, Function.comp_def]
  exact List.map_fst_zip (by simp [hlen])

theorem revisionItems_itemIds : (revisionItems plan ids).map (·.itemId) = ids := by
  have hzip : (numbered plan.items ids).map (·.2) = plan.items.zip ids := List.map_snd_zip (by simp [hlen])
  have hids : (plan.items.zip ids).map (·.2) = ids := List.map_snd_zip (by simp [hlen])
  have hcol : ((numbered plan.items ids).map (·.2)).map (·.2) = ids := by rw [hzip, hids]
  simpa only [revisionItems, List.map_map, Function.comp_def] using hcol

theorem revisionItems_length : (revisionItems plan ids).length = plan.items.length := by
  have h := congrArg List.length (revisionItems_ordinals hlen)
  simpa using h

end

structure Rows (digest : PlanBody → Digest) (s : State) : Prop where
  revisionIds : s.revisions.map (·.id) = List.range s.revisions.length
  draftIds : s.drafts.map (·.id) = List.range s.drafts.length
  taskIds : s.tasks.map (·.id) = List.range s.tasks.length
  ordinals : ∀ r ∈ s.revisions, r.items.map (·.ordinal) = List.range' 1 r.items.length
  itemIds : ∀ r ∈ s.revisions, (r.items.map (·.itemId)).Nodup
  known : ∀ r ∈ s.revisions, ∀ item ∈ r.items, item.itemId < s.drafts.length
  hashes : ∀ r ∈ s.revisions, r.contentHash = digest r.body

namespace Rows

variable {r : PlanRevision} {x : Task}

section
variable (h : Rows digest s)
include h

theorem revision_nodup : (s.revisions.map PlanRevision.key).Nodup := by
  change (s.revisions.map (·.id)).Nodup
  rw [h.revisionIds]
  exact List.nodup_range

theorem task_nodup : (s.tasks.map Task.key).Nodup := by
  change (s.tasks.map (·.id)).Nodup
  rw [h.taskIds]
  exact List.nodup_range

theorem revision_lt (hr : r ∈ s.revisions) : r.id < s.revisions.length := by
  have hmem : r.id ∈ s.revisions.map (·.id) := List.mem_map_of_mem hr
  simpa [h.revisionIds] using hmem

theorem task_lt (hx : x ∈ s.tasks) : x.id < s.tasks.length := by
  have hmem : x.id ∈ s.tasks.map (·.id) := List.mem_map_of_mem hx
  simpa [h.taskIds] using hmem

theorem revision?_eq (hr : r ∈ s.revisions) : s.revision? r.id = some r :=
  find?_key h.revision_nodup hr

theorem task?_eq (hx : x ∈ s.tasks) : s.task? x.id = some x :=
  find?_key h.task_nodup hx

theorem revision_unique {r' : PlanRevision} (hr : r ∈ s.revisions) (hr' : r' ∈ s.revisions)
    (hid : r.id = r'.id) : r = r' :=
  eq_of_key_eq h.revision_nodup hr hr' hid

theorem exists_revision {id : Nat} (hid : id < s.revisions.length) : ∃ r ∈ s.revisions, r.id = id := by
  have hmem : id ∈ s.revisions.map (·.id) := by simpa [h.revisionIds] using hid
  simpa using hmem

section
variable (hr : r ∈ s.revisions)
include hr

theorem itemAt_eq {item : PlanRevisionItem} (hi : item ∈ r.items) : r.itemAt item.ordinal = some item := by
  refine find?_key ?_ hi
  rw [h.ordinals r hr]
  exact List.nodup_range'

theorem item_unique {i j : PlanRevisionItem} (hi : i ∈ r.items) (hj : j ∈ r.items)
    (hid : i.itemId = j.itemId) : i = j :=
  eq_of_key_eq (h.itemIds r hr) hi hj hid

theorem ordinal_range {item : PlanRevisionItem} (hi : item ∈ r.items) :
    1 ≤ item.ordinal ∧ item.ordinal ≤ r.items.length := by
  have hmem : item.ordinal ∈ r.items.map (·.ordinal) := List.mem_map_of_mem hi
  rw [h.ordinals r hr, List.mem_range'_1] at hmem
  omega

theorem lt_of_itemAt_none {ordinal : Nat} (hpos : 1 ≤ ordinal)
    (hnone : r.itemAt ordinal = none) : r.items.length < ordinal := by
  by_contra hle
  have hmem : ordinal ∈ r.items.map (·.ordinal) := by
    rw [h.ordinals r hr, List.mem_range'_1]
    omega
  obtain ⟨item, hi, ho⟩ := List.mem_map.mp hmem
  rw [← ho, h.itemAt_eq hr hi] at hnone
  cases hnone

end

theorem sameCore (hc : SameCore s t) : Rows digest t where
  revisionIds := by rw [hc.revisions, h.revisionIds]
  draftIds := by rw [hc.drafts, h.draftIds]
  taskIds := by rw [hc.tasks, h.taskIds]
  ordinals := by rw [hc.revisions]; exact h.ordinals
  itemIds := by rw [hc.revisions]; exact h.itemIds
  known := by rw [hc.revisions, hc.drafts]; exact h.known
  hashes := by rw [hc.revisions]; exact h.hashes

theorem putRevision {r' : PlanRevision} (hsame : SamePlan r r') (hr : r ∈ s.revisions) :
    Rows digest (s.putRevision r') := by
  have hmem : ∀ x ∈ put PlanRevision.key r' s.revisions, ∃ y ∈ s.revisions, SamePlan y x := fun x hx => by
    rcases mem_or_of_mem_put hx with rfl | hx
    · exact ⟨r, hr, hsame⟩
    · exact ⟨x, hx, .refl⟩
  refine { h with revisionIds := ?_, ordinals := ?_, itemIds := ?_, known := ?_, hashes := ?_ }
  · simp only [State.putRevision, length_put]
    rw [map_put (fun _ _ hk => hk), h.revisionIds]
  · intro x hx
    obtain ⟨y, hy, hyx⟩ := hmem x hx
    rw [hyx.items]
    exact h.ordinals y hy
  · intro x hx
    obtain ⟨y, hy, hyx⟩ := hmem x hx
    rw [hyx.items]
    exact h.itemIds y hy
  · intro x hx
    obtain ⟨y, hy, hyx⟩ := hmem x hx
    rw [hyx.items]
    exact h.known y hy
  · intro x hx
    obtain ⟨y, hy, hyx⟩ := hmem x hx
    rw [hyx.contentHash, hyx.body]
    exact h.hashes y hy

end

theorem addRevision (h : Rows digest s) {plan : PlanDraft} {ids : List Nat} {drafts : List WorkItemDraft}
    {revision : PlanRevision} (hnew : NewRevision digest s plan ids drafts revision) :
    Rows digest (addRevision s drafts revision) := by
  obtain ⟨hpre, hids, hlen, hall⟩ := resolveItemIdentities_ok h.draftIds hnew.resolved
  have hcol := revisionItems_itemIds hlen
  refine { h with revisionIds := ?_, draftIds := hids, ordinals := ?_, itemIds := ?_, known := ?_, hashes := ?_ }
  · simp [Discussion.addRevision, h.revisionIds, hnew.id, List.range_succ]
  · intro x hx
    rcases List.mem_append.mp hx with hx | hx
    · exact h.ordinals x hx
    · rw [List.mem_singleton.mp hx, hnew.items, revisionItems_length hlen, revisionItems_ordinals hlen]
  · intro x hx
    rcases List.mem_append.mp hx with hx | hx
    · exact h.itemIds x hx
    · rw [List.mem_singleton.mp hx, hnew.items, hcol]
      exact hnew.distinct
  · intro x hx item hi
    rcases List.mem_append.mp hx with hx | hx
    · exact Nat.lt_of_lt_of_le (h.known x hx item hi) hpre.length_le
    · have hmem : item.itemId ∈ (revisionItems plan ids).map (·.itemId) := by
        rw [List.mem_singleton.mp hx, hnew.items] at hi
        exact List.mem_map_of_mem hi
      exact hall _ (hcol ▸ hmem)
  · intro x hx
    rcases List.mem_append.mp hx with hx | hx
    · exact h.hashes x hx
    · rw [List.mem_singleton.mp hx, hnew.contentHash]

theorem withDrafts (h : Rows digest s) {drafts : List WorkItemDraft} (hpre : s.drafts <+: drafts)
    (hids : drafts.map (·.id) = List.range drafts.length) : Rows digest { s with drafts := drafts } :=
  { h with
    draftIds := hids
    known := fun r hr item hi => Nat.lt_of_lt_of_le (h.known r hr item hi) hpre.length_le }

theorem addTask (h : Rows digest s) (hx : x.id = s.tasks.length) : Rows digest { s with tasks := s.tasks ++ [x] } :=
  { h with taskIds := by simp [h.taskIds, hx, List.range_succ] }

theorem putTask (h : Rows digest s) : Rows digest (s.putTask x) := by
  refine { h with taskIds := ?_ }
  simp only [State.putTask, length_put]
  rw [map_put (fun _ _ hk => hk), h.taskIds]

theorem move (h : Rows digest s) (hm : Move digest s t) : Rows digest t := by
  cases hm with
  | side hc => exact h.sameCore hc
  | task => exact h.putTask
  | @revise previous revision plan ids resolved drafts hprev hhead hstatus hresolved hnew hkept =>
    have hres : Rows digest { s with drafts := resolved } := by
      rcases hresolved with rfl | ⟨ids0, hres⟩
      · exact h
      · obtain ⟨hpre, hids, -⟩ := resolveItemIdentities_ok h.draftIds hres
        exact h.withDrafts hpre hids
    have hsame : SamePlan previous { previous with state := .superseded } := by constructor <;> rfl
    have hput := hres.putRevision hsame hprev
    have hsup : Rows digest (supersede { s with drafts := resolved } previous) := { hput with }
    exact hsup.addRevision { hnew with id := by simp [hnew.id, supersede, State.putRevision] }
  | @approve revision r' now hwait hsame =>
    have hsame' : SamePlan revision { r' with state := .approved } := hsame.trans (by constructor <;> rfl)
    exact { h.putRevision hsame' hwait.mem with }
  | @close revision hmem hhead =>
    have hsame : SamePlan revision { revision with state := .discarded } := by constructor <;> rfl
    exact { h.putRevision hsame hmem with }
  | materialize => exact { h.addTask (x := interpretedTask s.tasks.length) rfl with }
  | stop | pause | advance | skip | complete => exact { h with }

end Rows

end Vuzol.Discussion
