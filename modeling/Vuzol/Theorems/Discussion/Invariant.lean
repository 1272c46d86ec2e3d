import Vuzol.Theorems.Discussion.Rows

/-! The invariant of a work package: what its pointers say about its revisions, and what its links say about
    its cursor. -/

namespace Vuzol.Discussion

open Vuzol.Lib

section
variable {digest : PlanBody → Digest} {s t : State}
variable {revision : PlanRevision}

def WorkPackageStatus.isPlanning : WorkPackageStatus → Bool
  | .draft | .approved => true
  | _ => false

def WorkPackageStatus.isDispatching : WorkPackageStatus → Bool
  | .running | .paused => true
  | _ => false

structure Fenced (s : State) : Prop where
  head : ∃ n, s.revisions.length = n + 1 ∧ s.package.headRevisionId = some n
  live : ∀ r ∈ s.revisions, r.state = .draft ∨ r.state = .approved → s.package.headRevisionId = some r.id
  bound : s.package.status = .approved ∨ s.package.status.isDispatching = true →
    s.package.approvedRevisionId = s.package.headRevisionId ∧
      ∀ r ∈ s.revisions, s.package.headRevisionId = some r.id → r.state = .approved

namespace Fenced

theorem sameCore (h : Fenced s) (hc : SameCore s t) : Fenced t where
  head := by rw [hc.revisions, hc.head]; exact h.head
  live := by rw [hc.revisions, hc.head]; exact h.live
  bound := by rw [hc.status, hc.approved, hc.head, hc.revisions]; exact h.bound

theorem restatus (h : Fenced s) (hhead : t.package.headRevisionId = s.package.headRevisionId)
    (happ : t.package.approvedRevisionId = s.package.approvedRevisionId) (hrev : t.revisions = s.revisions)
    (hst : t.package.status = .approved ∨ t.package.status.isDispatching = true →
      s.package.status = .approved ∨ s.package.status.isDispatching = true) : Fenced t where
  head := by rw [hrev, hhead]; exact h.head
  live := by rw [hrev, hhead]; exact h.live
  bound ht := by rw [happ, hhead, hrev]; exact h.bound (hst ht)

theorem supersede {previous revision : PlanRevision} {plan : PlanDraft} {ids : List Nat}
    {drafts resolved : List WorkItemDraft} (h : Fenced s) (hhead : s.package.headRevisionId = some previous.id)
    (hnew : NewRevision digest { s with drafts := resolved } plan ids drafts revision) :
    Fenced (addRevision (supersede s previous) drafts revision) where
  head := by
    refine ⟨s.revisions.length, ?_, ?_⟩
    · simp [addRevision, Discussion.supersede, State.putRevision]
    · simp [addRevision, hnew.id]
  live r hr hstate := by
    rcases Lib.mem_concat.mp hr with hr | rfl
    · -- The old head was the only live revision, and it is superseded.
      rcases mem_put.mp hr with ⟨rfl, -⟩ | ⟨hr, hne⟩
      · simp at hstate
      · have hold := h.live r hr hstate
        rw [hhead] at hold
        exact absurd (Option.some.inj hold).symm hne
    · rfl
  bound hst := by simp [addRevision, Discussion.supersede, WorkPackageStatus.isDispatching] at hst

theorem approve {r' : PlanRevision} {now : Nat} (h : Fenced s) (hwait : AwaitsApproval s revision)
    (hsame : SamePlan revision r') : Fenced (bindApproval s r' now) where
  head := by
    obtain ⟨n, hlen, hhead⟩ := h.head
    exact ⟨n, by simp [bindApproval, expirePendingApprovals, State.putRevision, hlen], hhead⟩
  live r hr hstate := by
    rcases mem_put.mp hr with ⟨rfl, -⟩ | ⟨hr, -⟩
    · exact hsame.id ▸ hwait.head
    · exact h.live r hr hstate
  bound _ := by
    refine ⟨?_, ?_⟩
    · have hhead := hwait.head
      rw [← hsame.id] at hhead
      exact hhead.symm
    · intro r hr hhead
      rcases mem_put.mp hr with ⟨rfl, -⟩ | ⟨-, hne⟩
      · rfl
      · have hid := hwait.head.symm.trans hhead
        exact absurd ((Option.some.inj hid).symm.trans hsame.id.symm) hne

theorem close (h : Fenced s) : Fenced (closePackage s revision) where
  head := by
    obtain ⟨n, hlen, hhead⟩ := h.head
    exact ⟨n, by simp [closePackage, State.putRevision, hlen], hhead⟩
  live r hr hstate := by
    rcases mem_put.mp hr with ⟨rfl, -⟩ | ⟨hr, -⟩
    · simp at hstate
    · exact h.live r hr hstate
  bound hst := by simp [closePackage, WorkPackageStatus.isDispatching] at hst

theorem move (h : Fenced s) (hm : Move digest s t) : Fenced t := by
  cases hm with
  | side hc => exact h.sameCore hc
  | revise hprev hhead hstatus hresolved hnew hkept => exact h.supersede hhead hnew
  | approve hwait hsame => exact h.approve hwait hsame
  | close => exact h.close
  | task | materialize => exact h.restatus rfl rfl rfl id
  | stop => exact h.restatus rfl rfl rfl (by simp [State.withStatus, WorkPackageStatus.isDispatching])
  | complete => exact h.restatus rfl rfl rfl (by simp [completePackage, WorkPackageStatus.isDispatching])
  | pause hst => exact h.restatus rfl rfl rfl (by simp [hst, WorkPackageStatus.isDispatching])
  | advance hl hx hdone hcur => exact h.restatus rfl rfl rfl id
  | skip hon =>
    refine h.restatus rfl rfl rfl fun _ => ?_
    rcases hon.status with hst | hst <;> simp [hst, WorkPackageStatus.isDispatching]

theorem start (h : Fenced s) (hs : Startable s revision) : Fenced (startRevision s revision) :=
  h.restatus rfl rfl rfl fun _ => Or.inl hs.status

theorem skipItem {revisionId ordinal : Nat} (h : Fenced s) (hst : s.package.status = .paused) :
    Fenced (passUnnamed s revisionId ordinal) :=
  h.restatus rfl rfl rfl (by simp [hst, WorkPackageStatus.isDispatching])

end Fenced

/-- The links of a package lie behind its cursor, and the cursor stands in the plan that is worked on. -/
structure Queue (s : State) : Prop where
  linkKeys : (s.links.map MaterializationLink.key).Nodup
  linkTasks : (s.links.map (·.taskId)).Nodup
  linkTask : ∀ l ∈ s.links, l.taskId < s.tasks.length
  linkItem : ∀ l ∈ s.links, ∃ r ∈ s.revisions, r.id = l.planRevisionId ∧
    ∃ item ∈ r.items, item.ordinal = l.ordinal ∧ item.itemId = l.workItemDraftId
  linkStarted : ∀ l ∈ s.links, ∃ k, s.package.runningRevisionId = some k ∧ l.planRevisionId ≤ k
  linkPassed : ∀ l ∈ s.links, s.package.runningRevisionId = some l.planRevisionId →
    ∀ c, s.package.cursorOrdinal = some c → l.ordinal ≤ c
  started : ∀ k, s.package.runningRevisionId = some k → k < s.revisions.length
  unstarted : s.package.status.isPlanning = true →
    ∀ k, s.package.runningRevisionId = some k → k + 1 < s.revisions.length
  onHead : s.package.status.isDispatching = true →
    s.package.runningRevisionId = s.package.headRevisionId ∧ ∃ c, s.package.cursorOrdinal = some c ∧ 1 ≤ c

namespace Queue

theorem keep (h : Queue s) (hlinks : t.links = s.links) (htasks : t.tasks.length = s.tasks.length)
    (hrevs : ∀ r ∈ s.revisions, ∃ r' ∈ t.revisions, SamePlan r r')
    (hlen : s.revisions.length ≤ t.revisions.length)
    (hrun : t.package.runningRevisionId = s.package.runningRevisionId)
    (hcursor : ∀ c, t.package.cursorOrdinal = some c → ∃ c₀, s.package.cursorOrdinal = some c₀ ∧ c₀ ≤ c)
    (hplan : t.package.status.isPlanning = true →
      s.package.status.isPlanning = true ∨ s.revisions.length < t.revisions.length)
    (hon : t.package.status.isDispatching = true → s.package.status.isDispatching = true ∧
      t.package.headRevisionId = s.package.headRevisionId ∧ t.package.cursorOrdinal ≠ none) : Queue t where
  linkKeys := by rw [hlinks]; exact h.linkKeys
  linkTasks := by rw [hlinks]; exact h.linkTasks
  linkTask := by rw [hlinks, htasks]; exact h.linkTask
  linkItem l hl := by
    obtain ⟨r, hr, hid, item, hi, ho, hd⟩ := h.linkItem l (hlinks ▸ hl)
    obtain ⟨r', hr', hsame⟩ := hrevs r hr
    exact ⟨r', hr', hsame.id.trans hid, item, hsame.items ▸ hi, ho, hd⟩
  linkStarted l hl := by rw [hrun]; exact h.linkStarted l (hlinks ▸ hl)
  linkPassed l hl hl' c hc := by
    obtain ⟨c₀, hc0, hle⟩ := hcursor c hc
    exact Nat.le_trans (h.linkPassed l (hlinks ▸ hl) (hrun ▸ hl') c₀ hc0) hle
  started k hk := Nat.lt_of_lt_of_le (h.started k (hrun ▸ hk)) hlen
  unstarted ht k hk := by
    rcases hplan ht with hs | hlt
    · exact Nat.lt_of_lt_of_le (h.unstarted hs k (hrun ▸ hk)) hlen
    · exact Nat.lt_of_le_of_lt (h.started k (hrun ▸ hk)) hlt
  onHead ht := by
    obtain ⟨hs, hhead, hne⟩ := hon ht
    obtain ⟨hrunning, c₀, hc0, hpos⟩ := h.onHead hs
    obtain ⟨c, hc⟩ := Option.ne_none_iff_exists'.mp hne
    obtain ⟨c1, hc1, hle⟩ := hcursor c hc
    rw [hc0] at hc1
    cases hc1
    exact ⟨by rw [hrun, hhead, hrunning], c, hc, Nat.le_trans hpos hle⟩

theorem recursor (h : Queue s) (hlinks : t.links = s.links) (htasks : t.tasks.length = s.tasks.length)
    (hrevs : t.revisions = s.revisions) (hhead : t.package.headRevisionId = s.package.headRevisionId)
    (hrun : t.package.runningRevisionId = s.package.runningRevisionId)
    (hcursor : ∀ c, t.package.cursorOrdinal = some c → ∃ c₀, s.package.cursorOrdinal = some c₀ ∧ c₀ ≤ c)
    (hplan : t.package.status.isPlanning = true → s.package.status.isPlanning = true)
    (hon : t.package.status.isDispatching = true →
      s.package.status.isDispatching = true ∧ t.package.cursorOrdinal ≠ none) : Queue t :=
  h.keep hlinks htasks (fun r hr => ⟨r, hrevs ▸ hr, .refl⟩) (by rw [hrevs]) hrun hcursor
    (fun ht => Or.inl (hplan ht)) (fun ht => ⟨(hon ht).1, hhead, (hon ht).2⟩)

theorem cursor_ne_none (h : Queue s) (hst : s.package.status.isDispatching = true) :
    s.package.cursorOrdinal ≠ none := by
  obtain ⟨-, c, hc, -⟩ := h.onHead hst
  simp [hc]

theorem sameCore (h : Queue s) (hc : SameCore s t) : Queue t := by
  refine h.recursor hc.links (by rw [hc.tasks]) hc.revisions hc.head hc.running ?_ ?_ ?_
  · rw [hc.cursor]
    exact fun c hc' => ⟨c, hc', le_rfl⟩
  · rw [hc.status]
    exact id
  · rw [hc.status, hc.cursor]
    exact fun ht => ⟨ht, h.cursor_ne_none ht⟩

theorem put_samePlan {r r' : PlanRevision} (hsame : SamePlan r r') (hn : (s.revisions.map PlanRevision.key).Nodup)
    (hr : r ∈ s.revisions) : ∀ x ∈ s.revisions, ∃ x' ∈ put PlanRevision.key r' s.revisions, SamePlan x x' := by
  intro x hx
  by_cases hk : x.key = r'.key
  · have hxr : x = r := eq_of_key_eq hn hx hr (hk.trans hsame.id)
    exact ⟨r', mem_put_self hx hk, hxr ▸ hsame⟩
  · exact ⟨x, mem_put_of_ne hx hk, .refl⟩

theorem addLink (h : Queue s) {item : PlanRevisionItem} {ordinal : Nat}
    (hrun : s.package.runningRevisionId = some revision.id) (hmem : revision ∈ s.revisions)
    (hm : Materializes s revision item ordinal) : Queue (addMaterialization s revision item ordinal) := by
  obtain ⟨hitem, hord⟩ := mem_of_itemAt hm.found
  have hkeys : ∀ l ∈ s.links, l.key ≠ (revision.id, ordinal) := fun l hl hkey => by
    have hnone := List.find?_eq_none.mp hm.unlinked l hl
    simp only [Prod.mk.injEq] at hkey
    simp [hkey.1, hkey.2] at hnone
  refine { h with
    linkKeys := ?_, linkTasks := ?_, linkTask := ?_, linkItem := ?_, linkStarted := ?_, linkPassed := ?_ }
  · simp only [addMaterialization, List.map_append, List.map_cons, List.map_nil]
    refine List.nodup_append.mpr ⟨h.linkKeys, List.nodup_singleton _, ?_⟩
    intro k hk k' hk'
    obtain ⟨l, hl, rfl⟩ := List.mem_map.mp hk
    rw [List.mem_singleton.mp hk']
    exact hkeys l hl
  · simp only [addMaterialization, List.map_append, List.map_cons, List.map_nil]
    refine List.nodup_append.mpr ⟨h.linkTasks, List.nodup_singleton _, ?_⟩
    intro k hk k' hk'
    obtain ⟨l, hl, rfl⟩ := List.mem_map.mp hk
    rw [List.mem_singleton.mp hk']
    exact (h.linkTask l hl).ne
  · intro l hl
    simp only [addMaterialization, List.length_append, List.length_singleton]
    rcases Lib.mem_concat.mp hl with hl | rfl
    · exact Nat.lt_succ_of_lt (h.linkTask l hl)
    · exact Nat.lt_succ_self _
  · intro l hl
    rcases Lib.mem_concat.mp hl with hl | rfl
    · exact h.linkItem l hl
    · exact ⟨revision, hmem, rfl, item, hitem, hord, rfl⟩
  · intro l hl
    rcases Lib.mem_concat.mp hl with hl | rfl
    · exact h.linkStarted l hl
    · exact ⟨revision.id, hrun, le_rfl⟩
  · intro l hl hl' c hc
    rcases Lib.mem_concat.mp hl with hl | rfl
    · exact h.linkPassed l hl hl' c hc
    · have hcur := hm.cursor.symm.trans hc
      exact (Option.some.inj hcur).le

theorem replace (h : Queue s) {l : MaterializationLink} (hst : s.package.status = .paused)
    (hl : s.currentLink = some l) : Queue (replaceTask s l) := by
  obtain ⟨hmem, -, -⟩ := currentLink_ok hl
  have hback : ∀ k ∈ put MaterializationLink.key { l with taskId := s.tasks.length } s.links,
      ∃ k0 ∈ s.links, k0.planRevisionId = k.planRevisionId ∧ k0.ordinal = k.ordinal ∧
        k0.workItemDraftId = k.workItemDraftId := fun k hk => by
    rcases mem_or_of_mem_put hk with rfl | hk
    · exact ⟨l, hmem, rfl, rfl, rfl⟩
    · exact ⟨k, hk, rfl, rfl, rfl⟩
  have hdisp : s.package.status.isDispatching = true := by rw [hst]; rfl
  refine { h with
    linkKeys := ?_, linkTasks := ?_, linkTask := ?_, linkItem := ?_, linkStarted := ?_, linkPassed := ?_,
    unstarted := ?_, onHead := fun _ => h.onHead hdisp }
  · simp only [replaceTask]
    rw [map_put (fun _ _ hk => hk)]
    exact h.linkKeys
  · -- The fresh identity is above all others, so that the column stays distinct.
    simp only [replaceTask, put, List.map_map]
    refine List.Nodup.map_on ?_ (List.Nodup.of_map _ h.linkKeys)
    intro a ha b hb hab
    have hda := h.linkTask a ha
    have hdb := h.linkTask b hb
    simp only [Function.comp_apply] at hab
    split at hab <;> split at hab
    · rename_i ha' hb'
      exact eq_of_key_eq h.linkKeys ha hb (ha'.trans hb'.symm)
    · exact absurd hab hdb.ne'
    · exact absurd hab hda.ne
    · exact eq_of_key_eq h.linkTasks ha hb hab
  · intro k hk
    simp only [replaceTask, List.length_append, List.length_singleton]
    rcases mem_or_of_mem_put hk with rfl | hk
    · exact Nat.lt_succ_self _
    · exact Nat.lt_succ_of_lt (h.linkTask k hk)
  · intro k hk
    obtain ⟨k0, hk0, hr, ho, hd⟩ := hback k hk
    rw [← hr, ← ho, ← hd]
    exact h.linkItem k0 hk0
  · intro k hk
    obtain ⟨k0, hk0, hr, -, -⟩ := hback k hk
    rw [← hr]
    exact h.linkStarted k0 hk0
  · intro k hk hrun c hc
    obtain ⟨k0, hk0, hr, ho, -⟩ := hback k hk
    rw [← hr] at hrun
    rw [← ho]
    exact h.linkPassed k0 hk0 hrun c hc
  · intro ht
    cases ht

theorem move (h : Queue s) (hrows : Rows digest s) (hm : Move digest s t) : Queue t := by
  cases hm with
  | side hc => exact h.sameCore hc
  | task =>
    exact h.recursor rfl (by simp [State.putTask]) rfl rfl rfl (fun c hc => ⟨c, hc, le_rfl⟩) id
      (fun ht => ⟨ht, h.cursor_ne_none ht⟩)
  | @revise previous revision _ _ _ _ hprev hhead hstatus hresolved hnew hkept =>
    have hsame : SamePlan previous { previous with state := .superseded } := by constructor <;> rfl
    refine h.keep rfl rfl ?_ ?_ rfl (fun c hc => ⟨c, hc, le_rfl⟩) (fun _ => Or.inr ?_) ?_
    · intro r hr
      obtain ⟨r', hr', hrr'⟩ := put_samePlan hsame hrows.revision_nodup hprev r hr
      exact ⟨r', List.mem_append_left _ hr', hrr'⟩
    · simp [addRevision, supersede, State.putRevision]
    · simp [addRevision, supersede, State.putRevision]
    · intro ht
      cases ht
  | @approve revision r' _ hwait hsame =>
    have hsame' : SamePlan revision { r' with state := .approved } := hsame.trans (by constructor <;> rfl)
    refine h.keep rfl rfl (put_samePlan hsame' hrows.revision_nodup hwait.mem) ?_ rfl
      (fun c hc => ⟨c, hc, le_rfl⟩) (fun _ => Or.inl ?_) ?_
    · simp [bindApproval, expirePendingApprovals, State.putRevision]
    · rw [hwait.status]
      rfl
    · intro ht
      cases ht
  | @close revision hmem hhead =>
    have hsame : SamePlan revision { revision with state := .discarded } := by constructor <;> rfl
    refine h.keep rfl rfl (put_samePlan hsame hrows.revision_nodup hmem) ?_ rfl (fun c hc => ⟨c, hc, le_rfl⟩) ?_ ?_
    · simp [closePackage, State.putRevision]
    · intro ht
      cases ht
    · intro ht
      cases ht
  | stop =>
    exact h.recursor rfl rfl rfl rfl rfl (fun c hc => ⟨c, hc, le_rfl⟩) (fun ht => by cases ht) (fun ht => by cases ht)
  | @pause ordinal hst hcursor =>
    have hdisp : s.package.status.isDispatching = true := by rw [hst]; rfl
    obtain ⟨-, c0, hc0, -⟩ := h.onHead hdisp
    refine h.recursor rfl rfl rfl rfl rfl ?_ (fun ht => by cases ht) (fun _ => ⟨hdisp, by simp [State.pausedAt]⟩)
    intro c hc
    have hco : c = ordinal := (Option.some.inj hc).symm
    exact ⟨c0, hc0, by rw [hco, hcursor c0 hc0]⟩
  | @advance l x hl hx hdone hcur =>
    obtain ⟨hst, -, hc0⟩ := isCurrent_iff.mp hcur
    have hdisp : s.package.status.isDispatching = true := by rw [hst]; rfl
    refine h.recursor rfl rfl rfl rfl rfl ?_ id (fun _ => ⟨hdisp, by simp [advanceCursor]⟩)
    intro c hc
    cases hc
    exact ⟨l.ordinal, hc0, Nat.le_succ _⟩
  | @skip revision ordinal item hon =>
    have hdisp : s.package.status.isDispatching = true := by
      rcases hon.status with hst | hst <;> rw [hst] <;> rfl
    refine h.recursor rfl rfl rfl rfl rfl ?_ (fun ht => by cases ht) (fun _ => ⟨hdisp, by simp [passItem]⟩)
    intro c hc
    cases hc
    exact ⟨ordinal, hon.cursor, Nat.le_succ _⟩
  | complete =>
    exact h.recursor rfl rfl rfl rfl rfl (fun c hc => by cases hc) (fun ht => by cases ht) (fun ht => by cases ht)
  | materialize hst hrun hmem hm => exact h.addLink hrun hmem hm

theorem skipItem (h : Queue s) {revisionId ordinal : Nat} (hst : s.package.status = .paused)
    (hc : s.package.cursorOrdinal = some ordinal) : Queue (passUnnamed s revisionId ordinal) := by
  have hdisp : s.package.status.isDispatching = true := by rw [hst]; rfl
  refine h.recursor rfl rfl rfl rfl rfl ?_ (fun ht => by cases ht) (fun _ => ⟨hdisp, by simp [passUnnamed]⟩)
  intro c hc'
  cases hc'
  exact ⟨ordinal, hc, Nat.le_succ _⟩

end Queue

theorem firstUnfinishedOrdinal_pos (h : Rows digest s) (hmem : revision ∈ s.revisions) :
    1 ≤ firstUnfinishedOrdinal s revision := by
  unfold firstUnfinishedOrdinal
  split
  · rename_i item hfind
    exact (h.ordinal_range hmem (List.mem_of_find?_eq_some hfind)).1
  · omega

structure Sound (digest : PlanBody → Digest) (s : State) : Prop where
  rows : Rows digest s
  fenced : Fenced s
  queue : Queue s

namespace Sound

section
variable (h : Sound digest s)
include h

theorem head_unstarted (hs : Startable s revision) :
    (∀ k, s.package.runningRevisionId = some k → k < revision.id) ∧ ∀ l ∈ s.links, l.planRevisionId < revision.id := by
  obtain ⟨n, hlen, hhead⟩ := h.fenced.head
  have hid : revision.id = n := Option.some.inj (hs.head.symm.trans hhead)
  have hplan : s.package.status.isPlanning = true := by rw [hs.status]; rfl
  have hrun : ∀ k, s.package.runningRevisionId = some k → k < revision.id := fun k hk => by
    have hlt := h.queue.unstarted hplan k hk
    omega
  refine ⟨hrun, ?_⟩
  intro l hl
  obtain ⟨k, hk, hle⟩ := h.queue.linkStarted l hl
  exact Nat.lt_of_le_of_lt hle (hrun k hk)

theorem start (hs : Startable s revision) :
    Sound digest (startRevision s revision) where
  rows := { h.rows with }
  fenced := h.fenced.start hs
  queue := by
    obtain ⟨-, hlinks⟩ := h.head_unstarted hs
    refine { h.queue with linkStarted := ?_, linkPassed := ?_, started := ?_, unstarted := ?_, onHead := ?_ }
    · exact fun l hl => ⟨revision.id, rfl, (hlinks l hl).le⟩
    · intro l hl hrun
      have hid : revision.id = l.planRevisionId := Option.some.inj hrun
      exact absurd hid (hlinks l hl).ne'
    · intro k hk
      cases hk
      exact h.rows.revision_lt hs.mem
    · intro ht
      cases ht
    · intro _
      exact ⟨hs.head.symm, _, rfl, firstUnfinishedOrdinal_pos h.rows hs.mem⟩

theorem move (hm : Move digest s t) : Sound digest t where
  rows := h.rows.move hm
  fenced := h.fenced.move hm
  queue := h.queue.move h.rows hm

theorem moves (hm : Moves digest s t) : Sound digest t := by
  induction hm with
  | refl => exact h
  | tail _ hmove ih => exact ih.move hmove

theorem retryFailedItem {l : MaterializationLink} (hst : s.package.status = .paused)
    (hl : s.currentLink = some l) : Sound digest (replaceTask s l) where
  rows := { h.rows.addTask (x := interpretedTask s.tasks.length) rfl with }
  fenced := h.fenced.restatus rfl rfl rfl (by simp [hst, WorkPackageStatus.isDispatching])
  queue := h.queue.replace hst hl

theorem resume (hst : s.package.status = .paused) : Sound digest (s.withStatus .running) where
  rows := { h.rows with }
  fenced := h.fenced.restatus rfl rfl rfl (by simp [hst, WorkPackageStatus.isDispatching])
  queue := by
    have hdisp : s.package.status.isDispatching = true := by rw [hst]; rfl
    exact h.queue.recursor rfl rfl rfl rfl rfl (fun c hc => ⟨c, hc, le_rfl⟩) (fun ht => by cases ht)
      (fun _ => ⟨hdisp, h.queue.cursor_ne_none hdisp⟩)

theorem sameCore (hc : SameCore s t) : Sound digest t :=
  ⟨h.rows.sameCore hc, h.fenced.sameCore hc, h.queue.sameCore hc⟩

end

theorem created (h : Created digest s) : Sound digest s := by
  obtain ⟨topic, goal, delegations, plan, commit, h⟩ := h
  simp only [createDraft, guard_eq_ok] at h
  obtain ⟨-, -, -, h⟩ := h
  obtain ⟨ids, drafts, revision, hnew, -, rfl⟩ := createRevision_ok h
  have hempty : ∀ goal, Rows digest
      { package := {}, goal := goal, delegations := delegations, activeInTopic := true } := fun goal => by
    constructor <;> simp
  refine ⟨(hempty _).addRevision hnew, ⟨⟨0, rfl, ?_⟩, ?_, ?_⟩, ?_⟩
  · simp [addRevision, hnew.id]
  · intro r hr _
    rw [List.mem_singleton.mp hr]
    rfl
  · simp [addRevision, WorkPackageStatus.isDispatching]
  · constructor <;> simp [addRevision, WorkPackageStatus.isDispatching]

theorem perform (h : Sound digest s) {op : Op} (hop : ∀ a b c, op ≠ .unparkGoal a b c)
    (hp : perform digest s op = .ok t) : Sound digest t := by
  cases perform_effect hp with
  | moves hm => exact h.moves hm
  | start hstart hm =>
    obtain ⟨hs, hmoves⟩ := start_moves hstart hm
    exact (h.start hs).moves hmoves
  | retryFailedItem hst hl => exact h.retryFailedItem hst hl
  | retryItem hu hst hsame => exact ((h.moves hu).resume hst).sameCore hsame
  | @skipItem _ revision ordinal _ hst hc hhead hmem hsame =>
    have hskip : Sound digest (passUnnamed s revision.id ordinal) :=
      ⟨{ h.rows with }, h.fenced.skipItem hst, h.queue.skipItem hst hc⟩
    exact hskip.sameCore hsame
  | unparkGoal hu => exact absurd rfl (hop _ _ _)

theorem reach {allow : State → Op → Prop} {s₀ : State} (hallow : ∀ s op, allow s op → ∀ a b c, op ≠ .unparkGoal a b c)
    (hc : Created digest s₀) (h : Reach (Discussion.perform digest) allow s₀ s) : Sound digest s :=
  h.invariant (created hc) fun hsound ha hp => hsound.perform (hallow _ _ ha) hp

end Sound

end

namespace Sample

def digest (body : PlanBody) : Digest := { h8 := body.title }

def item (localId : String) : PlanItemDraft := { localId := some localId, contract := { summary := localId } }

/-- The second item depends on the first. -/
def plan : PlanDraft where
  title := "plan"
  items := [item "a", { localId := some "b", contract := { summary := "b", dependencies := ["a"] } }]
  nonempty := by decide
  localIds := by decide
  itemIds := by decide
  ordered := by decide

def longerPlan : PlanDraft where
  title := "longer"
  items := plan.items ++ [item "c"]
  nonempty := by decide
  localIds := by decide
  itemIds := by decide
  ordered := by decide

def package : Except Error State :=
  createDraft digest {} (some { ownerUserId := 1, delegationId := some 0 }) [{ id := 0, ownerUserId := 1 }] plan none

def started : List Op := [
  .bindDelegatedApproval { fence := { revisionNumber := 1, h8 := "plan", generation := 1 }, delegationId := 0 },
  .start { fence := { revisionNumber := 1, h8 := "plan", generation := 2 }, agent := true }]

def firstCompleted : List Op :=
  started ++ [.taskMoves 0 .executing, .taskMoves 0 .completed, .processSequenceItem 0 4 0, .materializeRunning 0]

theorem reach (allow : State → Op → Prop) (ops : List Op) (p : State → Bool) (hall : ∀ op ∈ ops, ∀ u, allow u op)
    (h : ends p (package >>= fun s => runOps (perform digest) s ops) = true) :
    ∃ s₀ s, package = .ok s₀ ∧ Reach (perform digest) allow s₀ s ∧ p s = true := by
  obtain ⟨s, hs, hp⟩ := exists_of_ends h
  obtain ⟨s₀, hs0, hrun⟩ := bind_eq_ok.mp hs
  exact ⟨s₀, s, hs0, reach_of_runOps hall hrun, hp⟩

end Sample

end Vuzol.Discussion
