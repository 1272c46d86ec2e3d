import Vuzol.Theorems.Discussion.Approval

/-! The order of a queue. Whatever is delivered late or twice, the cursor of a package goes forward, what lies
    behind it stays as it is, and an item starts after the items it depends on. -/

namespace Vuzol.Discussion

open Vuzol.Lib

variable {digest : PlanBody → Digest} {s t u : State}
variable {l : MaterializationLink} {revision : PlanRevision} {item : PlanRevisionItem} {localId : String}

/-! ### The cursor -/

def Ahead (s t : State) : Prop :=
  (t.package.runningRevisionId = s.package.runningRevisionId ∧
    ∀ c, t.package.cursorOrdinal = some c → ∃ c₀, s.package.cursorOrdinal = some c₀ ∧ c₀ ≤ c) ∨
  ∃ k, t.package.runningRevisionId = some k ∧ ∀ k₀, s.package.runningRevisionId = some k₀ → k₀ < k

namespace Ahead

theorem of_eq (hrun : t.package.runningRevisionId = s.package.runningRevisionId)
    (hcursor : t.package.cursorOrdinal = s.package.cursorOrdinal) : Ahead s t :=
  Or.inl ⟨hrun, fun c hc => ⟨c, hcursor ▸ hc, le_rfl⟩⟩

theorem trans (h1 : Ahead s t) (h2 : Ahead t u) : Ahead s u := by
  rcases h2 with ⟨hrun2, hcursor2⟩ | ⟨k, hk, hnew⟩
  · rcases h1 with ⟨hrun1, hcursor1⟩ | ⟨k, hk, hnew⟩
    · refine Or.inl ⟨hrun2.trans hrun1, fun c hc => ?_⟩
      obtain ⟨c1, hc1, hle1⟩ := hcursor2 c hc
      obtain ⟨c0, hc0, hle0⟩ := hcursor1 c1 hc1
      exact ⟨c0, hc0, hle0.trans hle1⟩
    · exact Or.inr ⟨k, hrun2.trans hk, hnew⟩
  · refine Or.inr ⟨k, hk, fun k0 hk0 => ?_⟩
    rcases h1 with ⟨hrun1, -⟩ | ⟨k1, hk1, hnew1⟩
    · exact hnew k0 (hrun1.trans hk0)
    · exact (hnew1 k0 hk0).trans (hnew k1 hk1)

theorem cursor_le (h : Ahead s t) (hrun : t.package.runningRevisionId = s.package.runningRevisionId) {c c' : Nat}
    (hc : s.package.cursorOrdinal = some c) (hc' : t.package.cursorOrdinal = some c') : c ≤ c' := by
  rcases h with ⟨-, hcursor⟩ | ⟨k, hk, hnew⟩
  · obtain ⟨c0, hc0, hle⟩ := hcursor c' hc'
    rw [hc] at hc0
    cases hc0
    exact hle
  · exact absurd (hnew k (hrun.symm.trans hk)) (lt_irrefl k)

theorem move (hs : Sound digest s) (hm : Move digest s t) : Ahead s t := by
  cases hm with
  | side hc => exact of_eq hc.running hc.cursor
  | @pause ordinal hst hcursor =>
    have hdisp : s.package.status.isDispatching = true := by rw [hst]; rfl
    obtain ⟨-, c0, hc0, -⟩ := hs.queue.onHead hdisp
    refine Or.inl ⟨rfl, fun c hc => ⟨c0, hc0, ?_⟩⟩
    cases hc
    exact (hcursor c0 hc0).le
  | @advance l x hl hx hdone hcur =>
    refine Or.inl ⟨rfl, fun c hc => ⟨l.ordinal, (isCurrent_iff.mp hcur).2.2, ?_⟩⟩
    cases hc
    exact Nat.le_succ _
  | @skip revision ordinal item hon =>
    refine Or.inl ⟨rfl, fun c hc => ⟨ordinal, hon.cursor, ?_⟩⟩
    cases hc
    exact Nat.le_succ _
  | complete => exact Or.inl ⟨rfl, fun c hc => by cases hc⟩
  | _ => exact of_eq rfl rfl

theorem start (hs : Sound digest s) (hstart : Startable s revision) : Ahead s (startRevision s revision) :=
  Or.inr ⟨revision.id, rfl, (hs.head_unstarted hstart).1⟩

theorem skipItem {revisionId ordinal : Nat} (hc : s.package.cursorOrdinal = some ordinal) :
    Ahead s (passUnnamed s revisionId ordinal) := by
  refine Or.inl ⟨rfl, fun c hc' => ⟨ordinal, hc, ?_⟩⟩
  cases hc'
  exact Nat.le_succ _

end Ahead

/-! ### What lies behind the cursor -/

def Behind (s : State) (l : MaterializationLink) : Prop :=
  (∃ k, s.package.runningRevisionId = some k ∧ l.planRevisionId < k) ∨
    (s.package.runningRevisionId = some l.planRevisionId ∧ ∀ c, s.package.cursorOrdinal = some c → l.ordinal < c)

theorem Queue.behind (h : Queue s) (hl : l ∈ s.links)
    (hne : s.package.runningRevisionId = some l.planRevisionId → s.package.cursorOrdinal ≠ some l.ordinal) : Behind s l := by
  obtain ⟨k, hk, hle⟩ := h.linkStarted l hl
  rcases hle.lt_or_eq with hlt | rfl
  · exact Or.inl ⟨k, hk, hlt⟩
  · refine Or.inr ⟨hk, fun c hc => ?_⟩
    refine lt_of_le_of_ne (h.linkPassed l hl hk c hc) ?_
    rintro rfl
    exact hne hk hc

theorem Behind.ne_current {l' : MaterializationLink} (h : Behind s l) (hl' : s.currentLink = some l') : l.key ≠ l'.key := by
  obtain ⟨-, hrun, hcursor⟩ := currentLink_ok hl'
  intro hkey
  simp only [Prod.mk.injEq] at hkey
  rcases h with ⟨k, hk, hlt⟩ | ⟨-, hpast⟩
  · rw [hrun] at hk
    cases hk
    exact absurd hkey.1 hlt.ne
  · exact absurd hkey.2 (hpast _ hcursor).ne

theorem Behind.ahead (h : Behind s l) (ha : Ahead s t) : Behind t l := by
  rcases ha with ⟨hrun, hcursor⟩ | ⟨k, hk, hnew⟩
  · rcases h with ⟨k, hk, hlt⟩ | ⟨hk, hpast⟩
    · exact Or.inl ⟨k, hrun.trans hk, hlt⟩
    · refine Or.inr ⟨hrun.trans hk, fun c hc => ?_⟩
      obtain ⟨c0, hc0, hle⟩ := hcursor c hc
      exact lt_of_lt_of_le (hpast c0 hc0) hle
  · rcases h with ⟨k0, hk0, hlt⟩ | ⟨hk0, -⟩
    · exact Or.inl ⟨k, hk, hlt.trans (hnew k0 hk0)⟩
    · exact Or.inl ⟨k, hk, hnew _ hk0⟩

structure Extends (s t : State) : Prop where
  ahead : Ahead s t
  drafts : ∀ d ∈ s.drafts, d ∈ t.drafts
  plans : ∀ r ∈ s.revisions, ∃ r' ∈ t.revisions, SamePlan r r'
  links : ∀ l ∈ s.links, Behind s l → l ∈ t.links
  completed : ∀ x ∈ s.tasks, x.status = .completed → ∃ y ∈ t.tasks, y.id = x.id ∧ y.status = .completed
  events : ∀ e ∈ s.events, e ∈ t.events

namespace Extends

theorem trans (h1 : Extends s t) (h2 : Extends t u) : Extends s u where
  ahead := h1.ahead.trans h2.ahead
  drafts d hd := h2.drafts d (h1.drafts d hd)
  plans r hr := by
    obtain ⟨r', hr', hsame⟩ := h1.plans r hr
    obtain ⟨r'', hr'', hsame'⟩ := h2.plans r' hr'
    exact ⟨r'', hr'', hsame.trans hsame'⟩
  links l hl hb := h2.links l (h1.links l hl hb) (hb.ahead h1.ahead)
  completed x hx hdone := by
    obtain ⟨y, hy, hid, hdone'⟩ := h1.completed x hx hdone
    obtain ⟨z, hz, hid', hdone''⟩ := h2.completed y hy hdone'
    exact ⟨z, hz, hid'.trans hid, hdone''⟩
  events e he := h2.events e (h1.events e he)

theorem grow (ha : Ahead s t) (hdrafts : s.drafts ⊆ t.drafts)
    (hplans : ∀ r ∈ s.revisions, ∃ r' ∈ t.revisions, SamePlan r r') (hlinks : s.links ⊆ t.links)
    (htasks : s.tasks ⊆ t.tasks) (hevents : s.events ⊆ t.events) : Extends s t where
  ahead := ha
  drafts _ hd := hdrafts hd
  plans := hplans
  links _ hl _ := hlinks hl
  completed x hx hdone := ⟨x, htasks hx, rfl, hdone⟩
  events _ he := hevents he

theorem sameCore (hc : SameCore s t) : Extends s t :=
  grow (.of_eq hc.running hc.cursor) (by rw [hc.drafts]; exact fun _ h => h)
    (fun r hr => ⟨r, hc.revisions ▸ hr, .refl⟩) (by rw [hc.links]; exact fun _ h => h)
    (by rw [hc.tasks]; exact fun _ h => h) (by rw [hc.events]; exact fun _ h => h)

theorem putTask (hs : Sound digest s) {x y : Task} (hx : x ∈ s.tasks) (hid : y.id = x.id)
    (hst : y.status = x.status ∨ Follows x.status y.status) : Extends s (s.putTask y) where
  ahead := .of_eq rfl rfl
  drafts _ hd := hd
  plans r hr := ⟨r, hr, .refl⟩
  links _ hl _ := hl
  completed z hz hdone := by
    by_cases hk : z.key = y.key
    · have hzx : z = x := eq_of_key_eq hs.rows.task_nodup hz hx (hk.trans hid)
      subst hzx
      refine ⟨y, mem_put_self hz hk, hid, ?_⟩
      rcases hst with hst | hst
      · rw [hst, hdone]
      · exact absurd hdone hst.not_final.1
    · exact ⟨z, mem_put_of_ne hz hk, rfl, hdone⟩
  events _ he := he

theorem move (hs : Sound digest s) (hm : Move digest s t) : Extends s t := by
  have ha := Ahead.move hs hm
  have hplans := hm.plans hs.rows
  have hsub : ∀ {α : Type} (l : List α), l ⊆ l := fun l _ h => h
  cases hm with
  | side hc => exact sameCore hc
  | task hx hid hst => exact putTask hs hx hid hst
  | @revise previous revision plan ids resolved drafts hprev hhead hstatus hresolved hnew hkept =>
    refine grow ha ?_ hplans (hsub _) (hsub _) (hsub _)
    -- The identities are resolved once or twice, and each round only adds some.
    rcases hresolved with rfl | ⟨ids0, hres⟩
    · exact (resolveItemIdentities_ok hs.rows.draftIds hnew.resolved).1.subset
    · obtain ⟨hpre, hids, -⟩ := resolveItemIdentities_ok hs.rows.draftIds hres
      exact (hpre.trans (resolveItemIdentities_ok hids hnew.resolved).1).subset
  | skip => exact grow ha (hsub _) hplans (hsub _) (hsub _) (List.subset_append_left _ _)
  | materialize =>
    exact grow ha (hsub _) hplans (List.subset_append_left _ _) (List.subset_append_left _ _)
      (List.subset_append_left _ _)
  | _ => exact grow ha (hsub _) hplans (hsub _) (hsub _) (hsub _)

theorem moves (hs : Sound digest s) (hm : Moves digest s t) : Extends s t := by
  induction hm with
  | refl => exact sameCore .refl
  | tail hmoves hmove ih => exact ih.trans (move (hs.moves hmoves) hmove)

theorem start (hs : Sound digest s) (hstart : Startable s revision) : Extends s (startRevision s revision) :=
  grow (.start hs hstart) (fun _ h => h) (fun r hr => ⟨r, hr, .refl⟩) (fun _ h => h) (fun _ h => h) (fun _ h => h)

theorem replaceTask {l : MaterializationLink} (hl : s.currentLink = some l) : Extends s (replaceTask s l) where
  ahead := .of_eq rfl rfl
  drafts _ hd := hd
  plans r hr := ⟨r, hr, .refl⟩
  links k hk hb := by
    have hne : k.key ≠ l.key := hb.ne_current hl
    exact mem_put_of_ne hk hne
  completed x hx hdone := ⟨x, List.mem_append_left _ hx, rfl, hdone⟩
  events _ he := List.mem_append_left _ he

theorem resume {status : WorkPackageStatus} : Extends s (s.withStatus status) :=
  grow (.of_eq rfl rfl) (fun _ h => h) (fun r hr => ⟨r, hr, .refl⟩) (fun _ h => h) (fun _ h => h) (fun _ h => h)

theorem skipItem {revisionId ordinal : Nat} (hc : s.package.cursorOrdinal = some ordinal) :
    Extends s (passUnnamed s revisionId ordinal) :=
  grow (.skipItem hc) (fun _ h => h) (fun r hr => ⟨r, hr, .refl⟩) (fun _ h => h) (fun _ h => h)
    (List.subset_append_left _ _)

theorem perform (hs : Sound digest s) {op : Op} (hop : ∀ a b c, op ≠ .unparkGoal a b c)
    (hp : perform digest s op = .ok t) : Extends s t := by
  cases perform_effect hp with
  | moves hm => exact moves hs hm
  | start hstart hm =>
    obtain ⟨hs', hmoves⟩ := start_moves hstart hm
    exact (start hs hs').trans (moves (hs.start hs') hmoves)
  | retryFailedItem hst hl => exact replaceTask hl
  | retryItem hu hst hsame => exact ((moves hs hu).trans resume).trans (sameCore hsame)
  | skipItem hst hc hhead hmem hsame => exact (skipItem hc).trans (sameCore hsame)
  | unparkGoal => exact absurd rfl (hop _ _ _)

end Extends

/-! ### Dependencies -/

def Named (s : State) (item : PlanRevisionItem) (localId : String) : Prop :=
  ∃ d ∈ s.drafts, d.id = item.itemId ∧ d.localId = some localId

def CompletedBy (s : State) (item : PlanRevisionItem) (l : MaterializationLink) : Prop :=
  l.workItemDraftId = item.itemId ∧ (∃ x ∈ s.tasks, x.id = l.taskId ∧ x.status = .completed) ∧
    ∃ r ∈ s.revisions, r.id = l.planRevisionId ∧ ∃ i ∈ r.items, i.ordinal = l.ordinal ∧ i.contract = item.contract

def Skipped (s : State) (itemId : Nat) : Prop :=
  ∃ revisionId ordinal, WorkPackageEvent.itemSkipped revisionId ordinal (some itemId) ∈ s.events

def DependencyDone (s : State) (r : PlanRevision) (localId : String) : Prop :=
  ∃ item ∈ r.items, Named s item localId ∧ ((∃ l ∈ s.links, CompletedBy s item l) ∨ Skipped s item.itemId)

theorem completesItem_iff (h : Rows digest s) : completesItem s item l = true ↔ CompletedBy s item l := by
  simp only [completesItem, Bool.and_eq_true, beq_iff_eq, Option.any_eq_true, decide_eq_true_eq, CompletedBy, and_assoc]
  refine and_congr_right fun _ => and_congr ?_ ?_
  · constructor
    · rintro ⟨x, hx, hdone⟩
      exact ⟨x, (mem_of_task? hx).1, (mem_of_task? hx).2, hdone⟩
    · rintro ⟨x, hx, hid, hdone⟩
      exact ⟨x, hid ▸ h.task?_eq hx, hdone⟩
  · simp only [State.itemOf, Option.bind_eq_some_iff]
    constructor
    · rintro ⟨i, ⟨r, hr, hi⟩, hsame⟩
      obtain ⟨hmem, hord⟩ := mem_of_itemAt hi
      have hcontract : item.contract = i.contract := by simpa [samePlanItem] using hsame
      exact ⟨r, (mem_of_revision? hr).1, (mem_of_revision? hr).2, i, hmem, hord, hcontract.symm⟩
    · rintro ⟨r, hr, hid, i, hi, hord, hsame⟩
      exact ⟨i, ⟨r, hid ▸ h.revision?_eq hr, hord ▸ h.itemAt_eq hr hi⟩, by simp [samePlanItem, hsame]⟩

theorem itemWasSkipped_iff {itemId : Nat} : itemWasSkipped s itemId = true ↔ Skipped s itemId := by
  simp only [itemWasSkipped, List.any_eq_true]
  constructor
  · rintro ⟨e, he, hmatch⟩
    split at hmatch
    · rename_i revisionId ordinal id
      have hid : id = itemId := by simpa using hmatch
      exact ⟨revisionId, ordinal, hid ▸ he⟩
    · cases hmatch
  · rintro ⟨revisionId, ordinal, he⟩
    exact ⟨_, he, by simp⟩

def DoneBehind (s : State) (r : PlanRevision) (localId : String) : Prop :=
  ∃ item ∈ r.items, Named s item localId ∧
    ((∃ l ∈ s.links, Behind s l ∧ CompletedBy s item l) ∨ Skipped s item.itemId)

theorem DoneBehind.done {r : PlanRevision} (h : DoneBehind s r localId) : DependencyDone s r localId := by
  obtain ⟨item, hi, hname, ⟨l, hl, -, hdone⟩ | hskip⟩ := h
  · exact ⟨item, hi, hname, Or.inl ⟨l, hl, hdone⟩⟩
  · exact ⟨item, hi, hname, Or.inr hskip⟩

theorem CompletedBy.mono (h : CompletedBy s item l) (he : Extends s t) : CompletedBy t item l := by
  obtain ⟨hid, ⟨x, hx, hxid, hdone⟩, r, hr, hrid, i, hi, hord, hsame⟩ := h
  obtain ⟨y, hy, hyid, hdone'⟩ := he.completed x hx hdone
  obtain ⟨r', hr', hplan⟩ := he.plans r hr
  exact ⟨hid, ⟨y, hy, hyid.trans hxid, hdone'⟩, r', hr', hplan.id.trans hrid, i, hplan.items ▸ hi, hord, hsame⟩

theorem Skipped.mono {itemId : Nat} (h : Skipped s itemId) (he : Extends s t) : Skipped t itemId := by
  obtain ⟨revisionId, ordinal, hmem⟩ := h
  exact ⟨revisionId, ordinal, he.events _ hmem⟩

theorem DoneBehind.mono {r r' : PlanRevision} (h : DoneBehind s r localId) (he : Extends s t) (hsame : SamePlan r r') :
    DoneBehind t r' localId := by
  obtain ⟨item, hi, ⟨d, hd, hid, hname⟩, hcase⟩ := h
  refine ⟨item, hsame.items ▸ hi, ⟨d, he.drafts d hd, hid, hname⟩, ?_⟩
  rcases hcase with ⟨l, hl, hb, hdone⟩ | hskip
  · exact Or.inl ⟨l, he.links l hl hb, hb.ahead he.ahead, hdone.mono he⟩
  · exact Or.inr (hskip.mono he)

theorem Materializes.doneBehind (hs : Sound digest s) {ordinal : Nat} (hrun : s.package.runningRevisionId = some revision.id)
    (hm : Materializes s revision item ordinal) (hdep : localId ∈ item.contract.dependencies) :
    DoneBehind s revision localId := by
  have hmet := hm.met localId hdep
  simp only [dependencyMet, Option.any_eq_true, Bool.or_eq_true, List.any_eq_true] at hmet
  obtain ⟨dep, hfind, hcase⟩ := hmet
  have hname := List.find?_some hfind
  simp only [List.any_eq_true, Bool.and_eq_true, beq_iff_eq] at hname
  refine ⟨dep, List.mem_of_find?_eq_some hfind, hname, ?_⟩
  rcases hcase with ⟨l, hl, hdone⟩ | hskip
  · refine Or.inl ⟨l, hl, ?_, (completesItem_iff hs.rows).mp hdone⟩
    refine hs.queue.behind hl fun hl' hc => ?_
    have hkey := List.find?_eq_none.mp hm.unlinked l hl
    have hrev : revision.id = l.planRevisionId := Option.some.inj (hrun.symm.trans hl')
    have hord : ordinal = l.ordinal := Option.some.inj (hm.cursor.symm.trans hc)
    simp [hrev, hord] at hkey
  · exact Or.inr (itemWasSkipped_iff.mp hskip)

def Ordered (s : State) : Prop :=
  ∀ l ∈ s.links, ∀ r ∈ s.revisions, r.id = l.planRevisionId → ∀ item ∈ r.items, item.ordinal = l.ordinal →
    ∀ localId ∈ item.contract.dependencies, DoneBehind s r localId

namespace Ordered

theorem mono (h : Ordered s) (hs : Sound digest s) (ht : Sound digest t) (he : Extends s t)
    (hlinks : ∀ l ∈ t.links, ∃ l₀ ∈ s.links, l₀.key = l.key) : Ordered t := by
  intro l hl r' hr' hid item hi hord localId hdep
  obtain ⟨l₀, hl0, hkey⟩ := hlinks l hl
  simp only [Prod.mk.injEq] at hkey
  obtain ⟨r, hr, hrid, -⟩ := hs.queue.linkItem l₀ hl0
  obtain ⟨r'', hr'', hsame⟩ := he.plans r hr
  have hrr : r'' = r' := ht.rows.revision_unique hr'' hr' (by rw [hsame.id, hrid, hkey.1, hid])
  subst hrr
  have hdone := h l₀ hl0 r hr hrid item (hsame.items ▸ hi) (hord.trans hkey.2.symm) localId hdep
  exact hdone.mono he hsame

theorem move (h : Ordered s) (hs : Sound digest s) (hm : Move digest s t) : Ordered t := by
  have he := Extends.move hs hm
  have ht := hs.move hm
  cases hm with
  | side hc =>
    refine h.mono hs ht he fun l hl => ⟨l, ?_, rfl⟩
    rw [← hc.links]
    exact hl
  | @materialize revision item ordinal hst hrun hmem hm =>
    intro l hl r hr hid i hi hord localId hdep
    rcases Lib.mem_concat.mp hl with hl | rfl
    · exact (h l hl r hr hid i hi hord localId hdep).mono he .refl
    · have hrr : r = revision := hs.rows.revision_unique hr hmem hid
      subst hrr
      have hii : some i = some item := (hs.rows.itemAt_eq hr hi).symm.trans (hord ▸ hm.found)
      cases hii
      exact (hm.doneBehind hs hrun hdep).mono he .refl
  | _ => exact h.mono hs ht he fun l hl => ⟨l, hl, rfl⟩

theorem moves (h : Ordered s) (hs : Sound digest s) (hm : Moves digest s t) : Ordered t := by
  induction hm with
  | refl => exact h
  | tail hmoves hmove ih => exact ih.move (hs.moves hmoves) hmove

theorem perform (h : Ordered s) (hs : Sound digest s) {op : Op} (hop : ∀ a b c, op ≠ .unparkGoal a b c)
    (hp : perform digest s op = .ok t) : Ordered t := by
  have he := Extends.perform hs hop hp
  have ht := hs.perform hop hp
  cases perform_effect hp with
  | moves hm => exact h.moves hs hm
  | start hstart hm =>
    obtain ⟨hs', hmoves⟩ := start_moves hstart hm
    have hstarted := h.mono hs (hs.start hs') (.start hs hs') fun l hl => ⟨l, hl, rfl⟩
    exact hstarted.moves (hs.start hs') hmoves
  | @retryFailedItem _ l hst hl =>
    refine h.mono hs ht he fun k hk => ?_
    rcases mem_or_of_mem_put hk with rfl | hk
    · exact ⟨l, (currentLink_ok hl).1, rfl⟩
    · exact ⟨k, hk, rfl⟩
  | @retryItem _ u _ hu hst hsame =>
    have hu' : Sound digest u := hs.moves hu
    have heu : Extends u t := Extends.resume.trans (.sameCore hsame)
    refine (h.moves hs hu).mono hu' ht heu fun l hl => ⟨l, ?_, rfl⟩
    rw [hsame.links] at hl
    exact hl
  | skipItem hst hc hhead hmem hsame =>
    refine h.mono hs ht he fun l hl => ⟨l, ?_, rfl⟩
    rw [hsame.links] at hl
    exact hl
  | unparkGoal => exact absurd rfl (hop _ _ _)

end Ordered

/-! ### Repeated observations -/

/-- The commands of the plan and of its queue, the observations and what other subsystems write; not the
    owner's retry that goes on with the same task, and not the return of a parked package. -/
def Op.movesOn : Op → Bool
  | .retryItem _ | .unparkGoal .. => false
  | _ => true

structure Settled (evidence : Prop) (taskId : Nat) (s : State) : Prop where
  known : taskId < s.tasks.length
  links : ∀ l ∈ s.links, l.taskId = taskId → evidence ∧ (s.package.status = .running → Behind s l)

namespace Settled
variable {evidence : Prop} {taskId : Nat}

section
variable (h : Settled evidence taskId s)
include h

theorem keep (htasks : s.tasks.length ≤ t.tasks.length)
    (hlinks : ∀ l ∈ t.links, l.taskId = taskId → l ∈ s.links)
    (hb : t.package.status = .running → ∀ l ∈ t.links, l.taskId = taskId → Behind t l) : Settled evidence taskId t where
  known := lt_of_lt_of_le h.known htasks
  links l hl hid := ⟨(h.links l (hlinks l hl hid) hid).1, fun hst => hb hst l hl hid⟩

theorem stay (ha : Ahead s t) (htasks : s.tasks.length ≤ t.tasks.length)
    (hlinks : ∀ l ∈ t.links, l.taskId = taskId → l ∈ s.links)
    (hst : t.package.status = .running → s.package.status = .running) : Settled evidence taskId t :=
  h.keep htasks hlinks fun ht l hl hid => ((h.links l (hlinks l hl hid) hid).2 (hst ht)).ahead ha

theorem pass (ht : Queue t) (htasks : t.tasks = s.tasks) (hlinks : t.links = s.links)
    {c : Nat} (hc : t.package.cursorOrdinal = some (c + 1))
    (hpassed : ∀ l ∈ s.links, t.package.runningRevisionId = some l.planRevisionId → l.ordinal ≤ c) :
    Settled evidence taskId t := by
  refine h.keep (by rw [htasks]) (fun l hl _ => hlinks ▸ hl) fun _ l hl _ => ht.behind hl fun hrun hcur => ?_
  have hle := hpassed l (hlinks ▸ hl) hrun
  have hord : c + 1 = l.ordinal := Option.some.inj (hc.symm.trans hcur)
  omega

theorem move (hs : Sound digest s) (hm : Move digest s t) : Settled evidence taskId t := by
  have ha := Ahead.move hs hm
  have ht := hs.move hm
  cases hm with
  | side hc => exact h.stay ha (by rw [hc.tasks]) (fun l hl _ => hc.links ▸ hl) (fun hst => hc.status ▸ hst)
  | task => exact h.stay ha (by simp [State.putTask]) (fun l hl _ => hl) id
  | advance => exact h.stay ha le_rfl (fun l hl _ => hl) id
  | @skip revision ordinal item hon =>
    refine h.pass (c := ordinal) ht.queue rfl rfl rfl ?_
    exact fun l hl hrun => hs.queue.linkPassed l hl hrun ordinal hon.cursor
  | materialize =>
    refine h.stay ha (by simp [addMaterialization]) ?_ id
    intro l hl hid
    rcases Lib.mem_concat.mp hl with hl | rfl
    · exact hl
    · exact absurd hid h.known.ne'
  | revise | approve | close | stop | pause | complete =>
    exact h.stay ha le_rfl (fun l hl _ => hl) (fun hst => by cases hst)

theorem moves (hs : Sound digest s) (hm : Moves digest s t) : Settled evidence taskId t := by
  induction hm with
  | refl => exact h
  | tail hmoves hmove ih => exact ih.move (hs.moves hmoves) hmove

theorem start (hs : Sound digest s) (hstart : Startable s revision) :
    Settled evidence taskId (startRevision s revision) :=
  h.keep le_rfl (fun _ hl _ => hl) fun _ l hl _ => Or.inl ⟨revision.id, rfl, (hs.head_unstarted hstart).2 l hl⟩

end

theorem replaceTask (h : Settled evidence taskId s) (hs : Sound digest s) {l : MaterializationLink}
    (hl : s.currentLink = some l) : Settled evidence taskId (replaceTask s l) := by
  obtain ⟨-, hrun, hcursor⟩ := currentLink_ok hl
  have hold : ∀ k ∈ (Discussion.replaceTask s l).links, k.taskId = taskId → k ∈ s.links ∧ k.key ≠ l.key := by
    intro k hk hid
    rcases mem_put.mp hk with ⟨rfl, -⟩ | ⟨hk, hne⟩
    · exact absurd hid h.known.ne'
    · exact ⟨hk, hne⟩
  refine h.keep (by simp [Discussion.replaceTask]) (fun k hk hid => (hold k hk hid).1) fun _ k hk hid => ?_
  obtain ⟨hk', hne⟩ := hold k hk hid
  have hb : Behind s k := hs.queue.behind hk' fun hrun' hcursor' => by
    have hrev := Option.some.inj (hrun'.symm.trans hrun)
    have hord := Option.some.inj (hcursor'.symm.trans hcursor)
    exact hne (Prod.ext hrev hord)
  exact hb

theorem perform (h : Settled evidence taskId s) (hs : Sound digest s) {op : Op} (hop : op.movesOn = true)
    (hp : perform digest s op = .ok t) : Settled evidence taskId t := by
  cases perform_effect hp with
  | moves hm => exact h.moves hs hm
  | start hstart hm =>
    obtain ⟨hs', hmoves⟩ := start_moves hstart hm
    exact (h.start hs hs').moves (hs.start hs') hmoves
  | retryFailedItem hst hl => exact h.replaceTask hs hl
  | @skipItem _ revision ordinal _ hst hc hhead hmem hsame =>
    have ht : Sound digest t := hs.perform (fun _ _ _ => by rintro ⟨⟩) hp
    refine h.pass (c := ordinal) ht.queue hsame.tasks hsame.links hsame.cursor ?_
    intro l hl hrun
    rw [hsame.running] at hrun
    exact hs.queue.linkPassed l hl hrun ordinal hc
  | retryItem | unparkGoal => cases hop

end Settled

theorem Queue.linkOf_eq (h : Queue s) (hl : l ∈ s.links) : s.linkOf l.taskId = some l :=
  find?_key h.linkTasks hl

theorem observeTerminal_settles (hs : Sound digest s) {taskId now : Nat} {x : Task} {result : Option SequenceResult}
    (hx : s.task? taskId = some x) (h : observeTerminal s taskId now = .ok (t, result)) :
    Settled (isTerminalEvidence x.status = true) taskId t := by
  have hknown : taskId < s.tasks.length := by
    obtain ⟨hmem, rfl⟩ := mem_of_task? hx
    exact hs.rows.task_lt hmem
  have hevidence : ∀ l ∈ s.links, l.taskId = taskId → isTerminalEvidence x.status = true := by
    rintro l hl rfl
    unfold observeTerminal at h
    simp only [hs.queue.linkOf_eq hl, hx, guard_eq_ok, Bool.not_eq_true', Bool.not_eq_false] at h
    exact h.1
  rcases observeTerminal_ok h with ⟨rfl, hcur⟩ | ⟨l, y, hl, hy, hcur, -, ⟨-, rfl⟩ | ⟨hdone, r, hobs⟩⟩
  · refine ⟨hknown, fun l hl hid => ⟨hevidence l hl hid, fun hst => hs.queue.behind hl fun hrun hc => ?_⟩⟩
    have hnot := hcur l (hid ▸ hs.queue.linkOf_eq hl)
    rw [isCurrent_iff.mpr ⟨hst, hrun, hc⟩] at hnot
    cases hnot
  · exact ⟨hknown, fun l hl hid => ⟨hevidence l hl hid, fun hst => by cases hst⟩⟩
  · obtain ⟨hst, hrun, hc⟩ := isCurrent_iff.mp hcur
    obtain ⟨hmem, hid⟩ := mem_of_linkOf hl
    have hadvance : Move digest s (advanceCursor s l.ordinal) := .advance hmem (hid ▸ hy) hdone hcur
    have hsettled : Settled (isTerminalEvidence x.status = true) taskId (advanceCursor s l.ordinal) := by
      refine ⟨hknown, fun k hk hkid => ⟨hevidence k hk hkid, fun _ => ?_⟩⟩
      have hkl : k = l := eq_of_key_eq hs.queue.linkTasks hk hmem (hkid.trans hid.symm)
      subst hkl
      refine Or.inr ⟨hrun, fun c hc' => ?_⟩
      cases hc'
      exact Nat.lt_succ_self _
    obtain ⟨revision, hrev, rfl | hmat⟩ := observeCompleted_ok hobs
    · exact hsettled
    · obtain ⟨hrevmem, hrevid⟩ := mem_of_revision? hrev
      exact hsettled.moves (hs.move hadvance) (materializeCurrent_moves hst (hrevid ▸ hrun) hrevmem hmat)

theorem Settled.observeTerminal_eq (hq : Queue s) {taskId now : Nat} {y : Task}
    (h : Settled (isTerminalEvidence y.status = true) taskId s) (hy : s.task? taskId = some y) :
    ∃ result, observeTerminal s taskId now = .ok (s, result) := by
  unfold observeTerminal
  cases hl : s.linkOf taskId with
  | none => exact ⟨none, rfl⟩
  | some l =>
    obtain ⟨hmem, hid⟩ := mem_of_linkOf hl
    obtain ⟨hevidence, hb⟩ := h.links l hmem hid
    have hcur : isCurrent s l = false := by
      by_contra hcur
      obtain ⟨hst, hrun, hc⟩ := isCurrent_iff.mp (by simpa using hcur)
      have hlink : s.currentLink = some l := by
        have hat : s.linkAt l.planRevisionId l.ordinal = some l :=
          find?_unique hq.linkKeys hmem (by simp) fun k hk hkey => by simpa using hkey
        simp [State.currentLink, hrun, hc, hat]
      exact (hb hst).ne_current hlink rfl
    simp [hy, hevidence, hcur]

/-! ### Completion -/

def cursorReached (s : State) (revision : PlanRevision) : Op → Option Nat
  | .start _ => some (firstUnfinishedOrdinal s revision)
  | .observeTerminal .. | .processSequenceItem .. | .skipCurrent .. => s.package.cursorOrdinal.map (· + 1)
  | _ => s.package.cursorOrdinal

def PassesLast (s : State) (op : Op) (t : State) : Prop :=
  ∃ r ∈ s.revisions, t.package.runningRevisionId = some r.id ∧
    ∃ c, cursorReached s r op = some c ∧ ∀ item ∈ r.items, item.ordinal < c

theorem Rows.past_items (h : Rows digest s) {r : PlanRevision} (hr : r ∈ s.revisions) {c : Nat} (hpos : 1 ≤ c)
    (hnone : r.itemAt c = none) : ∀ item ∈ r.items, item.ordinal < c := fun _ hi =>
  lt_of_le_of_lt (h.ordinal_range hr hi).2 (h.lt_of_itemAt_none hr hpos hnone)

theorem transitionTask_package {x : Task} {target : Workflow.TaskStatus} (h : transitionTask s x target = .ok t) :
    t.package = s.package := by
  obtain ⟨-, rfl⟩ := transitionTask_ok.mp h
  unfold publishTaskEvent
  split <;> rfl

theorem materializeCurrent_completes {now : Nat} {result : SequenceResult}
    (h : materializeCurrent s revision now = .ok (t, result)) (ht : t.package.status = .completed)
    (hs : s.package.status ≠ .completed) :
    t.package.runningRevisionId = s.package.runningRevisionId ∧
      ∃ c, s.package.cursorOrdinal = some c ∧ revision.itemAt c = none := by
  rcases materializeCurrent_ok h with ⟨rfl, -⟩ | ⟨rfl, c, hc, hnone⟩ | ⟨item, ordinal, -, rfl, -⟩
  · exact absurd ht hs
  · exact ⟨rfl, c, hc, hnone⟩
  · exact absurd ht hs

theorem observeTerminal_completes {taskId now : Nat} {result : Option SequenceResult}
    (h : observeTerminal s taskId now = .ok (t, result)) (ht : t.package.status = .completed)
    (hs : s.package.status ≠ .completed) :
    ∃ r ∈ s.revisions, t.package.runningRevisionId = some r.id ∧
      ∃ c, s.package.cursorOrdinal = some c ∧ r.itemAt (c + 1) = none := by
  rcases observeTerminal_ok h with ⟨rfl, -⟩ | ⟨l, x, -, -, hcur, -, ⟨-, rfl⟩ | ⟨-, r, hobs⟩⟩
  · exact absurd ht hs
  · cases ht
  · obtain ⟨hst, hrun, hc⟩ := isCurrent_iff.mp hcur
    obtain ⟨revision, hrev, rfl | hmat⟩ := observeCompleted_ok hobs
    · exact absurd ht hs
    · obtain ⟨hmem, hid⟩ := mem_of_revision? hrev
      obtain ⟨hrunning, c, hc', hnone⟩ := materializeCurrent_completes hmat ht hs
      cases hc'
      exact ⟨revision, hmem, hrunning.trans (hid ▸ hrun), l.ordinal, hc, hnone⟩

theorem skipCurrent_completes {c : Cancellation} {now : Nat} {result : SequenceResult}
    (h : skipCurrent s c now = .ok (t, result)) (ht : t.package.status = .completed) :
    ∃ r ∈ s.revisions, t.package.runningRevisionId = some r.id ∧
      ∃ c, s.package.cursorOrdinal = some c ∧ r.itemAt (c + 1) = none := by
  obtain ⟨revision, ordinal, item, u, hon, hu, hcase⟩ := skipCurrent_ok h
  obtain ⟨tasks, outbox, rfl⟩ := cancelLive_frame hu
  rcases hcase with rfl | ⟨hmat, hnone⟩
  · cases ht
  · obtain ⟨hrunning, -⟩ := materializeCurrent_completes hmat ht (by simp [passItem])
    exact ⟨revision, hon.mem, hrunning.trans hon.running, ordinal, hon.cursor, hnone⟩

theorem perform_completes (hsound : Sound digest s) {op : Op} (hop : op.movesOn = true)
    (hp : perform digest s op = .ok t) (ht : t.package.status = .completed) (hs : s.package.status ≠ .completed) :
    PassesLast s op t := by
  have hnext : ∀ r ∈ s.revisions, ∀ c, r.itemAt (c + 1) = none → ∀ item ∈ r.items, item.ordinal < c + 1 :=
    fun r hr c hnone => hsound.rows.past_items hr (Nat.le_add_left 1 c) hnone
  cases op with
  | reviseDraft r =>
    obtain ⟨previous, u, v, -, -, hv, rfl⟩ := reviseDraft_ok hp
    obtain ⟨ids, drafts, revision, -, -, rfl⟩ := createRevision_ok hv
    cases ht
  | restartPlan fence now =>
    obtain ⟨-, -, plan, w, hw, rfl⟩ := restartPlan_ok hp
    obtain ⟨previous, u, v, -, -, hv, rfl⟩ := reviseDraft_ok hw
    obtain ⟨ids, drafts, revision, -, -, rfl⟩ := createRevision_ok hv
    cases ht
  | approve r =>
    obtain ⟨-, revision, goal, -, -, ⟨rfl, -, -⟩ | ⟨hwait, rfl⟩⟩ := approve_ok hp
    · exact absurd ht hs
    · rw [SameCore.settleGoal.status] at ht
      cases ht
  | bindDelegatedApproval r =>
    obtain ⟨-, revision, -, -, rfl⟩ := bindDelegatedApproval_ok hp
    cases ht
  | start r =>
    obtain ⟨⟨u, result⟩, hu, rfl⟩ := map_eq_ok.mp hp
    obtain ⟨revision, hstart, hm⟩ := start_ok hu
    obtain ⟨-, -, hs'⟩ := startable_ok hstart
    obtain ⟨hrunning, c, hc, hnone⟩ := materializeCurrent_completes hm ht (by simp [startRevision])
    cases hc
    exact ⟨revision, hs'.mem, hrunning, _, rfl,
      hsound.rows.past_items hs'.mem (firstUnfinishedOrdinal_pos hsound.rows hs'.mem) hnone⟩
  | discard fence =>
    obtain ⟨-, -, revision, -, -, rfl⟩ := discard_ok hp
    cases ht
  | stopPackage fence c =>
    obtain ⟨-, -, revision, u, -, -, -, rfl⟩ := stopPackage_ok hp
    cases ht
  | finishPackage fence c =>
    obtain ⟨revision, u, -, -, -, rfl⟩ := finishPackage_ok hp
    cases ht
  | observeTerminal taskId now =>
    obtain ⟨⟨u, result⟩, hu, rfl⟩ := map_eq_ok.mp hp
    obtain ⟨r, hr, hrun, c, hc, hnone⟩ := observeTerminal_completes hu ht hs
    exact ⟨r, hr, hrun, c + 1, by simp [cursorReached, hc], hnext r hr c hnone⟩
  | processSequenceItem taskId version now =>
    obtain ⟨-, u, rfl, ⟨result, hu⟩ | ⟨rfl, -⟩⟩ := processSequenceItem_ok hp
    · obtain ⟨r, hr, hrun, c, hc, hnone⟩ := observeTerminal_completes hu ht hs
      exact ⟨r, hr, hrun, c + 1, by simp [cursorReached, hc], hnext r hr c hnone⟩
    · exact absurd ht hs
  | skipCurrent c now =>
    obtain ⟨⟨u, result⟩, hu, rfl⟩ := map_eq_ok.mp hp
    obtain ⟨r, hr, hrun, c, hc, hnone⟩ := skipCurrent_completes hu ht
    exact ⟨r, hr, hrun, c + 1, by simp [cursorReached, hc], hnext r hr c hnone⟩
  | materializeRunning now =>
    obtain ⟨⟨u, result⟩, hu, rfl⟩ := map_eq_ok.mp hp
    obtain ⟨revision, hrev, hmat⟩ := bind_eq_ok.mp hu
    obtain ⟨hst, hrun, hmem⟩ := runningRevision_ok hrev
    obtain ⟨hrunning, c, hc, hnone⟩ := materializeCurrent_completes hmat ht hs
    obtain ⟨-, c0, hc0, hpos⟩ := hsound.queue.onHead (by rw [hst]; rfl)
    cases hc0.symm.trans hc
    exact ⟨revision, hmem, hrunning.trans hrun, c, hc, hsound.rows.past_items hmem hpos hnone⟩
  | retryFailedItem fence =>
    obtain ⟨⟨u, result⟩, hu, rfl⟩ := map_eq_ok.mp hp
    obtain ⟨l, -, -, rfl⟩ := retryFailedItem_ok hu
    cases ht
  | skipItem fence =>
    obtain ⟨-, revision, ordinal, -, -, -, rfl⟩ := skipItem_ok hp
    cases ht
  | pauseForItemOutcome r =>
    obtain ⟨-, -, rfl⟩ := pauseForItemOutcome_ok hp
    cases ht
  | parkGoal c now =>
    obtain ⟨goal, goal', -, ⟨rfl, -⟩ | ⟨u, interrupted, -, -, -, rfl⟩⟩ := parkGoal_ok hp
    · exact absurd ht hs
    · cases ht
  | taskMoves taskId target =>
    obtain ⟨x, -, -, hp⟩ := taskMoves_ok hp
    rw [transitionTask_package hp] at ht
    exact absurd ht hs
  | taskProgresses taskId =>
    obtain ⟨x, -, rfl⟩ := taskProgresses_ok hp
    exact absurd ht hs
  | republish taskId =>
    obtain ⟨x, -, rfl⟩ := republish_ok hp
    rw [SameCore.publish.status] at ht
    exact absurd ht hs
  | workflowWrites runs commit =>
    cases hp
    exact absurd ht hs
  | leadWrites goal delegations =>
    cases hp
    exact absurd ht hs
  | retryItem | unparkGoal => cases hop

/-! ### The sequencer -/

variable (digest) in
/-- What the sequencer keeps: an ordinal of a revision has at most one link; the cursor does not go back while the package
    runs one revision; an item with a task had every dependency completed under its contract or skipped; a task that was
    observed is observed again, with the same status, without effect; and the package is completed only past the last item
    of the revision that it runs. -/
structure Sequenced (s : State) : Prop where
  oneLink : ∀ l ∈ s.links, ∀ l' ∈ s.links, l.planRevisionId = l'.planRevisionId → l.ordinal = l'.ordinal → l = l'
  cursor : ∀ t, Reach (perform digest) (fun _ op => op.movesOn = true) s t →
    t.package.runningRevisionId = s.package.runningRevisionId → ∀ c c', s.package.cursorOrdinal = some c →
      t.package.cursorOrdinal = some c' → c ≤ c'
  dependencies : ∀ l ∈ s.links, ∃ r ∈ s.revisions, r.id = l.planRevisionId ∧ ∃ item ∈ r.items, item.ordinal = l.ordinal ∧
    item.itemId = l.workItemDraftId ∧ ∀ localId ∈ item.contract.dependencies, DependencyDone s r localId
  observed : ∀ taskId now x t result, s.task? taskId = some x → observeTerminal s taskId now = .ok (t, result) →
    ∀ u, Reach (perform digest) (fun _ op => op.movesOn = true) t u → ∀ y, u.task? taskId = some y → y.status = x.status →
      ∀ now', ∃ result', observeTerminal u taskId now' = .ok (u, result')
  completed : ∀ op t, op.movesOn = true → perform digest s op = .ok t → t.package.status = .completed →
    s.package.status ≠ .completed → PassesLast s op t

/-- In every run of a package. -/
theorem sequencer_safety {s₀ : State} (hc : Created digest s₀)
    (h : Reach (perform digest) (fun _ op => op.movesOn = true) s₀ s) : Sequenced digest s := by
  have hscope : ∀ (s : State) (op : Op), op.movesOn = true → ∀ a b c, op ≠ .unparkGoal a b c := by
    rintro s op hop a b c rfl
    cases hop
  have hboth : Sound digest s ∧ Ordered s := by
    refine h.invariant (P := fun s => Sound digest s ∧ Ordered s) ⟨.created hc, ?_⟩ ?_
    · obtain ⟨topic, goal, delegations, plan, commit, hc⟩ := hc
      simp only [createDraft, guard_eq_ok] at hc
      obtain ⟨-, -, -, hc⟩ := hc
      obtain ⟨ids, drafts, revision, -, -, rfl⟩ := createRevision_ok hc
      intro l hl
      cases hl
    · rintro u v op ⟨hu, hord⟩ hop hp
      exact ⟨hu.perform (hscope u op hop) hp, hord.perform hu (hscope u op hop) hp⟩
  obtain ⟨hsound, hordered⟩ := hboth
  refine ⟨?_, ?_, ?_, ?_, fun op t hop hp ht hs => perform_completes hsound hop hp ht hs⟩
  · exact fun l hl l' hl' hrev hord => eq_of_key_eq hsound.queue.linkKeys hl hl' (Prod.ext hrev hord)
  · intro t ht hrun c c' hc hc'
    have hahead : Sound digest t ∧ Ahead s t := by
      refine ht.invariant (P := fun t => Sound digest t ∧ Ahead s t) ⟨hsound, .of_eq rfl rfl⟩ ?_
      rintro u v op ⟨hu, ha⟩ hop hp
      exact ⟨hu.perform (hscope u op hop) hp, ha.trans (Extends.perform hu (hscope u op hop) hp).ahead⟩
    exact hahead.2.cursor_le hrun hc hc'
  · intro l hl
    obtain ⟨r, hr, hid, item, hi, hord, hdraft⟩ := hsound.queue.linkItem l hl
    exact ⟨r, hr, hid, item, hi, hord, hdraft,
      fun localId hdep => (hordered l hl r hr hid item hi hord localId hdep).done⟩
  · intro taskId now x t result hx hobs u hu y hy hst now'
    have ht : Sound digest t := hsound.moves (observeTerminal_moves hobs)
    have hsettled : Sound digest u ∧ Settled (isTerminalEvidence x.status = true) taskId u := by
      refine hu.invariant (P := fun u => Sound digest u ∧ Settled (isTerminalEvidence x.status = true) taskId u)
        ⟨ht, observeTerminal_settles hsound hx hobs⟩ ?_
      rintro v w op ⟨hv, hset⟩ hop hp
      exact ⟨hv.perform (hscope v op hop) hp, hset.perform hv hop hp⟩
    rw [← hst] at hsettled
    exact hsettled.2.observeTerminal_eq hsettled.1.queue hy

/-- The dependent item runs behind the completed one, and its end completes the package. -/
theorem sequencer_safety_second : ∃ s t : State, s.links.length = 2 ∧ Sequenced Sample.digest s ∧
    perform Sample.digest s (.processSequenceItem 1 4 0) = .ok t ∧ t.package.status = .completed ∧
    PassesLast s (.processSequenceItem 1 4 0) t := by
  obtain ⟨s0, s, hs0, hreach, hp⟩ := Sample.reach (fun _ op => op.movesOn = true)
    (Sample.firstCompleted ++ [.taskMoves 1 .executing, .taskMoves 1 .completed])
    (fun s => s.links.length = 2 && s.package.status = .running &&
      ends (fun t => t.package.status = .completed) (perform Sample.digest s (.processSequenceItem 1 4 0)))
    (by simp [Sample.firstCompleted, Sample.started, Op.movesOn]) (by decide)
  simp only [Bool.and_eq_true, decide_eq_true_eq] at hp
  obtain ⟨⟨hlinks, hrunning⟩, hends⟩ := hp
  obtain ⟨t, ht, hdone⟩ := exists_of_ends hends
  have hdone : t.package.status = .completed := of_decide_eq_true hdone
  have hseq := sequencer_safety ⟨_, _, _, _, _, hs0⟩ hreach
  exact ⟨s, t, hlinks, hseq, ht, hdone, hseq.completed _ t rfl ht hdone (by rw [hrunning]; decide)⟩

end Vuzol.Discussion
