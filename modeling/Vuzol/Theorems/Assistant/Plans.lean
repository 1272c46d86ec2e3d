import Vuzol.Assistant.Plans
import Vuzol.Lib.Rows

/-! A replaced plan is not sent, as long as no send acts on what it read before the plan was replaced, or gives back a plan
    that another send is at work on. -/

namespace Vuzol.Assistant

open Vuzol.Lib (getElem?_concat)

def Event.closes (id : Nat) (e : Event) : Prop :=
  e = .status id .superseded ∨ e = .status id .sent ∨ ∃ line, e = .accepted (id, line)

/-- The claims on what happened: after a plan is superseded none of its lines is submitted; a line is accepted once at most;
    a plan that is superseded or sent, or has a line that was accepted, is never pending or edited again. -/
structure Settled (log : List Event) : Prop where
  replaced : log.Pairwise fun a b => ∀ id line, a = .status id .superseded → b ≠ .submitted (id, line)
  once : ∀ r, log.count (.accepted r) ≤ 1
  final : log.Pairwise fun a b => ∀ id, a.closes id → b ≠ .status id .pending ∧ b ≠ .status id .editing

theorem Settled.append {log : List Event} {e : Event} (h : Settled log)
    (hsubmitted : ∀ id line, e = .submitted (id, line) → .status id .superseded ∉ log)
    (haccepted : ∀ r, e = .accepted r → .accepted r ∉ log)
    (hopen : ∀ id, e = .status id .pending ∨ e = .status id .editing → ∀ a ∈ log, ¬a.closes id) :
    Settled (log ++ [e]) where
  replaced := by
    refine List.pairwise_append.mpr ⟨h.replaced, List.pairwise_singleton _ _, fun a ha b hb id line hid heq => ?_⟩
    rw [List.mem_singleton.mp hb] at heq
    exact hsubmitted id line heq (hid ▸ ha)
  once r := by
    rw [List.count_append]
    by_cases hr : e = .accepted r
    · rw [List.count_eq_zero.mpr (haccepted r hr), hr]
      simp
    · rw [List.count_singleton, if_neg (by simpa using hr)]
      exact h.once r
  final := by
    refine List.pairwise_append.mpr ⟨h.final, List.pairwise_singleton _ _, fun a ha b hb id hid => ?_⟩
    rw [List.mem_singleton.mp hb]
    exact ⟨fun heq => hopen id (.inl heq) a ha hid, fun heq => hopen id (.inr heq) a ha hid⟩

namespace Topic

def UnderWay (s : Send) : Prop := s.phase ≠ .marking

/-- A send marks a plan that may still be sent; it submits no line that was accepted from another user; and it gives a plan
    of which it sent nothing back only where the plan is being sent, by no other send, and none of its lines was accepted. -/
def Undisturbed (t : Topic) : Action → Prop
  | .advance i _ => ∀ s, t.sends[i]? = some s →
    match s.phase with
    | .marking => sendable (t.planStatus s.entryId) = true
    | .submitting index sent =>
      if index < s.dispatches.length then
        ∀ r ∈ t.receipts, r.requestId = (s.entryId, index) → r.userId = s.userId
      else
        sent = [] → t.planStatus s.entryId = some .sending ∧
          (∀ r ∈ t.receipts, r.requestId.1 ≠ s.entryId) ∧
          ∀ other ∈ t.sends.eraseIdx i, other.entryId = s.entryId → ¬UnderWay other
  | _ => True

structure Sound (t : Topic) : Prop where
  settled : Settled t.log
  absorbed : ∀ id st, st = .superseded ∨ st = .sent → .status id st ∈ t.log → t.planStatus id = some st
  underWay : ∀ s ∈ t.sends, UnderWay s → t.planStatus s.entryId = some .sending ∨ t.planStatus s.entryId = some .sent
  receipts : ∀ r, .accepted r ∈ t.log → ∃ receipt ∈ t.receipts, receipt.requestId = r
  begun : ∀ id line, .accepted (id, line) ∈ t.log → t.planStatus id = some .sending ∨ t.planStatus id = some .sent

section Steps
variable {t u : Topic} {id entryId : Nat} {st : PlanStatus} {s : Send} {i : Nat} {reply : Reply}

theorem planStatus_write (hid : id < t.entries.length) (other : Nat) :
    (t.write st id).planStatus other = if other = id then some st else t.planStatus other := by
  rw [planStatus, write, planStatus]
  dsimp only
  rw [List.getElem?_modify]
  by_cases h : other = id
  · subst h
    rw [if_pos rfl, List.getElem?_eq_getElem hid]
    simp
  · have hne : ¬id = other := fun heq => h heq.symm
    simp [h, hne]

theorem lt_of_planStatus (h : t.planStatus id = some st) : id < t.entries.length := by
  rw [planStatus, Option.bind_eq_some_iff] at h
  obtain ⟨e, he, -⟩ := h
  exact (List.getElem?_eq_some_iff.mp he).1

theorem Sound.write (h : Sound t) (hid : id < t.entries.length)
    (hsent : t.planStatus id = some .sent → st = .sent) (hsuperseded : t.planStatus id ≠ some .superseded)
    (hwork : ∀ s ∈ t.sends, UnderWay s → s.entryId = id → st = .sending ∨ st = .sent)
    (hbegun : ∀ line, .accepted (id, line) ∈ t.log → st = .sending ∨ st = .sent) : Sound (t.write st id) where
  settled := by
    refine h.settled.append (fun _ _ heq => by cases heq) (fun _ heq => by cases heq) fun id' hopen a ha => ?_
    have hst : st ≠ .sent ∧ st ≠ .sending ∧ id' = id := by
      rcases hopen with heq | heq
      · cases heq
        exact ⟨by decide, by decide, rfl⟩
      · cases heq
        exact ⟨by decide, by decide, rfl⟩
    obtain ⟨hst, hst', rfl⟩ := hst
    rintro (rfl | rfl | ⟨line, rfl⟩)
    · exact hsuperseded (h.absorbed _ _ (.inl rfl) ha)
    · exact hst (hsent (h.absorbed _ _ (.inr rfl) ha))
    · exact (hbegun line ha).elim hst' hst
  absorbed id' st' hst' hmem := by
    rw [planStatus_write hid]
    rcases List.mem_append.mp hmem with hmem | hmem
    · have hbefore := h.absorbed id' st' hst' hmem
      split
      · rename_i heq
        subst heq
        rcases hst' with rfl | rfl
        · exact absurd hbefore hsuperseded
        · rw [hsent hbefore]
      · exact hbefore
    · cases List.mem_singleton.mp hmem
      rw [if_pos rfl]
  underWay s hs hway := by
    rw [planStatus_write hid]
    split
    · rename_i heq
      exact (hwork s hs hway heq).imp (congrArg some) (congrArg some)
    · exact h.underWay s hs hway
  receipts r hr := h.receipts r (by simpa [Topic.write] using hr)
  begun id' line hmem := by
    have hmem : .accepted (id', line) ∈ t.log := by simpa [Topic.write] using hmem
    rw [planStatus_write hid]
    split
    · rename_i heq
      exact (hbegun line (heq ▸ hmem)).imp (congrArg some) (congrArg some)
    · exact h.begun id' line hmem

theorem Sound.sends (h : Sound t) {sends : List Send}
    (hsends : ∀ s ∈ sends, UnderWay s → t.planStatus s.entryId = some .sending ∨ t.planStatus s.entryId = some .sent) :
    Sound { t with sends := sends } where
  settled := h.settled
  absorbed := h.absorbed
  underWay := hsends
  receipts := h.receipts
  begun := h.begun

theorem Sound.eraseIdx (h : Sound t) (i : Nat) : Sound { t with sends := t.sends.eraseIdx i } :=
  h.sends fun s hs => h.underWay s (List.mem_of_mem_eraseIdx hs)

theorem Sound.goOn (h : Sound t) (i : Nat) (s : Send) (phase : Phase)
    (hs : t.planStatus s.entryId = some .sending ∨ t.planStatus s.entryId = some .sent) : Sound (t.goOn i s phase) := by
  refine h.sends fun other hother hway => ?_
  rcases List.mem_or_eq_of_mem_set hother with hmem | rfl
  · exact h.underWay other hmem hway
  · exact hs

theorem planStatus_append (e : AssistantEntry) (id : Nat) {log : List Event} :
    { t with entries := t.entries ++ [e], log := log }.planStatus id =
      if id = t.entries.length then e.planStatus else t.planStatus id := by
  rw [planStatus, planStatus]
  dsimp only
  rw [getElem?_concat]
  split <;> rfl

theorem Sound.replace (h : Sound t) {ids : List Nat} (hnodup : ids.Nodup)
    (hopen : ∀ id ∈ ids, t.planStatus id = some .pending ∨ t.planStatus id = some .editing) :
    Sound (ids.foldl (fun t id => t.write .superseded id) t) := by
  induction ids generalizing t with
  | nil => exact h
  | cons id ids ih =>
    obtain ⟨hnot, hnodup⟩ := List.nodup_cons.mp hnodup
    obtain ⟨hid, hopen⟩ := List.forall_mem_cons.mp hopen
    have hlt : id < t.entries.length := hid.elim lt_of_planStatus lt_of_planStatus
    have hclosed : ¬(t.planStatus id = some .sending ∨ t.planStatus id = some .sent) := by
      rcases hid with hid | hid <;> rw [hid] <;> decide
    refine ih (h.write hlt ?_ ?_ ?_ ?_) hnodup fun other hother => ?_
    · exact fun hsent => absurd (.inr hsent) hclosed
    · rcases hid with hid | hid <;> rw [hid] <;> decide
    · rintro s hs hway rfl
      exact absurd (h.underWay s hs hway) hclosed
    · exact fun line hmem => absurd (h.begun id line hmem) hclosed
    · rw [planStatus_write hlt, if_neg (ne_of_mem_of_not_mem hother hnot)]
      exact hopen other hother

theorem Sound.addEntry (h : Sound t) (e : AssistantEntry) {events : List Event}
    (hevents : events = [] ∨ events = [.status t.entries.length .pending]) :
    Sound { t with entries := t.entries ++ [e], log := t.log ++ events } where
  settled := by
    rcases hevents with rfl | rfl
    · rw [List.append_nil]
      exact h.settled
    · refine h.settled.append (fun _ _ heq => by cases heq) (fun _ heq => by cases heq) fun id hopen a ha => ?_
      -- No plan had this place before.
      have hnew : ∀ st, t.planStatus t.entries.length ≠ some st :=
        fun st hst => Nat.lt_irrefl _ (lt_of_planStatus hst)
      rcases hopen with heq | heq
      · cases heq
        rintro (rfl | rfl | ⟨line, rfl⟩)
        · exact hnew _ (h.absorbed _ _ (.inl rfl) ha)
        · exact hnew _ (h.absorbed _ _ (.inr rfl) ha)
        · exact (h.begun _ line ha).elim (hnew _) (hnew _)
      · cases heq
  absorbed id st hst hmem := by
    have hmem : .status id st ∈ t.log := by
      rcases List.mem_append.mp hmem with hmem | hmem
      · exact hmem
      · rcases hevents with rfl | rfl
        · cases hmem
        · cases List.mem_singleton.mp hmem
          rcases hst with hst | hst <;> cases hst
    have hbefore := h.absorbed id st hst hmem
    rw [planStatus_append, if_neg (Nat.ne_of_lt (lt_of_planStatus hbefore))]
    exact hbefore
  underWay s hs hway := by
    have hbefore := h.underWay s hs hway
    have hlt : s.entryId < t.entries.length := hbefore.elim lt_of_planStatus lt_of_planStatus
    rw [planStatus_append, if_neg (Nat.ne_of_lt hlt)]
    exact hbefore
  receipts r hr := h.receipts r (by rcases hevents with rfl | rfl <;> simpa using hr)
  begun id line hmem := by
    have hbefore := h.begun id line (by rcases hevents with rfl | rfl <;> simpa using hmem)
    rw [planStatus_append, if_neg (Nat.ne_of_lt (hbefore.elim lt_of_planStatus lt_of_planStatus))]
    exact hbefore

theorem Sound.answer (h : Sound t) (dispatches : List Dispatch) : Sound (t.answer dispatches) := by
  rw [Topic.answer]
  split
  · have hsound := h.addEntry { dispatches := [], planStatus := none } (.inl rfl)
    rwa [List.append_nil] at hsound
  · refine (h.replace (List.nodup_range.filter _) fun id hid => ?_).addEntry _ (.inr rfl)
    obtain ⟨-, hopen⟩ := List.mem_filter.mp hid
    simpa using hopen

theorem submitEvent_accepted {receipts receipts' : List Receipt} {r : Receipt}
    (h : submitEvent receipts r = (.accepted, receipts')) : receipts' = receipts ++ [r] ∧
      ∀ prior ∈ receipts, prior.userId = r.userId → prior.requestId ≠ r.requestId := by
  rw [submitEvent] at h
  split at h
  · split at h <;> cases h
  · rename_i hnone
    cases h
    refine ⟨rfl, fun prior hprior huser hrequest => ?_⟩
    have hnot := List.find?_eq_none.mp hnone prior hprior
    simp [huser, hrequest] at hnot

theorem Sound.submitLine (h : Sound t) {index : Nat} {sent : List String} (d : Dispatch)
    (hway : t.planStatus s.entryId = some .sending ∨ t.planStatus s.entryId = some .sent)
    (hreceipts : ∀ r ∈ t.receipts, r.requestId = (s.entryId, index) → r.userId = s.userId) :
    Sound (t.submitLine i s index sent d reply) := by
  rw [Topic.submitLine]
  split
  · exact h.goOn i s _ hway
  · rename_i session _
    have hnot : .status s.entryId .superseded ∉ t.log := by
      intro hmem
      rw [h.absorbed _ _ (.inl rfl) hmem] at hway
      simp at hway
    have hsubmitted : Sound { t with log := t.log ++ [Event.submitted (s.entryId, index)] } := by
      refine ⟨h.settled.append ?_ (fun _ heq => by cases heq) (fun _ heq => by simp at heq), ?_, h.underWay, ?_, ?_⟩
      · intro id line heq
        cases heq
        exact hnot
      · intro id st hst hmem
        exact h.absorbed id st hst (by simpa using hmem)
      · intro r hr
        exact h.receipts r (by simpa using hr)
      · intro id line hmem
        exact h.begun id line (by simpa using hmem)
    dsimp only
    split
    · exact hsubmitted.goOn i s _ hway
    · split
      · rename_i receipts hsubmit
        obtain ⟨rfl, hfresh⟩ := submitEvent_accepted hsubmit
        have hnone : .accepted (s.entryId, index) ∉ t.log := by
          intro hmem
          obtain ⟨receipt, hreceipt, hid⟩ := h.receipts _ hmem
          exact hfresh receipt hreceipt (hreceipts receipt hreceipt hid) hid
        have hsettled : Settled
            (t.log ++ [Event.submitted (s.entryId, index)] ++ [Event.accepted (s.entryId, index)]) := by
          refine hsubmitted.settled.append (fun _ _ heq => by cases heq) (fun r heq => ?_) (fun _ heq => by simp at heq)
          cases heq
          simpa using hnone
        have haccepted : Sound
            { t with
              receipts := t.receipts ++ [{ userId := s.userId, requestId := (s.entryId, index), projectId := d.projectId
                                           sessionId := session, text := d.request }]
              log := t.log ++ [Event.submitted (s.entryId, index)] ++ [Event.accepted (s.entryId, index)] } := by
          refine ⟨hsettled, fun id st hst hmem => h.absorbed id st hst (by simpa using hmem), h.underWay, fun r hr => ?_,
            fun id line hmem => ?_⟩
          · simp only [List.mem_append, List.mem_singleton, reduceCtorEq, or_false, Event.accepted.injEq] at hr
            rcases hr with hr | rfl
            · obtain ⟨receipt, hreceipt, hid⟩ := h.receipts r hr
              exact ⟨receipt, List.mem_append_left _ hreceipt, hid⟩
            · exact ⟨_, List.mem_append_right _ List.mem_cons_self, rfl⟩
          · simp only [List.mem_append, List.mem_singleton, reduceCtorEq, or_false, Event.accepted.injEq,
              Prod.mk.injEq] at hmem
            rcases hmem with hmem | ⟨rfl, -⟩
            · exact h.begun id line hmem
            · exact hway
        exact haccepted.goOn i s _ hway
      · exact hsubmitted.goOn i s _ hway
      · exact hsubmitted.goOn i s _ hway

theorem Sound.openSend (h : Sound t) (entryId userId : Nat) (sessions : List (String × Nat)) :
    Sound (t.openSend entryId userId sessions) := by
  rw [Topic.openSend]
  split
  · exact h
  split
  · refine h.sends fun s hs hway => ?_
    rcases Lib.mem_concat.mp hs with hs | rfl
    · exact h.underWay s hs hway
    · exact absurd rfl hway
  · exact h

theorem Sound.finish (h : Sound t) {sent : List String} (hs : t.sends[i]? = some s) (hphase : UnderWay s)
    (hback : sent = [] → t.planStatus s.entryId = some .sending ∧ (∀ r ∈ t.receipts, r.requestId.1 ≠ s.entryId) ∧
      ∀ other ∈ t.sends.eraseIdx i, other.entryId = s.entryId → ¬UnderWay other) : Sound (t.finish i s sent) := by
  have hway := h.underWay s (List.mem_of_getElem? hs) hphase
  rw [Topic.finish]
  refine (h.eraseIdx i).write (hway.elim lt_of_planStatus lt_of_planStatus) ?_ ?_ ?_ ?_
  · intro hsent
    split
    · rename_i hnil
      have hsending := (hback hnil).1.symm.trans hsent
      cases hsending
    · rfl
  · intro hsuperseded
    rcases hway with hway | hway
    · cases hway.symm.trans hsuperseded
    · cases hway.symm.trans hsuperseded
  · intro other hother hunder hid
    split
    · rename_i hnil
      exact absurd hunder ((hback hnil).2.2 other hother hid)
    · exact .inr rfl
  · intro line hmem
    split
    · rename_i hnil
      obtain ⟨receipt, hreceipt, hid⟩ := h.receipts _ hmem
      exact absurd (congrArg Prod.fst hid) ((hback hnil).2.1 receipt hreceipt)
    · exact .inr rfl

theorem Sound.step (h : Sound t) (a : Action) (hguard : Undisturbed t a) : Sound (t.step a) := by
  cases a with
  | answer dispatches => exact h.answer dispatches
  | edit entryId =>
    rw [Topic.step, Topic.edit]
    split
    · rename_i hpending
      have hclosed : ¬(t.planStatus entryId = some .sending ∨ t.planStatus entryId = some .sent) := by
        rw [hpending]
        decide
      refine h.write (lt_of_planStatus hpending) (fun hsent => ?_) (fun hsuperseded => ?_) (fun s hs hway hid => ?_)
        fun line hmem => ?_
      · cases hpending.symm.trans hsent
      · cases hpending.symm.trans hsuperseded
      · exact absurd (hid ▸ h.underWay s hs hway) hclosed
      · exact absurd (h.begun entryId line hmem) hclosed
    · exact h
  | openSend entryId userId sessions => exact h.openSend entryId userId sessions
  | crash i => exact h.eraseIdx i
  | advance i reply =>
    rw [Topic.step, Topic.advance]
    split
    · exact h
    rename_i s hs
    have hguard := hguard s hs
    split
    · rename_i hphase
      rw [hphase] at hguard
      dsimp only at hguard
      have hlt : s.entryId < t.entries.length := by
        cases hstatus : t.planStatus s.entryId with
        | none => rw [hstatus] at hguard; cases hguard
        | some st => exact lt_of_planStatus hstatus
      refine Sound.goOn (h.write hlt (fun hsent => ?_) (fun hsuperseded => ?_) (fun _ _ _ _ => .inl rfl)
        fun _ _ => .inl rfl) i s _ ?_
      · rw [hsent] at hguard
        cases hguard
      · rw [hsuperseded] at hguard
        cases hguard
      · rw [planStatus_write hlt, if_pos rfl]
        exact .inl rfl
    · rename_i index sent hphase
      rw [hphase] at hguard
      dsimp only at hguard
      have hunder : UnderWay s := by rw [UnderWay, hphase]; exact Phase.noConfusion
      split
      · rename_i d hd
        rw [if_pos (List.getElem?_eq_some_iff.mp hd).1] at hguard
        exact h.submitLine d (h.underWay s (List.mem_of_getElem? hs) hunder) hguard
      · rename_i hnone
        rw [if_neg (Nat.not_lt.mpr (List.getElem?_eq_none_iff.mp hnone))] at hguard
        exact h.finish hs hunder hguard

end Steps

theorem sound_start : Sound {} := by
  refine ⟨⟨.nil, fun _ => Nat.zero_le _, .nil⟩, ?_, ?_, ?_, ?_⟩
  · intro id st _ hmem
    cases hmem
  · intro s hs
    cases hs
  · intro r hr
    cases hr
  · intro id line hmem
    cases hmem

theorem sound_of_reaches {t : Topic} (h : Reaches Undisturbed t) : Sound t := by
  induction h with
  | start => exact sound_start
  | step a _ hguard ih => exact ih.step a hguard

end Topic

/-- In every run whose sends are undisturbed, no replaced plan is sent. -/
theorem replaced_plan_never_sent {t : Topic} (h : Reaches Topic.Undisturbed t) : Settled t.log :=
  (Topic.sound_of_reaches h).settled

def line : Dispatch := { projectId := "site", request := "Add a page" }

/-- The second plan replaces the first; its send is killed behind the acceptance, and a retry sends it. -/
theorem replaced_plan_never_sent_retried :
    Settled [.status 0 .pending, .status 0 .superseded, .status 1 .pending, .status 1 .sending, .submitted (1, 0),
      .accepted (1, 0), .status 1 .sending, .submitted (1, 0), .status 1 .sent] := by
  have hplan : Reaches Topic.Undisturbed _ := Reaches.start.step (.answer [line]) trivial
  have hreplaced := hplan.step (.answer [line]) trivial
  have hopen := hreplaced.step (.openSend 1 1 [("site", 1)]) trivial
  have hmark := hopen.step (.advance 0 .received) fun s hs => by cases hs; decide
  have haccepted := hmark.step (.advance 0 .received) fun s hs => by cases hs; exact fun r hr => absurd hr List.not_mem_nil
  have hretry := (haccepted.step (.crash 0) trivial).step (.openSend 1 1 [("site", 1)]) trivial
  have hmarked := hretry.step (.advance 0 .received) fun s hs => by cases hs; decide
  have hagain := hmarked.step (.advance 0 .received) fun s hs => by
    cases hs
    exact fun r hr _ => congrArg Receipt.userId (List.mem_singleton.mp hr)
  exact replaced_plan_never_sent (hagain.step (.advance 0 .received) fun s hs => by cases hs; exact fun h => absurd h (by decide))

/-- The owner corrects the plan after the send has read it and before it marks it. -/
theorem replaced_plan_sent : ∃ t, Reaches (fun _ _ => True) t ∧ t.log = [.status 0 .pending, .status 0 .superseded,
    .status 1 .pending, .status 0 .sending, .submitted (0, 0), .accepted (0, 0)] ∧ ¬Settled t.log := by
  have hplan : Reaches (fun _ _ => True) _ := Reaches.start.step (.answer [line]) trivial
  have hopen := hplan.step (.openSend 0 1 [("site", 1)]) trivial
  have hreplaced := hopen.step (.answer [line]) trivial
  have hmark := hreplaced.step (.advance 0 .received) trivial
  refine ⟨_, hmark.step (.advance 0 .received) trivial, rfl, fun hsettled => ?_⟩
  have hlater := (List.pairwise_cons.mp (List.pairwise_cons.mp hsettled.replaced).2).1
  exact hlater (.submitted (0, 0)) (by decide) 0 0 rfl rfl

end Vuzol.Assistant
