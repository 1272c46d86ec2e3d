import Vuzol.Leadership.Turns
import Vuzol.Theorems.Storage.Outbox

/-! One turn for a wakeup of a goal, and one decision on it. The generation of a wakeup's item tells the workers
    apart: a worker that calls the model under the present generation finds no decision on its turn, so that none
    is replaced when it saves its own or gives up. -/

namespace Vuzol.Leadership

open Vuzol.Storage (OutboxClaim OutboxItem OutboxLeaseToken claimOutboxItem leaseItem settle)

variable {s s' s'' : TurnTables} {t t' : LeadershipTurn} {g : ManagedGoal} {w w' : Wakeup} {token : OutboxLeaseToken}
variable {p : Option PreparedTurn} {body : String}
  {o : Observed} {claim : TurnClaim} {now : Nat}

/-! ### Tables -/

structure TurnsSound (s : TurnTables) : Prop where
  keys : (s.turns.map LeadershipTurn.key).Nodup
  items : (s.wakeups.map Wakeup.key).Nodup
  claimed : ∀ t ∈ s.turns, t.status = .claimed → t.decision = none
  responded : ∀ t ∈ s.turns, t.status = .responded → t.decision.isSome = true

def SameTurn (t t' : LeadershipTurn) : Prop := t'.key = t.key ∧ t'.decision = t.decision

def NewTurn (t : LeadershipTurn) : Prop := t.decision = none

def generations (s : TurnTables) : List (Nat × Nat) := s.wakeups.map fun w => (w.item.id, w.item.leaseGeneration)

structure Keeps (s s' : TurnTables) : Prop where
  sound : TurnsSound s'
  turns : Lib.Rewrites SameTurn NewTurn s.turns s'.turns
  generations : generations s' = generations s

theorem Keeps.refl (hs : TurnsSound s) : Keeps s s := ⟨hs, .refl fun _ => ⟨rfl, rfl⟩, rfl⟩

theorem Keeps.trans (h1 : Keeps s s') (h2 : Keeps s' s'') : Keeps s s'' where
  sound := h2.sound
  turns := h1.turns.trans (fun h k => ⟨k.1.trans h.1, k.2.trans h.2⟩) (fun h k => k.2.trans h) h2.turns
  generations := h2.generations.trans h1.generations

section
variable (hs : TurnsSound s)
include hs

theorem TurnsSound.putGoal (g : ManagedGoal) : Keeps s (s.putGoal g) :=
  ⟨{ hs with }, .refl fun _ => ⟨rfl, rfl⟩, rfl⟩

theorem TurnsSound.addGoal (g : ManagedGoal) : Keeps s { s with goals := s.goals ++ [g] } :=
  ⟨{ hs with }, .refl fun _ => ⟨rfl, rfl⟩, rfl⟩

theorem TurnsSound.putTurn (ht : t ∈ s.turns) (hsame : SameTurn t t')
    (hclaimed : t'.status = .claimed → t'.decision = none) (hresponded : t'.status = .responded → t'.decision.isSome = true) :
    Keeps s (s.putTurn t') where
  sound := by
    refine ⟨?_, hs.items, ?_, ?_⟩
    · rw [TurnTables.putTurn, Lib.map_put fun _ _ hk => hk]
      exact hs.keys
    · intro x hx
      rcases Lib.mem_or_of_mem_put hx with rfl | hx
      · exact hclaimed
      · exact hs.claimed x hx
    · intro x hx
      rcases Lib.mem_or_of_mem_put hx with rfl | hx
      · exact hresponded
      · exact hs.responded x hx
  turns := (Lib.Rewrites.refl fun _ => ⟨rfl, rfl⟩).put_over (fun h => h.1) hs.keys ht hsame
  generations := rfl

theorem TurnsSound.putWakeup (hw : w ∈ s.wakeups) (hid : w'.item.id = w.item.id)
    (hgen : w'.item.leaseGeneration = w.item.leaseGeneration) : Keeps s (s.putWakeup w') where
  sound := by
    refine ⟨hs.keys, ?_, hs.claimed, hs.responded⟩
    rw [TurnTables.putWakeup, Lib.map_put fun _ _ hk => hk]
    exact hs.items
  turns := .refl fun _ => ⟨rfl, rfl⟩
  generations := by
    unfold Leadership.generations TurnTables.putWakeup
    refine Lib.map_put fun y hy hk => ?_
    have hyw : y = w := Lib.eq_of_key_eq hs.items hy hw (hk.trans hid)
    rw [hyw, hid, hgen]

theorem TurnsSound.addTurn (hfresh : ∀ x ∈ s.turns, x.key ≠ t.key) (hst : t.status = .claimed)
    (hnone : t.decision = none) : Keeps s { s with turns := s.turns ++ [t] } where
  sound := by
    refine ⟨Lib.nodup_map_append hs.keys hfresh, hs.items, ?_, ?_⟩
    · intro x hx
      rcases Lib.mem_concat.mp hx with hx | rfl
      · exact hs.claimed x hx
      · exact fun _ => hnone
    · intro x hx
      rcases List.mem_append.mp hx with hx | hx
      · exact hs.responded x hx
      · rw [List.mem_singleton.mp hx, hst]
        exact fun h => nomatch h
  turns := .append (fun _ => ⟨rfl, rfl⟩) hnone
  generations := rfl

end

/-! ### Lookups -/

theorem mem_of_turn? {goalId wakeupId : Nat} (h : s.turn? goalId wakeupId = some t) :
    t ∈ s.turns ∧ t.key = (goalId, wakeupId) :=
  ⟨List.mem_of_find?_eq_some h, by simpa using List.find?_some h⟩

theorem mem_of_wakeup? {id : Nat} (h : s.wakeup? id = some w) : w ∈ s.wakeups ∧ w.item.id = id :=
  ⟨List.mem_of_find?_eq_some h, by simpa using List.find?_some h⟩

theorem mem_of_goal? {id : Nat} (h : s.goal? id = some g) : g ∈ s.goals ∧ g.id = id :=
  ⟨List.mem_of_find?_eq_some h, by simpa using List.find?_some h⟩

/-! ### Items -/

theorem settleItem_keeps {f : Storage.Settlement} (hs : TurnsSound s) (h : s.settleItem token f = .ok s') : Keeps s s' := by
  unfold TurnTables.settleItem at h
  split at h
  · cases h
  · rename_i w hw
    split at h
    · rename_i item hsettle
      cases h
      have hrow : item = f.change w.item := by
        by_cases hh : token.holds w.item = true
        · rw [Storage.settle_of_held hh] at hsettle
          exact (Prod.mk.inj hsettle).1.symm
        · rw [Storage.settle_of_lost (by simpa using hh)] at hsettle
          cases (Prod.mk.inj hsettle).2
      refine hs.putWakeup (mem_of_wakeup? hw).1 ?_ ?_
      · simp [hrow]
      · simp [hrow]
    · cases h

theorem done_keeps (hs : TurnsSound s) (h : s.done token o = .ok (s', p)) : Keeps s s' ∧ p = none := by
  obtain ⟨s1, h1, h⟩ := Lib.map_eq_ok.mp h
  cases h
  exact ⟨settleItem_keeps hs h1, rfl⟩

theorem later_keeps {reason : String} (hs : TurnsSound s) (h : s.later token reason o = .ok (s', p)) :
    Keeps s s' ∧ p = none := by
  obtain ⟨s1, h1, h⟩ := Lib.map_eq_ok.mp h
  cases h
  exact ⟨settleItem_keeps hs h1, rfl⟩

/-! ### A turn is prepared -/

structure Readies (token : OutboxLeaseToken) (s : TurnTables) (p : PreparedTurn) : Prop where
  wakeup : p.claim.wakeupId = token.itemId
  generation : p.claim.outboxGeneration = token.generation
  unanswered : p.status ≠ .responded → ∀ t ∈ s.turns, t.key = (p.claim.goalId, token.itemId) → t.decision = none

def Prepares (token : OutboxLeaseToken) (s s' : TurnTables) (p : Option PreparedTurn) : Prop :=
  Keeps s s' ∧ ∀ q, p = some q → Readies token s' q

theorem Prepares.of_none (h : Keeps s s' ∧ p = none) : Prepares token s s' p := by
  refine ⟨h.1, fun q hq => ?_⟩
  rw [h.2] at hq
  cases hq

theorem Prepares.trans (h1 : Keeps s s') (h2 : Prepares token s' s'' p) : Prepares token s s'' p :=
  ⟨h1.trans h2.1, h2.2⟩

theorem Keeps.lost (hs : TurnsSound s) (ht : t ∈ s.turns) : Keeps s (s.putTurn { t with status := .lost }) :=
  hs.putTurn ht ⟨rfl, rfl⟩ (fun h => nomatch h) fun h => nomatch h

theorem decision_of_put (hkey : t'.key = t.key) (hnone : t'.decision = none) :
    ∀ x ∈ (s.putTurn t').turns, x.key = t.key → x.decision = none := by
  intro x hx hk
  rcases Lib.mem_put.mp hx with ⟨rfl, -⟩ | ⟨-, hne⟩
  · exact hnone
  · exact absurd (hk.trans hkey.symm) hne

theorem resumeTurn_prepares (hs : TurnsSound s) (ht : t ∈ s.turns) (hkey : t.key = (g.id, token.itemId))
    (hst : t.status = .claimed ∨ t.status = .responded) (h : s.resumeTurn token o g t = .ok (s', p)) :
    Prepares token s s' p := by
  have hunanswered : ∀ x ∈ s.turns, x.key = (g.id, token.itemId) → t.status ≠ .responded → x.decision = none := by
    intro x hx hk hne
    rw [Lib.eq_of_key_eq hs.keys hx ht (hk.trans hkey.symm)]
    exact hs.claimed t ht (hst.resolve_right hne)
  unfold TurnTables.resumeTurn at h
  split at h
  · have hk := Keeps.lost hs ht
    exact .trans hk (.of_none (done_keeps hk.sound h))
  split at h
  · cases h
    refine ⟨hs.putGoal _, fun q hq => ?_⟩
    cases hq
    exact ⟨rfl, rfl, fun hne x hx hk => hunanswered x hx hk hne⟩
  split at h
  · exact .of_none (later_keeps hs h)
  have hgoal := hs.putGoal (g.takeLease token.owner o)
  simp only at h
  split at h
  · cases h
    refine ⟨hgoal.trans (hgoal.sound.putTurn ht ⟨rfl, rfl⟩ (hs.claimed t ht) (hs.responded t ht)), fun q hq => ?_⟩
    cases hq
    exact ⟨rfl, rfl, fun hne => absurd rfl hne⟩
  · rename_i hnot
    cases h
    have hnone := hs.claimed t ht (hst.resolve_right hnot)
    refine ⟨hgoal.trans (hgoal.sound.putTurn ht ⟨rfl, hnone.symm⟩ (fun _ => rfl) fun h => nomatch h), fun q hq => ?_⟩
    cases hq
    refine ⟨rfl, rfl, fun _ x hx hk => ?_⟩
    exact decision_of_put rfl rfl x hx (hk.trans hkey.symm)

theorem createTurn_prepares (hs : TurnsSound s) (hnone : s.turn? g.id token.itemId = none)
    (h : s.createTurn token o w g = .ok (s', p)) : Prepares token s s' p := by
  have hfresh : ∀ x ∈ s.turns, x.key ≠ (g.id, token.itemId) := by
    intro x hx hk
    have := List.find?_eq_none.mp hnone x hx
    exact this (by simpa using hk)
  have hid : (g.edit o.amended).id = g.id := by
    unfold ManagedGoal.edit
    split <;> rfl
  unfold TurnTables.createTurn at h
  split at h
  · exact .of_none (later_keeps hs h)
  simp only at h
  split at h
  · exact .trans (hs.putGoal _) (.of_none (done_keeps (hs.putGoal _).sound h))
  split at h
  · exact .trans (hs.putGoal _) (.of_none (done_keeps (hs.putGoal _).sound h))
  cases h
  have hid' : ∀ {c : Prop} [Decidable c] {b : ManagedGoal}, b.id = (g.edit o.amended).id →
      (if c then b else g.edit o.amended).id = g.id := by
    intro c _ b hb
    split
    · exact hb.trans hid
    · exact hid
  refine ⟨(hs.putGoal _).trans ((hs.putGoal _).sound.addTurn ?_ rfl rfl), fun q hq => ?_⟩
  · intro x hx hk
    refine hfresh x hx (hk.trans ?_)
    exact Prod.ext (hid' rfl) rfl
  · cases hq
    refine ⟨rfl, rfl, fun _ x hx hk => ?_⟩
    rcases Lib.mem_concat.mp hx with hx | rfl
    · refine absurd (hk.trans ?_) (hfresh x hx)
      exact Prod.ext (hid' rfl) rfl
    · rfl

theorem admitTurn_prepares (hs : TurnsSound s) (h : s.admitTurn token o w g = .ok (s', p)) : Prepares token s s' p := by
  unfold TurnTables.admitTurn at h
  split at h
  · exact .of_none (done_keeps hs h)
  split at h
  · exact .of_none (later_keeps hs h)
  have hgoal := hs.putGoal (g.edit o.converted)
  refine .trans hgoal ?_
  simp only at h
  split at h
  · rename_i hnone
    split at h
    · exact .of_none (done_keeps hgoal.sound h)
    split at h
    · exact .of_none (done_keeps hgoal.sound h)
    · exact createTurn_prepares hgoal.sound hnone h
  · rename_i t hturn
    obtain ⟨ht, hkey⟩ := mem_of_turn? hturn
    split at h
    · split at h
      · have hk := Keeps.lost hgoal.sound ht
        exact .trans hk (.of_none (done_keeps hk.sound h))
      · exact .of_none (done_keeps hgoal.sound h)
    split at h
    · rename_i hst
      exact resumeTurn_prepares hgoal.sound ht hkey hst h
    · exact .of_none (done_keeps hgoal.sound h)

theorem prepareTurn_prepares (hs : TurnsSound s) (h : s.prepareTurn token o = .ok (s', p)) : Prepares token s s' p := by
  unfold TurnTables.prepareTurn at h
  split at h
  · cases h
  rename_i w hw
  split at h
  · exact .of_none (done_keeps hs h)
  rename_i g hg
  split at h
  · exact .of_none (done_keeps hs h)
  split at h
  · split at h
    · exact .of_none (done_keeps hs h)
    simp only at h
    split at h
    · exact admitTurn_prepares hs h
    · have hwake : Keeps s (s.putWakeup { w with goalId := o.liveGoalId }) :=
        hs.putWakeup (mem_of_wakeup? hw).1 rfl rfl
      have hboth : Keeps s ((s.turn? g.id token.itemId).elim (s.putWakeup { w with goalId := o.liveGoalId })
          fun t => (s.putWakeup { w with goalId := o.liveGoalId }).putTurn { t with status := .superseded }) := by
        cases hprev : s.turn? g.id token.itemId with
        | none => exact hwake
        | some t =>
          exact hwake.trans (hwake.sound.putTurn (mem_of_turn? hprev).1 ⟨rfl, rfl⟩ (fun h => nomatch h) fun h => nomatch h)
      split at h
      · cases h
      · exact .trans hboth (admitTurn_prepares hboth.sound h)
  · exact admitTurn_prepares hs h

/-! ### A turn is given up -/

theorem generation_of_current (h : claimCurrentOn s g claim t now = true) :
    ∃ w ∈ s.wakeups, w.item.id = claim.wakeupId ∧ w.item.leaseGeneration = claim.outboxGeneration := by
  simp only [claimCurrentOn, claimCurrent, Bool.and_eq_true, decide_eq_true_eq, Option.any_eq_true] at h
  obtain ⟨⟨⟨⟨-, lease, hlease, hheld⟩, -⟩, -⟩, -⟩ := h
  obtain ⟨w, hw, hl⟩ := Option.bind_eq_some_iff.mp hlease
  obtain ⟨hmem, hid⟩ := mem_of_wakeup? hw
  refine ⟨w, hmem, hid, ?_⟩
  unfold leaseOf at hl
  split at hl
  · split at hl
    · cases hl
      exact hheld.1.2
    · cases hl
  · cases hl

section
variable (hs : TurnsSound s)
include hs

theorem complete_keeps (h : s.complete token now = .ok s') : Keeps s s' := settleItem_keeps hs h

theorem parkUnconfigured_keeps {reason : String} {unanswered retried : Bool}
    (hnone : ∀ g t, t ∈ s.turns → t.key = (claim.goalId, claim.wakeupId) → claimCurrentOn s g claim t now = true →
      t.decision = none)
    (h : s.parkUnconfigured token claim reason unanswered retried now = .ok s') : Keeps s s' := by
  unfold TurnTables.parkUnconfigured at h
  split at h
  · cases h
  rename_i t hturn
  obtain ⟨ht, hkey⟩ := mem_of_turn? hturn
  have hlost := Keeps.lost hs ht
  split at h
  · cases h
    exact .refl hs
  rename_i g hg
  split at h
  · exact hlost.trans (settleItem_keeps hlost.sound h)
  split at h
  · split at h
    · exact hlost.trans (complete_keeps hlost.sound h)
    · cases h
      exact .refl hs
  rename_i hcurrent
  split at h
  · have hgoal := hlost.sound.putGoal g.release
    exact hlost.trans (hgoal.trans (complete_keeps hgoal.sound h))
  have hgiven : Keeps s (s.putTurn { t with status := .lost, decision := none }) := by
    have hdec := hnone g t ht hkey (by simpa using hcurrent)
    exact hs.putTurn ht ⟨rfl, hdec.symm⟩ (fun _ => rfl) fun h => nomatch h
  simp only at h
  split at h
  · have hgoal := hgiven.sound.putGoal g.release
    exact hgiven.trans (hgoal.trans (complete_keeps hgoal.sound h))
  split at h
  · exact hgiven.trans (complete_keeps hgiven.sound h)
  · have hgoal := hgiven.sound.putGoal (g.waitFor reason).release.bump
    exact hgiven.trans (hgoal.trans (complete_keeps hgoal.sound h))

theorem markLost_keeps (h : s.markLost claim now = .ok s') : Keeps s s' := by
  unfold TurnTables.markLost at h
  split at h
  · rename_i g t hg hturn
    obtain ⟨-, h⟩ := Lib.check_eq_ok.mp h
    cases h
    have hlost := Keeps.lost hs (mem_of_turn? hturn).1
    exact hlost.trans (hlost.sound.putGoal g.release)
  · cases h

theorem park_keeps {reason : Option String} (h : s.park token claim reason now = .ok s') : Keeps s s' := by
  obtain ⟨s1, h1, h⟩ := Lib.bind_eq_ok.mp h
  have hlost := markLost_keeps hs h1
  simp only at h
  split at h
  · have hgoal := hlost.sound.putGoal
    exact hlost.trans ((hgoal _).trans (complete_keeps (hgoal _).sound h))
  · exact hlost.trans (complete_keeps hlost.sound h)

theorem ack_keeps (h : s.ack token claim now = .ok s') : Keeps s s' := by
  obtain ⟨s1, h1, h⟩ := Lib.bind_eq_ok.mp h
  have hdone := complete_keeps hs h1
  refine hdone.trans ?_
  split at h
  · cases h
  rename_i t hturn
  have ht := (mem_of_turn? hturn).1
  have happlied : Keeps s1 (if t.status = .lost then s1 else s1.putTurn { t with status := .applied }) := by
    split
    · exact .refl hdone.sound
    · exact hdone.sound.putTurn ht ⟨rfl, rfl⟩ (fun h => nomatch h) fun h => nomatch h
  refine happlied.trans ?_
  simp only at h
  generalize hs2 : (if t.status = .lost then s1 else s1.putTurn { t with status := .applied }) = s2 at h happlied
  split at h
  · split at h
    · cases h
      exact happlied.sound.putGoal _
    · cases h
      exact .refl happlied.sound
  · cases h
    exact .refl happlied.sound

theorem renewClaim_keeps {leaseSeconds : Nat} : Keeps s (s.renewClaim claim leaseSeconds now) := by
  unfold TurnTables.renewClaim
  split
  · rename_i g w hg hw
    split
    · have hgoal := hs.putGoal { g with leaseUntil := some (now + leaseSeconds) }
      exact hgoal.trans (hgoal.sound.putWakeup (mem_of_wakeup? hw).1 rfl rfl)
    · exact .refl hs
  · exact .refl hs

end

/-! ### Attempts of jobs and retrospectives -/

theorem attempt_keeps {goalId attemptId leaseEpoch : Nat} {owner : String} (hs : TurnsSound s)
    (h : s.attempt goalId attemptId leaseEpoch owner = .ok s') : Keeps s s' := by
  unfold TurnTables.attempt at h
  split at h
  · cases h
  · cases h
  · rename_i g hg hnone
    cases h
    refine hs.addTurn (fun x hx hk => ?_) rfl rfl
    exact List.find?_eq_none.mp hnone x hx (by simpa using hk)

theorem endAttempt_keeps {goalId attemptId : Nat} {applied : Bool} (hs : TurnsSound s)
    (h : s.endAttempt goalId attemptId applied = .ok s') : Keeps s s' := by
  unfold TurnTables.endAttempt at h
  split at h
  · cases h
  · rename_i t hturn
    cases h
    refine hs.putTurn (mem_of_turn? hturn).1 ⟨rfl, rfl⟩ ?_ ?_
    · cases applied <;> exact fun h => nomatch h
    · cases applied <;> exact fun h => nomatch h

/-! ### A decision is saved -/

/-- A decision is saved under a current claim, on a turn without one whose fence is the goal's; else nothing is. -/
theorem saveDecision_ok {saved : Bool} (hs : TurnsSound s) (h : s.saveDecision claim body now = .ok (s', saved)) :
    (saved = false ∧ Keeps s s') ∨
      ∃ g t, g ∈ s.goals ∧ t ∈ s.turns ∧ t.key = (claim.goalId, claim.wakeupId) ∧ t.status = .claimed ∧
        claimCurrentOn s g claim t now = true ∧ t.matchesGoal g ∧ saved = true ∧ s' = s.putTurn (t.respond body) := by
  unfold TurnTables.saveDecision at h
  split at h
  · cases h
  · cases h
    exact .inl ⟨rfl, .refl hs⟩
  · rename_i g t hg hturn
    obtain ⟨ht, hkey⟩ := mem_of_turn? hturn
    split at h
    · cases h
      exact .inl ⟨rfl, .refl hs⟩
    rename_i hst
    split at h
    · split at h
      · cases h
        exact .inl ⟨rfl, .lost hs ht⟩
      · cases h
        exact .inl ⟨rfl, .refl hs⟩
    · rename_i hok
      cases h
      simp only [not_or, not_not] at hok
      exact .inr ⟨g, t, (mem_of_goal? hg).1, ht, hkey, not_not.mp hst, hok.1, hok.2, rfl, rfl⟩

/-! ### Workers -/

variable {a b : Worker} {u v : Office} {op : OfficeOp}

abbrev Worker.ticket (a : Worker) : Nat × Nat := (a.token.itemId, a.token.generation)

structure OfficeSound (u : Office) : Prop where
  tables : TurnsSound u.tables
  distinct : (u.workers.map Worker.ticket).Nodup
  issued : ∀ a ∈ u.workers, ∃ e ∈ generations u.tables, e.1 = a.token.itemId ∧ a.token.generation ≤ e.2
  claims : ∀ a ∈ u.workers, ∀ claim, a.work = .inferring claim ∨ a.work = .applying claim →
    (claim.wakeupId, claim.outboxGeneration) = a.ticket
  unanswered : ∀ a ∈ u.workers, ∀ claim, a.work = .inferring claim → a.ticket ∈ generations u.tables →
    ∀ t ∈ u.tables.turns, t.key = (claim.goalId, claim.wakeupId) → t.decision = none

theorem generations_unique (hs : TurnsSound s) {id m n : Nat} (hm : (id, m) ∈ generations s) (hn : (id, n) ∈ generations s) :
    m = n := by
  obtain ⟨w, hw, hwe⟩ := List.mem_map.mp hm
  obtain ⟨x, hx, hxe⟩ := List.mem_map.mp hn
  obtain ⟨hwi, hwg⟩ := Prod.mk.inj hwe
  obtain ⟨hxi, hxg⟩ := Prod.mk.inj hxe
  have hwx : w = x := Lib.eq_of_key_eq hs.items hw hx (hwi.trans hxi.symm)
  rw [← hwg, ← hxg, hwx]

section
variable (h : OfficeSound u)
include h

theorem OfficeSound.keeps (hk : Keeps u.tables s') : OfficeSound { u with tables := s' } where
  tables := hk.sound
  distinct := h.distinct
  issued a ha := by
    rw [hk.generations]
    exact h.issued a ha
  claims := h.claims
  unanswered a ha claim hw hgen t ht hkey := by
    rw [hk.generations] at hgen
    rcases hk.turns.source t ht with ⟨t0, ht0, hsame⟩ | hnew
    · rw [hsame.2]
      exact h.unanswered a ha claim hw hgen t0 ht0 (hsame.1.symm.trans hkey)
    · exact hnew

theorem OfficeSound.leave (a : Worker) : OfficeSound (u.leave a) where
  tables := h.tables
  distinct := h.distinct.sublist (List.erase_sublist.map _)
  issued b hb := h.issued b (List.mem_of_mem_erase hb)
  claims b hb := h.claims b (List.mem_of_mem_erase hb)
  unanswered b hb := h.unanswered b (List.mem_of_mem_erase hb)

theorem OfficeSound.goOn {work : Work} (ha : a ∈ u.workers)
    (hclaims : ∀ claim, work = .inferring claim ∨ work = .applying claim → (claim.wakeupId, claim.outboxGeneration) = a.ticket)
    (hnone : ∀ claim, work = .inferring claim → ∀ t ∈ u.tables.turns, t.key = (claim.goalId, claim.wakeupId) → t.decision = none) :
    OfficeSound (u.goOn a work) where
  tables := h.tables
  distinct := by
    have hp := ((List.perm_cons_erase ha).map Worker.ticket).nodup_iff.mp h.distinct
    exact hp
  issued b hb := by
    rcases List.mem_cons.mp hb with rfl | hb
    · exact h.issued a ha
    · exact h.issued b (List.mem_of_mem_erase hb)
  claims b hb := by
    rcases List.mem_cons.mp hb with rfl | hb
    · exact hclaims
    · exact h.claims b (List.mem_of_mem_erase hb)
  unanswered b hb := by
    rcases List.mem_cons.mp hb with rfl | hb
    · exact fun claim hw _ => hnone claim hw
    · exact h.unanswered b (List.mem_of_mem_erase hb)

theorem OfficeSound.claimWakeup {c : OutboxClaim} (hw : w ∈ u.tables.wakeups) :
    OfficeSound {
      tables := u.tables.putWakeup { w with item := leaseItem c w.item }
      workers := { token := (leaseItem c w.item).tokenOf c } :: u.workers } := by
  have hgens : ∀ e, e ∈ generations (u.tables.putWakeup { w with item := leaseItem c w.item }) ↔
      e = (w.item.id, w.item.leaseGeneration + 1) ∨ (e ∈ generations u.tables ∧ e.1 ≠ w.item.id) := by
    intro e
    simp only [generations, TurnTables.putWakeup, List.mem_map]
    constructor
    · rintro ⟨x, hx, rfl⟩
      rcases Lib.mem_put.mp hx with ⟨rfl, -⟩ | ⟨hx, hne⟩
      · exact .inl rfl
      · exact .inr ⟨⟨x, hx, rfl⟩, hne⟩
    · rintro (rfl | ⟨⟨x, hx, rfl⟩, hne⟩)
      · exact ⟨_, Lib.mem_put_self hw rfl, rfl⟩
      · exact ⟨x, Lib.mem_put_of_ne hx hne, rfl⟩
  have hold : (w.item.id, w.item.leaseGeneration) ∈ generations u.tables := List.mem_map.mpr ⟨w, hw, rfl⟩
  have hle : ∀ a ∈ u.workers, a.token.itemId = w.item.id → a.token.generation ≤ w.item.leaseGeneration := by
    intro a ha hid
    obtain ⟨e, he, he1, hge⟩ := h.issued a ha
    have : e.2 = w.item.leaseGeneration := generations_unique h.tables (by rw [← hid, ← he1]; exact he) hold
    omega
  refine ⟨⟨h.tables.keys, ?_, h.tables.claimed, h.tables.responded⟩, ?_, ?_, ?_, ?_⟩
  · rw [TurnTables.putWakeup, Lib.map_put fun _ _ hk => hk]
    exact h.tables.items
  · rw [List.map_cons, List.nodup_cons]
    refine ⟨?_, h.distinct⟩
    intro hmem
    obtain ⟨a, ha, hticket⟩ := List.mem_map.mp hmem
    obtain ⟨hid, hgen⟩ := Prod.mk.inj hticket
    have := hle a ha hid
    have hgen' : a.token.generation = w.item.leaseGeneration + 1 := hgen
    omega
  · intro a ha
    rcases List.mem_cons.mp ha with rfl | ha
    · exact ⟨_, (hgens _).mpr (.inl rfl), rfl, le_refl _⟩
    · obtain ⟨e, he, he1, hge⟩ := h.issued a ha
      by_cases hid : a.token.itemId = w.item.id
      · refine ⟨_, (hgens _).mpr (.inl rfl), hid.symm, ?_⟩
        have := hle a ha hid
        exact Nat.le_succ_of_le this
      · exact ⟨e, (hgens e).mpr (.inr ⟨he, by rw [he1]; exact hid⟩), he1, hge⟩
  · intro a ha
    rcases List.mem_cons.mp ha with rfl | ha
    · rintro claim (hw | hw) <;> cases hw
    · exact h.claims a ha
  · intro a ha claim hwork hgen
    rcases List.mem_cons.mp ha with rfl | ha
    · cases hwork
    · rcases (hgens _).mp hgen with heq | ⟨hgen, -⟩
      · obtain ⟨hid, hg⟩ := Prod.mk.inj heq
        have := hle a ha hid
        omega
      · exact h.unanswered a ha claim hwork hgen

theorem OfficeSound.addWakeup (hfresh : u.tables.wakeup? w.item.id = none) :
    OfficeSound { u with tables := { u.tables with wakeups := u.tables.wakeups ++ [w] } } := by
  have hnew : ∀ x ∈ u.tables.wakeups, x.item.id ≠ w.item.id := by
    intro x hx hid
    exact List.find?_eq_none.mp hfresh x hx (by simpa using hid)
  have hgens : generations { u.tables with wakeups := u.tables.wakeups ++ [w] } =
      generations u.tables ++ [(w.item.id, w.item.leaseGeneration)] := by
    simp [generations]
  refine ⟨⟨h.tables.keys, Lib.nodup_map_append h.tables.items hnew, h.tables.claimed, h.tables.responded⟩, h.distinct, ?_,
    h.claims, ?_⟩
  · intro a ha
    obtain ⟨e, he, he1, hge⟩ := h.issued a ha
    rw [hgens]
    exact ⟨e, List.mem_append_left _ he, he1, hge⟩
  · intro a ha claim hwork hgen
    rw [hgens] at hgen
    refine h.unanswered a ha claim hwork ?_
    rcases List.mem_append.mp hgen with hgen | hgen
    · exact hgen
    · -- no token was issued for a wakeup that was not there
      obtain ⟨e, he, he1, -⟩ := h.issued a ha
      obtain ⟨x, hx, rfl⟩ := List.mem_map.mp he
      have hid : a.token.itemId = w.item.id := (Prod.mk.inj (List.mem_singleton.mp hgen)).1
      exact absurd (he1.trans hid) (hnew x hx)

end

/-! ### The transactions -/

/-- What a transaction does to the decisions: it leaves them, or saves one on a turn without any, under a claim that
    holds the wakeup and at the fence that the turn was built from. -/
inductive Decides (u v : Office) : OfficeOp → Prop
  | keeps {op : OfficeOp} : Lib.Rewrites SameTurn NewTurn u.tables.turns v.tables.turns → Decides u v op
  | saves {a : Worker} {body : String} {now : Nat} {claim : TurnClaim} {g : ManagedGoal} {t : LeadershipTurn} :
    a ∈ u.workers → a.work = .inferring claim → g ∈ u.tables.goals → t ∈ u.tables.turns →
      t.key = (claim.goalId, claim.wakeupId) → t.decision = none → claimCurrentOn u.tables g claim t now = true →
      t.matchesGoal g → v.tables = u.tables.putTurn (t.respond body) → Decides u v (.save a body now)

theorem OfficeSound.ticket_of_current (h : OfficeSound u) (ha : a ∈ u.workers) (hwork : a.work = .inferring claim)
    (hcurrent : claimCurrentOn u.tables g claim t now = true) : a.ticket ∈ generations u.tables := by
  obtain ⟨w, hw, hid, hgen⟩ := generation_of_current hcurrent
  rw [← h.claims a ha claim (.inl hwork), ← hid, ← hgen]
  exact List.mem_map.mpr ⟨w, hw, rfl⟩

/-- The worker that saves is the only one of its generation, so that no other one calls the model for its turn. -/
theorem OfficeSound.save (h : OfficeSound u) (ha : a ∈ u.workers) (hwork : a.work = .inferring claim)
    (hkey : t.key = (claim.goalId, claim.wakeupId)) (hcurrent : claimCurrentOn u.tables g claim t now = true) :
    OfficeSound ({ u with tables := u.tables.putTurn (t.respond body) }.goOn a (.applying claim)) := by
  have hticket := h.ticket_of_current ha hwork hcurrent
  have hclaim := h.claims a ha claim (.inl hwork)
  refine ⟨⟨?_, h.tables.items, ?_, ?_⟩, ?_, ?_, ?_, ?_⟩
  · rw [Office.goOn, TurnTables.putTurn, Lib.map_put fun _ _ hk => hk]
    exact h.tables.keys
  · intro x hx
    rcases Lib.mem_or_of_mem_put hx with rfl | hx
    · exact fun h => nomatch h
    · exact h.tables.claimed x hx
  · intro x hx
    rcases Lib.mem_or_of_mem_put hx with rfl | hx
    · exact fun _ => rfl
    · exact h.tables.responded x hx
  · exact ((List.perm_cons_erase ha).map Worker.ticket).nodup_iff.mp h.distinct
  · intro b hb
    rcases List.mem_cons.mp hb with rfl | hb
    · exact h.issued a ha
    · exact h.issued b (List.mem_of_mem_erase hb)
  · intro b hb
    rcases List.mem_cons.mp hb with rfl | hb
    · rintro claim' (hw | hw)
      · cases hw
      · cases hw
        exact hclaim
    · exact h.claims b (List.mem_of_mem_erase hb)
  · intro b hb claim' hw hgen x hx hxk
    rcases List.mem_cons.mp hb with rfl | hb
    · cases hw
    · rcases Lib.mem_put.mp hx with ⟨rfl, -⟩ | ⟨hx, -⟩
      · -- both call the model for one wakeup, at its one generation
        have hwake : claim'.wakeupId = claim.wakeupId := (Prod.mk.inj (hxk.symm.trans hkey)).2
        have hb' := List.mem_of_mem_erase hb
        have hid : b.token.itemId = a.token.itemId := by
          have h1 := (Prod.mk.inj (h.claims b hb' claim' (.inl hw))).1
          have h2 := (Prod.mk.inj hclaim).1
          exact h1.symm.trans (hwake.trans h2)
        have hgen' : b.token.generation = a.token.generation := by
          refine generations_unique h.tables ?_ hticket
          rw [← hid]
          exact hgen
        have hba : b = a := Lib.eq_of_key_eq h.distinct hb' ha (Prod.ext hid hgen')
        have hnodup : u.workers.Nodup := List.Nodup.of_map _ h.distinct
        exact absurd (hba ▸ hb) hnodup.not_mem_erase
      · exact h.unanswered b (List.mem_of_mem_erase hb) claim' hw hgen x hx hxk

theorem OfficeSound.step_keeps (h : OfficeSound u) (hk : Keeps u.tables s') :
    OfficeSound { u with tables := s' } ∧ Decides u { u with tables := s' } op :=
  ⟨h.keeps hk, .keeps hk.turns⟩

theorem OfficeSound.step_leaves (h : OfficeSound u) (hk : Keeps u.tables s') (a : Worker) :
    OfficeSound ({ u with tables := s' }.leave a) ∧ Decides u ({ u with tables := s' }.leave a) op :=
  ⟨(h.keeps hk).leave a, .keeps hk.turns⟩

theorem onInferring_ok {f : TurnClaim → Except String Office} (h : u.onInferring a f = .ok v) :
    ∃ claim, a.work = .inferring claim ∧ a ∈ u.workers ∧ f claim = .ok v := by
  unfold Office.onInferring at h
  split at h
  · rename_i claim hwork
    exact ⟨claim, hwork, Lib.check_eq_ok.mp h⟩
  · cases h

theorem onApplying_ok {f : TurnClaim → Except String Office} (h : u.onApplying a f = .ok v) :
    ∃ claim, f claim = .ok v := by
  unfold Office.onApplying at h
  split at h
  · rename_i claim hwork
    exact ⟨claim, (Lib.check_eq_ok.mp h).2⟩
  · cases h

theorem OfficeSound.step_prepare (h : OfficeSound u) (hp : u.perform (.prepare a o) = .ok v) :
    OfficeSound v ∧ Decides u v (.prepare a o) := by
  obtain ⟨⟨ha, -⟩, hp⟩ := Lib.check_eq_ok.mp hp
  obtain ⟨⟨s', p⟩, hprep, hp⟩ := Lib.bind_eq_ok.mp hp
  obtain ⟨hk, hready⟩ := prepareTurn_prepares h.tables hprep
  cases p with
  | none =>
    cases hp
    exact h.step_leaves hk a
  | some p =>
    cases hp
    obtain ⟨hwake, hgen, hnone⟩ := hready p rfl
    have hticket : (p.claim.wakeupId, p.claim.outboxGeneration) = a.ticket := Prod.ext hwake hgen
    refine ⟨(h.keeps hk).goOn ha ?_ ?_, .keeps hk.turns⟩
    · intro claim hw
      split at hw
      · rcases hw with hw | hw <;> cases hw
        exact hticket
      · rcases hw with hw | hw <;> cases hw
        exact hticket
    · intro claim hw t ht hkey
      split at hw
      · cases hw
      · rename_i hst
        cases hw
        exact hnone hst t ht (hkey.trans (Prod.ext rfl hwake))

theorem OfficeSound.step_save (h : OfficeSound u) (hp : u.perform (.save a body now) = .ok v) :
    OfficeSound v ∧ Decides u v (.save a body now) := by
  obtain ⟨claim, hwork, ha, hp⟩ := onInferring_ok hp
  obtain ⟨⟨s', saved⟩, hsave, hp⟩ := Lib.bind_eq_ok.mp hp
  cases hp
  rcases saveDecision_ok h.tables hsave with ⟨rfl, hk⟩ | ⟨g, t, hg, ht, hkey, hst, hcurrent, hmatch, rfl, rfl⟩
  · exact h.step_leaves hk a
  · have hnone := h.unanswered a ha claim hwork (h.ticket_of_current ha hwork hcurrent) t ht hkey
    exact ⟨h.save ha hwork hkey hcurrent, .saves ha hwork hg ht hkey hnone hcurrent hmatch rfl⟩

theorem OfficeSound.step (h : OfficeSound u) (hp : u.perform op = .ok v) : OfficeSound v ∧ Decides u v op := by
  cases op with
  | claimWakeup itemId c =>
    simp only [Office.perform] at hp
    split at hp
    · cases hp
    · rename_i w hw
      by_cases hc : Storage.claimable c w.item = true
      · simp only [claimOutboxItem, hc, if_true] at hp
        cases hp
        exact ⟨h.claimWakeup (mem_of_wakeup? hw).1, .keeps (.refl fun _ => ⟨rfl, rfl⟩)⟩
      · simp [claimOutboxItem, hc] at hp
  | prepare a o => exact h.step_prepare hp
  | save a body now => exact h.step_save hp
  | unconfigured a reason unanswered retried now =>
    obtain ⟨claim, hwork, ha, hp⟩ := onInferring_ok hp
    obtain ⟨s', hpark, hp⟩ := Lib.bind_eq_ok.mp hp
    cases hp
    refine h.step_leaves (parkUnconfigured_keeps h.tables ?_ hpark) a
    intro g t ht hkey hcurrent
    exact h.unanswered a ha claim hwork (h.ticket_of_current ha hwork hcurrent) t ht hkey
  | park a reason now =>
    obtain ⟨claim, hp⟩ := onApplying_ok hp
    obtain ⟨s', hpark, hp⟩ := Lib.bind_eq_ok.mp hp
    cases hp
    exact h.step_leaves (park_keeps h.tables hpark) a
  | markLost a now =>
    obtain ⟨claim, hp⟩ := onApplying_ok hp
    obtain ⟨s', hlost, hp⟩ := Lib.bind_eq_ok.mp hp
    cases hp
    exact h.step_keeps (markLost_keeps h.tables hlost)
  | ack a now =>
    obtain ⟨claim, hp⟩ := onApplying_ok hp
    obtain ⟨s', hack, hp⟩ := Lib.bind_eq_ok.mp hp
    cases hp
    exact h.step_leaves (ack_keeps h.tables hack) a
  | renew a leaseSeconds now =>
    simp only [Office.perform] at hp
    split at hp
    · cases hp
      exact h.step_keeps (renewClaim_keeps h.tables)
    · cases hp
      exact h.step_keeps (renewClaim_keeps h.tables)
    · cases hp
  | stop a =>
    cases hp
    exact ⟨h.leave a, .keeps (.refl fun _ => ⟨rfl, rfl⟩)⟩
  | settleItem token f =>
    obtain ⟨s', hsettle, hp⟩ := Lib.bind_eq_ok.mp hp
    cases hp
    exact h.step_keeps (settleItem_keeps h.tables hsettle)
  | attempt goalId attemptId leaseEpoch owner =>
    obtain ⟨s', hturn, hp⟩ := Lib.bind_eq_ok.mp hp
    cases hp
    exact h.step_keeps (attempt_keeps h.tables hturn)
  | endAttempt goalId attemptId applied =>
    obtain ⟨s', hturn, hp⟩ := Lib.bind_eq_ok.mp hp
    cases hp
    exact h.step_keeps (endAttempt_keeps h.tables hturn)
  | addWakeup w =>
    obtain ⟨hfresh, hp⟩ := Lib.guard_eq_ok.mp hp
    cases hp
    exact ⟨h.addWakeup (by simpa using hfresh), .keeps (.refl fun _ => ⟨rfl, rfl⟩)⟩
  | addGoal g =>
    obtain ⟨-, hp⟩ := Lib.guard_eq_ok.mp hp
    cases hp
    exact h.step_keeps (h.tables.addGoal g)
  | changeGoal g =>
    cases hp
    exact h.step_keeps (h.tables.putGoal g)

/-! ### Runs -/

def newOffice : Office := { tables := { goals := [], wakeups := [] } }

theorem OfficeSound.newOffice : OfficeSound newOffice where
  tables := ⟨List.nodup_nil, List.nodup_nil, by simp [Leadership.newOffice], by simp [Leadership.newOffice]⟩
  distinct := List.nodup_nil
  issued := by simp [Leadership.newOffice]
  claims := by simp [Leadership.newOffice]
  unanswered := by simp [Leadership.newOffice]

theorem OfficeSound.of_reaches (h : Leadership.newOffice.Reaches u) : OfficeSound u :=
  h.invariant .newOffice fun hu _ hop => (hu.step hop).1

theorem Decides.kept (h : OfficeSound u) (hd : Decides u v op) (ht : t ∈ u.tables.turns) (hdec : t.decision ≠ none) :
    ∃ t' ∈ v.tables.turns, SameTurn t t' := by
  cases hd with
  | keeps hrows => exact hrows.kept t ht
  | saves ha hwork hg ht0 hkey hnone hcurrent hmatch htables =>
    rename_i t0
    have hne : t.key ≠ t0.key := by
      intro hk
      rw [Lib.eq_of_key_eq h.tables.keys ht ht0 hk] at hdec
      exact hdec hnone
    rw [htables]
    exact ⟨t, Lib.mem_put_of_ne ht hne, rfl, rfl⟩

theorem decision_kept (hu : OfficeSound u) (hr : u.Reaches v) (ht : t ∈ u.tables.turns) (hdec : t.decision ≠ none) :
    OfficeSound v ∧ ∃ t' ∈ v.tables.turns, SameTurn t t' := by
  induction hr with
  | refl => exact ⟨hu, t, ht, rfl, rfl⟩
  | step _ _ hop ih =>
    obtain ⟨hsound, t', ht', hsame⟩ := ih
    obtain ⟨hnext, hdecides⟩ := hsound.step hop
    obtain ⟨t'', ht'', hsame'⟩ := hdecides.kept hsound ht' (by rw [hsame.2]; exact hdec)
    exact ⟨hnext, t'', ht'', hsame'.1.trans hsame.1, hsame'.2.trans hsame.2⟩

def HoldsWakeup (s : TurnTables) (claim : TurnClaim) (now : Nat) : Prop :=
  ∃ w ∈ s.wakeups, w.item.id = claim.wakeupId ∧ w.item.status = .leased ∧ w.item.leaseOwner = some claim.owner ∧
    w.item.leaseGeneration = claim.outboxGeneration ∧ ∃ e, w.item.leaseExpiresAt = some e ∧ now < e

theorem holdsWakeup_of_current (h : claimCurrentOn s g claim t now = true) :
    HoldsWakeup s claim now ∧ g.id = claim.goalId := by
  simp only [claimCurrentOn, claimCurrent, Bool.and_eq_true, decide_eq_true_eq, Option.any_eq_true] at h
  obtain ⟨⟨⟨⟨⟨⟨⟨hid, -⟩, -⟩, -⟩, lease, hlease, ⟨howner, hgen⟩, huntil⟩, -⟩, -⟩, -⟩ := h
  obtain ⟨w, hw, hl⟩ := Option.bind_eq_some_iff.mp hlease
  obtain ⟨hmem, hwid⟩ := mem_of_wakeup? hw
  refine ⟨⟨w, hmem, hwid, ?_⟩, hid⟩
  unfold leaseOf at hl
  split at hl
  · rename_i hst
    split at hl
    · rename_i owner expiresAt ho he
      cases hl
      exact ⟨hst, by rw [ho, ← howner], hgen, expiresAt, he, huntil⟩
    · cases hl
  · cases hl

/-- A decision is saved on the turn of the worker's claim by a worker that holds the wakeup, at the version, the
    fence and the scope that the turn has. -/
def SavedUnder (u : Office) (op : OfficeOp) (t' : LeadershipTurn) : Prop :=
  ∃ a body now claim g t, op = .save a body now ∧ a ∈ u.workers ∧ a.work = .inferring claim ∧ HoldsWakeup u.tables claim now ∧
    g ∈ u.tables.goals ∧ g.id = claim.goalId ∧ t ∈ u.tables.turns ∧ t.key = (claim.goalId, claim.wakeupId) ∧
    t.decision = none ∧ t.matchesGoal g ∧ t' = t.respond body

theorem Decides.source (hd : Decides u v op) (ht : t' ∈ v.tables.turns) (hdec : t'.decision ≠ none) :
    (∃ t ∈ u.tables.turns, SameTurn t t') ∨ SavedUnder u op t' := by
  cases hd with
  | keeps hrows => exact (hrows.source t' ht).imp_right fun hnew => absurd hnew hdec
  | saves ha hwork hg ht0 hkey hnone hcurrent hmatch htables =>
    rename_i a body now claim g t
    rw [htables] at ht
    rcases Lib.mem_put.mp ht with ⟨rfl, -⟩ | ⟨ht, -⟩
    · obtain ⟨hholds, hid⟩ := holdsWakeup_of_current hcurrent
      exact .inr ⟨a, body, now, claim, g, t, rfl, ha, hwork, hholds, hg, hid, ht0, hkey, hnone, hmatch, rfl⟩
    · exact .inl ⟨t', ht, rfl, rfl⟩

structure DecidedOnce (u : Office) : Prop where
  oneTurn : (u.tables.turns.map LeadershipTurn.key).Nodup
  responded : ∀ t ∈ u.tables.turns, t.status = .responded → t.decision.isSome = true
  saved : ∀ op v, u.perform op = .ok v → ∀ t' ∈ v.tables.turns, t'.decision ≠ none →
    (∃ t ∈ u.tables.turns, SameTurn t t') ∨ SavedUnder u op t'
  final : ∀ v, u.Reaches v → ∀ t ∈ u.tables.turns, t.decision ≠ none → ∃ t' ∈ v.tables.turns, SameTurn t t'

/-- For every interleaving of workers, expired leases, crashes and replays. -/
theorem lead_turn_decided_once (u : Office) (h : newOffice.Reaches u) : DecidedOnce u := by
  have hu := OfficeSound.of_reaches h
  refine ⟨hu.tables.keys, hu.tables.responded, ?_, ?_⟩
  · intro op v hop t' ht' hdec
    exact (hu.step hop).2.source ht' hdec
  · intro v hv t ht hdec
    exact (decision_kept hu hv ht hdec).2

def aGoal : ManagedGoal where
  id := 1

def takenOver : List OfficeOp :=
  let first : OutboxLeaseToken := ⟨3, "a", 1⟩
  let second : OutboxLeaseToken := ⟨3, "b", 2⟩
  [.addGoal aGoal, .addWakeup { item := { id := 3, destination := "lead" }, goalId := 1 },
    .claimWakeup 3 ⟨"a", 60, ["lead"], 0⟩, .prepare ⟨first, .holding⟩ { leaseSeconds := 60, now := 0 },
    .claimWakeup 3 ⟨"b", 60, ["lead"], 100⟩, .prepare ⟨second, .holding⟩ { leaseSeconds := 60, now := 100 },
    .save ⟨second, .inferring ⟨1, 3, "b", 2, 2⟩⟩ "second" 110, .save ⟨first, .inferring ⟨1, 3, "a", 1, 1⟩⟩ "first" 120]

theorem lead_turn_decided_once_taken_over :
    ∃ u, newOffice.Reaches u ∧ u.tables.turns.map (fun t => t.decision.map (·.body)) = [some "second"] ∧ DecidedOnce u := by
  have hrun : Lib.ends (fun u : Office => u.tables.turns.map (fun t => t.decision.map (·.body)) = [some "second"])
      (Lib.runOps Office.perform newOffice takenOver) = true := by decide
  obtain ⟨u, hu, hp⟩ := Lib.exists_of_ends hrun
  have hr : newOffice.Reaches u := Lib.reach_of_runOps (fun _ _ _ => trivial) hu
  exact ⟨u, hr, of_decide_eq_true hp, lead_turn_decided_once u hr⟩

end Vuzol.Leadership
