import Vuzol.Lib.Rows
import Vuzol.Storage.Outbox

/-! Delivery under fencing tokens: every claim raises the generation of the item, so that an older token
    matches no row any more, and an item that is settled for good is left alone. -/

namespace Vuzol.Storage

open Vuzol.Lib

variable {x : OutboxItem} {token : OutboxLeaseToken} {f : Settlement} {s t : Outbox} {op : OutboxOp}
variable {c : OutboxClaim}

@[simp] theorem Settlement.change_generation : (f.change x).leaseGeneration = x.leaseGeneration := by
  cases f <;> rfl

@[simp] theorem Settlement.change_id : (f.change x).id = x.id := by cases f <;> rfl

@[simp] theorem leaseItem_generation : (leaseItem c x).leaseGeneration = x.leaseGeneration + 1 := rfl

@[simp] theorem leaseItem_status : (leaseItem c x).status = .leased := rfl

theorem settle_of_held (h : token.holds x = true) : settle x token f = (f.change x, none) := by
  simp [settle, updateHeld, h]

theorem settle_of_lost (h : token.holds x = false) : settle x token f = (x, some (.leaseLost token.itemId)) := by
  simp [settle, updateHeld, h]

theorem OutboxLeaseToken.holds_leased (h : token.holds x = true) : x.status = .leased := by
  simp only [holds, Bool.and_eq_true, decide_eq_true_eq] at h
  exact h.2

theorem OutboxLeaseToken.holds_generation (h : token.holds x = true) : x.leaseGeneration = token.generation := by
  simp only [holds, Bool.and_eq_true, decide_eq_true_eq] at h
  exact h.1.2

theorem claimable_not_terminal (h : claimable c x = true) : x.status.isTerminal = false := by
  simp only [claimable, Bool.and_eq_true, Bool.or_eq_true, decide_eq_true_eq] at h
  rcases h.1.2 with hs | ⟨hs, -⟩ <;> rw [hs] <;> rfl

theorem perform_settles (h : op.token? = some token) : ∃ f, s.perform op = s.note (settle s.item token f) := by
  cases op with
  | claim c => cases h
  | complete _ now => cases h; exact ⟨.complete now, rfl⟩
  | ambiguous _ => cases h; exact ⟨.ambiguous, rfl⟩
  | retry _ d e now => cases h; exact ⟨.retry d e now, rfl⟩
  | defer _ d r now => cases h; exact ⟨.defer d r now, rfl⟩
  | deadLetter _ e => cases h; exact ⟨.deadLetter e, rfl⟩

/-- What one operation does: it takes the lease, it settles the item with the token that holds it, or it
    changes nothing, and then a settling operation raises. -/
theorem perform_cases (s : Outbox) (op : OutboxOp) :
    (∃ c, op = .claim c ∧ claimable c s.item = true ∧
      s.perform op = ({
        item := leaseItem c s.item
        issued := s.issued ++ [(leaseItem c s.item).tokenOf c]
        entered := s.entered ++ [.leased] }, none)) ∨
    (∃ token, ∃ f : Settlement, op.token? = some token ∧ token.holds s.item = true ∧
      s.perform op = ({ s with
        item := f.change s.item
        entered := s.entered ++ [(f.change s.item).status] }, none)) ∨
    ((s.perform op).1 = s ∧ ∀ token, op.token? = some token → (s.perform op).2 = some (.leaseLost token.itemId)) := by
  cases hop : op.token? with
  | none =>
    cases op with
    | claim c =>
      by_cases hc : claimable c s.item = true
      · exact Or.inl ⟨c, rfl, hc, by simp [Outbox.perform, claimOutboxItem, hc]⟩
      · refine Or.inr (Or.inr ⟨?_, fun _ h => nomatch h⟩)
        simp [Outbox.perform, claimOutboxItem, hc]
    | _ => cases hop
  | some token =>
    obtain ⟨f, hf⟩ := perform_settles (s := s) hop
    by_cases hh : token.holds s.item = true
    · exact Or.inr (Or.inl ⟨token, f, rfl, hh, by rw [hf, settle_of_held hh]; rfl⟩)
    · rw [settle_of_lost (by simpa using hh)] at hf
      refine Or.inr (Or.inr ⟨by rw [hf]; rfl, ?_⟩)
      rintro token' ⟨⟩
      rw [hf]
      rfl

theorem perform_of_lost (hop : op.token? = some token) (h : token.holds s.item = false) :
    s.perform op = (s, some (.leaseLost token.itemId)) := by
  obtain ⟨f, hf⟩ := perform_settles (s := s) hop
  rw [hf, settle_of_lost h]
  rfl

theorem perform_of_terminal (h : s.item.status.isTerminal = true) : (s.perform op).1 = s := by
  rcases perform_cases s op with ⟨c, -, hc, -⟩ | ⟨token, f, -, hh, -⟩ | ⟨he, -⟩
  · rw [claimable_not_terminal hc] at h
    cases h
  · rw [token.holds_leased hh] at h
    cases h
  · exact he

/-- What holds in every state: the tokens were handed out under rising generations, the last of which is the
    item's, and an item that was given a terminal status once still has it. -/
structure Fenced (s : Outbox) : Prop where
  rising : s.issued.Pairwise fun a b => a.generation < b.generation
  newest : ∀ token ∈ s.issued, token.generation ≤ s.item.leaseGeneration
  once : (s.entered.filter (·.isTerminal)).length ≤ 1
  settled : (∃ d ∈ s.entered, d.isTerminal = true) → s.item.status.isTerminal = true

theorem Fenced.init {x : OutboxItem} : Fenced { item := x } where
  rising := .nil
  newest _ h := by cases h
  once := by simp
  settled := by rintro ⟨d, hd, -⟩; cases hd

theorem Fenced.filter_nil (h : Fenced s) (hs : s.item.status.isTerminal = false) :
    s.entered.filter (·.isTerminal) = [] := by
  rw [List.filter_eq_nil_iff]
  intro d hd hterm
  rw [h.settled ⟨d, hd, hterm⟩] at hs
  cases hs

theorem Fenced.claim (h : Fenced s) (hc : claimable c s.item = true) :
    Fenced {
      item := leaseItem c s.item
      issued := s.issued ++ [(leaseItem c s.item).tokenOf c]
      entered := s.entered ++ [.leased] } where
  rising := by
    rw [List.pairwise_append]
    refine ⟨h.rising, List.pairwise_singleton _ _, ?_⟩
    intro a ha b hb
    rw [List.mem_singleton.mp hb]
    exact Nat.lt_succ_of_le (h.newest a ha)
  newest token ht := by
    rcases Lib.mem_concat.mp ht with ht | rfl
    · exact Nat.le_succ_of_le (h.newest token ht)
    · exact Nat.le_refl _
  once := by
    rw [List.filter_append, h.filter_nil (claimable_not_terminal hc)]
    simp [DeliveryStatus.isTerminal]
  settled := by
    rintro ⟨d, hd, hterm⟩
    rcases Lib.mem_concat.mp hd with hd | rfl
    · have hnil := h.settled ⟨d, hd, hterm⟩
      rw [claimable_not_terminal hc] at hnil
      cases hnil
    · cases hterm

theorem Fenced.settle (h : Fenced s) (hh : token.holds s.item = true) :
    Fenced { s with item := f.change s.item, entered := s.entered ++ [(f.change s.item).status] } where
  rising := h.rising
  newest token ht := by
    rw [Settlement.change_generation]
    exact h.newest token ht
  once := by
    rw [List.filter_append, h.filter_nil (by rw [token.holds_leased hh]; rfl), List.nil_append]
    exact List.length_filter_le _ _
  settled := by
    rintro ⟨d, hd, hterm⟩
    rcases List.mem_append.mp hd with hd | hd
    · have hlive := h.settled ⟨d, hd, hterm⟩
      rw [token.holds_leased hh] at hlive
      cases hlive
    · rwa [List.mem_singleton.mp hd] at hterm

theorem Fenced.perform (h : Fenced s) : Fenced (s.perform op).1 := by
  rcases perform_cases s op with ⟨c, -, hc, he⟩ | ⟨token, f, -, hh, he⟩ | ⟨he, -⟩
  · rw [he]
    exact h.claim hc
  · rw [he]
    exact h.settle hh
  · rw [he]
    exact h

theorem Fenced.reaches (h : Fenced s) (hr : s.Reaches t) : Fenced t := by
  apply hr.invariant h
  intro u v op hu _ hv
  cases hv
  exact hu.perform

theorem terminal_of_reaches (h : s.item.status.isTerminal = true) (hr : s.Reaches t) : t = s := by
  refine hr.invariant (P := fun u => u = s) rfl ?_
  intro u v op hu _ hv
  cases hv
  rw [hu]
  exact perform_of_terminal h

theorem claim_raises (hc : claimable c s.item = true) :
    (s.perform (.claim c)).1.item.leaseGeneration = s.item.leaseGeneration + 1 := by
  simp [Outbox.perform, claimOutboxItem, hc]

/-- Delivery of one outbox item by any number of workers, from any row, in any order of claims and settlements
    and with leases that expire at any time. The generation rises with every claim, a superseded token is refused
    by every operation and changes nothing, the item is given a terminal status at most once, and it is never
    claimed or written again after that. -/
theorem outbox_delivery_fenced (x : OutboxItem) (t : Outbox) (h : Outbox.Reaches { item := x } t) :
    (t.issued.Pairwise fun a b => a.generation < b.generation) ∧
    (∀ c, (t.perform (.claim c)).1 = t ∨
      t.item.leaseGeneration < (t.perform (.claim c)).1.item.leaseGeneration) ∧
    (∀ old ∈ t.issued, ∀ new ∈ t.issued, old.generation < new.generation →
      ∀ op : OutboxOp, op.token? = some old → t.perform op = (t, some (.leaseLost old.itemId))) ∧
    (t.entered.filter (·.isTerminal)).length ≤ 1 ∧
    (t.item.status.isTerminal = true → ∀ u, t.Reaches u → u.item = t.item ∧ u.issued = t.issued) := by
  have hf : Fenced t := Fenced.init.reaches h
  refine ⟨hf.rising, ?_, ?_, hf.once, ?_⟩
  · intro c
    by_cases hc : claimable c t.item = true
    · rw [claim_raises hc]
      exact Or.inr (Nat.lt_succ_self _)
    · left
      simp [Outbox.perform, claimOutboxItem, hc]
  · intro old _ new hnew hlt op hop
    apply perform_of_lost hop
    by_contra hheld
    have hgen := old.holds_generation (by simpa using hheld)
    have hle := hf.newest new hnew
    omega
  · intro hterm u hu
    rw [terminal_of_reaches hterm hu]
    exact ⟨rfl, rfl⟩

/-- An item that a second worker claimed after the lease of the first one had expired. -/
def reclaimed : Outbox where
  item := {
    id := 1
    destination := "telegram"
    status := .leased
    attemptCount := 2
    leaseOwner := some "second"
    leaseExpiresAt := some 95
    leaseGeneration := 2 }
  issued := [⟨1, "first", 1⟩, ⟨1, "second", 2⟩]
  entered := [.leased, .leased]

/-- The first worker settles too late. -/
theorem outbox_delivery_fenced_reclaimed : Outbox.Reaches { item := { id := 1, destination := "telegram" } } reclaimed ∧
    reclaimed.perform (.complete ⟨1, "first", 1⟩ 70) = (reclaimed, some (.leaseLost 1)) := by
  have hr : Outbox.Reaches { item := { id := 1, destination := "telegram" } } reclaimed := by
    have hrun : runOps (fun s op => (.ok (s.perform op).1 : Except StorageError Outbox))
        { item := { id := 1, destination := "telegram" } }
        [.claim ⟨"first", 30, ["telegram"], 5⟩, .claim ⟨"second", 30, ["telegram"], 65⟩] = .ok reclaimed := rfl
    exact reach_of_runOps (fun _ _ _ => trivial) hrun
  refine ⟨hr, ?_⟩
  obtain ⟨-, -, hlost, -⟩ := outbox_delivery_fenced _ _ hr
  exact hlost ⟨1, "first", 1⟩ (by decide) ⟨1, "second", 2⟩ (by decide) (by decide) (.complete ⟨1, "first", 1⟩ 70) rfl

end Vuzol.Storage
