import Vuzol.Telegram.Delivery
import Vuzol.Theorems.Storage.Outbox

/-! A message that may have been sent is not sent again: an attempt that may have sent it settles its item for
    good, whatever the calls after the send end with. -/

namespace Vuzol.Telegram

open Vuzol.Storage

variable {limits : DeliveryLimits} {p : PreparedDelivery} {t : Transport} {x y : OutboxItem} {a : Attempt}
  {e : Raised} {o : TransportOutcome}

def isFinal : Settlement → Bool
  | .complete _ | .ambiguous | .deadLetter _ => true
  | _ => false

theorem change_terminal {f : Settlement} : (f.change x).status.isTerminal = isFinal f := by cases f <;> rfl

def Raised.isRetryAfter : Raised → Bool
  | .retryAfter _ => true
  | _ => false

theorem settlement_final (hs : p.action.isSend = true) {n now : Nat} :
    isFinal (settlementOf limits n now (classify p e)) = !e.isRetryAfter := by
  cases e <;> simp [classify, hs, settlementOf, isFinal, Raised.isRetryAfter]

def maySent (sends : List TransportOutcome) : Bool := sends.any (·.mayHaveSent)

/-- The sends of an attempt and its exception: all sends but the last were refused for sure, and a message that may
    exist is followed by no exception that puts the item back. -/
structure Called.Sound (c : Called) : Prop where
  refused : ∀ o ∈ c.sends.dropLast, o.mayHaveSent = false
  final : maySent c.sends = true → ∀ e, c.raised = some e → e.isRetryAfter = false

theorem Called.Sound.of_silent {c : Called} (h : c.sends = []) : c.Sound where
  refused := by simp [h]
  final := by simp [h, maySent]

theorem Called.Sound.of_confirm {c : Called} (hs : c.sends = [o]) (hr : c.raised = confirmSend o) : c.Sound where
  refused := by simp [hs]
  final := by
    rw [hs, hr]
    cases o <;> simp [maySent, confirmSend, TransportOutcome.raised, TransportOutcome.mayHaveSent, Raised.isRetryAfter]

theorem Called.Sound.prepend {c d : Called} (h : c.Sound) (ho : o.mayHaveSent = false)
    (hs : d.sends = o :: c.sends) (hr : d.raised = c.raised) : d.Sound where
  refused o' ho' := by
    rw [hs] at ho'
    by_cases hc : c.sends = []
    · simp [hc] at ho'
    · rw [List.dropLast_cons_of_ne_nil hc] at ho'
      rcases List.mem_cons.mp ho' with rfl | ho'
      · exact ho
      · exact h.refused o' ho'
  final hm := by
    rw [hr]
    exact h.final (by simpa [maySent, hs, ho] using hm)

/-- The sends of a plain message and of its fallback; the pin after them changes neither. -/
theorem callTelegram_sound : (callTelegram p t).Sound := by
  cases h : p.action
  case sendDocument => exact .of_confirm (o := t.plain) (by simp [callTelegram, h]) (by simp [callTelegram, h])
  case editStatus | editMessage | editReplyMarkup | deleteMessage | noop =>
    exact .of_silent (by simp [callTelegram, h])
  all_goals
    by_cases hf : t.plain = .badRequest ∧ p.fallbackHtml = true
    · have hfall : (finishSend p t t.fallback).Sound := .of_confirm rfl rfl
      exact hfall.prepend (o := t.plain) (by rw [hf.1]; rfl) (by simp [callTelegram, h, hf, Called.after])
        (by simp [callTelegram, h, hf, Called.after])
    · exact .of_confirm (o := t.plain) (by simp [callTelegram, h, hf, finishSend])
        (by simp [callTelegram, h, hf, finishSend])

theorem callTelegram_silent (hs : p.action.isSend = false) : (callTelegram p t).sends = [] := by
  cases h : p.action <;> simp [h, DeliveryAction.isSend] at hs <;> simp [callTelegram, h]

theorem calls_silent (hs : p.action.isSend = false) : (calls p t).sends = [] := by
  have hrich : (callRichTelegram p t).sends = [] := by simp only [callRichTelegram, hs]; split <;> simp
  simp only [calls]
  split
  · rfl
  · split
    · split <;> simp [hrich, callTelegram_silent hs]
    · exact callTelegram_silent hs

theorem calls_sound : (calls p t).Sound := by
  by_cases hs : p.action.isSend = true
  · have hn : p.action ≠ .noop := by
      intro h
      rw [h] at hs
      cases hs
    cases hr : p.richHtml with
    | false => simpa [calls, hn, hr] using callTelegram_sound (p := p) (t := t)
    | true =>
      by_cases hrej : t.rich = .badRequest ∨ t.rich = .endPointNotFound
      · -- a definite refusal of the rich message comes before the plain path
        have hno : t.rich.mayHaveSent = false := by rcases hrej with h | h <;> rw [h] <;> rfl
        refine (callTelegram_sound (p := p) (t := t)).prepend hno ?_ ?_ <;>
          rcases hrej with h | h <;> simp [calls, hn, hr, callRichTelegram, h, hs]
      · rw [not_or] at hrej
        refine .of_confirm (o := t.rich) ?_ ?_ <;>
          cases h : t.rich <;> simp [h] at hrej <;>
          simp [calls, hn, hr, callRichTelegram, h, hs, confirmSend, TransportOutcome.raised]
  · exact .of_silent (calls_silent (by simpa using hs))

theorem deliverOne_of_not_claimable (h : claimable a.claim x = false) : deliverOne limits x a = (x, []) := by
  simp [deliverOne, claimOutboxItem, h]

theorem settle_claimed {c : OutboxClaim} {f : Settlement} :
    (settle (leaseItem c x) ((leaseItem c x).tokenOf c) f).1 = f.change (leaseItem c x) := by
  simp [settle, updateHeld, OutboxLeaseToken.holds, OutboxItem.tokenOf, leaseItem]

theorem deliverOne_of_error {category : String} (h : claimable a.claim x = true) (hp : a.prepared = .error category) :
    deliverOne limits x a = (Settlement.change (.deadLetter category) (leaseItem a.claim x), []) := by
  simp only [deliverOne, claimOutboxItem, h, if_true, hp]
  rw [settle_claimed]

/-- What an attempt leaves: a send follows only refused ones, and the item is settled for good once the message may
    have been sent. -/
structure Attempted (y : OutboxItem) (sends : List TransportOutcome) : Prop where
  refused : ∀ o ∈ sends.dropLast, o.mayHaveSent = false
  settled : maySent sends = true → y.status.isTerminal = true

theorem Attempted.of_silent : Attempted y [] := ⟨by simp, by simp [maySent]⟩

theorem deliverOne_attempted (limits : DeliveryLimits) (x : OutboxItem) (a : Attempt) :
    Attempted (deliverOne limits x a).1 (deliverOne limits x a).2 := by
  cases hc : claimable a.claim x with
  | false =>
    rw [deliverOne_of_not_claimable hc]
    exact .of_silent
  | true =>
    cases hp : a.prepared with
    | error category =>
      rw [deliverOne_of_error hc hp]
      exact .of_silent
    | ok p =>
      have hsound := calls_sound (p := p) (t := a.transport)
      cases hr : (calls p a.transport).raised with
      | none =>
        have hd : deliverOne limits x a =
            (Settlement.change (.complete a.settledAt) (leaseItem a.claim x), (calls p a.transport).sends) := by
          simp only [deliverOne, claimOutboxItem, hc, if_true, hp, hr]
          rw [settle_claimed]
        rw [hd]
        exact ⟨hsound.refused, fun _ => change_terminal⟩
      | some e =>
        have hd : deliverOne limits x a =
            ((settlementOf limits (leaseItem a.claim x).attemptCount a.settledAt (classify p e)).change
              (leaseItem a.claim x), (calls p a.transport).sends) := by
          simp only [deliverOne, claimOutboxItem, hc, if_true, hp, hr]
          rw [settle_claimed]
        rw [hd]
        refine ⟨hsound.refused, fun hm => ?_⟩
        have hs : p.action.isSend = true := by
          by_contra hs
          rw [calls_silent (by simpa using hs)] at hm
          cases hm
        rw [change_terminal, settlement_final hs, hsound.final hm e hr]
        rfl

/-- A message that may have been sent is not sent again: after an attempt that may have sent it no later one sends,
    the item then ends in a terminal status, and within an attempt a send follows only refused ones. -/
structure NeverResent (r : OutboxItem × List (List TransportOutcome)) : Prop where
  silent : r.2.Pairwise fun earlier later => maySent earlier = true → later = []
  ends : (∃ sends ∈ r.2, maySent sends = true) → r.1.status.isTerminal = true
  refused : ∀ sends ∈ r.2, ∀ o ∈ sends.dropLast, o.mayHaveSent = false

theorem claimable_of_terminal {c : OutboxClaim} (h : x.status.isTerminal = true) : claimable c x = false := by
  cases hs : x.status <;> rw [hs] at h <;> simp [DeliveryStatus.isTerminal] at h <;> simp [claimable, hs]

theorem deliverAll_cons {rest : List Attempt} :
    deliverAll limits x (a :: rest) =
      ((deliverAll limits (deliverOne limits x a).1 rest).1,
        (deliverOne limits x a).2 :: (deliverAll limits (deliverOne limits x a).1 rest).2) := rfl

theorem deliverAll_of_terminal (limits : DeliveryLimits) (attempts : List Attempt) (h : x.status.isTerminal = true) :
    (deliverAll limits x attempts).1 = x ∧ ∀ sends ∈ (deliverAll limits x attempts).2, sends = [] := by
  induction attempts with
  | nil => exact ⟨rfl, by simp [deliverAll]⟩
  | cons a rest ih =>
    have hone : deliverOne limits x a = (x, []) := deliverOne_of_not_claimable (claimable_of_terminal h)
    simp only [deliverAll_cons, hone]
    refine ⟨ih.1, ?_⟩
    intro sends hs
    rcases List.mem_cons.mp hs with rfl | hs
    · rfl
    · exact ih.2 sends hs

/-- An attempt before the others: its own sends are as they should be, and if it may have sent the message then the
    others are silent and leave the item in a terminal status. -/
theorem NeverResent.cons {z : OutboxItem} {sends : List TransportOutcome} {more : List (List TransportOutcome)}
    (h : NeverResent (z, more)) (hown : ∀ o ∈ sends.dropLast, o.mayHaveSent = false)
    (hsent : maySent sends = true → z.status.isTerminal = true ∧ ∀ later ∈ more, later = []) :
    NeverResent (z, sends :: more) where
  silent := List.pairwise_cons.mpr ⟨fun later hl hm => (hsent hm).2 later hl, h.silent⟩
  ends := by
    rintro ⟨found, hmem, hm⟩
    rcases List.mem_cons.mp hmem with rfl | hmem
    · exact (hsent hm).1
    · exact h.ends ⟨found, hmem, hm⟩
  refused found hmem := by
    rcases List.mem_cons.mp hmem with rfl | hmem
    · exact hown
    · exact h.refused found hmem

/-- A status that is refused once and sent by its fallback, whose pin is then throttled. -/
def pinnedStatus (now : Nat) : Attempt where
  claim := ⟨"worker", 60, ["telegram"], now⟩
  prepared := .ok { action := .sendStatus, fallbackHtml := true, pinAfterSend := true }
  transport := { plain := .badRequest, pin := .retryAfter 5 }
  settledAt := now + 1

example : (deliverAll {} { id := 1, destination := "telegram" } [pinnedStatus 10, pinnedStatus 20]).2 =
    [[.badRequest, .success], []] := by decide

end Vuzol.Telegram
