import Mathlib.Algebra.Group.Nat.Defs
import Vuzol.Storage.Outbox

/-! One attempt to deliver an outbox item to Telegram (`telegram/delivery.py`): the calls that the prepared
    delivery makes, what each of their exceptions leads to, and how the item is settled. -/

namespace Vuzol.Telegram

open Vuzol.Storage

inductive DeliveryAction where
  | sendDocument | sendStatus | editStatus | editMessage | editReplyMarkup | sendClarification | sendProjectWelcome
  | sendProjectNames | sendModelPicker | sendHelp | sendDiscussionReply | deleteMessage | noop
  deriving DecidableEq

def DeliveryAction.isSend : DeliveryAction → Bool
  | .sendDocument | .sendStatus | .sendClarification | .sendProjectWelcome | .sendProjectNames | .sendModelPicker
  | .sendHelp | .sendDiscussionReply => true
  | _ => false

structure PreparedDelivery where
  action : DeliveryAction
  richHtml : Bool := false
  fallbackHtml : Bool := false
  pinAfterSend : Bool := false

/-- How a call to the Bot API ends. `TimedOut` and `BadRequest` are kinds of `NetworkError` there, so
    `networkError` stands for the others. -/
inductive TransportOutcome where
  | success | missingId | badRequest | forbidden | retryAfter (seconds : Nat) | timedOut | networkError
  | endPointNotFound
  deriving DecidableEq

def TransportOutcome.mayHaveSent : TransportOutcome → Bool
  | .success | .missingId | .timedOut | .networkError => true
  | _ => false

structure Transport where
  rich : TransportOutcome := .success
  plain : TransportOutcome := .success
  fallback : TransportOutcome := .success
  pin : TransportOutcome := .success

inductive Raised where
  | richMessageRejected | lostTelegramResponse | badRequest | forbidden | retryAfter (seconds : Nat) | timedOut
  | networkError | telegramError
  deriving DecidableEq

def TransportOutcome.raised : TransportOutcome → Option Raised
  | .success | .missingId => none
  | .badRequest => some .badRequest
  | .forbidden => some .forbidden
  | .retryAfter seconds => some (.retryAfter seconds)
  | .timedOut => some .timedOut
  | .networkError => some .networkError
  | .endPointNotFound => some .telegramError

/-- What the calls of one attempt sent, whether they pinned the message, and the exception that they end with. -/
structure Called where
  sends : List TransportOutcome
  pinned : Option Bool := none
  raised : Option Raised

def Called.after (o : TransportOutcome) (rest : Called) : Called := { rest with sends := o :: rest.sends }

def confirmSend (o : TransportOutcome) : Option Raised :=
  if o = .missingId then some .lostTelegramResponse else o.raised

/-- `_call_rich_telegram`: an edit creates nothing. -/
def callRichTelegram (p : PreparedDelivery) (t : Transport) : Called :=
  match t.rich with
  | .badRequest | .endPointNotFound =>
    { sends := if p.action.isSend then [t.rich] else [], raised := some .richMessageRejected }
  | o => { sends := if p.action.isSend then [o] else [], raised := confirmSend o }

/-- `pin_message` catches every `TelegramError` and says whether it pinned. -/
def pinMessage (o : TransportOutcome) : Bool := o.raised.isNone

/-- The end of a plain send: nothing reads what the pin returned. -/
def finishSend (p : PreparedDelivery) (t : Transport) (o : TransportOutcome) : Called where
  sends := [o]
  pinned := if confirmSend o = none ∧ p.pinAfterSend then some (pinMessage t.pin) else none
  raised := confirmSend o

def callTelegram (p : PreparedDelivery) (t : Transport) : Called :=
  match p.action with
  | .sendDocument => { sends := [t.plain], raised := confirmSend t.plain }
  | .sendStatus | .sendClarification | .sendProjectWelcome | .sendProjectNames | .sendModelPicker | .sendHelp
  | .sendDiscussionReply =>
    if t.plain = .badRequest ∧ p.fallbackHtml then (finishSend p t t.fallback).after t.plain
    else finishSend p t t.plain
  | .editReplyMarkup | .deleteMessage => { sends := [], raised := t.plain.raised }
  | .editStatus | .editMessage =>
    { sends := [], raised := if t.plain = .badRequest ∧ p.fallbackHtml then t.fallback.raised else t.plain.raised }
  | .noop => { sends := [], raised := none }

def calls (p : PreparedDelivery) (t : Transport) : Called :=
  if p.action = .noop then { sends := [], raised := none }
  else if p.richHtml then
    let rich := callRichTelegram p t
    if rich.raised = some .richMessageRejected then
      let plain := callTelegram p t
      { plain with sends := rich.sends ++ plain.sends }
    else rich
  else callTelegram p t

/-- The inner handler: a send whose outcome is unknown is a lost response. `BadRequest` passes. -/
def classify (p : PreparedDelivery) : Raised → Raised
  | .timedOut => if p.action.isSend then .lostTelegramResponse else .timedOut
  | .networkError => if p.action.isSend then .lostTelegramResponse else .networkError
  | e => e

structure DeliveryLimits where
  maxAttempts : Nat := 5
  retryMin : Nat := 1
  retryMax : Nat := 60

def handleTransient (limits : DeliveryLimits) (attemptCount : Nat) (category : String) (now : Nat) : Settlement :=
  if limits.maxAttempts ≤ attemptCount then .deadLetter category
  else .retry (min limits.retryMax (limits.retryMin * 2 ^ (attemptCount - 1))) category now

def settlementOf (limits : DeliveryLimits) (attemptCount : Nat) (now : Nat) : Raised → Settlement
  | .lostTelegramResponse => .ambiguous
  | .retryAfter seconds => .defer (max limits.retryMin (min limits.retryMax seconds)) "retryafter" now
  | .badRequest => .deadLetter "telegram_badrequest"
  | .forbidden => .deadLetter "telegram_forbidden"
  | .timedOut => handleTransient limits attemptCount "timedout" now
  | .networkError => handleTransient limits attemptCount "networkerror" now
  | .richMessageRejected | .telegramError => .deadLetter "telegram_telegramerror"

/-- One call of `deliver_one` on the item. `prepared` is what `prepare_delivery` returns, or the category of the
    `PermanentDeliveryError` it raises. -/
structure Attempt where
  claim : OutboxClaim
  prepared : Except String PreparedDelivery
  transport : Transport := {}
  settledAt : Nat

/-- The item after the attempt, and the sends that it made. `_complete` always finds the task of a snapshot: no
    code deletes a task. -/
def deliverOne (limits : DeliveryLimits) (x : OutboxItem) (a : Attempt) : OutboxItem × List TransportOutcome :=
  match claimOutboxItem x a.claim with
  | (x, none) => (x, [])
  | (x, some token) =>
    match a.prepared with
    | .error category => ((settle x token (.deadLetter category)).1, [])
    | .ok p =>
      let called := calls p a.transport
      match called.raised with
      | some e => ((settle x token (settlementOf limits x.attemptCount a.settledAt (classify p e))).1, called.sends)
      | none => ((settle x token (.complete a.settledAt)).1, called.sends)

def deliverAll (limits : DeliveryLimits) (x : OutboxItem) : List Attempt → OutboxItem × List (List TransportOutcome)
  | [] => (x, [])
  | a :: rest =>
    let (y, sends) := deliverOne limits x a
    let (z, more) := deliverAll limits y rest
    (z, sends :: more)

end Vuzol.Telegram
