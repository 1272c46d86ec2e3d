import Mathlib.Data.List.Infix
import Vuzol.Lib.Rows
import Vuzol.Lib.Uuid
import Vuzol.Telegram.Delivery

/-! Messages in several parts (`telegram/delivery.py`): a producer enqueues the first part, a delivery is claimed,
    prepared, carried out and settled by some worker, and the settling transaction enqueues the next part. Every call to
    Telegram succeeds here. -/

namespace Vuzol.Telegram

open Vuzol.Lib Vuzol.Storage

abbrev Part := Text × Text

inductive PartsRole where
  | chatNotice | discussionReply
  deriving DecidableEq

/-- The payload of an outbox item. A reply's parts are those of the turn that it is linked to until its first part is
    settled; the text of the turn stays as it is. -/
structure PartsPayload where
  role : PartsRole
  chatId : Int
  messageThreadId : Int
  html : Text := []
  projectionRole : Text := []
  revision : Int := 0
  replyParts : Option (List Part) := none
  replyPartIndex : Nat := 0
  /-- `telegram_markdown_parts` of the turn. -/
  turnParts : List Part := []
  /-- `telegram_rich_html` of the turn, where rich messages are on and no task is handed over. -/
  turnRich : Option Text := none
  /-- The role of the message of the source turn that the reply replaces; empty where there is none. -/
  thinkingRole : Text := []

structure OutboxRow where
  item : OutboxItem
  entityId : Uuid
  idempotencyKey : Text
  payload : PartsPayload
  origin : Nat

abbrev OutboxRow.key (x : OutboxRow) : Nat := x.item.id

/-- Who writes messages in several parts: `_enqueue_owner_question`, the commands of the lead, the provenance of a goal,
    `persist_discussion_reply` and the lead's turns. The card of a goal has one part, since `_preview` shortens every text
    in it, and all other notices are enqueued without `markdown`. -/
inductive PartsProducer where
  | ownerQuestion (goalId : Uuid) (version : Nat)
  | leadCommand (debug : Bool) (botId updateId : Nat)
  | incomingRequest (goalId : Uuid)
  | discussionReply
  | leadReply (wakeupId : Uuid)

/-- A message as its producer enqueues it. -/
structure PartsMessage where
  producer : PartsProducer
  /-- The `uuid4` of a notice, the turn that was appended for a reply. -/
  entityId : Uuid
  chatId : Int
  messageThreadId : Int
  parts : List Part
  several : 2 ≤ parts.length
  turnRich : Option Text := none
  thinkingRole : Text := []

def PartsMessage.idempotencyKey (m : PartsMessage) : Text :=
  match m.producer with
  | .ownerQuestion goalId version => "lead:question:".toList ++ goalId.str ++ ':' :: Nat.toDigits 10 version
  | .leadCommand debug botId updateId =>
    "lead:".toList ++ (if debug then "debug".toList else "notice".toList) ++
      ':' :: Nat.toDigits 10 botId ++ ':' :: Nat.toDigits 10 updateId
  | .incomingRequest goalId => "managed-goal:".toList ++ goalId.str ++ ":incoming-request".toList
  | .discussionReply => "discussion_reply:".toList ++ m.entityId.str
  | .leadReply wakeupId => "lead:reply:".toList ++ wakeupId.str

/-- What a producer of notices leaves to `enqueue_chat_notice`. -/
def PartsMessage.notice (m : PartsMessage) (projectionRole : Text) (revision : Nat) : PartsPayload where
  role := .chatNotice
  chatId := m.chatId
  messageThreadId := m.messageThreadId
  html := (m.parts.head?.map (·.1)).getD []
  projectionRole := projectionRole
  revision := revision
  replyParts := some m.parts

def PartsMessage.reply (m : PartsMessage) : PartsPayload where
  role := .discussionReply
  chatId := m.chatId
  messageThreadId := m.messageThreadId
  turnParts := m.parts
  turnRich := m.turnRich
  thinkingRole := m.thinkingRole

def PartsMessage.payload (m : PartsMessage) : PartsPayload :=
  match m.producer with
  | .ownerQuestion goalId version => m.notice ("lq:".toList ++ goalId.hex ++ ':' :: Nat.toDigits 10 version) version
  | .leadCommand _ _ _ => m.notice [] 0
  | .incomingRequest _ => m.notice [] 0
  | .discussionReply => m.reply
  | .leadReply _ => m.reply

def PartsMessage.row (m : PartsMessage) (id : Nat) : OutboxRow where
  item := { id := id, destination := "telegram" }
  entityId := m.entityId
  idempotencyKey := m.idempotencyKey
  payload := m.payload
  origin := id

/-- `TelegramMessageLink`. -/
structure MessageLink where
  id : Nat
  chatId : Int
  messageThreadId : Int
  messageId : Nat
  messageRole : Text
  projectionRevision : Int := 0

abbrev MessageLink.key (l : MessageLink) : Nat := l.id

/-- A `PreparedDelivery` of a notice or a reply. -/
structure PreparedPart where
  action : DeliveryAction
  chatId : Int
  threadId : Int
  html : Text := []
  fallbackHtml : Option Text := none
  richHtml : Option Text := none
  linkId : Option Nat := none
  revision : Int := 0
  messageRole : Text := []
  discussionParts : List Part := []
  discussionPartIndex : Nat := 0

/-- What `prepare_delivery` raises. -/
inductive DeliveryError where
  | permanent (category : String)
  | retryAfter (seconds : Nat)

inductive Post where
  | part (index : Nat) (html : Text)
  | rich (html : Text)
  deriving DecidableEq

inductive Stage where
  | claimed
  | prepared (p : PreparedPart)
  | raised (e : DeliveryError)
  | called (p : PreparedPart) (messageId : Option Nat)

inductive SettleError where
  | leaseLost
  | assertion
  /-- `uq_outbox_idempotency`. -/
  | unique (key : Text)
  deriving DecidableEq

structure PartsOutbox where
  rows : List OutboxRow := []
  links : List MessageLink := []
  limits : DeliveryLimits := {}
  nextId : Nat := 1
  nextMessageId : Nat := 1
  deliveries : List (OutboxLeaseToken × Stage) := []
  /-- What was enqueued, by the item that it begins with. -/
  messages : List (Nat × PartsMessage) := []
  /-- What was posted, by the message that it belongs to. -/
  posted : List (Nat × Post) := []
  /-- The settling transactions that failed, less those whose lease was lost. -/
  failures : List SettleError := []

namespace PartsOutbox

/-- `enqueue_chat_notice` for a notice, `OutboxRepository.enqueue` for a reply. A notice whose key is there is enqueued
    already; a reply's transaction fails on `uq_outbox_idempotency`. No `uuid4` and no turn is there twice. -/
def enqueue (s : PartsOutbox) (m : PartsMessage) : Except String PartsOutbox :=
  if s.rows.any (·.entityId = m.entityId) then .error "not a new entity"
  else if s.rows.any (·.idempotencyKey = m.idempotencyKey) then
    if m.payload.role = .chatNotice then .ok s else .error "uq_outbox_idempotency"
  else .ok { s with
    rows := s.rows ++ [m.row s.nextId], nextId := s.nextId + 1, messages := s.messages ++ [(s.nextId, m)] }

def startsWith (t : Text) (starts : List String) : Bool := starts.any fun p => p.toList.isPrefixOf t

def orderedRoles : List String := ["ls:", "la:", "lf:", "lm:"]

def taskless : List String := ["ls:", "lq:", "lp:", "la:", "lf:", "lw:", "lr:", "lm:", "mu:"]

def earlier? (s : PartsOutbox) (p : PartsPayload) : Option OutboxRow :=
  s.rows.find? fun x =>
    x.item.destination = "telegram" && x.payload.projectionRole = p.projectionRole && x.payload.chatId = p.chatId &&
      x.payload.messageThreadId = p.messageThreadId && decide (x.payload.revision < p.revision) &&
        (x.item.status = .pending || x.item.status = .leased || x.item.status = .ambiguous)

def latestLink? (s : PartsOutbox) (chatId threadId : Int) (role : Text) : Option MessageLink :=
  (s.links.filter fun l => l.chatId = chatId && l.messageThreadId = threadId && l.messageRole = role).foldl
    (fun best l => match best with
      | none => some l
      | some b => if b.projectionRevision < l.projectionRevision then some l else some b) none

def noticeParts (p : PartsPayload) : Except DeliveryError (List Part × Nat × Text × Option Text) :=
  match p.replyParts with
  | none => .ok ([], 0, p.html, none)
  | some parts =>
    match parts[p.replyPartIndex]? with
    | none => .error (.permanent "chat_notice_part_invalid")
    | some (html, fallback) => .ok (parts, p.replyPartIndex, html, some fallback)

def noticeAction (s : PartsOutbox) (p : PartsPayload) : Except DeliveryError (DeliveryAction × Option MessageLink) :=
  if p.projectionRole = [] then .ok (.sendHelp, none)
  else if startsWith p.projectionRole orderedRoles then
    match s.earlier? p with
    | some x => .error (if x.item.status = .ambiguous then .permanent "lead_projection_ambiguous" else .retryAfter 1)
    | none =>
      match s.latestLink? p.chatId p.messageThreadId p.projectionRole with
      | none => .ok (.sendStatus, none)
      | some link =>
        if p.revision ≤ link.projectionRevision then .ok (.noop, none) else .ok (.editStatus, some link)
  else .ok (.sendStatus, none)

/-- The part of `_prepare_delivery` for the role `chat_notice`. -/
def prepareChatNotice (s : PartsOutbox) (p : PartsPayload) : Except DeliveryError PreparedPart :=
  match noticeParts p with
  | .error e => .error e
  | .ok (parts, index, html, fallback) =>
    match s.noticeAction p with
    | .error e => .error e
    | .ok (.noop, _) => .ok { action := .noop, chatId := 0, threadId := 0 }
    | .ok (action, link) => .ok {
        action := action
        chatId := p.chatId
        threadId := p.messageThreadId
        html := html
        fallbackHtml := fallback
        linkId := link.map (·.id)
        revision := p.revision
        messageRole := if p.projectionRole = [] then "chat_notice".toList else p.projectionRole
        discussionParts := parts
        discussionPartIndex := index }

def richBody (p : PartsPayload) (parts : List Part) : Option Text :=
  if p.replyPartIndex = 0 then p.turnRich.filter fun t => parts.length ≠ 1 || decide ("<table>".toList <:+: t) else none

/-- `_prepare_discussion_reply` for a turn and a session that are there. -/
def prepareDiscussionReply (s : PartsOutbox) (p : PartsPayload) : Except DeliveryError PreparedPart :=
  let parts := p.replyParts.getD p.turnParts
  match parts[p.replyPartIndex]? with
  | none => .error (.permanent "discussion_reply_part_invalid")
  | some (html, fallback) =>
    let thinkingLink :=
      if p.replyPartIndex = 0 ∧ p.thinkingRole ≠ [] then s.latestLink? p.chatId p.messageThreadId p.thinkingRole else none
    .ok {
      action := if thinkingLink.isSome then .editMessage else .sendDiscussionReply
      chatId := p.chatId
      threadId := p.messageThreadId
      html := html
      fallbackHtml := some fallback
      richHtml := richBody p parts
      linkId := thinkingLink.map (·.id)
      messageRole := "discussion_reply".toList
      discussionParts := parts
      discussionPartIndex := p.replyPartIndex }

def prepareDelivery (s : PartsOutbox) (p : PartsPayload) : Except DeliveryError PreparedPart :=
  match p.role with
  | .chatNotice => s.prepareChatNotice p
  | .discussionReply => s.prepareDiscussionReply p

/-- The links that the delivery leaves. -/
def linkMessage (s : PartsOutbox) (p : PreparedPart) (messageId : Option Nat) : Except SettleError (List MessageLink) :=
  let link : MessageLink := {
    id := messageId.getD 0
    chatId := p.chatId
    messageThreadId := p.threadId
    messageId := messageId.getD 0
    messageRole := p.messageRole
    projectionRevision := p.revision }
  match p.action with
  | .sendStatus => if startsWith p.messageRole taskless then .ok (s.links ++ [link]) else .error .assertion
  | .editStatus =>
    match s.links.find? fun l => some l.id = p.linkId with
    | none => .error .leaseLost
    | some l =>
      .ok (put MessageLink.key { l with projectionRevision := max l.projectionRevision p.revision } s.links)
  | .sendDiscussionReply => .ok (s.links ++ [link])
  | _ => .ok s.links

def keyStart (messageRole : Text) : Text :=
  if messageRole = "chat_notice".toList then "chat_notice".toList else "discussion_reply".toList

/-- `f"{prefix}:{item.linked_entity_id}:part:{next_index}"`. -/
def partKey (start : Text) (entityId : Uuid) (index : Nat) : Text :=
  start ++ ':' :: entityId.str ++ ":part:".toList ++ Nat.toDigits 10 index

/-- `OutboxRepository.enqueue` of the next part. -/
def enqueueNext (rows : List OutboxRow) (nextId : Nat) (x : OutboxRow) (p : PreparedPart) :
    Except SettleError (List OutboxRow) :=
  let index := p.discussionPartIndex + 1
  let key := partKey (keyStart p.messageRole) x.entityId index
  if index < p.discussionParts.length then
    if rows.any fun y => y.item.destination = x.item.destination && y.idempotencyKey = key then .error (.unique key)
    else .ok (rows ++ [{
      item := { id := nextId, destination := x.item.destination }
      entityId := x.entityId
      idempotencyKey := key
      payload := { x.payload with replyPartIndex := index, replyParts := some p.discussionParts }
      origin := x.origin }])
  else .ok rows

def complete (s : PartsOutbox) (x : OutboxRow) (token : OutboxLeaseToken) (p : PreparedPart) (messageId : Option Nat)
    (now : Nat) : Except SettleError PartsOutbox := do
  let links ← s.linkMessage p messageId
  let rows ← enqueueNext s.rows s.nextId x p
  match completeOutboxItem x.item token now with
  | (_, some _) => .error .leaseLost
  | (item, none) =>
    .ok { s with links := links, rows := put OutboxRow.key { x with item := item } rows, nextId := s.nextId + 1 }

inductive PartsOp where
  | enqueue (m : PartsMessage)
  | claim (id : Nat) (c : OutboxClaim)
  | prepare (token : OutboxLeaseToken)
  | call (token : OutboxLeaseToken)
  | settle (token : OutboxLeaseToken) (now : Nat)

/-- The item that a delivery is at. -/
def PartsOp.itemId? : PartsOp → Option Nat
  | .enqueue _ => none
  | .claim id _ => some id
  | .prepare token => some token.itemId
  | .call token => some token.itemId
  | .settle token _ => some token.itemId

def row? (s : PartsOutbox) (id : Nat) : Option OutboxRow := s.rows.find? (OutboxRow.key · == id)

def stage? (s : PartsOutbox) (token : OutboxLeaseToken) : Option Stage :=
  (s.deliveries.find? (·.1 = token)).map (·.2)

def goOn (s : PartsOutbox) (token : OutboxLeaseToken) (stage : Stage) : PartsOutbox :=
  { s with deliveries := s.deliveries.map fun d => if d.1 = token then (token, stage) else d }

def leave (s : PartsOutbox) (token : OutboxLeaseToken) : PartsOutbox :=
  { s with deliveries := s.deliveries.filter (·.1 ≠ token) }

def claim (s : PartsOutbox) (id : Nat) (c : OutboxClaim) : Except String PartsOutbox :=
  match s.row? id with
  | none => .error "no item"
  | some x =>
    match claimOutboxItem x.item c with
    | (_, none) => .error "no item"
    | (item, some token) =>
      .ok { s with rows := put OutboxRow.key { x with item := item } s.rows, deliveries := s.deliveries ++ [(token, .claimed)] }

def prepareItem (s : PartsOutbox) (token : OutboxLeaseToken) : Except String PartsOutbox :=
  match s.stage? token, s.row? token.itemId with
  | some .claimed, some x =>
    match s.prepareDelivery x.payload with
    | .error e => .ok (s.goOn token (.raised e))
    | .ok p => .ok (s.goOn token (if p.action = .noop then .called p none else .prepared p))
  | _, _ => .error "nothing to prepare"

def callItem (s : PartsOutbox) (token : OutboxLeaseToken) : Except String PartsOutbox :=
  match s.stage? token, s.row? token.itemId with
  | some (.prepared p), some x =>
    let messageId := if p.action.isSend then some s.nextMessageId else none
    let posted := fun post => { s with posted := s.posted ++ [(x.origin, post)], nextMessageId := s.nextMessageId + 1 }
    match p.richHtml with
    | some html => .ok ((posted (.rich html)).goOn token (.called { p with discussionParts := [] } messageId))
    | none => .ok ((posted (.part p.discussionPartIndex p.html)).goOn token (.called p messageId))
  | _, _ => .error "nothing to call"

/-- How the service settles what `prepare_delivery` raised. -/
def DeliveryError.settlement (limits : DeliveryLimits) (now : Nat) : DeliveryError → Settlement
  | .permanent category => .deadLetter category
  | .retryAfter seconds => settlementOf limits 0 now (.retryAfter seconds)

/-- An exception that is no lost lease leaves `deliver_one`. -/
def settleItem (s : PartsOutbox) (token : OutboxLeaseToken) (now : Nat) : Except String PartsOutbox :=
  match s.stage? token, s.row? token.itemId with
  | some (.called p messageId), some x =>
    match s.complete x token p messageId now with
    | .ok t => .ok (t.leave token)
    | .error .leaseLost => .ok (s.leave token)
    | .error e => .ok { s.leave token with failures := s.failures ++ [e] }
  | some (.raised e), some x =>
    let (item, _) := Storage.settle x.item token (DeliveryError.settlement s.limits now e)
    .ok ({ s with rows := put OutboxRow.key { x with item := item } s.rows }.leave token)
  | _, _ => .error "nothing to settle"

def perform (s : PartsOutbox) : PartsOp → Except String PartsOutbox
  | .enqueue m => s.enqueue m
  | .claim id c => s.claim id c
  | .prepare token => s.prepareItem token
  | .call token => s.callItem token
  | .settle token now => s.settleItem token now

/-- No lease runs out while its worker is at the item. -/
def KeepsLease (s : PartsOutbox) : PartsOp → Bool
  | .claim id _ => (s.row? id).all fun x => x.item.status = .pending
  | _ => true

abbrev Reaches (allow : PartsOutbox → PartsOp → Prop) (s u : PartsOutbox) : Prop := Lib.Reach perform allow s u

def postedOf (s : PartsOutbox) (origin : Nat) : List Post := (s.posted.filter (·.1 = origin)).map (·.2)

end PartsOutbox

end Vuzol.Telegram
