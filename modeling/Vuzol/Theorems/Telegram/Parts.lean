import Vuzol.Lib.Json
import Vuzol.Telegram.Parts
import Vuzol.Theorems.Storage.Outbox

/-! Messages in several parts arrive part by part: the item of the next part appears when the part before it is settled,
    under a key that no other message uses. -/

namespace Vuzol.Telegram
namespace PartsOutbox

open Vuzol.Lib Vuzol.Storage

variable {s u v : PartsOutbox} {x x₀ y z : OutboxRow} {p : PreparedPart} {q : PartsPayload} {token : OutboxLeaseToken}
  {d : OutboxLeaseToken × Stage} {stage stage' : Stage} {role : Text} {links : List MessageLink} {messageId : Option Nat}
  {i now : Nat}

/-! ### Keys -/

theorem keyStart_cases (role : Text) :
    keyStart role = "chat_notice".toList ∨ keyStart role = "discussion_reply".toList := by
  unfold keyStart
  split
  · exact .inl rfl
  · exact .inr rfl

theorem partKey_inj {role role' : Text} {e e' : Uuid} {n n' : Nat}
    (h : partKey (keyStart role) e n = partKey (keyStart role') e' n') : keyStart role = keyStart role' ∧ e = e' ∧ n = n' := by
  have hstart : keyStart role = keyStart role' := by
    have hhead := congrArg List.head? h
    rcases keyStart_cases role with hs | hs <;> rcases keyStart_cases role' with hs' | hs' <;> rw [hs, hs'] at hhead ⊢
    · cases hhead
    · cases hhead
  rw [hstart] at h
  simp only [partKey, List.append_assoc, List.append_cancel_left_eq, List.cons_append, List.cons.injEq, true_and] at h
  obtain ⟨hentity, hrest⟩ := List.append_inj h (by rw [Uuid.length_str, Uuid.length_str])
  have hdigits : Nat.toDigits 10 n ++ [] = Nat.toDigits 10 n' ++ [] := by
    rw [List.append_nil, List.append_nil]
    exact List.append_cancel_left hrest
  have hnil : Json.EndsNumber [] := by simp [Json.EndsNumber]
  exact ⟨hstart, Uuid.str_inj hentity, (Json.toDigits_append_inj hnil hnil hdigits).1⟩

/-! ### Messages -/

def partsOf (q : PartsPayload) : List Part :=
  match q.role with
  | .chatNotice => q.replyParts.getD []
  | .discussionReply => q.replyParts.getD q.turnParts

def richOf (q : PartsPayload) : Option Text :=
  match q.role with
  | .chatNotice => none
  | .discussionReply => richBody q (partsOf q)

def postsOf (q : PartsPayload) : List Post :=
  match richOf q with
  | some html => [.rich html]
  | none => (partsOf q).mapIdx fun i part => .part i part.1

def roleOf (q : PartsPayload) : Text :=
  match q.role with
  | .chatNotice => if q.projectionRole = [] then "chat_notice".toList else q.projectionRole
  | .discussionReply => "discussion_reply".toList

def IsPlain (q : PartsPayload) : Prop :=
  q.role = .chatNotice → q.projectionRole ≠ [] →
    startsWith q.projectionRole orderedRoles = false ∧ startsWith q.projectionRole taskless = true

structure IsMessage (x : OutboxRow) : Prop where
  first : x.payload.replyPartIndex = 0
  several : 2 ≤ (partsOf x.payload).length
  plain : IsPlain x.payload
  key : ∀ role e i, x.idempotencyKey ≠ partKey (keyStart role) e i

/-- The payload of the message's part `i`. -/
def payloadAt (q : PartsPayload) (i : Nat) : PartsPayload :=
  { q with replyPartIndex := i, replyParts := if i = 0 then q.replyParts else some (partsOf q) }

theorem payloadAt_zero (h : q.replyPartIndex = 0) : payloadAt q 0 = q := by
  cases q
  cases h
  rfl

theorem partsOf_payloadAt (q : PartsPayload) (i : Nat) : partsOf (payloadAt q i) = partsOf q := by
  unfold payloadAt
  split
  · rfl
  · unfold partsOf
    cases q.role <;> rfl

theorem richOf_eq_none (h : 1 < (postsOf q).length) : richOf q = none := by
  cases hr : richOf q with
  | none => rfl
  | some html =>
    rw [postsOf, hr] at h
    exact absurd h (by simp)

theorem length_postsOf (h : richOf q = none) : (postsOf q).length = (partsOf q).length := by
  rw [postsOf, h]
  exact List.length_mapIdx

theorem getElem?_postsOf (h : richOf q = none) (i : Nat) :
    (postsOf q)[i]? = (partsOf q)[i]?.map fun part => .part i part.1 := by
  rw [postsOf, h]
  exact List.getElem?_mapIdx

theorem lt_length_partsOf (hparts : 0 < (partsOf q).length) (hi : i < (postsOf q).length) : i < (partsOf q).length := by
  cases hr : richOf q with
  | none => rwa [length_postsOf hr] at hi
  | some html =>
    rw [postsOf, hr] at hi
    have hzero : i = 0 := Nat.lt_one_iff.mp hi
    omega

/-! ### Preparing -/

def postOf (p : PreparedPart) : Post :=
  match p.richHtml with
  | some html => .rich html
  | none => .part p.discussionPartIndex p.html

def afterCall (p : PreparedPart) : PreparedPart := if p.richHtml.isSome then { p with discussionParts := [] } else p

structure PreparedFor (q : PartsPayload) (i : Nat) (p : PreparedPart) : Prop where
  action : p.action ≠ .noop
  role : p.messageRole = roleOf q
  index : p.discussionPartIndex = i
  post : (postsOf q)[i]? = some (postOf p)
  more : i + 1 < (afterCall p).discussionParts.length ↔ i + 1 < (postsOf q).length
  parts : i + 1 < (postsOf q).length → (afterCall p).discussionParts = partsOf q
  links : ∀ (s : PartsOutbox) (messageId : Option Nat), ∃ links, s.linkMessage p messageId = .ok links

theorem PreparedFor.intro {part : Part} (hpart : (partsOf q)[i]? = some part) (hi : i < (postsOf q).length)
    (haction : p.action ≠ .noop) (hrole : p.messageRole = roleOf q) (hindex : p.discussionPartIndex = i)
    (hhtml : p.html = part.1) (hrich : p.richHtml = richOf q) (hparts : p.discussionParts = partsOf q)
    (hlinks : ∀ (s : PartsOutbox) (messageId : Option Nat), ∃ links, s.linkMessage p messageId = .ok links) :
    PreparedFor q i p := by
  cases hr : richOf q with
  | none =>
    have hafter : afterCall p = p := if_neg (by rw [hrich, hr]; decide)
    refine ⟨haction, hrole, hindex, ?_, ?_, fun _ => by rw [hafter, hparts], hlinks⟩
    · rw [getElem?_postsOf hr, hpart, postOf, hrich, hr, hindex, hhtml]
      rfl
    · rw [hafter, hparts, length_postsOf hr]
  | some html =>
    have hafter : (afterCall p).discussionParts = [] := by
      rw [afterCall, if_pos (by rw [hrich, hr]; rfl)]
    have hposts : postsOf q = [.rich html] := by rw [postsOf, hr]
    rw [hposts] at hi
    obtain rfl : i = 0 := Nat.lt_one_iff.mp hi
    refine ⟨haction, hrole, hindex, ?_, ?_, fun hmore => ?_, hlinks⟩
    · rw [hposts, postOf, hrich, hr]
      rfl
    · rw [hafter, hposts]
      simp
    · rw [hposts] at hmore
      exact absurd hmore (by simp)

theorem noticeAction_plain (s : PartsOutbox) (hplain : q.projectionRole ≠ [] →
      startsWith q.projectionRole orderedRoles = false) :
    s.noticeAction q = .ok (if q.projectionRole = [] then .sendHelp else .sendStatus, none) := by
  unfold noticeAction
  split
  · rfl
  · rename_i hrole
    rw [if_neg (by rw [hplain hrole]; decide)]

theorem prepareChatNotice_ok (s : PartsOutbox) (hq : q.role = .chatNotice) (hplain : IsPlain q)
    (hparts : 0 < (partsOf q).length) (hi : i < (postsOf q).length) :
    ∃ p, s.prepareChatNotice (payloadAt q i) = .ok p ∧ PreparedFor q i p := by
  have hlt := lt_length_partsOf hparts hi
  have hpart : (partsOf q)[i]? = some (partsOf q)[i] := List.getElem?_eq_getElem hlt
  have hstored : (payloadAt q i).replyParts = some (partsOf q) := by
    unfold payloadAt
    split
    · cases hr : q.replyParts with
      | some parts => rw [partsOf, hq, hr]; rfl
      | none =>
        rw [partsOf, hq, hr] at hparts
        exact absurd hparts (Nat.not_lt_zero _)
    · rfl
  have hnotice : noticeParts (payloadAt q i) = .ok (partsOf q, i, (partsOf q)[i].1, some (partsOf q)[i].2) := by
    unfold noticeParts
    rw [hstored]
    simp only [show (payloadAt q i).replyPartIndex = i from rfl, hpart]
  have haction := noticeAction_plain (q := payloadAt q i) s fun hrole => (hplain hq hrole).1
  have hrich : none = richOf q := by rw [richOf, hq]
  unfold prepareChatNotice
  rw [hnotice, haction]
  by_cases hrole : (payloadAt q i).projectionRole = []
  · simp only [hrole, if_true]
    refine ⟨_, rfl, .intro hpart hi (fun h => nomatch h) ?_ rfl rfl hrich rfl fun s messageId => ⟨_, rfl⟩⟩
    rw [roleOf, hq]
    exact (if_pos hrole).symm
  · simp only [hrole, if_false]
    refine ⟨_, rfl, .intro hpart hi (fun h => nomatch h) ?_ rfl rfl hrich rfl fun s messageId =>
      ⟨_, if_pos (hplain hq hrole).2⟩⟩
    rw [roleOf, hq]
    exact (if_neg hrole).symm

theorem reply_action (hp : p.action = .editMessage ∨ p.action = .sendDiscussionReply) :
    p.action ≠ .noop ∧ ∀ (s : PartsOutbox) (messageId : Option Nat), ∃ links, s.linkMessage p messageId = .ok links := by
  unfold linkMessage
  rcases hp with hp | hp
  · rw [hp]
    exact ⟨(fun h => nomatch h), fun _ _ => ⟨_, rfl⟩⟩
  · rw [hp]
    exact ⟨(fun h => nomatch h), fun _ _ => ⟨_, rfl⟩⟩

theorem prepareDiscussionReply_ok (s : PartsOutbox) (hq : q.role = .discussionReply) (hfirst : q.replyPartIndex = 0)
    (hparts : 0 < (partsOf q).length) (hi : i < (postsOf q).length) :
    ∃ p, s.prepareDiscussionReply (payloadAt q i) = .ok p ∧ PreparedFor q i p := by
  have hlt := lt_length_partsOf hparts hi
  have hpart : (partsOf q)[i]? = some (partsOf q)[i] := List.getElem?_eq_getElem hlt
  have hstored : (payloadAt q i).replyParts.getD (payloadAt q i).turnParts = partsOf q := by
    have heq := partsOf_payloadAt q i
    rwa [partsOf, show (payloadAt q i).role = .discussionReply from hq] at heq
  have hrich : richBody (payloadAt q i) (partsOf q) = richOf q := by
    by_cases hzero : i = 0
    · rw [hzero, payloadAt_zero hfirst, richOf, hq]
    · rw [richOf_eq_none (q := q) (by omega)]
      exact if_neg hzero
  have hrole : "discussion_reply".toList = roleOf q := by rw [roleOf, hq]
  unfold prepareDiscussionReply
  simp only [hstored, hrich, show (payloadAt q i).replyPartIndex = i from rfl, hpart]
  refine ⟨_, rfl, .intro hpart hi (reply_action ?_).1 hrole rfl rfl rfl rfl (reply_action ?_).2⟩
  · exact ite_eq_or_eq _ _ _
  · exact ite_eq_or_eq _ _ _

theorem prepareDelivery_ok (s : PartsOutbox) (h : IsMessage x) (hi : i < (postsOf x.payload).length) :
    ∃ p, s.prepareDelivery (payloadAt x.payload i) = .ok p ∧ PreparedFor x.payload i p := by
  have hparts : 0 < (partsOf x.payload).length := Nat.lt_of_lt_of_le Nat.two_pos h.several
  have hrole : (payloadAt x.payload i).role = x.payload.role := rfl
  unfold prepareDelivery
  rw [hrole]
  cases hq : x.payload.role with
  | chatNotice => exact prepareChatNotice_ok s hq h.plain hparts hi
  | discussionReply => exact prepareDiscussionReply_ok s hq h.first hparts hi

/-! ### Runs -/

/-- The first items of the messages, as they were enqueued. -/
def firsts (s : PartsOutbox) : List OutboxRow := s.messages.map fun d => d.2.row d.1

/-- An item of the message that begins with `x₀`. -/
structure Follows (x₀ x : OutboxRow) : Prop where
  origin : x.origin = x₀.item.id
  entity : x.entityId = x₀.entityId
  payload : x.payload = payloadAt x₀.payload x.payload.replyPartIndex
  bound : x.payload.replyPartIndex < (postsOf x₀.payload).length
  firstKey : x.payload.replyPartIndex = 0 → x.idempotencyKey = x₀.idempotencyKey
  laterKey : x.payload.replyPartIndex ≠ 0 →
    x.idempotencyKey = partKey (keyStart (roleOf x₀.payload)) x₀.entityId x.payload.replyPartIndex

def Stage.calls : Stage → Nat
  | .called _ _ => 1
  | _ => 0

def StageSound (x₀ : OutboxRow) (i : Nat) : Stage → Prop
  | .claimed => True
  | .prepared p => PreparedFor x₀.payload i p
  | .raised _ => False
  | .called p _ => ∃ p', PreparedFor x₀.payload i p' ∧ p = afterCall p'

def FrontAt (s : PartsOutbox) (x₀ x : OutboxRow) : Prop :=
  (x.item.status = .pending ∧ s.postedOf x₀.item.id = (postsOf x₀.payload).take x.payload.replyPartIndex) ∨
    (x.item.status = .leased ∧ ∃ d ∈ s.deliveries, d.1.itemId = x.item.id ∧
      s.postedOf x₀.item.id = (postsOf x₀.payload).take (x.payload.replyPartIndex + Stage.calls d.2)) ∨
      (x.item.status = .delivered ∧ s.postedOf x₀.item.id = postsOf x₀.payload)

/-- The last item of the message that begins with `x₀`. -/
structure Front (s : PartsOutbox) (x₀ x : OutboxRow) : Prop where
  origin : x.origin = x₀.item.id
  last : ∀ y ∈ s.rows, y.origin = x₀.item.id → y.item.id ≠ x.item.id →
    y.item.status = .delivered ∧ y.payload.replyPartIndex < x.payload.replyPartIndex
  state : FrontAt s x₀ x

structure Sound (s : PartsOutbox) : Prop where
  older : ∀ x ∈ s.firsts, x.item.id < s.nextId
  firstIds : (s.firsts.map OutboxRow.key).Nodup
  entities : (s.firsts.map (·.entityId)).Nodup
  posted : ∀ d ∈ s.posted, d.1 < s.nextId
  ids : (s.rows.map OutboxRow.key).Nodup
  fresh : ∀ x ∈ s.rows, x.item.id < s.nextId
  follows : ∀ x ∈ s.rows, ∃ x₀ ∈ s.firsts, Follows x₀ x
  tokens : (s.deliveries.map (·.1.itemId)).Nodup
  held : ∀ d ∈ s.deliveries, ∃ x ∈ s.rows, d.1.holds x.item = true ∧
    ∃ x₀ ∈ s.firsts, Follows x₀ x ∧ StageSound x₀ x.payload.replyPartIndex d.2
  front : ∀ x₀ ∈ s.firsts, ∃ x ∈ s.rows, Front s x₀ x
  failures : s.failures = []

theorem holds_iff : token.holds x.item = true ↔ x.item.id = token.itemId ∧ x.item.leaseOwner = some token.owner ∧
    x.item.leaseGeneration = token.generation ∧ x.item.status = .leased := by
  simp only [OutboxLeaseToken.holds, Bool.and_eq_true, decide_eq_true_eq, and_assoc]

theorem Front.of_pending (h : Front s x₀ x) (hp : x.item.status = .pending) :
    s.postedOf x₀.item.id = (postsOf x₀.payload).take x.payload.replyPartIndex := by
  rcases h.state with ⟨-, hposted⟩ | ⟨hl, -⟩ | ⟨hd, -⟩
  · exact hposted
  · rw [hp] at hl
    cases hl
  · rw [hp] at hd
    cases hd

theorem Front.of_leased (h : Front s x₀ x) (hl : x.item.status = .leased) :
    ∃ d ∈ s.deliveries, d.1.itemId = x.item.id ∧
      s.postedOf x₀.item.id = (postsOf x₀.payload).take (x.payload.replyPartIndex + Stage.calls d.2) := by
  rcases h.state with ⟨hp, -⟩ | ⟨-, hd⟩ | ⟨hd, -⟩
  · rw [hl] at hp
    cases hp
  · exact hd
  · rw [hl] at hd
    cases hd

/-- An item that is not delivered is the last of its message. -/
theorem Front.origin_ne (h : Front s x₀ z) (hx : x ∈ s.rows) (hnot : x.item.status ≠ .delivered)
    (hzx : z.item.id ≠ x.item.id) : x.origin ≠ x₀.item.id := fun ho => hnot (h.last x hx ho (Ne.symm hzx)).1

theorem Sound.first_eq (h : Sound s) {x₁ : OutboxRow} (hx₁ : x₁ ∈ s.firsts) (hx₀ : x₀ ∈ s.firsts)
    (ho₁ : x.origin = x₁.item.id) (ho : x.origin = x₀.item.id) : x₁ = x₀ :=
  eq_of_key_eq h.firstIds hx₁ hx₀ (ho₁.symm.trans ho)

theorem Sound.origin_lt (h : Sound s) (hx : x ∈ s.rows) : x.origin < s.nextId := by
  obtain ⟨x₀, hx₀, hf⟩ := h.follows x hx
  rw [hf.origin]
  exact h.older x₀ hx₀

theorem Sound.entity_of_first (h : Sound s) (hx₀ : x₀ ∈ s.firsts) : ∃ x ∈ s.rows, x.entityId = x₀.entityId := by
  obtain ⟨x, hx, hfront⟩ := h.front x₀ hx₀
  obtain ⟨x₁, hx₁, hf⟩ := h.follows x hx
  obtain rfl := h.first_eq hx₁ hx₀ hf.origin hfront.origin
  exact ⟨x, hx, hf.entity⟩

theorem Sound.no_delivery (h : Sound s) (hx : x ∈ s.rows) (hstatus : x.item.status ≠ .leased) :
    ∀ d ∈ s.deliveries, d.1.itemId ≠ x.item.id := by
  intro d hd hid
  obtain ⟨y, hy, hholds, -⟩ := h.held d hd
  obtain rfl : y = x := eq_of_key_eq h.ids hy hx ((holds_iff.mp hholds).1.trans hid)
  exact hstatus (OutboxLeaseToken.holds_leased hholds)

theorem Sound.delivery_unique (h : Sound s) {d' : OutboxLeaseToken × Stage} (hd : d ∈ s.deliveries)
    (hd' : d' ∈ s.deliveries) (hid : d.1.itemId = d'.1.itemId) : d = d' :=
  List.inj_on_of_nodup_map h.tokens hd hd' hid

/-! ### Producing -/

theorem ne_partKey {t : Text} {e : Uuid} (hc : t.head? ≠ some 'c') (hd : t.head? ≠ some 'd') :
    t ≠ partKey (keyStart role) e i := by
  rintro rfl
  rcases keyStart_cases role with hs | hs
  · exact hc (by rw [hs]; rfl)
  · exact hd (by rw [hs]; rfl)

theorem replyKey_ne_partKey {e e' : Uuid} : "discussion_reply:".toList ++ e.str ≠ partKey (keyStart role) e' i := by
  intro h
  rcases keyStart_cases role with hs | hs
  · rw [hs] at h
    cases congrArg List.head? h
  · rw [hs] at h
    have hlength := congrArg List.length h
    simp only [partKey, List.length_append, List.length_cons, Uuid.length_str] at hlength
    have htexts : "discussion_reply:".toList.length = 17 ∧ "discussion_reply".toList.length = 16 ∧
        ":part:".toList.length = 6 := by
      decide
    omega

theorem row_key (m : PartsMessage) {e : Uuid} : m.idempotencyKey ≠ partKey (keyStart role) e i := by
  unfold PartsMessage.idempotencyKey
  split
  · exact ne_partKey (fun h => nomatch h) (fun h => nomatch h)
  · exact ne_partKey (fun h => nomatch h) (fun h => nomatch h)
  · exact ne_partKey (fun h => nomatch h) (fun h => nomatch h)
  · exact replyKey_ne_partKey
  · exact ne_partKey (fun h => nomatch h) (fun h => nomatch h)

theorem partsOf_payload (m : PartsMessage) : partsOf m.payload = m.parts := by
  unfold PartsMessage.payload
  split <;> rfl

theorem payload_isPlain (m : PartsMessage) : IsPlain m.payload := by
  unfold PartsMessage.payload
  split
  · exact fun _ _ => ⟨rfl, rfl⟩
  · exact fun _ h => absurd rfl h
  · exact fun _ h => absurd rfl h
  · exact fun h => nomatch h
  · exact fun h => nomatch h

theorem payload_first (m : PartsMessage) : m.payload.replyPartIndex = 0 := by
  unfold PartsMessage.payload
  split <;> rfl

theorem isMessage_of_mem (h : x ∈ s.firsts) : IsMessage x := by
  obtain ⟨⟨id, m⟩, -, rfl⟩ := List.mem_map.mp h
  exact ⟨payload_first m, (partsOf_payload m).symm ▸ m.several, payload_isPlain m, fun _ _ _ => row_key m⟩

theorem row_follows (m : PartsMessage) (id : Nat) : Follows (m.row id) (m.row id) := by
  have hfirst : (m.row id).payload.replyPartIndex = 0 := payload_first m
  have hparts : 2 ≤ (partsOf m.payload).length := (partsOf_payload m).symm ▸ m.several
  refine ⟨rfl, rfl, ?_, ?_, fun _ => rfl, fun hne => absurd hfirst hne⟩
  · rw [hfirst]
    exact (payloadAt_zero hfirst).symm
  · rw [hfirst]
    show 0 < (postsOf m.payload).length
    cases hr : richOf m.payload with
    | none =>
      rw [length_postsOf hr]
      omega
    | some html =>
      rw [postsOf, hr]
      exact Nat.one_pos

/-- The message begins with a new item. -/
abbrev enqueued (s : PartsOutbox) (m : PartsMessage) : PartsOutbox :=
  { s with rows := s.rows ++ [m.row s.nextId], nextId := s.nextId + 1, messages := s.messages ++ [(s.nextId, m)] }

theorem firsts_enqueued (s : PartsOutbox) (m : PartsMessage) : (enqueued s m).firsts = s.firsts ++ [m.row s.nextId] :=
  List.map_append

theorem Sound.enqueue {m : PartsMessage} (h : Sound s) (hentity : ∀ y ∈ s.rows, y.entityId ≠ m.entityId) :
    Sound (enqueued s m) := by
  have hmem : ∀ {y}, y ∈ (enqueued s m).firsts ↔ y ∈ s.firsts ∨ y = m.row s.nextId := by
    rw [firsts_enqueued]
    exact mem_concat
  refine ⟨fun y hy => ?_, ?_, ?_, fun d hd => Nat.lt_succ_of_lt (h.posted d hd),
    nodup_map_append h.ids fun y hy => (h.fresh y hy).ne, fun y hy => ?_, fun y hy => ?_, h.tokens, fun d hd => ?_,
    fun x₀ hx₀ => ?_, h.failures⟩
  · rcases hmem.mp hy with hy | rfl
    · exact Nat.lt_succ_of_lt (h.older y hy)
    · exact Nat.lt_succ_self _
  · rw [firsts_enqueued]
    exact nodup_map_append h.firstIds fun y hy => (h.older y hy).ne
  · rw [firsts_enqueued]
    refine nodup_map_append h.entities fun y hy heq => ?_
    obtain ⟨y', hy', he⟩ := h.entity_of_first hy
    exact hentity y' hy' (he.trans heq)
  · rcases mem_concat.mp hy with hy | rfl
    · exact Nat.lt_succ_of_lt (h.fresh y hy)
    · exact Nat.lt_succ_self _
  · rcases mem_concat.mp hy with hy | rfl
    · obtain ⟨x₀, hx₀, hf⟩ := h.follows y hy
      exact ⟨x₀, hmem.mpr (.inl hx₀), hf⟩
    · exact ⟨_, hmem.mpr (.inr rfl), row_follows m s.nextId⟩
  · obtain ⟨y, hy, hholds, x₀, hx₀, hsound⟩ := h.held d hd
    exact ⟨y, List.mem_append_left _ hy, hholds, x₀, hmem.mpr (.inl hx₀), hsound⟩
  · rcases hmem.mp hx₀ with hx₀ | rfl
    · obtain ⟨z, hz, ho, hlast, hstate⟩ := h.front x₀ hx₀
      refine ⟨z, List.mem_append_left _ hz, ho, fun y hy hyo hne => ?_, hstate⟩
      rcases mem_concat.mp hy with hy | rfl
      · exact hlast y hy hyo hne
      · exact absurd hyo (h.older x₀ hx₀).ne'
    · refine ⟨_, mem_concat.mpr (.inr rfl), rfl, fun y hy hyo hne => ?_, .inl ⟨rfl, ?_⟩⟩
      · rcases mem_concat.mp hy with hy | rfl
        · exact absurd hyo (h.origin_lt hy).ne
        · exact absurd rfl hne
      · rw [show (m.row s.nextId).payload.replyPartIndex = 0 from payload_first m, List.take_zero]
        refine List.map_eq_nil_iff.mpr (List.filter_eq_nil_iff.mpr fun d hd hid => ?_)
        exact (h.posted d hd).ne (of_decide_eq_true hid)

/-! ### Claims -/

theorem Follows.withItem {item : OutboxItem} (h : Follows x₀ x) : Follows x₀ { x with item := item } :=
  ⟨h.origin, h.entity, h.payload, h.bound, h.firstKey, h.laterKey⟩

theorem Sound.claim {c : OutboxClaim} (h : Sound s) (hx : x ∈ s.rows) (hpending : x.item.status = .pending) :
    Sound { s with
      rows := put OutboxRow.key { x with item := leaseItem c x.item } s.rows
      deliveries := s.deliveries ++ [((leaseItem c x.item).tokenOf c, .claimed)] } := by
  have hnone := h.no_delivery hx (by rw [hpending]; decide)
  have hself : { x with item := leaseItem c x.item } ∈ put OutboxRow.key { x with item := leaseItem c x.item } s.rows :=
    mem_put_self hx rfl
  have hnot : x.item.status ≠ .delivered := by rw [hpending]; decide
  refine ⟨h.older, h.firstIds, h.entities, h.posted, ?_, fun y hy => ?_, fun y hy => ?_, nodup_map_append h.tokens hnone,
    fun d hd => ?_, fun x₀ hx₀ => ?_, h.failures⟩
  · rw [map_put fun _ _ hk => hk]
    exact h.ids
  · rcases mem_or_of_mem_put hy with rfl | hy
    · exact h.fresh x hx
    · exact h.fresh y hy
  · rcases mem_or_of_mem_put hy with rfl | hy
    · obtain ⟨x₀, hx₀, hf⟩ := h.follows x hx
      exact ⟨x₀, hx₀, hf.withItem⟩
    · exact h.follows y hy
  · rcases mem_concat.mp hd with hd | rfl
    · obtain ⟨y, hy, hholds, hstage⟩ := h.held d hd
      exact ⟨y, mem_put_of_ne hy fun hid => hnone d hd ((holds_iff.mp hholds).1.symm.trans hid), hholds, hstage⟩
    · obtain ⟨x₀, hx₀, hf⟩ := h.follows x hx
      exact ⟨_, hself, holds_iff.mpr ⟨rfl, rfl, rfl, rfl⟩, x₀, hx₀, hf.withItem, trivial⟩
  · obtain ⟨z, hz, hfront⟩ := h.front x₀ hx₀
    by_cases hid : z.item.id = x.item.id
    · obtain rfl : z = x := eq_of_key_eq h.ids hz hx hid
      refine ⟨_, hself, hfront.origin, fun y hy hyo hyne => ?_,
        .inr (.inl ⟨rfl, _, mem_concat.mpr (.inr rfl), rfl, hfront.of_pending hpending⟩)⟩
      rcases mem_or_of_mem_put hy with rfl | hy
      · exact absurd rfl hyne
      · exact hfront.last y hy hyo hyne
    · refine ⟨z, mem_put_of_ne hz hid, hfront.origin, fun y hy hyo hyne => ?_, ?_⟩
      · rcases mem_or_of_mem_put hy with rfl | hy
        · exact absurd hyo (hfront.origin_ne (x := x) hx hnot hid)
        · exact hfront.last y hy hyo hyne
      · rcases hfront.state with hp | ⟨hl, d, hd, hdid, hposted⟩ | hd
        · exact .inl hp
        · exact .inr (.inl ⟨hl, d, List.mem_append_left _ hd, hdid, hposted⟩)
        · exact .inr (.inr hd)

/-! ### Preparing and calling -/

theorem mem_of_stage? (h : s.stage? token = some stage) : (token, stage) ∈ s.deliveries := by
  obtain ⟨d, hd, rfl⟩ := Option.map_eq_some_iff.mp h
  have htoken : d.1 = token := by simpa using List.find?_some hd
  rw [← htoken]
  exact List.mem_of_find?_eq_some hd

/-- A worker that goes on holds the item, and is where the message is. -/
theorem Sound.at_stage (h : Sound s) (hstage : s.stage? token = some stage) (hrow : s.row? token.itemId = some x) :
    (token, stage) ∈ s.deliveries ∧ x ∈ s.rows ∧ token.holds x.item = true ∧
      ∃ x₀ ∈ s.firsts, Follows x₀ x ∧ StageSound x₀ x.payload.replyPartIndex stage := by
  have hd := mem_of_stage? hstage
  obtain ⟨hx, hxid⟩ := mem_of_find?_key hrow
  obtain ⟨y, hy, hholds, hfirst⟩ := h.held _ hd
  obtain rfl : y = x := eq_of_key_eq h.ids hy hx ((holds_iff.mp hholds).1.trans hxid.symm)
  exact ⟨hd, hx, hholds, hfirst⟩

theorem mem_goOn (hd : d ∈ (s.goOn token stage).deliveries) : d = (token, stage) ∨ (d ∈ s.deliveries ∧ d.1 ≠ token) := by
  obtain ⟨d', hd', rfl⟩ := List.mem_map.mp hd
  by_cases ht : d'.1 = token
  · exact .inl (if_pos ht)
  · rw [if_neg ht]
    exact .inr ⟨hd', ht⟩

theorem Sound.goOn {posted : List (Nat × Post)} {nextMessageId : Nat} (h : Sound s) (hd : (token, stage) ∈ s.deliveries)
    (hx : x ∈ s.rows) (hholds : token.holds x.item = true) (hx₀ : x₀ ∈ s.firsts) (hf : Follows x₀ x)
    (hstage : StageSound x₀ x.payload.replyPartIndex stage') (hnew : ∀ d ∈ posted, d.1 < s.nextId)
    (hother : ∀ origin, origin ≠ x.origin → (posted.filter (·.1 = origin)).map (·.2) = s.postedOf origin)
    (hthis : s.postedOf x₀.item.id = (postsOf x₀.payload).take (x.payload.replyPartIndex + Stage.calls stage) →
      (posted.filter (·.1 = x₀.item.id)).map (·.2) =
        (postsOf x₀.payload).take (x.payload.replyPartIndex + Stage.calls stage')) :
    Sound ({ s with posted := posted, nextMessageId := nextMessageId }.goOn token stage') := by
  obtain ⟨hid, -, -, hleased⟩ := holds_iff.mp hholds
  refine ⟨h.older, h.firstIds, h.entities, hnew, h.ids, h.fresh, h.follows, ?_, fun d hd' => ?_, fun x₁ hx₁ => ?_, h.failures⟩
  · show ((s.deliveries.map fun d => if d.1 = token then (token, stage') else d).map (·.1.itemId)).Nodup
    have hitems : ((s.deliveries.map fun d => if d.1 = token then (token, stage') else d).map (·.1.itemId)) =
        s.deliveries.map (·.1.itemId) := by
      rw [List.map_map]
      refine List.map_congr_left fun d _ => ?_
      by_cases ht : d.1 = token <;> simp [ht]
    rw [hitems]
    exact h.tokens
  · rcases mem_goOn hd' with rfl | ⟨hd', -⟩
    · exact ⟨x, hx, hholds, x₀, hx₀, hf, hstage⟩
    · exact h.held d hd'
  obtain ⟨z, hz, hfront⟩ := h.front x₁ hx₁
  refine ⟨z, hz, hfront.origin, hfront.last, ?_⟩
  by_cases hzx : z.item.id = x.item.id
  · obtain rfl : z = x := eq_of_key_eq h.ids hz hx hzx
    obtain rfl := h.first_eq hx₁ hx₀ hfront.origin hf.origin
    obtain ⟨d, hd', hdid, hposted⟩ := hfront.of_leased hleased
    rw [h.delivery_unique hd' hd (hdid.trans hid)] at hposted
    exact .inr (.inl ⟨hleased, (token, stage'), List.mem_map.mpr ⟨_, hd, if_pos rfl⟩, hid.symm, hthis hposted⟩)
  · have hnot : x.item.status ≠ .delivered := by rw [hleased]; decide
    have hsame : (posted.filter (·.1 = x₁.item.id)).map (·.2) = s.postedOf x₁.item.id :=
      hother _ (hfront.origin_ne hx hnot hzx).symm
    rcases hfront.state with ⟨hp, hposted⟩ | ⟨hl, d, hd', hdid, hposted⟩ | ⟨hdl, hposted⟩
    · exact .inl ⟨hp, hsame.trans hposted⟩
    · refine .inr (.inl ⟨hl, d, List.mem_map.mpr ⟨d, hd', if_neg fun ht => hzx ?_⟩, hdid, hsame.trans hposted⟩)
      rw [← hdid, ht, hid]
    · exact .inr (.inr ⟨hdl, hsame.trans hposted⟩)

theorem Sound.prepare (h : Sound s) (hop : s.prepareItem token = .ok v) : Sound v := by
  unfold prepareItem at hop
  split at hop
  · rename_i x hstage hrow
    obtain ⟨hd, hx, hholds, x₀, hx₀, hf, -⟩ := h.at_stage hstage hrow
    obtain ⟨p, hp, hfor⟩ := prepareDelivery_ok s (isMessage_of_mem hx₀) hf.bound
    rw [← hf.payload] at hp
    rw [hp] at hop
    simp only [if_neg hfor.action] at hop
    cases hop
    exact h.goOn hd hx hholds hx₀ hf hfor h.posted (fun _ _ => rfl) fun hposted => hposted
  · cases hop

theorem postedOf_append (posts : List (Nat × Post)) (o origin : Nat) (post : Post) :
    ((posts ++ [(o, post)]).filter (·.1 = origin)).map (·.2) =
      (posts.filter (·.1 = origin)).map (·.2) ++ if o = origin then [post] else [] := by
  rw [List.filter_append, List.map_append]
  by_cases ho : o = origin
  · simp [ho]
  · simp [ho]

theorem Sound.call (h : Sound s) (hop : s.callItem token = .ok v) : Sound v := by
  unfold callItem at hop
  split at hop
  · rename_i p x hstage hrow
    obtain ⟨hd, hx, hholds, x₀, hx₀, hf, hfor⟩ := h.at_stage hstage hrow
    have hv : v = { s with posted := s.posted ++ [(x.origin, postOf p)], nextMessageId := s.nextMessageId + 1 }.goOn token
        (.called (afterCall p) (if p.action.isSend then some s.nextMessageId else none)) := by
      simp only at hop
      cases hr : p.richHtml with
      | none =>
        rw [hr] at hop
        cases hop
        simp only [postOf, afterCall, hr]
        rfl
      | some html =>
        rw [hr] at hop
        cases hop
        simp only [postOf, afterCall, hr]
        rfl
    rw [hv]
    refine h.goOn hd hx hholds hx₀ hf ⟨p, hfor, rfl⟩ (fun d hd' => ?_) (fun origin hne => ?_) fun hposted => ?_
    · rcases mem_concat.mp hd' with hd' | rfl
      · exact h.posted d hd'
      · exact h.origin_lt hx
    · rw [postedOf_append, if_neg (Ne.symm hne), List.append_nil]
      rfl
    · rw [postedOf_append, if_pos hf.origin]
      show s.postedOf x₀.item.id ++ _ = (postsOf x₀.payload).take (x.payload.replyPartIndex + 1)
      rw [hposted, List.take_add_one, PreparedFor.post hfor]
      rfl
  · cases hop

/-! ### Settling -/

theorem mem_leave : d ∈ (s.leave token).deliveries ↔ d ∈ s.deliveries ∧ d.1 ≠ token := by
  simp [leave]

def deliveredRow (x : OutboxRow) (now : Nat) : OutboxRow := { x with item := (Settlement.complete now).change x.item }

def nextRow (s : PartsOutbox) (x₀ x : OutboxRow) : OutboxRow where
  item := { id := s.nextId, destination := x.item.destination }
  entityId := x.entityId
  idempotencyKey := partKey (keyStart (roleOf x₀.payload)) x.entityId (x.payload.replyPartIndex + 1)
  payload := { x.payload with replyPartIndex := x.payload.replyPartIndex + 1, replyParts := some (partsOf x₀.payload) }
  origin := x.origin

/-- The item of the next part, if there is one. -/
def nextRows (s : PartsOutbox) (x₀ x : OutboxRow) : List OutboxRow :=
  if x.payload.replyPartIndex + 1 < (postsOf x₀.payload).length then [nextRow s x₀ x] else []

theorem mem_nextRows : y ∈ nextRows s x₀ x ↔
    x.payload.replyPartIndex + 1 < (postsOf x₀.payload).length ∧ y = nextRow s x₀ x := by
  unfold nextRows
  split
  · simp [*]
  · simp [*]

/-- What is left when the part of `x` is settled. -/
def delivered (s : PartsOutbox) (token : OutboxLeaseToken) (x₀ x : OutboxRow) (links : List MessageLink) (now : Nat) :
    PartsOutbox :=
  { s with
    links := links
    rows := put OutboxRow.key (deliveredRow x now) s.rows ++ nextRows s x₀ x
    nextId := s.nextId + 1 }.leave token

theorem mem_delivered : y ∈ (delivered s token x₀ x links now).rows ↔
    y ∈ put OutboxRow.key (deliveredRow x now) s.rows ∨ y ∈ nextRows s x₀ x := List.mem_append

theorem cases_of_mem_delivered (hy : y ∈ (delivered s token x₀ x links now).rows) :
    y = deliveredRow x now ∨ (y ∈ s.rows ∧ y.item.id ≠ x.item.id) ∨ y ∈ nextRows s x₀ x := by
  rcases mem_delivered.mp hy with hy | hy
  · rcases mem_put.mp hy with ⟨rfl, -⟩ | hy
    · exact .inl rfl
    · exact .inr (.inl hy)
  · exact .inr (.inr hy)

theorem nextRow_follows (hf : Follows x₀ x) (hmore : x.payload.replyPartIndex + 1 < (postsOf x₀.payload).length) :
    Follows x₀ (nextRow s x₀ x) where
  origin := hf.origin
  entity := hf.entity
  payload := by
    rw [nextRow, hf.payload]
    rfl
  bound := hmore
  firstKey h := nomatch h
  laterKey _ := by
    rw [← hf.entity]
    rfl

theorem Sound.front_delivered (h : Sound s) (hd : (token, Stage.called p messageId) ∈ s.deliveries)
    (hx : x ∈ s.rows) (hholds : token.holds x.item = true) (hfront : Front s x₀ x) :
    ∃ z ∈ (delivered s token x₀ x links now).rows, Front (delivered s token x₀ x links now) x₀ z := by
  obtain ⟨hid, -, -, hleased⟩ := holds_iff.mp hholds
  obtain ⟨d, hd', hdid, hposted⟩ := hfront.of_leased hleased
  rw [h.delivery_unique hd' hd (hdid.trans hid)] at hposted
  change s.postedOf x₀.item.id = (postsOf x₀.payload).take (x.payload.replyPartIndex + 1) at hposted
  by_cases hmore : x.payload.replyPartIndex + 1 < (postsOf x₀.payload).length
  · refine ⟨nextRow s x₀ x, mem_delivered.mpr (.inr (mem_nextRows.mpr ⟨hmore, rfl⟩)), hfront.origin,
      fun y hy hyo hne => ?_, .inl ⟨rfl, hposted⟩⟩
    rcases cases_of_mem_delivered hy with rfl | ⟨hy, hyx⟩ | hy
    · exact ⟨rfl, Nat.lt_succ_self _⟩
    · obtain ⟨hdl, hlt⟩ := hfront.last y hy hyo hyx
      exact ⟨hdl, Nat.lt_succ_of_lt hlt⟩
    · rw [(mem_nextRows.mp hy).2] at hne
      exact absurd rfl hne
  · refine ⟨deliveredRow x now, mem_delivered.mpr (.inl (mem_put_self hx rfl)), hfront.origin, fun y hy hyo hne => ?_,
      .inr (.inr ⟨rfl, hposted.trans (List.take_of_length_le (Nat.not_lt.mp hmore))⟩)⟩
    rcases cases_of_mem_delivered hy with rfl | ⟨hy, -⟩ | hy
    · exact absurd rfl hne
    · exact hfront.last y hy hyo hne
    · exact absurd (mem_nextRows.mp hy).1 hmore

theorem Front.delivered_other {x₁ : OutboxRow} (hfront : Front s x₁ z) (hx : x ∈ s.rows) (hholds : token.holds x.item = true)
    (hzx : z.item.id ≠ x.item.id) : Front (delivered s token x₀ x links now) x₁ z := by
  obtain ⟨hid, -, -, hleased⟩ := holds_iff.mp hholds
  have hne := hfront.origin_ne hx (by rw [hleased]; decide) hzx
  refine ⟨hfront.origin, fun y hy hyo hyz => ?_, ?_⟩
  · rcases cases_of_mem_delivered hy with rfl | ⟨hy, -⟩ | hy
    · exact absurd hyo hne
    · exact hfront.last y hy hyo hyz
    · rw [(mem_nextRows.mp hy).2] at hyo
      exact absurd hyo hne
  · rcases hfront.state with hp | ⟨hl, d, hd, hdid, hposted⟩ | hdl
    · exact .inl hp
    · refine .inr (.inl ⟨hl, d, mem_leave.mpr ⟨hd, fun ht => hzx ?_⟩, hdid, hposted⟩)
      rw [← hdid, ht, hid]
    · exact .inr (.inr hdl)

theorem Sound.deliver (h : Sound s) (hd : (token, Stage.called p messageId) ∈ s.deliveries) (hx : x ∈ s.rows)
    (hholds : token.holds x.item = true) (hx₀ : x₀ ∈ s.firsts) (hf : Follows x₀ x) :
    Sound (delivered s token x₀ x links now) := by
  have hid := (holds_iff.mp hholds).1
  refine ⟨fun y hy => Nat.lt_succ_of_lt (h.older y hy), h.firstIds, h.entities,
    fun d hd' => Nat.lt_succ_of_lt (h.posted d hd'), ?_, fun y hy => ?_, fun y hy => ?_,
    h.tokens.sublist (List.filter_sublist.map _), fun d hd' => ?_, fun x₁ hx₁ => ?_, h.failures⟩
  · have hkeys : (put OutboxRow.key (deliveredRow x now) s.rows).map OutboxRow.key = s.rows.map OutboxRow.key :=
      map_put fun _ _ hk => hk
    show ((put OutboxRow.key (deliveredRow x now) s.rows ++ nextRows s x₀ x).map OutboxRow.key).Nodup
    unfold nextRows
    split
    · refine nodup_map_append (hkeys ▸ h.ids) fun y hy => ?_
      rcases mem_or_of_mem_put hy with rfl | hy
      · exact (h.fresh x hx).ne
      · exact (h.fresh y hy).ne
    · rw [List.append_nil, hkeys]
      exact h.ids
  · rcases cases_of_mem_delivered hy with rfl | ⟨hy, -⟩ | hy
    · exact Nat.lt_succ_of_lt (h.fresh x hx)
    · exact Nat.lt_succ_of_lt (h.fresh y hy)
    · rw [(mem_nextRows.mp hy).2]
      exact Nat.lt_succ_self _
  · rcases cases_of_mem_delivered hy with rfl | ⟨hy, -⟩ | hy
    · exact ⟨x₀, hx₀, hf.withItem⟩
    · exact h.follows y hy
    · obtain ⟨hmore, rfl⟩ := mem_nextRows.mp hy
      exact ⟨x₀, hx₀, nextRow_follows hf hmore⟩
  · obtain ⟨hd', hne⟩ := mem_leave.mp hd'
    obtain ⟨y, hy, hyholds, hstage⟩ := h.held d hd'
    refine ⟨y, mem_delivered.mpr (.inl (mem_put_of_ne hy fun heq => hne ?_)), hyholds, hstage⟩
    have hsame := h.delivery_unique hd' hd ((holds_iff.mp hyholds).1.symm.trans (Eq.trans heq hid))
    exact congrArg Prod.fst hsame
  · obtain ⟨z, hz, hfront⟩ := h.front x₁ hx₁
    by_cases hzx : z.item.id = x.item.id
    · obtain rfl : z = x := eq_of_key_eq h.ids hz hx hzx
      obtain rfl := h.first_eq hx₁ hx₀ hfront.origin hf.origin
      exact h.front_delivered hd hx hholds hfront
    · exact ⟨z, mem_delivered.mpr (.inl (mem_put_of_ne hz hzx)), hfront.delivered_other hx hholds hzx⟩

theorem Sound.key_free (h : Sound s) (hx : x ∈ s.rows) (hleased : x.item.status = .leased) (hx₀ : x₀ ∈ s.firsts)
    (hf : Follows x₀ x) : ∀ y ∈ s.rows,
      y.idempotencyKey ≠ partKey (keyStart (roleOf x₀.payload)) x.entityId (x.payload.replyPartIndex + 1) := by
  intro y hy hkey
  obtain ⟨y₀, hy₀, hfy⟩ := h.follows y hy
  rw [hf.entity] at hkey
  by_cases hzero : y.payload.replyPartIndex = 0
  · rw [hfy.firstKey hzero] at hkey
    exact (isMessage_of_mem hy₀).key _ _ _ hkey
  · rw [hfy.laterKey hzero] at hkey
    obtain ⟨-, hentity, hindex⟩ := partKey_inj hkey
    obtain rfl : y₀ = x₀ := eq_of_key_eq h.entities hy₀ hx₀ hentity
    obtain ⟨z, hz, hfront⟩ := h.front y₀ hy₀
    have hzx : z.item.id = x.item.id := by
      by_contra hne
      exact hfront.origin_ne hx (by rw [hleased]; decide) hne hf.origin
    obtain rfl : z = x := eq_of_key_eq h.ids hz hx hzx
    by_cases hyx : y.item.id = z.item.id
    · rw [eq_of_key_eq h.ids hy hz hyx] at hindex
      omega
    · have hlt := (hfront.last y hy hfy.origin hyx).2
      omega

theorem afterCall_eq (p : PreparedPart) : (afterCall p).discussionPartIndex = p.discussionPartIndex ∧
    (afterCall p).messageRole = p.messageRole ∧
      ∀ (s : PartsOutbox) (messageId : Option Nat), s.linkMessage (afterCall p) messageId = s.linkMessage p messageId := by
  unfold afterCall
  split
  · exact ⟨rfl, rfl, fun _ _ => rfl⟩
  · exact ⟨rfl, rfl, fun _ _ => rfl⟩

theorem Sound.enqueueNext_ok (h : Sound s) (hx : x ∈ s.rows) (hholds : token.holds x.item = true)
    (hx₀ : x₀ ∈ s.firsts) (hf : Follows x₀ x) (hp : PreparedFor x₀.payload x.payload.replyPartIndex p) :
    enqueueNext s.rows s.nextId x (afterCall p) = .ok (s.rows ++ nextRows s x₀ x) := by
  obtain ⟨hindex, hrole, -⟩ := afterCall_eq p
  rw [hp.index] at hindex
  rw [hp.role] at hrole
  unfold enqueueNext nextRows
  by_cases hmore : x.payload.replyPartIndex + 1 < (postsOf x₀.payload).length
  · have hparts := hp.parts hmore
    have hlt : x.payload.replyPartIndex + 1 < (partsOf x₀.payload).length := hparts ▸ hp.more.mpr hmore
    have hfree : s.rows.any (fun y => y.item.destination = x.item.destination &&
        y.idempotencyKey = partKey (keyStart (roleOf x₀.payload)) x.entityId (x.payload.replyPartIndex + 1)) = false := by
      rw [List.any_eq_false]
      intro y hy hcond
      simp only [Bool.and_eq_true, decide_eq_true_eq] at hcond
      exact h.key_free hx (OutboxLeaseToken.holds_leased hholds) hx₀ hf y hy hcond.2
    simp only [hindex, hrole, hparts, if_pos hlt, hfree, if_pos hmore, Bool.false_eq_true, if_false]
    rfl
  · rw [hindex, if_neg hmore, List.append_nil]
    exact if_neg fun hlt => hmore (hp.more.mp hlt)

theorem Sound.settle (h : Sound s) (hop : s.settleItem token now = .ok v) : Sound v := by
  unfold settleItem at hop
  split at hop
  · rename_i p messageId x hstage hrow
    obtain ⟨hd, hx, hholds, x₀, hx₀, hf, p', hp', rfl⟩ := h.at_stage hstage hrow
    obtain ⟨links, hlinks⟩ := hp'.links s messageId
    have hsettled : completeOutboxItem x.item token now = ((Settlement.complete now).change x.item, none) :=
      settle_of_held hholds
    have hput : put OutboxRow.key (deliveredRow x now) (s.rows ++ nextRows s x₀ x) =
        put OutboxRow.key (deliveredRow x now) s.rows ++ nextRows s x₀ x := by
      rw [put_append]
      congr 1
      refine put_of_not_mem fun y hy => ?_
      rw [(mem_nextRows.mp hy).2]
      exact (h.fresh x hx).ne'
    unfold complete at hop
    rw [(afterCall_eq p').2.2, hlinks, ok_bind, h.enqueueNext_ok hx hholds hx₀ hf hp', ok_bind, hsettled] at hop
    cases hop
    rw [show put OutboxRow.key { x with item := (Settlement.complete now).change x.item } (s.rows ++ nextRows s x₀ x) = _
      from hput]
    exact h.deliver hd hx hholds hx₀ hf
  · rename_i e x hstage hrow
    obtain ⟨-, -, -, x₀, -, -, hraised⟩ := h.at_stage hstage hrow
    exact hraised.elim
  · cases hop

/-! ### Steps -/

theorem Sound.step {op : PartsOp} (h : Sound s) (hkeep : s.KeepsLease op = true) (hop : s.perform op = .ok v) : Sound v := by
  cases op with
  | enqueue m =>
    simp only [perform, PartsOutbox.enqueue] at hop
    split at hop
    · cases hop
    rename_i hentity
    split at hop
    · split at hop
      · cases hop
        exact h
      · cases hop
    · cases hop
      exact h.enqueue (by simpa using hentity)
  | claim id c =>
    simp only [perform, PartsOutbox.claim] at hop
    split at hop
    · cases hop
    rename_i x hrow
    obtain ⟨hx, -⟩ := mem_of_find?_key hrow
    have hpending : x.item.status = .pending := by
      simpa only [KeepsLease, hrow, Option.all_some, decide_eq_true_eq] using hkeep
    by_cases hc : claimable c x.item = true
    · simp only [claimOutboxItem, hc, if_true] at hop
      cases hop
      exact h.claim hx hpending
    · simp only [claimOutboxItem, hc] at hop
      cases hop
  | prepare token => exact h.prepare hop
  | call token => exact h.call hop
  | settle token now => exact h.settle hop

/-! ### Order -/

theorem Sound.state_of_row (h : Sound s) (hx : x ∈ s.rows) :
    x.item.status = .delivered ∨ ∃ x₀ ∈ s.firsts, Front s x₀ x := by
  obtain ⟨x₀, hx₀, hf⟩ := h.follows x hx
  obtain ⟨z, hz, hfront⟩ := h.front x₀ hx₀
  by_cases hid : x.item.id = z.item.id
  · obtain rfl : x = z := eq_of_key_eq h.ids hx hz hid
    exact .inr ⟨x₀, hx₀, hfront⟩
  · exact .inl (hfront.last x hx hf.origin hid).1

theorem Sound.stage?_eq (h : Sound s) (hd : d ∈ s.deliveries) : s.stage? d.1 = some d.2 := by
  cases hs : s.deliveries.find? (·.1 = d.1) with
  | none =>
    rw [List.find?_eq_none] at hs
    exact absurd (decide_eq_true rfl) (hs d hd)
  | some d' =>
    have htoken : d'.1 = d.1 := by simpa using List.find?_some hs
    have hsame := h.delivery_unique (List.mem_of_find?_eq_some hs) hd (congrArg OutboxLeaseToken.itemId htoken)
    rw [stage?, hs, hsame]
    rfl

theorem Sound.worker_continues (h : Sound s) (hd : d ∈ s.deliveries) :
    ∃ op v, op.itemId? = some d.1.itemId ∧ s.KeepsLease op = true ∧ s.perform op = .ok v := by
  obtain ⟨x, hx, hholds, -⟩ := h.held d hd
  have hrow : s.row? d.1.itemId = some x := by
    rw [← (holds_iff.mp hholds).1]
    exact find?_key h.ids hx
  have hstage := h.stage?_eq hd
  cases hs : d.2 with
  | claimed =>
    rw [hs] at hstage
    refine ⟨.prepare d.1, ?_⟩
    simp only [perform, prepareItem, hstage, hrow]
    split
    · exact ⟨_, rfl, rfl, rfl⟩
    · exact ⟨_, rfl, rfl, rfl⟩
  | prepared p =>
    rw [hs] at hstage
    refine ⟨.call d.1, ?_⟩
    simp only [perform, callItem, hstage, hrow]
    split
    · exact ⟨_, rfl, rfl, rfl⟩
    · exact ⟨_, rfl, rfl, rfl⟩
  | raised e =>
    rw [hs] at hstage
    refine ⟨.settle d.1 0, ?_⟩
    simp only [perform, settleItem, hstage, hrow]
    exact ⟨_, rfl, rfl, rfl⟩
  | called p messageId =>
    rw [hs] at hstage
    refine ⟨.settle d.1 0, ?_⟩
    simp only [perform, settleItem, hstage, hrow]
    split
    · exact ⟨_, rfl, rfl, rfl⟩
    · exact ⟨_, rfl, rfl, rfl⟩
    · exact ⟨_, rfl, rfl, rfl⟩

theorem Sound.continues (h : Sound s) (hx : x ∈ s.rows) (hstatus : x.item.status ≠ .delivered) :
    ∃ op v, op.itemId? = some x.item.id ∧ s.KeepsLease op = true ∧ s.perform op = .ok v := by
  rcases h.state_of_row hx with hd | ⟨x₀, -, hfront⟩
  · exact absurd hd hstatus
  rcases hfront.state with ⟨hp, -⟩ | ⟨-, d, hd, hid, -⟩ | ⟨hd, -⟩
  · have hrow : s.row? x.item.id = some x := find?_key h.ids hx
    have hclaim : claimable ⟨"", 0, [x.item.destination], x.item.availableAt⟩ x.item = true := by simp [claimable, hp]
    refine ⟨.claim x.item.id ⟨"", 0, [x.item.destination], x.item.availableAt⟩, ?_⟩
    simp only [perform, PartsOutbox.claim, hrow, claimOutboxItem, hclaim, if_true]
    refine ⟨_, rfl, ?_, rfl⟩
    simp only [KeepsLease, hrow, Option.all_some, hp, decide_true]
  · exact hid ▸ h.worker_continues hd
  · exact absurd hd hstatus

/-- Each part once and in order: what was posted of a message begins it, and it is all of it once no item of it waits; an
    item that waits can be carried on, and no settling transaction failed. -/
structure InOrder (u : PartsOutbox) : Prop where
  posted : ∀ d ∈ u.messages, u.postedOf d.1 <+: postsOf d.2.payload
  finished : ∀ d ∈ u.messages,
    (∀ y ∈ u.rows, y.origin = d.1 → y.item.status ≠ .pending ∧ y.item.status ≠ .leased) →
      u.postedOf d.1 = postsOf d.2.payload
  kept : ∀ y ∈ u.rows, y.item.status = .delivered ∨ ((y.item.status = .pending ∨ y.item.status = .leased) ∧
    ∃ op v, op.itemId? = some y.item.id ∧ u.KeepsLease op = true ∧ u.perform op = .ok v)
  failures : u.failures = []

theorem sound_empty : Sound {} where
  older _ h := nomatch h
  firstIds := .nil
  entities := .nil
  posted _ h := nomatch h
  ids := .nil
  fresh _ h := nomatch h
  follows _ h := nomatch h
  tokens := .nil
  held _ h := nomatch h
  front _ h := nomatch h
  failures := rfl

/-- Whatever the producers enqueue and however the deliveries of any workers follow one another. -/
theorem parts_in_order (u : PartsOutbox) (h : Reaches (fun u op => u.KeepsLease op = true) {} u) : InOrder u := by
  have hu : Sound u := h.invariant sound_empty fun hu hkeep hop => hu.step hkeep hop
  have hfirst : ∀ d ∈ u.messages, ∃ z ∈ u.rows, Front u (d.2.row d.1) z := fun d hd =>
    hu.front _ (List.mem_map_of_mem hd)
  refine ⟨fun d hd => ?_, fun d hd hdone => ?_, fun y hy => ?_, hu.failures⟩
  · obtain ⟨z, -, hfront⟩ := hfirst d hd
    rcases hfront.state with ⟨-, hp⟩ | ⟨-, _, -, -, hp⟩ | ⟨-, hp⟩
    · exact hp ▸ List.take_prefix _ _
    · exact hp ▸ List.take_prefix _ _
    · exact hp ▸ List.prefix_refl _
  · obtain ⟨z, hz, hfront⟩ := hfirst d hd
    obtain ⟨hnp, hnl⟩ := hdone z hz hfront.origin
    rcases hfront.state with ⟨hp, -⟩ | ⟨hl, -⟩ | ⟨-, hp⟩
    · exact absurd hp hnp
    · exact absurd hl hnl
    · exact hp
  · by_cases hd : y.item.status = .delivered
    · exact .inl hd
    · refine .inr ⟨?_, hu.continues hy hd⟩
      rcases hu.state_of_row hy with hd' | ⟨x₀, -, hfront⟩
      · exact absurd hd' hd
      · rcases hfront.state with ⟨hp, -⟩ | ⟨hl, -⟩ | ⟨hd', -⟩
        · exact .inl hp
        · exact .inr hl
        · exact absurd hd' hd

/-! ### Messages in two parts -/

def twoParts : List Part := [(['a'], ['a']), (['b'], ['b'])]

/-- The question of a goal, in two parts. -/
def aQuestion : PartsMessage where
  producer := .ownerQuestion ⟨6, by decide⟩ 5
  entityId := ⟨7, by decide⟩
  chatId := 1
  messageThreadId := 2
  parts := twoParts
  several := by decide

/-- A reply in two parts. -/
def aReply : PartsMessage where
  producer := .discussionReply
  entityId := ⟨8, by decide⟩
  chatId := 1
  messageThreadId := 2
  parts := twoParts
  several := by decide

def aClaim (now : Nat) : OutboxClaim := ⟨"w", 60, ["telegram"], now⟩

def aToken (id : Nat) : OutboxLeaseToken := ⟨id, "w", 1⟩

def deliverItem (id : Nat) : List PartsOp :=
  [.claim id (aClaim 0), .prepare (aToken id), .call (aToken id), .settle (aToken id) 0]

/-- The two messages are delivered side by side, and the question is enqueued once more. -/
theorem parts_in_order_side_by_side :
    ∃ u, Reaches (fun u op => u.KeepsLease op = true) {} u ∧ u.messages.map (·.1) = [1, 2] ∧
      u.postedOf 1 = [.part 0 ['a'], .part 1 ['b']] ∧ u.postedOf 2 = [.part 0 ['a'], .part 1 ['b']] ∧ InOrder u := by
  have hrun : Lib.ends (fun u : PartsOutbox => u.messages.map (·.1) = [1, 2] &&
      (u.postedOf 1 = [.part 0 ['a'], .part 1 ['b']] && u.postedOf 2 = [.part 0 ['a'], .part 1 ['b']]))
      (Lib.runOps (fun u op => if u.KeepsLease op = true then u.perform op else .error "lease") {}
        ([.enqueue aQuestion, .enqueue aReply] ++ deliverItem 1 ++
          [.enqueue { aQuestion with entityId := ⟨9, by decide⟩ }] ++ deliverItem 2 ++ deliverItem 4 ++ deliverItem 3)) =
        true := by
    decide +kernel
  obtain ⟨u, hu, hp⟩ := Lib.exists_of_ends hrun
  simp only [Bool.and_eq_true, decide_eq_true_eq] at hp
  have hr : Reaches (fun u op => u.KeepsLease op = true) {} u := Lib.reach_of_guarded hu
  exact ⟨u, hr, hp.1, hp.2.1, hp.2.2, parts_in_order u hr⟩

/-- The lease of a slow worker runs out, another worker takes the item up, and both post the part. -/
theorem part_posted_twice : ∃ u, Reaches (fun _ _ => True) {} u ∧
    (u.messages.map fun d => (d.1, postsOf d.2.payload)) = [(1, [.part 0 ['a'], .part 1 ['b']])] ∧
      u.postedOf 1 = [.part 0 ['a'], .part 0 ['a']] ∧ ¬InOrder u := by
  have hrun : Lib.ends (fun u : PartsOutbox =>
      decide ((u.messages.map fun d => (d.1, postsOf d.2.payload)) = [(1, [.part 0 ['a'], .part 1 ['b']])]) &&
        decide (u.postedOf 1 = [.part 0 ['a'], .part 0 ['a']]))
      (Lib.runOps perform {} [.enqueue aQuestion, .claim 1 (aClaim 0), .prepare (aToken 1), .claim 1 (aClaim 61),
        .call (aToken 1), .prepare ⟨1, "w", 2⟩, .call ⟨1, "w", 2⟩]) = true := by
    decide +kernel
  obtain ⟨u, hu, hp⟩ := Lib.exists_of_ends hrun
  simp only [Bool.and_eq_true, decide_eq_true_eq] at hp
  obtain ⟨hmessages, htwice⟩ := hp
  refine ⟨u, Lib.reach_of_runOps (fun _ _ _ => trivial) hu, hmessages, htwice, fun h => ?_⟩
  obtain ⟨d, hd, hposts⟩ := List.map_eq_singleton_iff.mp hmessages
  obtain ⟨hid, hposts⟩ := Prod.mk.inj hposts
  have hprefix := h.posted d (hd ▸ List.mem_singleton_self d)
  rw [hid, htwice, hposts] at hprefix
  exact absurd hprefix (by decide)

end PartsOutbox
end Vuzol.Telegram
