import Vuzol.Lib.Url

/-! The turns of the assistant (`assistant/service.py`): every message of the owner gets an entry and a turn. A turn hears
    its voice, stops if there is a newer entry, reads its context, thinks and commits its answer; each of these is a
    transaction of its own. Entries have distinct times, those of their commits, so that the order of the entries is that
    of their times. Searches, projects and plans are left out. -/

namespace Vuzol.Assistant

inductive Role where
  | owner | assistant
  deriving DecidableEq

structure Context where
  conversation : List (Role × String)
  /-- The entries of `latest_owner_message`, by id and body. -/
  latest : List (Nat × String)
  deriving DecidableEq

def Context.latestOwnerMessage (c : Context) : String := "\n".intercalate (c.latest.map (·.2))

inductive TurnPhase where
  | queued | hearing | looking | reading
  | thinking (context : Context)
  | done
  deriving DecidableEq

structure Entry where
  role : Role
  body : String
  voice : Bool := false
  phase : TurnPhase := .done
  deriving DecidableEq

/-- `not body.strip()`. -/
def isBlank (body : String) : Bool := body.toList.all Lib.isSpace

structure Conversation where
  entries : List Entry := []
  answered : List Context := []

namespace Conversation
variable (historyTurns : Nat) (c : Conversation)

/-- `accept_assistant_update`, of a message that was not accepted before. -/
def accept (body : String) (voice : Bool) : Conversation :=
  if isBlank body ∧ voice = false then c
  else { c with entries := c.entries ++ [{ role := .owner, body := body, voice := voice, phase := .queued }] }

/-- The entries that `_context` reads. -/
def history : List (Entry × Nat) := c.entries.zipIdx.drop (c.entries.length - (historyTurns + 8))

def fromOwner (x : Entry × Nat) : Bool := x.1.role = .owner

/-- `_context`: the burst since the last reply is the latest message, earlier entries are the conversation. -/
def context : Context where
  conversation :=
    let earlier := (c.history historyTurns).rdropWhile fromOwner
    (earlier.drop (earlier.length - historyTurns)).map fun x => (x.1.role, x.1.body)
  latest := (((c.history historyTurns).rtakeWhile fromOwner).filter (·.1.body ≠ "")).map fun x => (x.2, x.1.body)

def put (id : Nat) (e : Entry) : Conversation := { c with entries := c.entries.set id e }

/-- What `_hear` stores of a transcript. -/
def heardBody (transcript : String) : String := if transcript = "" then "[пустое голосовое]" else transcript

def reply (context : Context) (body : String) : Conversation :=
  { c with entries := c.entries ++ [{ role := .assistant, body := body }], answered := c.answered ++ [context] }

/-- The next step of the turn of an entry; `text` is the transcript of its voice, or the reply of the model. -/
def advance (id : Nat) (text : String) : Conversation :=
  match c.entries[id]? with
  | none => c
  | some e =>
    match e.phase with
    | .queued => c.put id { e with phase := if e.voice ∧ isBlank e.body then .hearing else .looking }
    | .hearing => c.put id { e with body := heardBody text, phase := .looking }
    | .looking =>
      -- A later message answers the whole burst, or it was answered already.
      c.put id { e with phase := if id + 1 < c.entries.length then .done else .reading }
    | .reading => c.put id { e with phase := .thinking (c.context historyTurns) }
    | .thinking context => (c.reply context text).put id { e with phase := .done }
    | .done => c

inductive Action where
  | accept (body : String) (voice : Bool)
  | advance (id : Nat) (text : String)

def step : Action → Conversation
  | .accept body voice => c.accept body voice
  | .advance id text => c.advance historyTurns id text

end Conversation

/-- The topic after any sequence of messages and of steps of turns, each of which meets `guard` where it is taken. -/
inductive Converses (historyTurns : Nat) (guard : Conversation → Conversation.Action → Prop) : Conversation → Prop
  | start : Converses historyTurns guard {}
  | step {c : Conversation} (a : Conversation.Action) : Converses historyTurns guard c → guard c a →
    Converses historyTurns guard (c.step historyTurns a)

end Vuzol.Assistant
