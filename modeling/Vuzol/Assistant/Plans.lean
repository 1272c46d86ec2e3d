import Mathlib.Data.List.Basic

/-! The dispatch plans of the assistant topic (`assistant/service.py`): an answer proposes a plan, and the owner's buttons
    edit or send it. `_send_plan` reads the plan, marks it, submits its lines and writes the outcome, each in a transaction
    of its own. Replies to the owner are left out. -/

namespace Vuzol.Assistant

inductive PlanStatus where
  | pending | editing | sending | sent | superseded
  deriving DecidableEq

structure Dispatch where
  projectId : String
  request : String

structure AssistantEntry where
  dispatches : List Dispatch
  planStatus : Option PlanStatus

/-- A line of a plan: `uuid5(entry_id, index)`. -/
abbrev RequestId := Nat × Nat

/-- The receipt of `submit_event`, with what its payload hash stands for. -/
structure Receipt where
  userId : Nat
  requestId : RequestId
  projectId : String
  sessionId : Nat
  text : String
  deriving DecidableEq

inductive SubmitStatus where
  | accepted | duplicate | denied

/-- `submit_event`, from where it looks for a receipt of the user. -/
def submitEvent (receipts : List Receipt) (r : Receipt) : SubmitStatus × List Receipt :=
  match receipts.find? fun prior => prior.userId = r.userId && prior.requestId = r.requestId with
  | some prior => (if prior = r then .duplicate else .denied, receipts)
  | none => (.accepted, receipts ++ [r])

inductive Phase where
  | marking
  /-- It has marked the plan and is at line `index`; some of the lines before it were `sent`. -/
  | submitting (index : Nat) (sent : List String)

structure Send where
  entryId : Nat
  userId : Nat
  /-- The lines and the discussion sessions as they were read. -/
  dispatches : List Dispatch
  sessions : List (String × Nat)
  phase : Phase := .marking

inductive Event where
  | status (entryId : Nat) (status : PlanStatus)
  | submitted (requestId : RequestId)
  | accepted (requestId : RequestId)
  deriving DecidableEq

structure Topic where
  entries : List AssistantEntry := []
  receipts : List Receipt := []
  sends : List Send := []
  log : List Event := []

namespace Topic
variable (t : Topic)

def planStatus (entryId : Nat) : Option PlanStatus := t.entries[entryId]?.bind (·.planStatus)

/-- `plan_status = status`. -/
def write (status : PlanStatus) (entryId : Nat) : Topic :=
  { t with
    entries := t.entries.modify entryId fun e => { e with planStatus := some status }
    log := t.log ++ [.status entryId status] }

def replaced : List Nat :=
  (List.range t.entries.length).filter fun id => t.planStatus id ∈ [some .pending, some .editing]

def answer (dispatches : List Dispatch) : Topic :=
  if dispatches = [] then { t with entries := t.entries ++ [{ dispatches := [], planStatus := none }] }
  else
    let t := t.replaced.foldl (fun t id => t.write .superseded id) t
    { t with
      entries := t.entries ++ [{ dispatches := dispatches, planStatus := some .pending }]
      log := t.log ++ [.status t.entries.length .pending] }

def edit (entryId : Nat) : Topic := if t.planStatus entryId = some .pending then t.write .editing entryId else t

def sendable : Option PlanStatus → Bool
  | some .pending | some .editing | some .sending => true
  | _ => false

def openSend (entryId userId : Nat) (sessions : List (String × Nat)) : Topic :=
  match t.entries[entryId]? with
  | none => t
  | some e =>
    if sendable e.planStatus then
      { t with
        sends := t.sends ++ [{ entryId := entryId, userId := userId, dispatches := e.dispatches, sessions := sessions }] }
    else t

inductive Reply where
  /-- A `PermissionError`, a `ValueError` or a denial. -/
  | refused
  | received

/-- The send goes on in `phase`. -/
def goOn (i : Nat) (s : Send) (phase : Phase) : Topic := { t with sends := t.sends.set i { s with phase := phase } }

/-- Line `index` of the plan. -/
def submitLine (i : Nat) (s : Send) (index : Nat) (sent : List String) (d : Dispatch) (reply : Reply) : Topic :=
  match s.sessions.lookup d.projectId with
  | none => t.goOn i s (.submitting (index + 1) sent)
  | some session =>
    let t := { t with log := t.log ++ [Event.submitted (s.entryId, index)] }
    match reply with
    | .refused => t.goOn i s (.submitting (index + 1) sent)
    | .received =>
      match submitEvent t.receipts
          { userId := s.userId, requestId := (s.entryId, index), projectId := d.projectId, sessionId := session
            text := d.request } with
      | (.accepted, receipts) =>
        { t with receipts := receipts, log := t.log ++ [Event.accepted (s.entryId, index)] }.goOn i s
          (.submitting (index + 1) (sent ++ [d.projectId]))
      | (.duplicate, _) => t.goOn i s (.submitting (index + 1) (sent ++ [d.projectId]))
      | (.denied, _) => t.goOn i s (.submitting (index + 1) sent)

def finish (i : Nat) (s : Send) (sent : List String) : Topic :=
  { t with sends := t.sends.eraseIdx i }.write (if sent = [] then .pending else .sent) s.entryId

/-- The next transaction or submission of a send. -/
def advance (i : Nat) (reply : Reply) : Topic :=
  match t.sends[i]? with
  | none => t
  | some s =>
    match s.phase with
    | .marking => (t.write .sending s.entryId).goOn i s (.submitting 0 [])
    | .submitting index sent =>
      match s.dispatches[index]? with
      | some d => t.submitLine i s index sent d reply
      | none => t.finish i s sent

inductive Action where
  | answer (dispatches : List Dispatch)
  | edit (entryId : Nat)
  | openSend (entryId userId : Nat) (sessions : List (String × Nat))
  | advance (i : Nat) (reply : Reply)
  /-- The worker that sends dies; a retry opens the send again. -/
  | crash (i : Nat)

def step : Action → Topic
  | .answer dispatches => t.answer dispatches
  | .edit entryId => t.edit entryId
  | .openSend entryId userId sessions => t.openSend entryId userId sessions
  | .advance i reply => t.advance i reply
  | .crash i => { t with sends := t.sends.eraseIdx i }

end Topic

/-- The topic after any sequence of actions, each of which meets `guard` where it is taken. -/
inductive Reaches (guard : Topic → Topic.Action → Prop) : Topic → Prop
  | start : Reaches guard {}
  | step {t : Topic} (a : Topic.Action) : Reaches guard t → guard t a → Reaches guard (t.step a)

end Vuzol.Assistant
