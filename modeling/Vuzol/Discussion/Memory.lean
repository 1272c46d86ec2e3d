import Vuzol.Lib.Regex
import Vuzol.Lib.Rows

/-! Accepted decisions of a discussion session and the memory units derived from them (discussion/memory_service.py,
    discussion/memory_writer.py): a command changes the decisions and enqueues a job, and the writer executes the jobs
    at any time and in any order. -/

namespace Vuzol.Memory
open Lib

def isSlugChar (c : Char) : Bool := ('a' ≤ c ∧ c ≤ 'z') ∨ c.isDigit

def decisionKey : Regex :=
  .seq (.plus (.cls isSlugChar)) (.star (.seq (.word "-") (.plus (.cls isSlugChar))))

/-- `\S`. -/
def visible : Regex := .cls fun c => !isSpace c

/-- `-----BEGIN [A-Z ]*PRIVATE KEY-----`. -/
def privateKey : Regex :=
  .seq (.word "-----BEGIN ") (.seq (.star (.cls fun c => c.isUpper || c = ' ')) (.word "PRIVATE KEY-----"))

/-- `(api[_-]?key|password|secret|token)\s*[:=]\s*\S{8,}`, ignoring case. -/
def secretAssignment : Regex :=
  .seq (.oneOf [.seq (.wordIgnoringCase "api") (.seq (.option (.cls fun c => c = '_' || c = '-')) (.wordIgnoringCase "key")),
      .wordIgnoringCase "password", .wordIgnoringCase "secret", .wordIgnoringCase "token"])
    (.seq (.star (.cls isSpace)) (.seq (.cls fun c => c = ':' || c = '=') (.seq (.star (.cls isSpace))
      (.atLeast 8 visible))))

/-- `[a-z]`, ignoring case. -/
def isLetter (c : Char) : Bool :=
  c.isAlpha || c.toNat = 0x130 || c.toNat = 0x131 || c.toNat = 0x17F || c.toNat = 0x212A

/-- `[a-z][a-z0-9+.-]*://[^\s/:]+:[^\s/@]+@`, ignoring case. -/
def credentialUrl : Regex :=
  .seq (.cls isLetter) (.seq (.star (.cls fun c => isLetter c || c.isDigit || c = '+' || c = '.' || c = '-'))
    (.seq (.word "://") (.seq (.plus (.cls fun c => !isSpace c && c ≠ '/' && c ≠ ':'))
      (.seq (.word ":") (.seq (.plus (.cls fun c => !isSpace c && c ≠ '/' && c ≠ '@')) (.word "@"))))))

/-- `/(?:etc|home|opt|root|srv|var)/\S+`. -/
def hostPath : Regex :=
  .seq (.word "/") (.seq (.oneOf [.word "etc", .word "home", .word "opt", .word "root", .word "srv", .word "var"])
    (.seq (.word "/") (.plus visible)))

/-- A pattern of `_SENSITIVE_MEMORY` is found. -/
def sensitiveMemory (text : Text) : Bool :=
  privateKey.search text || secretAssignment.search text || credentialUrl.search text || hostPath.matchesStart text ||
    (Regex.seq (.cls isSpace) hostPath).search text

def ensureMemorySafe (text : Text) : Except String Text := do
  let normalized := strip text
  raiseIf (normalized = []) "invalid_memory_text"
  raiseIf (sensitiveMemory normalized = true) "sensitive_memory"
  .ok normalized

def validateDecision (key statement : Text) : Except String (Text × Text) := do
  let normalizedKey := strip key
  raiseIf (64 < normalizedKey.length ∨ decisionKey.fullmatch normalizedKey = false) "invalid_decision"
  let normalizedStatement ← ensureMemorySafe statement
  raiseIf (500 < normalizedStatement.length) "invalid_decision"
  .ok (normalizedKey, normalizedStatement)

inductive MemoryUnitStatus
  | hypothesis
  | observation
  | verified
  | superseded
  | retracted
  | tombstoned
  deriving DecidableEq

/-- `RECALLABLE_STATUSES`. -/
def MemoryUnitStatus.isRecallable (x : MemoryUnitStatus) : Bool := x = .observation || x = .verified

def MemoryUnitStatus.allowed : MemoryUnitStatus → List MemoryUnitStatus
  | .hypothesis => [.observation, .tombstoned]
  | .observation => [.observation, .superseded, .retracted, .tombstoned]
  | .verified => [.superseded, .retracted, .tombstoned]
  | .superseded => []
  | .retracted => []
  | .tombstoned => []

def checkStatusTransition (source target : MemoryUnitStatus) : Except String Unit := do
  raiseIf (source = .hypothesis ∧ target = .verified) "invalid_memory_transition"
  raiseIf (source = .tombstoned) "invalid_memory_transition"
  raiseIf (target ∉ source.allowed ∧ target ≠ source) "invalid_memory_transition"

def shouldSupersede (currentEffectiveAt incomingEffectiveAt : Nat) : Bool := currentEffectiveAt < incomingEffectiveAt

/-- What `extraction_identity` hashes; the version, the scope and the type of unit are those of the session's decisions. -/
structure ExtractionIdentity where
  triggerEventId : Nat
  unitKey : Text
  deriving DecidableEq

def extractionIdentity (triggerEventId : Nat) (unitKey : Text) : Except String ExtractionIdentity := do
  let normalizedKey := strip unitKey
  raiseIf (normalizedKey = [] ∨ 128 < normalizedKey.length) "invalid_memory_unit"
  .ok { triggerEventId := triggerEventId, unitKey := normalizedKey }

def maxTextChars : Nat := 4000

def decisionTemplate (key statement : Text) (acceptedByUserId : Nat) : Except String Text := do
  let text ← ensureMemorySafe ("Decision ".toList ++ strip key ++ ": ".toList ++ strip statement ++
    " (accepted by user ".toList ++ Nat.toDigits 10 acceptedByUserId ++ ")".toList)
  .ok (text.take maxTextChars)

inductive AcceptedDecisionStatus
  | active
  | superseded
  | retracted
  deriving DecidableEq

/-- A row of `accepted_decisions`; ids are given in the order of acceptance. -/
structure AcceptedDecision where
  id : Nat
  key : Text
  statement : Text
  acceptedByUserId : Nat
  status : AcceptedDecisionStatus := .active
  /-- `now()` of the transaction, which starts before the session is locked. -/
  createdAt : Nat

/-- A `decision_template` row of `memory_units`. -/
structure MemoryUnit where
  id : Nat
  text : Text
  status : MemoryUnitStatus
  extractionIdentity : ExtractionIdentity
  effectiveAt : Nat
  sourceDecisionId : Nat
  sourceKey : Text
  supersededBy : Option Nat := none
  deriving DecidableEq

inductive MemoryOperation
  | extractDecision
  | retractUnits
  deriving DecidableEq

/-- An item of the `memory_extract` destination, with the number of times it was executed. -/
structure MemoryJob where
  id : Nat
  operation : MemoryOperation
  decisionId : Nat
  triggerEventId : Nat
  executed : Nat := 0
  deriving DecidableEq

structure MemoryLimits where
  maxDecisions : Nat := 50
  positive : 1 ≤ maxDecisions := by decide

structure DecisionMemory where
  decisions : List AcceptedDecision := []
  units : List MemoryUnit := []
  jobs : List MemoryJob := []
  nextId : Nat := 0

inductive MemoryOp
  /-- `sourceTurn`: the source turn, where one is given, belongs to the session. -/
  | accept (key statement : Text) (userId : Nat) (sourceTurn : Bool) (now : Nat)
  | supersede (key statement : Text) (userId : Nat) (sourceTurn : Bool) (now : Nat)
  | retract (decisionId : Nat)
  | execute (jobId : Nat)

namespace DecisionMemory

def decision? (s : DecisionMemory) (id : Nat) : Option AcceptedDecision := s.decisions.find? fun d => d.id == id

def activeDecision (s : DecisionMemory) (key : Text) : Option AcceptedDecision :=
  s.decisions.find? fun d => d.key = key ∧ d.status = .active

def activeDecisions (s : DecisionMemory) : List AcceptedDecision := s.decisions.filter fun d => d.status = .active

/-- `accept_decision` of the repository, with the event that the service records and the job it enqueues. -/
def addDecision (s : DecisionMemory) (key statement : Text) (userId : Nat) (now : Nat) : DecisionMemory :=
  let decision : AcceptedDecision :=
    { id := s.nextId, key := key, statement := statement, acceptedByUserId := userId, createdAt := now }
  let job : MemoryJob :=
    { id := s.nextId, operation := .extractDecision, decisionId := decision.id, triggerEventId := s.nextId }
  { s with decisions := s.decisions ++ [decision], jobs := s.jobs ++ [job], nextId := s.nextId + 1 }

def setDecisionStatus (s : DecisionMemory) (d : AcceptedDecision) (status : AcceptedDecisionStatus) : DecisionMemory :=
  { s with decisions := put AcceptedDecision.id { d with status := status } s.decisions }

/-- `active_chain` of the decision templates of the session. -/
def activeChain (s : DecisionMemory) (sourceKey : Text) : List MemoryUnit :=
  s.units.filter fun u => u.sourceKey = sourceKey ∧ u.status.isRecallable

def activeUnitsForDecision (s : DecisionMemory) (decisionId : Nat) : List MemoryUnit :=
  s.units.filter fun u => u.sourceDecisionId = decisionId ∧ u.status.isRecallable

/-- `create_unit`: a redelivered extraction identity returns the row. -/
def createUnit (s : DecisionMemory) (unit : MemoryUnit) : DecisionMemory × MemoryUnit :=
  match s.units.find? fun u => u.extractionIdentity = unit.extractionIdentity with
  | some existing => (s, existing)
  | none => ({ s with units := s.units ++ [unit], nextId := s.nextId + 1 }, unit)

/-- `set_status`. -/
def setUnitStatus (s : DecisionMemory) (u : MemoryUnit) (status : MemoryUnitStatus) : Except String DecisionMemory := do
  checkStatusTransition u.status status
  .ok { s with units := put MemoryUnit.id { u with status := status } s.units }

def markSuperseded (s : DecisionMemory) (u : MemoryUnit) (supersededBy : Nat) : Except String DecisionMemory := do
  checkStatusTransition u.status .superseded
  .ok { s with units := put MemoryUnit.id { u with status := .superseded, supersededBy := some supersededBy } s.units }

variable (limits : MemoryLimits)

def acceptDecision (s : DecisionMemory) (key statement : Text) (userId : Nat) (sourceTurn : Bool) (now : Nat) :
    Except String DecisionMemory := do
  let (key, statement) ← validateDecision key statement
  match s.activeDecision key with
  | some existing => if existing.statement = statement then .ok s else .error "decision_conflict"
  | none =>
    raiseIf (limits.maxDecisions ≤ (s.activeDecisions.take limits.maxDecisions).length) "decision_limit_exceeded"
    raiseIf (sourceTurn = false) "decision_source_mismatch"
    .ok (s.addDecision key statement userId now)

def supersedeDecision (s : DecisionMemory) (key statement : Text) (userId : Nat) (sourceTurn : Bool) (now : Nat) :
    Except String DecisionMemory := do
  let (key, statement) ← validateDecision key statement
  match s.activeDecision key with
  | none => .error "decision_not_found"
  | some existing =>
    if existing.statement = statement then .ok s
    else do
      let s := s.setDecisionStatus existing .superseded
      raiseIf (sourceTurn = false) "decision_source_mismatch"
      .ok (s.addDecision key statement userId now)

def retractDecision (s : DecisionMemory) (decisionId : Nat) : Except String DecisionMemory := do
  match s.decision? decisionId with
  | none => .error "decision_not_found"
  | some d =>
    if d.status = .retracted then .ok s
    else do
      raiseIf (d.status ≠ .active) "decision_not_active"
      let s := s.setDecisionStatus d .retracted
      let job : MemoryJob :=
        { id := s.nextId, operation := .retractUnits, decisionId := d.id, triggerEventId := s.nextId }
      .ok { s with jobs := s.jobs ++ [job], nextId := s.nextId + 1 }

def templateOf (id : Nat) (d : AcceptedDecision) (identity : ExtractionIdentity) (text : Text) : MemoryUnit where
  id := id
  text := text
  status := .verified
  extractionIdentity := identity
  effectiveAt := d.createdAt
  sourceDecisionId := d.id
  sourceKey := d.key

def extractDecision (s : DecisionMemory) (job : MemoryJob) : Except String DecisionMemory := do
  match s.decision? job.decisionId with
  | none => .error "source decision is missing"
  | some d =>
    let identity ← Memory.extractionIdentity job.triggerEventId ("decision:".toList ++ d.key)
    if (s.activeChain d.key).any fun u =>
        u.extractionIdentity = identity ∨ shouldSupersede u.effectiveAt d.createdAt = false then
      .ok s
    else do
      let text ← decisionTemplate d.key d.statement d.acceptedByUserId
      let (s, unit) := s.createUnit (templateOf s.nextId d identity text)
      (s.activeChain d.key).foldlM (fun s u => if u.id ≠ unit.id then s.markSuperseded u unit.id else .ok s) s

def retractDecisionUnits (s : DecisionMemory) (job : MemoryJob) : Except String DecisionMemory :=
  (s.activeUnitsForDecision job.decisionId).foldlM (fun s u => s.setUnitStatus u .retracted) s

def dispatch (s : DecisionMemory) (job : MemoryJob) : Except String DecisionMemory :=
  match job.operation with
  | .extractDecision => s.extractDecision job
  | .retractUnits => s.retractDecisionUnits job

/-- `process_one`: an item that cannot be extracted goes to the dead letters, and what it wrote is rolled back. -/
def execute (s : DecisionMemory) (job : MemoryJob) : DecisionMemory :=
  let s := (s.dispatch job).toOption.getD s
  { s with jobs := put MemoryJob.id { job with executed := job.executed + 1 } s.jobs }

def perform (s : DecisionMemory) : MemoryOp → Except String DecisionMemory
  | .accept key statement userId sourceTurn now => s.acceptDecision limits key statement userId sourceTurn now
  | .supersede key statement userId sourceTurn now => s.supersedeDecision key statement userId sourceTurn now
  | .retract decisionId => s.retractDecision decisionId
  | .execute jobId =>
    match s.jobs.find? fun j => j.id == jobId with
    | some job => .ok (s.execute job)
    | none => .error "no job"

end DecisionMemory

end Vuzol.Memory
