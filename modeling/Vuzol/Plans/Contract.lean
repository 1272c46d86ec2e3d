import Vuzol.Plans.Body

/-! The contract of a plan item (`discussion/domain.py`): one set of fields and one hash for a draft, a stored row and a
    mapping; and the carry-forward over a replan, which compares the hashes (`discussion/sequencer.py`). -/

namespace Vuzol.Plans
open Lib
open Discussion (RiskLevel EstimatedComplexity)

/-- The fields of an item that are its contract. -/
structure ContractFields where
  summary : Text
  goal : Text
  expectedOutcome : Text
  completionCriteria : List Text
  allowedScope : Text
  outOfScope : List Text
  dependencies : List Text
  trustedChecks : List Text
  suggestedRisk : RiskLevel
  needsApproval : Bool
  estimatedComplexity : EstimatedComplexity
  deriving DecidableEq

inductive Value where
  /-- A member of a `StrEnum`. -/
  | enum (value : String)
  | tuple (entries : List Json)
  | json (value : Json)

inductive Item where
  | object (attributes : List (String × Value))
  | mapping (entries : List (String × Value))

/-- `getattr(item, field, None)` or `item.get(field)`. -/
def fieldOf (fields : List (String × Value)) (field : String) : Value := (fields.lookup field).getD (.json .null)

/-- The contract fields as attributes; a draft has its sequences as tuples, a row as lists. -/
def ContractFields.attributes (sequence : List Json → Value) (c : ContractFields) : List (String × Value) :=
  [
    ("summary", .json (.str c.summary)),
    ("goal", .json (.str c.goal)),
    ("expected_outcome", .json (.str c.expectedOutcome)),
    ("completion_criteria", sequence (c.completionCriteria.map .str)),
    ("allowed_scope", .json (.str c.allowedScope)),
    ("out_of_scope", sequence (c.outOfScope.map .str)),
    ("dependencies", sequence (c.dependencies.map .str)),
    ("trusted_checks", sequence (c.trustedChecks.map .str)),
    ("suggested_risk", .enum (riskValue c.suggestedRisk)),
    ("needs_approval", .json (.bool c.needsApproval)),
    ("estimated_complexity", .enum (complexityValue c.estimatedComplexity))]

def PlanItemFields.contractFields (x : PlanItemFields) : ContractFields where
  summary := x.summary
  goal := x.goal
  expectedOutcome := x.expectedOutcome
  completionCriteria := x.completionCriteria
  allowedScope := x.allowedScope
  outOfScope := x.outOfScope
  dependencies := x.dependencies
  trustedChecks := x.trustedChecks
  suggestedRisk := x.suggestedRisk
  needsApproval := x.needsApproval
  estimatedComplexity := x.estimatedComplexity

def PlanItemFields.object (x : PlanItemFields) : Item := .object (x.contractFields.attributes .tuple)

def itemContractFields : List String := [
  "summary", "goal", "expected_outcome", "completion_criteria", "allowed_scope", "out_of_scope", "dependencies",
  "trusted_checks", "suggested_risk", "needs_approval", "estimated_complexity"]

/-- What `json.dumps` writes for the value. -/
def Value.dumped : Value → Json
  | .enum value => word value
  | .tuple entries => .arr entries
  | .json value => value

def stripEntry : Json → Json
  | .str t => .str (strip t)
  | entry => entry

def contractScalar (rt : Runtime) : Value → Json
  | .enum value => word value
  | .json (.bool b) => .bool b
  | .json (.num n) => .num n
  | .json (.str t) => .str (strip t)
  | .json (.arr entries) => .arr (entries.map stripEntry)
  | .tuple entries => .arr (entries.map stripEntry)
  | .json .null => .null
  | .json (.obj fields) => .str (pyStr rt (.obj fields))

section Hashes
variable {δ : Type} (rt : Runtime) (digest : Text → δ)

def itemContractHash (entries : List (String × Value)) : δ :=
  canonicalPlanHash digest (.obj (itemContractFields.map fun field => (field, (fieldOf entries field).dumped)))

def itemContractDict : Item → List (String × Value)
  | .object fields | .mapping fields => itemContractFields.map fun field => (field, .json (contractScalar rt (fieldOf fields field)))

/-- `item_contract_hash_of`: a mapping is hashed as it is. -/
def itemContractHashOf : Item → δ
  | .mapping entries => itemContractHash digest entries
  | .object attributes => itemContractHash digest (itemContractDict rt (.object attributes))

structure PlanRevisionItem (δ : Type) extends ContractFields where
  itemId : Uuid
  ordinal : Nat
  itemContractVersion : δ

def PlanRevisionItem.object (r : PlanRevisionItem δ) : Item := .object (r.attributes fun entries => .json (.arr entries))

/-- The row that `_create_revision` writes for an item. -/
def revisionItem (x : PlanItemFields) (itemId : Uuid) (ordinal : Nat) : PlanRevisionItem δ where
  summary := strip x.summary
  goal := strip x.goal
  expectedOutcome := strip x.expectedOutcome
  completionCriteria := x.completionCriteria
  allowedScope := strip x.allowedScope
  outOfScope := x.outOfScope
  dependencies := x.dependencies
  trustedChecks := x.trustedChecks
  suggestedRisk := x.suggestedRisk
  needsApproval := x.needsApproval
  estimatedComplexity := x.estimatedComplexity
  itemId := itemId
  ordinal := ordinal
  itemContractVersion := itemContractHashOf rt digest x.object

variable [DecidableEq δ]

def samePlanItem (left right : PlanRevisionItem δ) : Bool :=
  itemContractHashOf rt digest left.object = itemContractHashOf rt digest right.object

/-- `first_unfinished_ordinal`, given the completed items of other revisions that have an item's identity. -/
def firstUnfinishedOrdinal (completedPredecessors : PlanRevisionItem δ → List (PlanRevisionItem δ))
    (items : List (PlanRevisionItem δ)) : Nat :=
  match items.find? fun item => !(completedPredecessors item).any (samePlanItem rt digest item) with
  | some item => item.ordinal
  | none => items.length + 1

end Hashes

end Vuzol.Plans
