import Vuzol.Plans.Body

/-! Reading a stored plan body back (`_plan_from_revision_body`, `_environment_delta_from_revision_body`). A missing key,
    a value of the wrong type or a text that cannot be read is the reader's own refusal; what the constructors refuse is
    passed on. -/

namespace Vuzol.Plans
open Lib
open Discussion (RiskLevel EstimatedComplexity)

def PlanItemFields.construct (x : PlanItemFields) : Except DomainError PlanItemDraft :=
  match h : x.check with
  | .ok () => .ok ⟨x, h⟩
  | .error e => .error e

def ComponentFields.construct (c : ComponentFields) : Except DomainError EnvironmentComponentDraft :=
  match h : c.check with
  | .ok () => .ok ⟨c, h⟩
  | .error e => .error e

def CapabilityFields.construct (c : CapabilityFields) : Except DomainError CapabilityRequirementDraft :=
  match h : c.check with
  | .ok () => .ok ⟨c, h⟩
  | .error e => .error e

def DeltaFields.construct (d : DeltaFields) : Except DomainError EnvironmentDeltaDraft :=
  match h : d.check with
  | .ok () => .ok ⟨d, h⟩
  | .error e => .error e

def ofValue {α : Type} (members : List α) (value : α → String) (t : Text) : Option α :=
  members.find? fun a => (value a).toList = t

def risks : List RiskLevel := [.low, .medium, .high, .privileged]

def complexities : List EstimatedComplexity := [.small, .medium, .large]

def kinds : List ComponentKind :=
  [.staticSite, .webService, .androidApp, .cli, .library, .bot, .mcpServer, .worker, .database, .other]

def provisionings : List CapabilityProvisioning := [.automatic, .approvalRequired, .externalSetup]

section Values
variable (rt : Runtime) (malformed : DomainError) (raw : Json)

/-- `raw[key]`. -/
def required (key : String) : Except DomainError Json :=
  match raw.get? key with
  | some value => .ok value
  | none => .error malformed

/-- `str(raw[key])`. -/
def requiredText (key : String) : Except DomainError Text := (required malformed raw key).map (pyStr rt)

/-- `None if raw.get(key) is None else str(raw[key])`. -/
def optionalText (key : String) : Option Text :=
  match raw.get? key with
  | none | some .null => none
  | some value => some (pyStr rt value)

/-- `tuple(str(value) for value in values)`: a text gives its characters and a dict its keys. -/
def textsOf (values : Json) : Except DomainError (List Text) :=
  match values with
  | .arr entries => .ok (entries.map (pyStr rt))
  | .str t => .ok (t.map ([·]))
  | .obj fields => .ok (fields.map (·.1.toList))
  | _ => .error malformed

/-- `raw.get(key, [])`, as a tuple of texts. -/
def textsUnder (key : String) : Except DomainError (List Text) := textsOf rt malformed ((raw.get? key).getD (.arr []))

def memberUnder {α : Type} (members : List α) (value : α → String) (text : Text) : Except DomainError α :=
  match ofValue members value text with
  | some a => .ok a
  | none => .error malformed

end Values

def malformedPlan : DomainError := invalidPlan "invalid_plan"

/-- A `local_id` is a text or absent. -/
def localIdOf (raw : Json) : Except DomainError (Option Text) :=
  match raw.get? "local_id" with
  | none | some .null => .ok none
  | some (.str t) => .ok (some t)
  | some _ => .error malformedPlan

def itemIdOf (rt : Runtime) (raw : Json) : Except DomainError (Option Uuid) :=
  match raw.get? "item_id" with
  | none => .ok none
  | some value =>
    if value.truthy then
      match uuidOfText rt.decimal (pyStr rt value) with
      | some id => .ok (some id)
      | none => .error malformedPlan
    else .ok none

/-- One round of the reader's loop. -/
def planItemOfBody (rt : Runtime) : Json → Except DomainError PlanItemDraft
  | .obj fields => do
    let raw := Json.obj fields
    let localId ← localIdOf raw
    let itemId ← itemIdOf rt raw
    let summary ← requiredText rt malformedPlan raw "summary"
    let goal ← requiredText rt malformedPlan raw "goal"
    let expectedOutcome ← requiredText rt malformedPlan raw "expected_outcome"
    let criteria ← required malformedPlan raw "completion_criteria"
    let completionCriteria ← textsOf rt malformedPlan criteria
    let allowedScope ← requiredText rt malformedPlan raw "allowed_scope"
    let outOfScope ← textsUnder rt malformedPlan raw "out_of_scope"
    let dependencies ← textsUnder rt malformedPlan raw "dependencies"
    let trustedChecks ← textsUnder rt malformedPlan raw "trusted_checks"
    let suggestedRisk ← memberUnder malformedPlan risks riskValue
      (pyStr rt ((raw.get? "suggested_risk").getD (word "low")))
    let estimatedComplexity ← memberUnder malformedPlan complexities complexityValue
      (pyStr rt ((raw.get? "estimated_complexity").getD (word "medium")))
    PlanItemFields.construct {
      summary, goal, expectedOutcome, completionCriteria, allowedScope, itemId, localId, outOfScope, dependencies
      trustedChecks, suggestedRisk, estimatedComplexity
      needsApproval := ((raw.get? "needs_approval").getD (.bool false)).truthy
      derived := ((raw.get? "derived").getD (.bool true)).truthy
      sourceTurnRef := (raw.get? "source_turn_ref").getD .null
      sourceSpecRevision := (raw.get? "source_spec_revision").getD .null
    }
  | _ => .error malformedPlan

def malformedEnvironment : DomainError := invalidEnvironment "invalid_environment"

/-- `int(value)`. -/
def intOf (rt : Runtime) (value : Json) : Except DomainError Int :=
  let read :=
    match value with
    | .str t => intOfText rt.decimal 10 t
    | _ => value.int?
  read.elim (.error malformedEnvironment) .ok

def portOf (rt : Runtime) (raw : Json) : Except DomainError (Option Int) :=
  match raw.get? "port" with
  | none | some .null => .ok none
  | some value => (intOf rt value).map some

def componentOfBody (rt : Runtime) (fields : List (String × Json)) : Except DomainError EnvironmentComponentDraft := do
  let raw := Json.obj fields
  let key ← requiredText rt malformedEnvironment raw "key"
  let label ← requiredText rt malformedEnvironment raw "label"
  let kind ← requiredText rt malformedEnvironment raw "kind"
  let kind ← memberUnder malformedEnvironment kinds ComponentKind.value kind
  let technology ← requiredText rt malformedEnvironment raw "technology"
  let runCommand ← textsUnder rt malformedEnvironment raw "run_command"
  let port ← portOf rt raw
  let artifactPatterns ← textsUnder rt malformedEnvironment raw "artifact_patterns"
  ComponentFields.construct {
    key, label, kind, technology, runCommand, port, artifactPatterns
    version := optionalText rt raw "version"
    healthcheckPath := optionalText rt raw "healthcheck_path"
  }

def capabilityOfBody (rt : Runtime) (fields : List (String × Json)) : Except DomainError CapabilityRequirementDraft := do
  let raw := Json.obj fields
  let key ← requiredText rt malformedEnvironment raw "key"
  let label ← requiredText rt malformedEnvironment raw "label"
  let provisioning ← requiredText rt malformedEnvironment raw "provisioning"
  let provisioning ← memberUnder malformedEnvironment provisionings CapabilityProvisioning.value provisioning
  CapabilityFields.construct { key, label, provisioning, reason := textUnder rt raw "reason" }

/-- `raw.get(key, [])`, which must be a list. -/
def listUnder (raw : Json) (key : String) : Except DomainError (List Json) :=
  match raw.get? key with
  | none => .ok []
  | some (.arr entries) => .ok entries
  | some _ => .error malformedEnvironment

def environmentDeltaFromRevisionBody (rt : Runtime) (body : Json) : Except DomainError EnvironmentDeltaDraft :=
  match body.get? "environment_delta" with
  | none | some .null => .ok .none
  | some (.obj fields) => do
    let raw := Json.obj fields
    let components ← listUnder raw "upsert_components"
    let removed ← listUnder raw "remove_components"
    let capabilities ← listUnder raw "required_capabilities"
    let upsertComponents ← (dicts components).mapM (componentOfBody rt)
    let requiredCapabilities ← (dicts capabilities).mapM (capabilityOfBody rt)
    DeltaFields.construct { upsertComponents, requiredCapabilities, removeComponents := removed.map (pyStr rt) }
  | some _ => .error malformedEnvironment

def planFromRevisionBody (rt : Runtime) (body : Json) : Except PlanError PlanDraft :=
  match body.get? "title", body.get? "items" with
  | some (.str title), some (.arr items) => do
    let drafts ← (items.mapM (planItemOfBody rt)).mapError .domain
    let delta ← (environmentDeltaFromRevisionBody rt body).mapError .domain
    PlanDraft.construct title drafts delta
  | _, _ => .error (.domain malformedPlan)

end Vuzol.Plans
