import Vuzol.Plans.Draft

/-! The stored body of a plan and the two pairs of hashes: of a draft and of a stored body, by meaning and by outline. -/

namespace Vuzol.Plans
open Lib
open Discussion (RiskLevel EstimatedComplexity)

structure Runtime where
  decimal : Char → Option Nat
  /-- `str.casefold` goes character by character; white space has no case. -/
  casefold : Char → Text
  casefold_space : ∀ c, isSpace c = true → casefold c = [c]
  /-- `repr` of a list or a dict. -/
  repr : Json → Text

def riskValue : RiskLevel → String
  | .low => "low"
  | .medium => "medium"
  | .high => "high"
  | .privileged => "privileged"

def complexityValue : EstimatedComplexity → String
  | .small => "small"
  | .medium => "medium"
  | .large => "large"

def ComponentKind.value : ComponentKind → String
  | .staticSite => "static_site"
  | .webService => "web_service"
  | .androidApp => "android_app"
  | .cli => "cli"
  | .library => "library"
  | .bot => "bot"
  | .mcpServer => "mcp_server"
  | .worker => "worker"
  | .database => "database"
  | .other => "other"

def CapabilityProvisioning.value : CapabilityProvisioning → String
  | .automatic => "automatic"
  | .approvalRequired => "approval_required"
  | .externalSetup => "external_setup"

def texts (ts : List Text) : Json := .arr (ts.map .str)

def word (w : String) : Json := .str w.toList

/-- The value, or `None`. -/
def orNull {α : Type} (enc : α → Json) : Option α → Json
  | none => .null
  | some a => enc a

def componentBody (c : ComponentFields) : Json :=
  .obj [
    ("key", .str c.key),
    ("label", .str (strip c.label)),
    ("kind", word c.kind.value),
    ("technology", .str (strip c.technology)),
    ("version", orNull .str c.version),
    ("run_command", texts c.runCommand),
    ("port", orNull .num c.port),
    ("healthcheck_path", orNull .str c.healthcheckPath),
    ("artifact_patterns", texts c.artifactPatterns)]

def capabilityBody (c : CapabilityFields) : Json :=
  .obj [
    ("key", .str c.key),
    ("label", .str (strip c.label)),
    ("provisioning", word c.provisioning.value),
    ("reason", .str (strip c.reason))]

def canonicalEnvironmentDelta (d : EnvironmentDeltaDraft) : Json :=
  .obj [
    ("upsert_components", .arr (d.upsertComponents.map (componentBody ·.toComponentFields))),
    ("remove_components", texts d.removeComponents),
    ("required_capabilities", .arr (d.requiredCapabilities.map (capabilityBody ·.toCapabilityFields)))]

def deltaField (d : EnvironmentDeltaDraft) : List (String × Json) :=
  if d.isEmpty then [] else [("environment_delta", canonicalEnvironmentDelta d)]

/-- An item in a stored body: its identity, its ordinal and its fields. -/
def itemFields (x : PlanItemFields) (id : Uuid) (ordinal : Nat) : List (String × Json) :=
  [
    ("item_id", .str id.str),
    ("local_id", orNull .str x.localId),
    ("ordinal", .num ordinal),
    ("summary", .str (strip x.summary)),
    ("goal", .str (strip x.goal)),
    ("expected_outcome", .str (strip x.expectedOutcome)),
    ("completion_criteria", texts x.completionCriteria),
    ("allowed_scope", .str (strip x.allowedScope)),
    ("out_of_scope", texts x.outOfScope),
    ("dependencies", texts x.dependencies),
    ("trusted_checks", texts x.trustedChecks),
    ("suggested_risk", word (riskValue x.suggestedRisk)),
    ("needs_approval", .bool x.needsApproval),
    ("estimated_complexity", word (complexityValue x.estimatedComplexity)),
    ("derived", .bool x.derived),
    ("source_turn_ref", x.sourceTurnRef),
    ("source_spec_revision", x.sourceSpecRevision)]

def itemBodies (items : List PlanItemDraft) (ids : List Uuid) : List Json :=
  ((items.zip ids).zipIdx 1).map fun entry => .obj (itemFields entry.1.1.toPlanItemFields entry.1.2 entry.2)

def canonicalPlanBody (plan : PlanDraft) (ids : List Uuid) : Except DomainError Json :=
  if plan.items.length ≠ ids.length then .error (invalidPlan "resolved item identities do not match plan items")
  else .ok (.obj ([("title", .str (strip plan.title)), ("items", .arr (itemBodies plan.items ids))] ++
    deltaField plan.environmentDelta))

section Hashes
variable {δ : Type} (digest : Text → δ)

/-- `canonical_plan_hash`; `digest` is SHA-256 of the encoded text. -/
def canonicalPlanHash (body : Json) : δ := digest body.dumps

/-- An item without its package-local identities. -/
def semanticItem (x : PlanItemFields) : Json :=
  .obj [
    ("local_id", orNull .str x.localId),
    ("summary", .str (strip x.summary)),
    ("goal", .str (strip x.goal)),
    ("expected_outcome", .str (strip x.expectedOutcome)),
    ("completion_criteria", texts x.completionCriteria),
    ("allowed_scope", .str (strip x.allowedScope)),
    ("out_of_scope", texts x.outOfScope),
    ("dependencies", texts x.dependencies),
    ("trusted_checks", texts x.trustedChecks),
    ("suggested_risk", word (riskValue x.suggestedRisk)),
    ("needs_approval", .bool x.needsApproval),
    ("estimated_complexity", word (complexityValue x.estimatedComplexity))]

/-- What `semantic_plan_hash` hashes. -/
def semanticBody (plan : PlanDraft) : Json :=
  .obj ([("title", .str (strip plan.title)), ("items", .arr (plan.items.map (semanticItem ·.toPlanItemFields)))] ++
    deltaField plan.environmentDelta)

def semanticPlanHash (plan : PlanDraft) : δ := canonicalPlanHash digest (semanticBody plan)

/-- `str(value)`. -/
def pyStr (rt : Runtime) : Json → Text
  | .str t => t
  | .null => ['N', 'o', 'n', 'e']
  | .bool true => ['T', 'r', 'u', 'e']
  | .bool false => ['F', 'a', 'l', 's', 'e']
  | .num n => Json.printInt n
  | value => rt.repr value

/-- `str(body.get(key, ""))`. -/
def textUnder (rt : Runtime) (body : Json) (key : String) : Text := pyStr rt ((body.get? key).getD (.str []))

def dicts (entries : List Json) : List (List (String × Json)) :=
  entries.filterMap fun
    | .obj fields => some fields
    | _ => none

def storedDelta (body : Json) : List (String × Json) :=
  match body.get? "environment_delta" with
  | some (.obj fields) => [("environment_delta", .obj fields)]
  | _ => []

def provenanceKeys : List String := ["item_id", "ordinal", "derived", "source_turn_ref", "source_spec_revision"]

/-- What `semantic_revision_hash` hashes. -/
def semanticProjection (rt : Runtime) (body : Json) : Except DomainError Json :=
  match body.get? "items" with
  | some (.arr entries) =>
    .ok (.obj ([("title", .str (strip (textUnder rt body "title"))),
      ("items", .arr ((dicts entries).map fun fields => .obj (fields.filter (·.1 ∉ provenanceKeys))))] ++ storedDelta body))
  | _ => .error (invalidPlan "stored plan body has no items")

def semanticRevisionHash (rt : Runtime) (body : Json) : Except DomainError δ :=
  (semanticProjection rt body).map (canonicalPlanHash digest)

/-- `str.split()`, with the letters of the current word in reverse. -/
def splitWords : Text → Text → List Text
  | current, [] => if current = [] then [] else [current.reverse]
  | current, c :: rest =>
    if isSpace c then
      if current = [] then splitWords [] rest else current.reverse :: splitWords [] rest
    else splitWords (c :: current) rest

def normalizedOutlineText (rt : Runtime) (t : Text) : Text := [' '].intercalate (splitWords [] (t.flatMap rt.casefold))

/-- What `plan_outline_hash` hashes. -/
def outlineBody (rt : Runtime) (plan : PlanDraft) : Json :=
  .obj ([("title", .str (normalizedOutlineText rt plan.title)),
    ("items", texts (plan.items.map fun x => normalizedOutlineText rt x.summary))] ++ deltaField plan.environmentDelta)

def planOutlineHash (rt : Runtime) (plan : PlanDraft) : δ := canonicalPlanHash digest (outlineBody rt plan)

/-- What `revision_outline_hash` hashes. -/
def outlineProjection (rt : Runtime) (body : Json) : Except DomainError Json :=
  match body.get? "items" with
  | some (.arr entries) =>
    .ok (.obj ([("title", .str (normalizedOutlineText rt (textUnder rt body "title"))),
      ("items", texts ((dicts entries).map fun fields => normalizedOutlineText rt (textUnder rt (.obj fields) "summary")))] ++
        storedDelta body))
  | _ => .error (invalidPlan "stored plan body has no items")

def revisionOutlineHash (rt : Runtime) (body : Json) : Except DomainError δ :=
  (outlineProjection rt body).map (canonicalPlanHash digest)

end Hashes

end Vuzol.Plans
