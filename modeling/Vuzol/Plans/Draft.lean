import Vuzol.Discussion.Packages
import Vuzol.Lib.Dependencies
import Vuzol.Lib.Json
import Vuzol.Lib.Regex
import Vuzol.Lib.Uuid

/-! Plan drafts and what their constructors check (`discussion/domain.py`). A draft that its constructor refuses cannot
    be built: each draft carries the answer of its checks. -/

namespace Vuzol.Plans
open Lib
open Discussion (RiskLevel EstimatedComplexity)

inductive Code where
  | invalidPlan | invalidEnvironment
  deriving DecidableEq

structure DomainError where
  code : Code
  message : Text
  deriving DecidableEq

def invalidPlan (message : String) : DomainError := ⟨.invalidPlan, message.toList⟩

def invalidEnvironment (message : String) : DomainError := ⟨.invalidEnvironment, message.toList⟩

/-- What the construction of a plan may raise: a refusal, `next` of an empty generator, or Python's recursion limit. -/
inductive PlanError where
  | domain (e : DomainError)
  | stopIteration
  | recursionError
  deriving DecidableEq

inductive ComponentKind where
  | staticSite | webService | androidApp | cli | library | bot | mcpServer | worker | database | other
  deriving DecidableEq

inductive CapabilityProvisioning where
  | automatic | approvalRequired | externalSetup
  deriving DecidableEq

def slug : Regex :=
  let alnum := Regex.cls fun c => ('a' ≤ c && c ≤ 'z') || ('0' ≤ c && c ≤ '9')
  .seq alnum.plus (.star (.seq (.cls (· = '-')) alnum.plus))

def isSlug (t : Text) : Bool := slug.fullmatch t

structure ComponentFields where
  key : Text
  label : Text
  kind : ComponentKind
  technology : Text
  version : Option Text := none
  runCommand : List Text := []
  port : Option Int := none
  healthcheckPath : Option Text := none
  artifactPatterns : List Text := []
  deriving DecidableEq

def wordUnfit (value : Text) : Bool := value = [] || 500 < value.length || '\x00' ∈ value

def patternUnfit (pattern : Text) : Bool :=
  pattern = [] || 240 < pattern.length || pattern.head? = some '/' || ['.', '.'] ∈ pattern.splitOn '/' || '\x00' ∈ pattern

/-- `EnvironmentComponentDraft.__post_init__`. -/
def ComponentFields.check (c : ComponentFields) : Except DomainError Unit := do
  raiseIf (isSlug c.key = false ∨ 64 < c.key.length) (invalidEnvironment "component key must be a bounded slug")
  raiseIf (strip c.label = [] ∨ 100 < c.label.length) (invalidEnvironment "component label must contain 1..100 chars")
  raiseIf (strip c.technology = [] ∨ 100 < c.technology.length) (invalidEnvironment "component technology is required")
  raiseIf (c.port.any fun port => !(1 ≤ port && port ≤ 65535)) (invalidEnvironment "component port is invalid")
  raiseIf (c.healthcheckPath.any (·.head? ≠ some '/')) (invalidEnvironment "healthcheck path must be absolute")
  raiseIf (c.kind = .webService ∧ c.runCommand = []) (invalidEnvironment "web service requires a run command")
  raiseIf (c.kind = .webService ∧ c.port = none) (invalidEnvironment "web service requires a port")
  raiseIf (32 < c.runCommand.length ∨ c.runCommand.any wordUnfit) (invalidEnvironment "component run command is unsafe")
  raiseIf (20 < c.artifactPatterns.length) (invalidEnvironment "component has too many artifact patterns")
  raiseIf (c.artifactPatterns.any patternUnfit) (invalidEnvironment "component artifact pattern is unsafe")

structure EnvironmentComponentDraft extends ComponentFields where
  valid : toComponentFields.check = .ok ()
  deriving DecidableEq

structure CapabilityFields where
  key : Text
  label : Text
  provisioning : CapabilityProvisioning := .automatic
  reason : Text := []
  deriving DecidableEq

/-- `CapabilityRequirementDraft.__post_init__`. -/
def CapabilityFields.check (c : CapabilityFields) : Except DomainError Unit := do
  raiseIf (isSlug c.key = false ∨ 64 < c.key.length) (invalidEnvironment "capability key must be a bounded slug")
  raiseIf (strip c.label = [] ∨ 100 < c.label.length) (invalidEnvironment "capability label must contain 1..100 chars")
  raiseIf (500 < c.reason.length) (invalidEnvironment "capability reason is too long")

structure CapabilityRequirementDraft extends CapabilityFields where
  valid : toCapabilityFields.check = .ok ()
  deriving DecidableEq

structure DeltaFields where
  upsertComponents : List EnvironmentComponentDraft := []
  removeComponents : List Text := []
  requiredCapabilities : List CapabilityRequirementDraft := []
  deriving DecidableEq

/-- `EnvironmentDeltaDraft.__post_init__`. -/
def DeltaFields.check (d : DeltaFields) : Except DomainError Unit := do
  let keys := d.upsertComponents.map (·.key)
  raiseIf (¬keys.Nodup) (invalidEnvironment "component keys must be unique")
  raiseIf (¬d.removeComponents.Nodup ∨ d.removeComponents.any (!isSlug ·))
    (invalidEnvironment "removed component keys must be unique slugs")
  raiseIf (keys.any (· ∈ d.removeComponents)) (invalidEnvironment "a component cannot be added and removed")
  raiseIf (¬(d.requiredCapabilities.map (·.key)).Nodup) (invalidEnvironment "capability keys must be unique")

structure EnvironmentDeltaDraft extends DeltaFields where
  valid : toDeltaFields.check = .ok ()
  deriving DecidableEq

def EnvironmentDeltaDraft.none : EnvironmentDeltaDraft := ⟨{}, rfl⟩

def DeltaFields.isEmpty (d : DeltaFields) : Bool :=
  d.upsertComponents.isEmpty && d.removeComponents.isEmpty && d.requiredCapabilities.isEmpty

structure PlanItemFields where
  summary : Text
  goal : Text
  expectedOutcome : Text
  completionCriteria : List Text
  allowedScope : Text
  itemId : Option Uuid := none
  localId : Option Text := none
  outOfScope : List Text := []
  dependencies : List Text := []
  trustedChecks : List Text := []
  suggestedRisk : RiskLevel := .low
  needsApproval : Bool := false
  estimatedComplexity : EstimatedComplexity := .medium
  derived : Bool := true
  sourceTurnRef : Json := .null
  sourceSpecRevision : Json := .null
  deriving DecidableEq

/-- `PlanItemDraft.__post_init__`. -/
def PlanItemFields.check (x : PlanItemFields) : Except DomainError Unit := do
  raiseIf (strip x.summary = [] ∨ 240 < x.summary.length) (invalidPlan "item summary must contain 1..240 characters")
  raiseIf (strip x.goal = []) (invalidPlan "item goal is required")
  raiseIf (strip x.expectedOutcome = []) (invalidPlan "item expected_outcome is required")
  raiseIf (strip x.allowedScope = []) (invalidPlan "item allowed_scope is required")
  raiseIf (x.completionCriteria = [] ∨ x.completionCriteria.any (strip · = []))
    (invalidPlan "completion criteria must contain non-empty values")
  raiseIf (x.localId.any fun t => 64 < t.length || !isSlug t) (invalidPlan "item local_id must be a lowercase slug")

structure PlanItemDraft extends PlanItemFields where
  valid : toPlanItemFields.check = .ok ()
  deriving DecidableEq

def known (items : List PlanItemDraft) : List Text := items.filterMap (·.localId)

/-- `edges.get(node, ())`. -/
def edges (items : List PlanItemDraft) (node : Text) : List Text :=
  match items.find? (·.localId = some node) with
  | some x => x.dependencies
  | none => []

def validatePlanDependencies (items : List PlanItemDraft) : Except PlanError Unit :=
  match (items.flatMap (·.dependencies)).find? (· ∉ known items) with
  | some dependency => .error (.domain ⟨.invalidPlan, "unknown plan dependency: ".toList ++ dependency⟩)
  | none =>
    match search (edges items) ((known items).length + 1) (known items) with
    | .ok _ => .ok ()
    | .error (.cycle node) => .error (.domain ⟨.invalidPlan, "cyclic plan dependency: ".toList ++ node⟩)
    | .error .tooDeep => .error .recursionError

def titleFits (title : Text) : Prop := strip title ≠ [] ∧ title.length ≤ 240

instance (title : Text) : Decidable (titleFits title) := inferInstanceAs (Decidable (_ ∧ _))

/-- `PlanDraft.__post_init__`: the items in the order in which they are kept. -/
def postInit (title : Text) (items : List PlanItemDraft) : Except PlanError (List PlanItemDraft) := do
  raiseIf (¬titleFits title) (.domain (invalidPlan "package title must contain 1..240 characters"))
  raiseIf (items = []) (.domain (invalidPlan "a plan needs at least one item"))
  raiseIf (¬(known items).Nodup) (.domain (invalidPlan "item local_id values must be unique"))
  raiseIf (¬(items.filterMap (·.itemId)).Nodup) (.domain (invalidPlan "item_id values must be unique"))
  validatePlanDependencies items
  match stableOrder (·.localId) (·.dependencies) items with
  | some ordered => .ok ordered
  | none => .error .stopIteration

/-- A plan as its constructor leaves it: titled, with distinct identities, and with each item after those it needs. -/
structure PlanDraft where
  title : Text
  items : List PlanItemDraft
  environmentDelta : EnvironmentDeltaDraft := .none
  titled : titleFits title
  nonempty : items ≠ []
  localIds : (known items).Nodup
  itemIds : (items.filterMap (·.itemId)).Nodup
  ordered : precedes (·.localId) (·.dependencies) [] items = true

/-- What `__post_init__` lets pass, and the order that it leaves. -/
theorem postInit_eq_ok {title : Text} {items ordered : List PlanItemDraft} (h : postInit title items = .ok ordered) :
    titleFits title ∧ items ≠ [] ∧ (known items).Nodup ∧ (items.filterMap (·.itemId)).Nodup ∧
      validatePlanDependencies items = .ok () ∧ stableOrder (·.localId) (·.dependencies) items = some ordered := by
  unfold postInit at h
  simp only [bind_eq_ok, raiseIf_eq_ok, not_not] at h
  obtain ⟨⟨⟩, htitle, ⟨⟩, hne, ⟨⟩, hlocal, ⟨⟩, hids, ⟨⟩, hdeps, h⟩ := h
  refine ⟨htitle, hne, hlocal, hids, hdeps, ?_⟩
  cases horder : stableOrder (·.localId) (·.dependencies) items with
  | none => rw [horder] at h; cases h
  | some out => rw [horder] at h; cases h; rfl

/-- `PlanDraft(title, items, environment_delta)`. -/
def PlanDraft.construct (title : Text) (items : List PlanItemDraft) (delta : EnvironmentDeltaDraft := .none) :
    Except PlanError PlanDraft :=
  match h : postInit title items with
  | .error e => .error e
  | .ok ordered =>
    have hinit := postInit_eq_ok h
    have hperm := (orderFrom_sound hinit.2.2.2.2.2).1
    .ok {
      title := title
      items := ordered
      environmentDelta := delta
      titled := hinit.1
      nonempty := fun hnil => hinit.2.1 (hnil ▸ hperm).nil_eq.symm
      localIds := (hperm.filterMap _).nodup_iff.mpr hinit.2.2.1
      itemIds := (hperm.filterMap _).nodup_iff.mpr hinit.2.2.2.1
      ordered := (orderFrom_sound hinit.2.2.2.2.2).2
    }

end Vuzol.Plans
