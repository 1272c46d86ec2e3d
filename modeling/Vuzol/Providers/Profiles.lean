import Mathlib.Algebra.Order.Field.Rat
import Mathlib.Data.Finset.Basic
import Vuzol.Lib.Dependencies
import Vuzol.Workflow.Types

/-! Provider profiles (config/models.py) and what the profile registry demands of their fallbacks
    (config/registries.py). -/

namespace Vuzol.Routing
open Lib
open Workflow (Capability)

inductive LaunchMode where
  | api | cli | tool
  deriving DecidableEq

inductive ProviderRole where
  | interpreter | planner | executor | reviewer | summarizer | transcriber | lead
  deriving DecidableEq

inductive BudgetMode where
  | cheap | balanced | strong

inductive CostClass where
  | cheap | balanced | strong

/-- The fields that routing reads. -/
structure ProviderProfileConfig where
  id : String
  provider : String
  launchMode : LaunchMode
  capabilities : Finset Capability
  concurrencyLimit : Nat
  contextLimit : Option Nat := none
  outputLimit : Option Nat := none
  costClass : CostClass
  roles : Finset ProviderRole := ∅
  routingPriority : Nat := 100
  supportedTaskTypes : Finset String
  fallbackProfileIds : List String := []
  sandboxRequired : Bool := true
  minimumUnknownUsageCost : ℚ := 1 / 100
  enabled : Bool := true

/-- `_unique_by_id`. -/
def uniqueById (entries : List ProviderProfileConfig) : Except String (List ProviderProfileConfig) :=
  entries.foldlM (fun result entry =>
    if result.any (·.id = entry.id) then .error ("duplicate profile ID: " ++ entry.id) else .ok (result ++ [entry])) []

def profile? (profiles : List ProviderProfileConfig) (id : String) : Option ProviderProfileConfig :=
  profiles.find? (·.id = id)

def validateFallback (profiles : List ProviderProfileConfig) (p : ProviderProfileConfig) (fallbackId : String) :
    Except String Unit :=
  match profile? profiles fallbackId with
  | none => .error ("profile " ++ p.id ++ " has unknown fallback: " ++ fallbackId)
  | some fallback =>
    if p.roles ∩ fallback.roles = ∅ then
      .error ("profile " ++ p.id ++ " fallback " ++ fallbackId ++ " has no overlapping role")
    else if p.supportedTaskTypes ∩ fallback.supportedTaskTypes = ∅ then
      .error ("profile " ++ p.id ++ " fallback " ++ fallbackId ++ " has no overlapping task type")
    else .ok ()

def fallbackIds (profiles : List ProviderProfileConfig) (id : String) : List String :=
  ((profile? profiles id).map (·.fallbackProfileIds)).getD []

/-- `_validate_fallbacks`. Its `visit` looks at `visiting` before `visited`: the two never share a profile. -/
def validateFallbacks (profiles : List ProviderProfileConfig) : Except String Unit := do
  profiles.forM fun p => p.fallbackProfileIds.forM (validateFallback profiles p)
  match search (fallbackIds profiles) (profiles.length + 1) (profiles.map (·.id)) with
  | .error (.cycle id) => .error ("fallback cycle includes profile: " ++ id)
  | .error .tooDeep => .error "maximum recursion depth exceeded"
  | .ok _ => .ok ()

/-- The profiles of `ProfileRegistry`, once their ids and fallbacks are validated. -/
def loadProfiles (entries : List ProviderProfileConfig) : Except String (List ProviderProfileConfig) := do
  let profiles ← uniqueById entries
  validateFallbacks profiles
  return profiles

end Vuzol.Routing
