import Vuzol.Plans.Reader
import Vuzol.Theorems.Plans.Hashes
import Vuzol.Theorems.Plans.Ordering

/-! A stored plan body that is read back and stored again under the same identities is the same body. -/

namespace Vuzol.Plans
open Lib Relation
open Discussion (RiskLevel EstimatedComplexity)

theorem PlanItemFields.construct_of_check {x : PlanItemFields} (h : x.check = .ok ()) : x.construct = .ok ⟨x, h⟩ := by
  unfold construct
  split
  · rfl
  · rename_i e h'
    cases h.symm.trans h'

theorem ComponentFields.construct_of_check {c : ComponentFields} (h : c.check = .ok ()) : c.construct = .ok ⟨c, h⟩ := by
  unfold construct
  split
  · rfl
  · rename_i e h'
    cases h.symm.trans h'

theorem CapabilityFields.construct_of_check {c : CapabilityFields} (h : c.check = .ok ()) : c.construct = .ok ⟨c, h⟩ := by
  unfold construct
  split
  · rfl
  · rename_i e h'
    cases h.symm.trans h'

theorem DeltaFields.construct_of_check {d : DeltaFields} (h : d.check = .ok ()) : d.construct = .ok ⟨d, h⟩ := by
  unfold construct
  split
  · rfl
  · rename_i e h'
    cases h.symm.trans h'

theorem strip_fits {t : Text} {n : Nat} (h : ¬(strip t = [] ∨ n < t.length)) : ¬(strip (strip t) = [] ∨ n < (strip t).length) := by
  rw [strip_strip]
  rintro (hnil | hlen)
  · exact h (Or.inl hnil)
  · exact h (Or.inr (Nat.lt_of_lt_of_le hlen (length_strip_le t)))

def PlanItemFields.stored (x : PlanItemFields) (id : Uuid) : PlanItemFields :=
  { x with
    summary := strip x.summary
    goal := strip x.goal
    expectedOutcome := strip x.expectedOutcome
    allowedScope := strip x.allowedScope
    itemId := some id }

theorem PlanItemFields.check_stored {x : PlanItemFields} (h : x.check = .ok ()) (id : Uuid) : (x.stored id).check = .ok () := by
  simp only [check, bind_eq_ok, raiseIf_eq_ok] at h ⊢
  obtain ⟨u, hsummary, v, hgoal, w, houtcome, a, hscope, b, hcriteria, hlocal⟩ := h
  exact ⟨u, strip_fits hsummary, v, by rwa [stored, strip_strip], w, by rwa [stored, strip_strip], a,
    by rwa [stored, strip_strip], b, hcriteria, hlocal⟩

def PlanItemDraft.stored (x : PlanItemDraft) (id : Uuid) : PlanItemDraft :=
  ⟨x.toPlanItemFields.stored id, PlanItemFields.check_stored x.valid id⟩

theorem ComponentFields.check_content {c : ComponentFields} (h : c.check = .ok ()) : c.content.check = .ok () := by
  simp only [check, bind_eq_ok, raiseIf_eq_ok] at h ⊢
  obtain ⟨u, hkey, v, hlabel, w, htech, hrest⟩ := h
  exact ⟨u, hkey, v, strip_fits hlabel, w, strip_fits htech, hrest⟩

def EnvironmentComponentDraft.stored (c : EnvironmentComponentDraft) : EnvironmentComponentDraft :=
  ⟨c.content, ComponentFields.check_content c.valid⟩

theorem CapabilityFields.check_content {c : CapabilityFields} (h : c.check = .ok ()) : c.content.check = .ok () := by
  simp only [check, bind_eq_ok, raiseIf_eq_ok] at h ⊢
  obtain ⟨u, hkey, v, hlabel, hreason⟩ := h
  exact ⟨u, hkey, v, strip_fits hlabel, fun hlen => hreason (Nat.lt_of_lt_of_le hlen (length_strip_le _))⟩

def CapabilityRequirementDraft.stored (c : CapabilityRequirementDraft) : CapabilityRequirementDraft :=
  ⟨c.content, CapabilityFields.check_content c.valid⟩

def DeltaFields.stored (d : DeltaFields) : DeltaFields :=
  { d with
    upsertComponents := d.upsertComponents.map (·.stored)
    requiredCapabilities := d.requiredCapabilities.map (·.stored) }

theorem DeltaFields.check_stored {d : DeltaFields} (h : d.check = .ok ()) : d.stored.check = .ok () := by
  have hkeys : (d.upsertComponents.map (·.stored)).map (·.key) = d.upsertComponents.map (·.key) := List.map_map
  have hcapabilities : (d.requiredCapabilities.map (·.stored)).map (·.key) = d.requiredCapabilities.map (·.key) := List.map_map
  unfold check stored at *
  rwa [hkeys, hcapabilities]

def EnvironmentDeltaDraft.stored (d : EnvironmentDeltaDraft) : EnvironmentDeltaDraft :=
  ⟨d.toDeltaFields.stored, DeltaFields.check_stored d.valid⟩

theorem ofValue_value {α : Type} {members : List α} {value : α → String} (hvalue : Function.Injective value) {a : α}
    (ha : a ∈ members) : ofValue members value (value a).toList = some a := by
  unfold ofValue
  cases hfind : members.find? fun b => (value b).toList = (value a).toList with
  | none => exact absurd (decide_eq_true rfl) (List.find?_eq_none.mp hfind a ha)
  | some b =>
    have hb : (value b).toList = (value a).toList := by simpa using List.find?_some hfind
    rw [hvalue (String.toList_inj.mp hb)]

theorem memberUnder_value {α : Type} {members : List α} {value : α → String} {e : DomainError}
    (hvalue : Function.Injective value) {a : α} (ha : a ∈ members) : memberUnder e members value (value a).toList = .ok a := by
  rw [memberUnder, ofValue_value hvalue ha]

section Values
variable {rt : Runtime} {e : DomainError} {raw : Json} {key : String}

theorem requiredText_str {t : Text} (h : raw.get? key = some (.str t)) : requiredText rt e raw key = .ok t := by
  rw [requiredText, required, h]
  rfl

theorem truthy_str {t : Text} (h : t ≠ []) : (Json.str t).truthy = true := by simp [Json.truthy, h]

theorem map_pyStr_texts (ts : List Text) : (ts.map Json.str).map (pyStr rt) = ts := by
  rw [List.map_map]
  exact List.map_id ts

theorem textsOf_texts (ts : List Text) : textsOf rt e (texts ts) = .ok ts := congrArg _ (map_pyStr_texts ts)

theorem textsUnder_texts {ts : List Text} (h : raw.get? key = some (texts ts)) : textsUnder rt e raw key = .ok ts := by
  rw [textsUnder, h]
  exact textsOf_texts ts

theorem optionalText_orNull {t : Option Text} (h : raw.get? key = some (orNull .str t)) : optionalText rt raw key = t := by
  rw [optionalText, h]
  cases t <;> rfl

end Values

section Read
variable (rt : Runtime)

theorem planItemOfBody_stored (x : PlanItemDraft) (id : Uuid) (o : Nat) :
    planItemOfBody rt (.obj (itemFields x.toPlanItemFields id o)) = .ok (x.stored id) := by
  have hlocal : localIdOf (.obj (itemFields x.toPlanItemFields id o)) = .ok x.localId := by
    have h : (Json.obj (itemFields x.toPlanItemFields id o)).get? "local_id" = some (orNull .str x.localId) := rfl
    rw [localIdOf, h]
    cases x.localId <;> rfl
  have hitem : itemIdOf rt (.obj (itemFields x.toPlanItemFields id o)) = .ok (some id) := by
    have h : (Json.obj (itemFields x.toPlanItemFields id o)).get? "item_id" = some (.str id.str) := rfl
    rw [itemIdOf, h]
    simp only [truthy_str id.str_ne_nil, if_true, pyStr, Uuid.uuidOfText_str]
  have hsummary : requiredText rt malformedPlan (.obj (itemFields x.toPlanItemFields id o)) "summary" =
      .ok (strip x.summary) := requiredText_str rfl
  have hgoal : requiredText rt malformedPlan (.obj (itemFields x.toPlanItemFields id o)) "goal" = .ok (strip x.goal) :=
    requiredText_str rfl
  have houtcome : requiredText rt malformedPlan (.obj (itemFields x.toPlanItemFields id o)) "expected_outcome" =
      .ok (strip x.expectedOutcome) := requiredText_str rfl
  have hcriteria : required malformedPlan (.obj (itemFields x.toPlanItemFields id o)) "completion_criteria" =
      .ok (texts x.completionCriteria) := rfl
  have hscope : requiredText rt malformedPlan (.obj (itemFields x.toPlanItemFields id o)) "allowed_scope" =
      .ok (strip x.allowedScope) := requiredText_str rfl
  have hout : textsUnder rt malformedPlan (.obj (itemFields x.toPlanItemFields id o)) "out_of_scope" = .ok x.outOfScope :=
    textsUnder_texts rfl
  have hdeps : textsUnder rt malformedPlan (.obj (itemFields x.toPlanItemFields id o)) "dependencies" =
      .ok x.dependencies := textsUnder_texts rfl
  have hchecks : textsUnder rt malformedPlan (.obj (itemFields x.toPlanItemFields id o)) "trusted_checks" =
      .ok x.trustedChecks := textsUnder_texts rfl
  have hrisk : memberUnder malformedPlan risks riskValue (pyStr rt (((Json.obj (itemFields x.toPlanItemFields id o)).get?
      "suggested_risk").getD (word "low"))) = .ok x.suggestedRisk :=
    memberUnder_value riskValue_injective (by cases x.suggestedRisk <;> decide)
  have hcomplexity : memberUnder malformedPlan complexities complexityValue (pyStr rt (((Json.obj (itemFields
      x.toPlanItemFields id o)).get? "estimated_complexity").getD (word "medium"))) = .ok x.estimatedComplexity :=
    memberUnder_value complexityValue_injective (by cases x.estimatedComplexity <;> decide)
  simp only [planItemOfBody, hlocal, hitem, hsummary, hgoal, houtcome, hcriteria, textsOf_texts, hscope, hout, hdeps, hchecks,
    hrisk, hcomplexity, ok_bind]
  exact PlanItemFields.construct_of_check (PlanItemFields.check_stored x.valid id)

def componentFields (c : ComponentFields) : List (String × Json) :=
  match componentBody c with
  | .obj fields => fields
  | _ => []

def capabilityFields (c : CapabilityFields) : List (String × Json) :=
  match capabilityBody c with
  | .obj fields => fields
  | _ => []

theorem componentOfBody_stored (c : EnvironmentComponentDraft) :
    componentOfBody rt (componentFields c.toComponentFields) = .ok c.stored := by
  have hkey : requiredText rt malformedEnvironment (componentBody c.toComponentFields) "key" = .ok c.key :=
    requiredText_str rfl
  have hlabel : requiredText rt malformedEnvironment (componentBody c.toComponentFields) "label" = .ok (strip c.label) :=
    requiredText_str rfl
  have hkind : requiredText rt malformedEnvironment (componentBody c.toComponentFields) "kind" = .ok c.kind.value.toList :=
    requiredText_str rfl
  have hmember : memberUnder malformedEnvironment kinds ComponentKind.value c.kind.value.toList = .ok c.kind :=
    memberUnder_value ComponentKind.value_injective (by cases c.kind <;> decide)
  have htech : requiredText rt malformedEnvironment (componentBody c.toComponentFields) "technology" =
      .ok (strip c.technology) := requiredText_str rfl
  have hrun : textsUnder rt malformedEnvironment (componentBody c.toComponentFields) "run_command" = .ok c.runCommand :=
    textsUnder_texts rfl
  have hport : portOf rt (componentBody c.toComponentFields) = .ok c.port := by
    have h : (componentBody c.toComponentFields).get? "port" = some (orNull .num c.port) := rfl
    rw [portOf, h]
    cases c.port <;> rfl
  have hpatterns : textsUnder rt malformedEnvironment (componentBody c.toComponentFields) "artifact_patterns" =
      .ok c.artifactPatterns := textsUnder_texts rfl
  have hversion : optionalText rt (componentBody c.toComponentFields) "version" = c.version := optionalText_orNull rfl
  have hhealth : optionalText rt (componentBody c.toComponentFields) "healthcheck_path" = c.healthcheckPath :=
    optionalText_orNull rfl
  have hraw : Json.obj (componentFields c.toComponentFields) = componentBody c.toComponentFields := rfl
  simp only [componentOfBody, hraw, hkey, hlabel, hkind, hmember, htech, hrun, hport, hpatterns, hversion, hhealth, ok_bind]
  exact ComponentFields.construct_of_check (ComponentFields.check_content c.valid)

theorem capabilityOfBody_stored (c : CapabilityRequirementDraft) :
    capabilityOfBody rt (capabilityFields c.toCapabilityFields) = .ok c.stored := by
  have hkey : requiredText rt malformedEnvironment (capabilityBody c.toCapabilityFields) "key" = .ok c.key :=
    requiredText_str rfl
  have hlabel : requiredText rt malformedEnvironment (capabilityBody c.toCapabilityFields) "label" = .ok (strip c.label) :=
    requiredText_str rfl
  have hprovisioning : requiredText rt malformedEnvironment (capabilityBody c.toCapabilityFields) "provisioning" =
      .ok c.provisioning.value.toList := requiredText_str rfl
  have hmember : memberUnder malformedEnvironment provisionings CapabilityProvisioning.value c.provisioning.value.toList =
      .ok c.provisioning := memberUnder_value CapabilityProvisioning.value_injective (by cases c.provisioning <;> decide)
  have hreason : textUnder rt (capabilityBody c.toCapabilityFields) "reason" = strip c.reason := rfl
  have hraw : Json.obj (capabilityFields c.toCapabilityFields) = capabilityBody c.toCapabilityFields := rfl
  simp only [capabilityOfBody, hraw, hkey, hlabel, hprovisioning, hmember, hreason, ok_bind]
  exact CapabilityFields.construct_of_check (CapabilityFields.check_content c.valid)

theorem mapM_of_forall {α β : Type} {read : α → Except DomainError β} {stored : α → β} {l : List α}
    (h : ∀ a ∈ l, read a = .ok (stored a)) : l.mapM read = .ok (l.map stored) := by
  induction l with
  | nil => rfl
  | cons a l ih =>
    rw [List.mapM_cons, h a List.mem_cons_self, ok_bind, ih fun b hb => h b (List.mem_cons_of_mem _ hb)]
    rfl

theorem environmentDelta_stored (t x : Json) (d : EnvironmentDeltaDraft) :
    environmentDeltaFromRevisionBody rt (.obj ([("title", t), ("items", x)] ++ deltaField d)) = .ok d.stored := by
  by_cases hd : d.isEmpty = true
  · have hget : (Json.obj ([("title", t), ("items", x)] ++ deltaField d)).get? "environment_delta" = none := by
      simp [Json.get?, List.lookup_cons, deltaField, hd]
    rw [environmentDeltaFromRevisionBody, hget]
    have hnone : EnvironmentDeltaDraft.none = d.stored := by
      obtain ⟨⟨up, removed, required⟩, hvalid⟩ := d
      simp only [DeltaFields.isEmpty, Bool.and_eq_true, List.isEmpty_iff] at hd
      obtain ⟨⟨rfl, rfl⟩, rfl⟩ := hd
      rfl
    rw [← hnone]
  · have hget : (Json.obj ([("title", t), ("items", x)] ++ deltaField d)).get? "environment_delta" =
        some (canonicalEnvironmentDelta d) := by
      simp [Json.get?, List.lookup_cons, deltaField, hd]
    have hup : listUnder (canonicalEnvironmentDelta d) "upsert_components" =
        .ok (d.upsertComponents.map fun c => .obj (componentFields c.toComponentFields)) := rfl
    have hremoved : listUnder (canonicalEnvironmentDelta d) "remove_components" = .ok (d.removeComponents.map .str) := rfl
    have hrequired : listUnder (canonicalEnvironmentDelta d) "required_capabilities" =
        .ok (d.requiredCapabilities.map fun c => .obj (capabilityFields c.toCapabilityFields)) := rfl
    have hcomponents : (d.upsertComponents.map fun c => componentFields c.toComponentFields).mapM (componentOfBody rt) =
        .ok (d.upsertComponents.map (·.stored)) := by
      rw [List.mapM_map]
      exact mapM_of_forall fun c _ => componentOfBody_stored rt c
    have hcapabilities : (d.requiredCapabilities.map fun c => capabilityFields c.toCapabilityFields).mapM
        (capabilityOfBody rt) = .ok (d.requiredCapabilities.map (·.stored)) := by
      rw [List.mapM_map]
      exact mapM_of_forall fun c _ => capabilityOfBody_stored rt c
    rw [environmentDeltaFromRevisionBody, hget]
    show (do
      let components ← listUnder (canonicalEnvironmentDelta d) "upsert_components"
      let removed ← listUnder (canonicalEnvironmentDelta d) "remove_components"
      let capabilities ← listUnder (canonicalEnvironmentDelta d) "required_capabilities"
      let upsertComponents ← (dicts components).mapM (componentOfBody rt)
      let requiredCapabilities ← (dicts capabilities).mapM (capabilityOfBody rt)
      DeltaFields.construct { upsertComponents, requiredCapabilities, removeComponents := removed.map (pyStr rt) }) = _
    rw [hup, hremoved, hrequired, ok_bind, ok_bind, ok_bind, dicts_map, dicts_map, hcomponents, hcapabilities, ok_bind, ok_bind,
      map_pyStr_texts]
    exact DeltaFields.construct_of_check (DeltaFields.check_stored d.valid)

def storedItems (items : List PlanItemDraft) (ids : List Uuid) : List PlanItemDraft :=
  (items.zip ids).map fun entry => entry.1.stored entry.2

theorem mapM_itemBodies (items : List PlanItemDraft) (ids : List Uuid) :
    (itemBodies items ids).mapM (planItemOfBody rt) = .ok (storedItems items ids) := by
  rw [itemBodies, List.mapM_map, mapM_of_forall fun entry _ => planItemOfBody_stored rt entry.1.1 entry.1.2 entry.2]
  have hentries : ((items.zip ids).zipIdx 1).map (fun entry => entry.1.1.stored entry.1.2) =
      (((items.zip ids).zipIdx 1).map Prod.fst).map fun entry => entry.1.stored entry.2 := by
    rw [List.map_map]
    rfl
  rw [hentries, List.zipIdx_map_fst, storedItems]

theorem planFromRevisionBody_canonical {plan : PlanDraft} {ids : List Uuid} {body : Json}
    (hids : ids.length = plan.items.length) (hbody : canonicalPlanBody plan ids = .ok body) :
    planFromRevisionBody rt body =
      PlanDraft.construct (strip plan.title) (storedItems plan.items ids) plan.environmentDelta.stored := by
  rw [canonicalPlanBody_eq_ok hids] at hbody
  cases hbody
  rw [planFromRevisionBody, get?_title, get?_items]
  simp only [mapM_itemBodies, environmentDelta_stored, Except.mapError, ok_bind]

end Read

section Again
variable {plan : PlanDraft} {items : List PlanItemDraft} {ids : List Uuid} {rt : Runtime}

section
variable (hids : ids.length = items.length)
include hids

theorem map_fst_storedItems : (items.zip ids).map Prod.fst = items :=
  List.map_fst_zip hids.ge

theorem known_storedItems : known (storedItems items ids) = known items := by
  conv_rhs => rw [← map_fst_storedItems hids]
  rw [known, known, storedItems, List.filterMap_map, List.filterMap_map]
  rfl

theorem itemIds_storedItems : (storedItems items ids).filterMap (·.itemId) = ids := by
  have hsnd : (items.zip ids).filterMap (fun entry => some entry.2) = (items.zip ids).map Prod.snd :=
    congrFun List.filterMap_eq_map' _
  rw [storedItems, List.filterMap_map]
  exact hsnd.trans (List.map_snd_zip hids.le)

theorem storedItems_inOrder (hin : InOrder items) : InOrder (storedItems items ids) := by
  rw [inOrder_iff] at hin ⊢
  rw [← map_fst_storedItems hids, precedes_map] at hin
  rw [storedItems, precedes_map]
  exact hin

end

theorem itemBodies_storedItems (items : List PlanItemDraft) (ids : List Uuid) :
    itemBodies (storedItems items ids) ids = itemBodies items ids := by
  unfold itemBodies storedItems
  generalize 1 = n
  induction items generalizing ids n with
  | nil => rfl
  | cons x items ih =>
    cases ids with
    | nil => rfl
    | cons id ids =>
      have hfields : itemFields (x.stored id).toPlanItemFields id n = itemFields x.toPlanItemFields id n := by
        simp [itemFields, PlanItemDraft.stored, PlanItemFields.stored]
      simp only [List.zip_cons_cons, List.map_cons, List.zipIdx_cons, hfields, ih]

theorem deltaField_stored (d : EnvironmentDeltaDraft) : deltaField d.stored = deltaField d := by
  have hempty : d.stored.isEmpty = d.isEmpty := by
    simp [DeltaFields.isEmpty, EnvironmentDeltaDraft.stored, DeltaFields.stored]
  have hcomponents : (d.upsertComponents.map (·.stored)).map (componentBody ·.toComponentFields) =
      d.upsertComponents.map (componentBody ·.toComponentFields) := by
    rw [List.map_map]
    exact List.map_congr_left fun c _ => componentBody_content c.toComponentFields
  have hcapabilities : (d.requiredCapabilities.map (·.stored)).map (capabilityBody ·.toCapabilityFields) =
      d.requiredCapabilities.map (capabilityBody ·.toCapabilityFields) := by
    rw [List.map_map]
    exact List.map_congr_left fun c _ => capabilityBody_content c.toCapabilityFields
  have hbody : canonicalEnvironmentDelta d.stored = canonicalEnvironmentDelta d := by
    unfold canonicalEnvironmentDelta
    rw [← hcomponents, ← hcapabilities]
    rfl
  rw [deltaField, deltaField, hempty, hbody]

theorem titleFits_strip {title : Text} (h : titleFits title) : titleFits (strip title) :=
  ⟨by rw [strip_strip]; exact h.1, (length_strip_le title).trans h.2⟩

theorem storedItems_ne_nil (hids : ids.length = plan.items.length) : storedItems plan.items ids ≠ [] := by
  intro h
  have hlen := congrArg List.length h
  rw [storedItems, List.length_map, List.length_zip, hids, Nat.min_self] at hlen
  exact plan.nonempty (List.length_eq_zero_iff.mp hlen)

def storeAgain (rt : Runtime) (plan : PlanDraft) (ids : List Uuid) : Except PlanError Json := do
  let body ← (canonicalPlanBody plan ids).mapError .domain
  let restored ← planFromRevisionBody rt body
  (canonicalPlanBody restored ids).mapError .domain

/-- The body is the same when the identities differ from each other; where their number does not fit, nothing is stored
    in the first place. -/
theorem storeAgain_eq_iff (rt : Runtime) (plan : PlanDraft) (ids : List Uuid) :
    storeAgain rt plan ids = (canonicalPlanBody plan ids).mapError .domain ↔ (ids.length = plan.items.length → ids.Nodup) := by
  unfold storeAgain
  by_cases hids : ids.length = plan.items.length
  case neg =>
    have herr : canonicalPlanBody plan ids = .error _ := if_pos (Ne.symm hids)
    rw [herr]
    exact ⟨fun _ h => absurd h hids, fun _ => rfl⟩
  have hbody := canonicalPlanBody_eq_ok hids
  rw [hbody]
  simp only [Except.mapError, ok_bind, planFromRevisionBody_canonical rt hids hbody]
  have hitems := itemIds_storedItems hids
  rcases postInit_cases (titleFits_strip plan.titled) (storedItems_ne_nil hids) with
    ⟨e, hpost, href⟩ | ⟨href, ordered, horder, hpost⟩
  · have hdup : ¬ids.Nodup := by
      intro hn
      exact not_refused_of_inOrder (known_storedItems hids ▸ plan.localIds) (hitems.symm ▸ hn)
        (storedItems_inOrder hids (inOrder_iff.mpr plan.ordered)) href
    rw [construct_of_error hpost, error_bind]
    exact ⟨fun h => (by cases h), fun h => absurd (h hids) hdup⟩
  · have hn : ids.Nodup := by
      by_contra hdup
      exact href (Or.inr (Or.inl (hitems.symm ▸ hdup)))
    rw [stableOrder_of_inOrder (storedItems_inOrder hids (inOrder_iff.mpr plan.ordered))] at horder
    cases horder
    obtain ⟨q, hq, htitle, hqitems, hdelta⟩ := construct_of_ok plan.environmentDelta.stored hpost
    have hqids : ids.length = q.items.length := by
      rw [hqitems, storedItems, List.length_map, List.length_zip, hids, Nat.min_self]
    rw [hq, ok_bind, canonicalPlanBody_eq_ok hqids, htitle, hqitems, hdelta, strip_strip, itemBodies_storedItems,
      deltaField_stored]
    exact ⟨fun _ _ => hn, fun _ => rfl⟩

end Again

def samplePair : PlanDraft where
  title := ['p']
  items := [sampleBuild, sampleTest]
  titled := titleFits_sample
  nonempty := List.cons_ne_nil _ _
  localIds := by decide +kernel
  itemIds := List.nodup_nil
  ordered := by decide +kernel

/-- A body with one identity for two items is written, and refused when it is read. -/
theorem storeAgain_shared_identity :
    (∃ body, canonicalPlanBody samplePair [⟨7, by decide⟩, ⟨7, by decide⟩] = .ok body) ∧
      storeAgain asciiRuntime samplePair [⟨7, by decide⟩, ⟨7, by decide⟩] =
        .error (.domain (invalidPlan "item_id values must be unique")) :=
  ⟨⟨_, canonicalPlanBody_eq_ok rfl⟩, by decide +kernel⟩

end Vuzol.Plans
