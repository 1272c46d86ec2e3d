import Vuzol.Plans.Body

/-! The hash of a draft and the hash of a stored body are those of the same text exactly when the draft and the stored
    plan have the same content. -/

namespace Vuzol.Plans
open Lib
open Discussion (RiskLevel EstimatedComplexity)

/-- The contract fields of an item and its `local_id`, without outer white space in its texts. -/
structure ItemContent where
  localId : Option Text
  summary : Text
  goal : Text
  expectedOutcome : Text
  completionCriteria : List Text
  allowedScope : Text
  outOfScope : List Text
  dependencies : List Text
  trustedChecks : List Text
  suggestedRisk : RiskLevel
  needsApproval : Bool
  estimatedComplexity : EstimatedComplexity
  deriving DecidableEq

def PlanItemFields.content (x : PlanItemFields) : ItemContent where
  localId := x.localId
  summary := strip x.summary
  goal := strip x.goal
  expectedOutcome := strip x.expectedOutcome
  completionCriteria := x.completionCriteria
  allowedScope := strip x.allowedScope
  outOfScope := x.outOfScope
  dependencies := x.dependencies
  trustedChecks := x.trustedChecks
  suggestedRisk := x.suggestedRisk
  needsApproval := x.needsApproval
  estimatedComplexity := x.estimatedComplexity

structure DeltaContent where
  components : List ComponentFields
  removed : List Text
  capabilities : List CapabilityFields
  deriving DecidableEq

def ComponentFields.content (c : ComponentFields) : ComponentFields :=
  { c with label := strip c.label, technology := strip c.technology }

def CapabilityFields.content (c : CapabilityFields) : CapabilityFields :=
  { c with label := strip c.label, reason := strip c.reason }

def EnvironmentDeltaDraft.content (d : EnvironmentDeltaDraft) : DeltaContent where
  components := d.upsertComponents.map (·.content)
  removed := d.removeComponents
  capabilities := d.requiredCapabilities.map (·.content)

structure SemanticContent where
  title : Text
  items : List ItemContent
  delta : DeltaContent
  deriving DecidableEq

def PlanDraft.semanticContent (p : PlanDraft) : SemanticContent where
  title := strip p.title
  items := p.items.map (·.content)
  delta := p.environmentDelta.content

structure Outline where
  title : Text
  summaries : List Text
  delta : DeltaContent
  deriving DecidableEq

def PlanDraft.outline (rt : Runtime) (p : PlanDraft) : Outline where
  title := normalizedOutlineText rt p.title
  summaries := p.items.map fun x => normalizedOutlineText rt x.summary
  delta := p.environmentDelta.content

theorem riskValue_injective : Function.Injective riskValue := by
  intro a b h
  cases a <;> cases b <;> first | rfl | exact absurd h (by decide)

theorem complexityValue_injective : Function.Injective complexityValue := by
  intro a b h
  cases a <;> cases b <;> first | rfl | exact absurd h (by decide)

theorem ComponentKind.value_injective : Function.Injective ComponentKind.value := by
  intro a b h
  cases a <;> cases b <;> first | rfl | exact absurd h (by decide)

theorem CapabilityProvisioning.value_injective : Function.Injective CapabilityProvisioning.value := by
  intro a b h
  cases a <;> cases b <;> first | rfl | exact absurd h (by decide)

theorem word_inj {v w : String} (h : (word v).sorted = (word w).sorted) : v = w :=
  String.toList_inj.mp (Json.str_sorted_injective h)

theorem texts_inj {s t : List Text} (h : (texts s).sorted = (texts t).sorted) : s = t :=
  Json.arr_sorted_injective Json.str_sorted_injective h

theorem orNull_inj {α : Type} {enc : α → Json} (henc : Function.Injective fun a => (enc a).sorted)
    (hnull : ∀ a, (enc a).sorted ≠ .null) {x y : Option α} (h : (orNull enc x).sorted = (orNull enc y).sorted) : x = y := by
  cases x with
  | none =>
    cases y with
    | none => rfl
    | some b => exact absurd h.symm (hnull b)
  | some a =>
    cases y with
    | none => exact absurd h (hnull a)
    | some b => rw [henc h]

theorem orNull_str_inj {x y : Option Text} (h : (orNull .str x).sorted = (orNull .str y).sorted) : x = y :=
  orNull_inj Json.str_sorted_injective (fun _ h => by cases h) h

theorem orNull_num_inj {x y : Option Int} (h : (orNull .num x).sorted = (orNull .num y).sorted) : x = y :=
  orNull_inj Json.num_sorted_injective (fun _ h => by cases h) h

theorem componentBody_content (c : ComponentFields) : componentBody c.content = componentBody c := by
  simp [componentBody, ComponentFields.content]

theorem componentBody_sorted_iff {c d : ComponentFields} :
    (componentBody c).sorted = (componentBody d).sorted ↔ c.content = d.content := by
  refine ⟨fun h => ?_, fun h => by rw [← componentBody_content c, h, componentBody_content]⟩
  unfold componentBody at h
  have hvalues := Json.values_of_sorted_eq (by rfl) (by simp) h
  simp only [List.map_cons, List.cons.injEq] at hvalues
  obtain ⟨hkey, hlabel, hkind, htech, hversion, hrun, hport, hhealth, hpatterns, -⟩ := hvalues
  simp [ComponentFields.content, Json.str_sorted_injective hkey, Json.str_sorted_injective hlabel,
    ComponentKind.value_injective (word_inj hkind), Json.str_sorted_injective htech, orNull_str_inj hversion,
    texts_inj hrun, orNull_num_inj hport, orNull_str_inj hhealth, texts_inj hpatterns]

theorem capabilityBody_content (c : CapabilityFields) : capabilityBody c.content = capabilityBody c := by
  simp [capabilityBody, CapabilityFields.content]

theorem capabilityBody_sorted_iff {c d : CapabilityFields} :
    (capabilityBody c).sorted = (capabilityBody d).sorted ↔ c.content = d.content := by
  refine ⟨fun h => ?_, fun h => by rw [← capabilityBody_content c, h, capabilityBody_content]⟩
  unfold capabilityBody at h
  have hvalues := Json.values_of_sorted_eq (by rfl) (by simp) h
  simp only [List.map_cons, List.cons.injEq] at hvalues
  obtain ⟨hkey, hlabel, hprovisioning, hreason, -⟩ := hvalues
  simp [CapabilityFields.content, Json.str_sorted_injective hkey, Json.str_sorted_injective hlabel,
    CapabilityProvisioning.value_injective (word_inj hprovisioning), Json.str_sorted_injective hreason]

theorem semanticItem_sorted_iff {x y : PlanItemFields} :
    (semanticItem x).sorted = (semanticItem y).sorted ↔ x.content = y.content := by
  constructor
  · intro h
    unfold semanticItem at h
    have hvalues := Json.values_of_sorted_eq (by rfl) (by simp) h
    simp only [List.map_cons, List.cons.injEq] at hvalues
    obtain ⟨hlocal, hsummary, hgoal, houtcome, hcriteria, hscope, hout, hdeps, hchecks, hrisk, happroval, hcomplexity, -⟩ :=
      hvalues
    simp [PlanItemFields.content, orNull_str_inj hlocal, Json.str_sorted_injective hsummary,
      Json.str_sorted_injective hgoal, Json.str_sorted_injective houtcome, texts_inj hcriteria,
      Json.str_sorted_injective hscope, texts_inj hout, texts_inj hdeps, texts_inj hchecks,
      riskValue_injective (word_inj hrisk), Json.bool.inj happroval, complexityValue_injective (word_inj hcomplexity)]
  · intro h
    obtain ⟨hlocal, hsummary, hgoal, houtcome, hcriteria, hscope, hout, hdeps, hchecks, hrisk, happroval, hcomplexity⟩ :=
      ItemContent.mk.inj h
    unfold semanticItem
    rw [hlocal, hsummary, hgoal, houtcome, hcriteria, hscope, hout, hdeps, hchecks, hrisk, happroval, hcomplexity]

theorem arr_sorted_iff {α β : Type} {enc : α → Json} {content : α → β}
    (h : ∀ {a b}, (enc a).sorted = (enc b).sorted ↔ content a = content b) {l m : List α} :
    (Json.arr (l.map enc)).sorted = (Json.arr (m.map enc)).sorted ↔ l.map content = m.map content := by
  simp only [Json.sorted, Json.sortedEntries_eq, List.map_map, Json.arr.injEq]
  induction l generalizing m with
  | nil => cases m <;> simp
  | cons a l ih =>
    cases m with
    | nil => simp
    | cons b m => simp [h, ih]

section Delta
variable {d e : EnvironmentDeltaDraft}

theorem canonicalEnvironmentDelta_sorted_iff :
    (canonicalEnvironmentDelta d).sorted = (canonicalEnvironmentDelta e).sorted ↔ d.content = e.content := by
  have hcomponents : ∀ {a b : EnvironmentComponentDraft}, (componentBody a.toComponentFields).sorted =
      (componentBody b.toComponentFields).sorted ↔ a.content = b.content := componentBody_sorted_iff
  have hcapabilities : ∀ {a b : CapabilityRequirementDraft}, (capabilityBody a.toCapabilityFields).sorted =
      (capabilityBody b.toCapabilityFields).sorted ↔ a.content = b.content := capabilityBody_sorted_iff
  constructor
  · intro h
    unfold canonicalEnvironmentDelta at h
    have hvalues := Json.values_of_sorted_eq (by rfl) (by simp) h
    simp only [List.map_cons, List.cons.injEq] at hvalues
    obtain ⟨hup, hremoved, hrequired, -⟩ := hvalues
    simp [EnvironmentDeltaDraft.content, (arr_sorted_iff hcomponents).mp hup, texts_inj hremoved,
      (arr_sorted_iff hcapabilities).mp hrequired]
  · intro h
    obtain ⟨hup, hremoved, hrequired⟩ := DeltaContent.mk.inj h
    simp only [canonicalEnvironmentDelta, Json.sorted, Json.sortedFields, hremoved]
    have hup' := Json.arr.inj ((arr_sorted_iff hcomponents).mpr hup)
    have hrequired' := Json.arr.inj ((arr_sorted_iff hcapabilities).mpr hrequired)
    rw [hup', hrequired']

theorem isEmpty_iff : d.isEmpty = true ↔ d.content = ⟨[], [], []⟩ := by
  simp [DeltaFields.isEmpty, EnvironmentDeltaDraft.content, and_assoc]

theorem planObject_sorted_iff {t u : Text} {x y : Json} :
    (Json.obj ([("title", .str t), ("items", x)] ++ deltaField d)).sorted =
        (Json.obj ([("title", .str u), ("items", y)] ++ deltaField e)).sorted ↔
      t = u ∧ x.sorted = y.sorted ∧ d.content = e.content := by
  constructor
  · intro h
    have htitle : (Json.str t).sorted = (Json.str u).sorted := by
      simpa [Json.get?, List.lookup_cons] using Json.get?_of_sorted_eq h "title"
    have hitems : x.sorted = y.sorted := by
      simpa [Json.get?, List.lookup_cons] using Json.get?_of_sorted_eq h "items"
    have hdelta := Json.get?_of_sorted_eq h "environment_delta"
    refine ⟨Json.str_sorted_injective htitle, hitems, ?_⟩
    by_cases hd : d.isEmpty = true
    · by_cases he : e.isEmpty = true
      · rw [isEmpty_iff.mp hd, isEmpty_iff.mp he]
      · simp [Json.get?, List.lookup_cons, deltaField, hd, he] at hdelta
    · by_cases he : e.isEmpty = true
      · simp [Json.get?, List.lookup_cons, deltaField, hd, he] at hdelta
      · exact canonicalEnvironmentDelta_sorted_iff.mp (by
          simpa [Json.get?, List.lookup_cons, deltaField, hd, he] using hdelta)
  · rintro ⟨rfl, hitems, hdelta⟩
    have hempty : d.isEmpty = true ↔ e.isEmpty = true := by rw [isEmpty_iff, isEmpty_iff, hdelta]
    by_cases hd : d.isEmpty = true
    · simp [Json.sorted, Json.sortedFields, deltaField, hd, hempty.mp hd, hitems]
    · have he : ¬e.isEmpty = true := fun h => hd (hempty.mpr h)
      simp [Json.sorted, Json.sortedFields, deltaField, hd, he, hitems, canonicalEnvironmentDelta_sorted_iff.mpr hdelta]

end Delta

section Plans
variable {p q : PlanDraft} {ids : List Uuid} {body : Json} {rt : Runtime}

theorem semanticBody_dumps_iff : (semanticBody p).dumps = (semanticBody q).dumps ↔ p.semanticContent = q.semanticContent := by
  have hitem : ∀ {x y : PlanItemDraft}, (semanticItem x.toPlanItemFields).sorted = (semanticItem y.toPlanItemFields).sorted ↔
      x.content = y.content := semanticItem_sorted_iff
  rw [Json.dumps_eq_iff, semanticBody, semanticBody, planObject_sorted_iff, arr_sorted_iff hitem]
  simp [PlanDraft.semanticContent]

theorem outlineBody_dumps_iff : (outlineBody rt p).dumps = (outlineBody rt q).dumps ↔ p.outline rt = q.outline rt := by
  rw [Json.dumps_eq_iff, outlineBody, outlineBody, planObject_sorted_iff]
  have htexts : ∀ {s t : List Text}, (texts s).sorted = (texts t).sorted ↔ s = t := ⟨texts_inj, fun h => by rw [h]⟩
  rw [htexts]
  simp [PlanDraft.outline]

theorem canonicalPlanBody_eq_ok (hids : ids.length = q.items.length) : canonicalPlanBody q ids = .ok (.obj
    ([("title", .str (strip q.title)), ("items", .arr (itemBodies q.items ids))] ++ deltaField q.environmentDelta)) := by
  rw [canonicalPlanBody, if_neg (not_not.mpr hids.symm)]

theorem dicts_map {α : Type} (f : α → List (String × Json)) (l : List α) : dicts (l.map fun a => .obj (f a)) = l.map f := by
  rw [dicts, List.filterMap_map]
  exact List.filterMap_eq_map ▸ rfl

theorem map_dicts_itemBodies {β : Type} (f : List (String × Json) → β) (g : PlanItemDraft → β)
    (h : ∀ x id o, f (itemFields x.toPlanItemFields id o) = g x) {items : List PlanItemDraft}
    (hids : ids.length = items.length) : (dicts (itemBodies items ids)).map f = items.map g := by
  have hitems : ((items.zip ids).zipIdx 1).map (Prod.fst ∘ Prod.fst) = items := by
    rw [← List.map_map, List.zipIdx_map_fst, List.map_fst_zip hids.ge]
  have hdicts := dicts_map (fun entry : (PlanItemDraft × Uuid) × Nat =>
    itemFields entry.1.1.toPlanItemFields entry.1.2 entry.2) ((items.zip ids).zipIdx 1)
  rw [itemBodies, hdicts, List.map_map]
  conv_rhs => rw [← hitems, List.map_map]
  exact List.map_congr_left fun entry _ => h entry.1.1 entry.1.2 entry.2

section Object
variable (t x : Json) (d : EnvironmentDeltaDraft)

theorem get?_title : (Json.obj ([("title", t), ("items", x)] ++ deltaField d)).get? "title" = some t := by
  simp [Json.get?]

theorem get?_items : (Json.obj ([("title", t), ("items", x)] ++ deltaField d)).get? "items" = some x := by
  simp [Json.get?, List.lookup_cons]

theorem storedDelta_canonical : storedDelta (.obj ([("title", t), ("items", x)] ++ deltaField d)) = deltaField d := by
  by_cases hd : d.isEmpty = true
  · simp [storedDelta, deltaField, hd, Json.get?, List.lookup_cons]
  · simp [storedDelta, deltaField, hd, Json.get?, List.lookup_cons, canonicalEnvironmentDelta]

end Object

theorem semanticProjection_canonical (hids : ids.length = q.items.length) (hbody : canonicalPlanBody q ids = .ok body) :
    semanticProjection rt body = .ok (semanticBody q) := by
  rw [canonicalPlanBody_eq_ok hids] at hbody
  cases hbody
  have hitems := map_dicts_itemBodies (fun fields => .obj (fields.filter (·.1 ∉ provenanceKeys)))
    (semanticItem ·.toPlanItemFields) (fun x id o => by simp [itemFields, semanticItem, provenanceKeys]) hids
  rw [semanticProjection, get?_items, storedDelta_canonical, textUnder, get?_title]
  show Except.ok (Json.obj ([("title", .str (strip (strip q.title))), ("items", .arr _)] ++ _)) = _
  rw [strip_strip, hitems, semanticBody]

theorem splitWords_cons (current : Text) (c : Char) (t : Text) : splitWords current (c :: t) =
    if isSpace c then if current = [] then splitWords [] t else current.reverse :: splitWords [] t
    else splitWords (c :: current) t := rfl

theorem splitWords_nil {current : Text} (h : current ≠ []) : splitWords current [] = [current.reverse] := if_neg h

theorem splitWords_leading {pre : Text} (hpre : ∀ c ∈ pre, isSpace c = true) (t : Text) :
    splitWords [] (pre ++ t) = splitWords [] t := by
  induction pre with
  | nil => rfl
  | cons c pre ih =>
    rw [List.cons_append, splitWords_cons, if_pos (hpre c List.mem_cons_self), if_pos rfl]
    exact ih fun d hd => hpre d (List.mem_cons_of_mem _ hd)

theorem splitWords_trailing {post : Text} (hpost : ∀ c ∈ post, isSpace c = true) (current t : Text) :
    splitWords current (t ++ post) = splitWords current t := by
  induction t generalizing current with
  | nil =>
    have hspaces : splitWords [] post = [] := by
      have h := splitWords_leading hpost []
      rwa [List.append_nil] at h
    cases post with
    | nil => rfl
    | cons c post =>
      have hc := hpost c List.mem_cons_self
      rw [splitWords_cons, if_pos hc, if_pos rfl] at hspaces
      rw [List.nil_append, splitWords_cons, if_pos hc]
      by_cases hcurrent : current = []
      · rw [if_pos hcurrent, hspaces, hcurrent]
        rfl
      · rw [if_neg hcurrent, hspaces, splitWords_nil hcurrent]
  | cons c t ih =>
    rw [List.cons_append, splitWords_cons, splitWords_cons, ih, ih]

theorem normalizedOutlineText_strip (t : Text) : normalizedOutlineText rt (strip t) = normalizedOutlineText rt t := by
  have hspaces : ∀ s : Text, (∀ c ∈ s, isSpace c = true) → s.flatMap rt.casefold = s := by
    intro s hs
    induction s with
    | nil => rfl
    | cons c s ih =>
      rw [List.flatMap_cons, rt.casefold_space c (hs c List.mem_cons_self), ih fun d hd => hs d (List.mem_cons_of_mem _ hd)]
      rfl
  obtain ⟨pre, post, hsplit, hpre, hpost⟩ := exists_strip t
  have hwords : splitWords [] (t.flatMap rt.casefold) = splitWords [] ((strip t).flatMap rt.casefold) := by
    conv_lhs => rw [hsplit]
    rw [List.flatMap_append, List.flatMap_append, hspaces pre hpre, hspaces post hpost, splitWords_leading hpre,
      splitWords_trailing hpost]
  rw [normalizedOutlineText, normalizedOutlineText, hwords]

theorem outlineProjection_canonical (hids : ids.length = q.items.length) (hbody : canonicalPlanBody q ids = .ok body) :
    outlineProjection rt body = .ok (outlineBody rt q) := by
  rw [canonicalPlanBody_eq_ok hids] at hbody
  cases hbody
  have hitem : ∀ (x : PlanItemDraft) id o, normalizedOutlineText rt (textUnder rt (.obj (itemFields x.toPlanItemFields id o))
      "summary") = normalizedOutlineText rt x.summary := by
    intro x id o
    have hsummary : textUnder rt (.obj (itemFields x.toPlanItemFields id o)) "summary" = strip x.summary := by
      simp [textUnder, itemFields, Json.get?, List.lookup_cons, pyStr]
    rw [hsummary, normalizedOutlineText_strip]
  have hitems := map_dicts_itemBodies (fun fields => normalizedOutlineText rt (textUnder rt (.obj fields) "summary"))
    (fun x => normalizedOutlineText rt x.summary) hitem hids
  rw [outlineProjection, get?_items, storedDelta_canonical, textUnder, get?_title]
  show Except.ok (Json.obj ([("title", .str (normalizedOutlineText rt (strip q.title))), ("items", texts _)] ++ _)) = _
  rw [normalizedOutlineText_strip, hitems, outlineBody]

/-- The hash of a draft is that of a stored plan when their contents agree, whatever identities, ordinals and source
    references are stored; and the same for the outlines. -/
theorem hashes_agree {δ : Type} {digest : Text → δ} (hdigest : Function.Injective digest) (rt : Runtime) (p q : PlanDraft)
    (ids : List Uuid) (hids : ids.length = q.items.length) :
    ∃ body, canonicalPlanBody q ids = .ok body ∧
      (semanticRevisionHash digest rt body = .ok (semanticPlanHash digest p) ↔ p.semanticContent = q.semanticContent) ∧
      (revisionOutlineHash digest rt body = .ok (planOutlineHash digest rt p) ↔ p.outline rt = q.outline rt) := by
  obtain ⟨body, hbody⟩ : ∃ body, canonicalPlanBody q ids = .ok body := ⟨_, canonicalPlanBody_eq_ok hids⟩
  refine ⟨body, hbody, ?_, ?_⟩
  · rw [semanticRevisionHash, semanticProjection_canonical hids hbody, ← semanticBody_dumps_iff, eq_comm]
    exact ⟨fun h => hdigest (Except.ok.inj h), fun h => congrArg _ (congrArg digest h)⟩
  · rw [revisionOutlineHash, outlineProjection_canonical hids hbody, ← outlineBody_dumps_iff, eq_comm]
    exact ⟨fun h => hdigest (Except.ok.inj h), fun h => congrArg _ (congrArg digest h)⟩

end Plans

/-- The tables as far as ASCII goes. -/
def asciiRuntime : Runtime where
  decimal _ := none
  casefold c := if 65 ≤ c.toNat ∧ c.toNat ≤ 90 then [Char.ofNat (c.toNat + 32)] else [c]
  casefold_space c hc := by
    refine if_neg fun hupper => ?_
    simp only [isSpace, Bool.or_eq_true, Bool.and_eq_true, decide_eq_true_eq] at hc
    omega
  repr _ := []

def summarized (summary criterion : Text) : PlanItemFields where
  summary := summary
  goal := ['g']
  expectedOutcome := ['o']
  completionCriteria := [criterion]
  allowedScope := ['a']
  localId := some ['b']

theorem titleFits_sample : titleFits ['p'] := by decide +kernel

def samplePlan (summary criterion : Text) (h : (summarized summary criterion).check = .ok ())
    (delta : EnvironmentDeltaDraft) : PlanDraft where
  title := ['p']
  items := [⟨summarized summary criterion, h⟩]
  environmentDelta := delta
  titled := titleFits_sample
  nonempty := List.cons_ne_nil _ _
  localIds := List.nodup_singleton ['b']
  itemIds := List.nodup_nil
  ordered := rfl

def sampleComponent (label : Text) : ComponentFields where
  key := ['l']
  label := label
  kind := .library
  technology := ['t']

def sampleDelta (label : Text) (h : (sampleComponent label).check = .ok ()) : EnvironmentDeltaDraft :=
  ⟨{ upsertComponents := [⟨sampleComponent label, h⟩] }, rfl⟩

/-- White space at the end of a summary is in neither hash. -/
theorem hashes_agree_padded : ∃ body,
    canonicalPlanBody (samplePlan ['s', ' '] ['c'] (by decide +kernel) .none) [⟨7, by decide⟩] = .ok body ∧
    semanticRevisionHash id asciiRuntime body = .ok (semanticPlanHash id (samplePlan ['s'] ['c'] (by decide +kernel) .none)) ∧
    revisionOutlineHash id asciiRuntime body =
      .ok (planOutlineHash id asciiRuntime (samplePlan ['s'] ['c'] (by decide +kernel) .none)) := by
  obtain ⟨body, hbody, hsemantic, houtline⟩ := hashes_agree Function.injective_id asciiRuntime
    (samplePlan ['s'] ['c'] (by decide +kernel) .none) (samplePlan ['s', ' '] ['c'] (by decide +kernel) .none)
    [⟨7, by decide⟩] rfl
  exact ⟨body, hbody, hsemantic.mpr (by decide +kernel), houtline.mpr (by decide +kernel)⟩

/-- The content with every text stripped, those in lists too, and with the delta as it was given. -/
def PlanDraft.strippedThroughout (p : PlanDraft) : Text × List ItemContent × EnvironmentDeltaDraft :=
  (strip p.title, p.items.map fun x => { x.content with
    completionCriteria := x.completionCriteria.map strip
    outOfScope := x.outOfScope.map strip
    dependencies := x.dependencies.map strip
    trustedChecks := x.trustedChecks.map strip }, p.environmentDelta)

/-- White space around a criterion changes the hash, white space around a label does not. -/
theorem hashes_differ_from_stripped : ∃ p q p' q' ids body body',
    canonicalPlanBody q ids = .ok body ∧ p.strippedThroughout = q.strippedThroughout ∧
      semanticRevisionHash id asciiRuntime body ≠ .ok (semanticPlanHash id p) ∧
    canonicalPlanBody q' ids = .ok body' ∧ p'.strippedThroughout ≠ q'.strippedThroughout ∧
      semanticRevisionHash id asciiRuntime body' = .ok (semanticPlanHash id p') := by
  let p := samplePlan ['s'] ['c'] (by decide +kernel) .none
  let q := samplePlan ['s'] [' ', 'c'] (by decide +kernel) .none
  let p' := samplePlan ['s'] ['c'] (by decide +kernel) (sampleDelta ['w'] (by decide +kernel))
  let q' := samplePlan ['s'] ['c'] (by decide +kernel) (sampleDelta [' ', 'w'] (by decide +kernel))
  have hq : canonicalPlanBody q [⟨7, by decide⟩] = .ok _ := canonicalPlanBody_eq_ok rfl
  have hq' : canonicalPlanBody q' [⟨7, by decide⟩] = .ok _ := canonicalPlanBody_eq_ok rfl
  refine ⟨p, q, p', q', [⟨7, by decide⟩], _, _, hq, by decide +kernel, ?_, hq', by decide +kernel, ?_⟩
  · rw [semanticRevisionHash, semanticProjection_canonical rfl hq]
    intro h
    have hcontent := semanticBody_dumps_iff.mp (Except.ok.inj h)
    exact absurd hcontent (by decide +kernel)
  · rw [semanticRevisionHash, semanticProjection_canonical rfl hq']
    exact congrArg _ (semanticBody_dumps_iff.mpr (by decide +kernel))

end Vuzol.Plans
