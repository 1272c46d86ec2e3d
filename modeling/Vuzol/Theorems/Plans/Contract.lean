import Vuzol.Plans.Contract
import Vuzol.Theorems.Plans.Hashes

/-! The hash of an item's contract is the same for its draft and for its row, and it stands for the contract fields without
    the white space around their texts. -/

namespace Vuzol.Plans
open Lib

variable {δ : Type} {rt : Runtime} {digest : Text → δ} {c d : ContractFields} {entries : List (String × Value)}

/-- The contract without the white space around its texts, those in lists too. -/
def ContractFields.stripped (c : ContractFields) : ContractFields := { c with
  summary := strip c.summary
  goal := strip c.goal
  expectedOutcome := strip c.expectedOutcome
  completionCriteria := c.completionCriteria.map strip
  allowedScope := strip c.allowedScope
  outOfScope := c.outOfScope.map strip
  dependencies := c.dependencies.map strip
  trustedChecks := c.trustedChecks.map strip }

def contractBody (c : ContractFields) : Json :=
  .obj [
    ("summary", .str c.summary),
    ("goal", .str c.goal),
    ("expected_outcome", .str c.expectedOutcome),
    ("completion_criteria", texts c.completionCriteria),
    ("allowed_scope", .str c.allowedScope),
    ("out_of_scope", texts c.outOfScope),
    ("dependencies", texts c.dependencies),
    ("trusted_checks", texts c.trustedChecks),
    ("suggested_risk", word (riskValue c.suggestedRisk)),
    ("needs_approval", .bool c.needsApproval),
    ("estimated_complexity", word (complexityValue c.estimatedComplexity))]

theorem contractBody_dumps_iff : (contractBody c).dumps = (contractBody d).dumps ↔ c = d := by
  refine ⟨fun h => ?_, fun h => by rw [h]⟩
  rw [Json.dumps_eq_iff, contractBody, contractBody] at h
  have hvalues := Json.values_of_sorted_eq (by rfl) (by simp) h
  simp only [List.map_cons, List.cons.injEq] at hvalues
  obtain ⟨hsummary, hgoal, houtcome, hcriteria, hscope, hout, hdeps, hchecks, hrisk, happroval, hcomplexity, -⟩ := hvalues
  exact ContractFields.mk.injEq .. |>.mpr ⟨Json.str_sorted_injective hsummary, Json.str_sorted_injective hgoal,
    Json.str_sorted_injective houtcome, texts_inj hcriteria, Json.str_sorted_injective hscope, texts_inj hout,
    texts_inj hdeps, texts_inj hchecks, riskValue_injective (word_inj hrisk), Json.bool.inj happroval,
    complexityValue_injective (word_inj hcomplexity)⟩

theorem stripEntry_comp_str : stripEntry ∘ Json.str = Json.str ∘ strip := rfl

theorem contractScalar_str (t : Text) : contractScalar rt (.json (.str t)) = .str (strip t) := rfl

theorem contractScalar_enum (value : String) : contractScalar rt (.enum value) = word value := rfl

theorem contractScalar_bool (b : Bool) : contractScalar rt (.json (.bool b)) = .bool b := rfl

theorem itemContractHashOf_object {sequence : List Json → Value}
    (hsequence : ∀ entries, contractScalar rt (sequence entries) = .arr (entries.map stripEntry)) :
    itemContractHashOf rt digest (.object (c.attributes sequence)) = canonicalPlanHash digest (contractBody c.stripped) := by
  simp [itemContractHashOf, itemContractHash, itemContractDict, itemContractFields, fieldOf, ContractFields.attributes,
    List.lookup_cons, Value.dumped, contractBody, ContractFields.stripped, texts, contractScalar_str, contractScalar_enum,
    contractScalar_bool, hsequence, stripEntry_comp_str]

theorem PlanItemFields.hash_object (x : PlanItemFields) :
    itemContractHashOf rt digest x.object = canonicalPlanHash digest (contractBody x.contractFields.stripped) :=
  itemContractHashOf_object fun _ => rfl

theorem PlanRevisionItem.hash_object (r : PlanRevisionItem δ) :
    itemContractHashOf rt digest r.object = canonicalPlanHash digest (contractBody r.toContractFields.stripped) :=
  itemContractHashOf_object fun _ => rfl

theorem revisionItem_stripped (x : PlanItemFields) (id : Uuid) (ordinal : Nat) :
    (revisionItem rt digest x id ordinal).toContractFields.stripped = x.contractFields.stripped := by
  simp [revisionItem, ContractFields.stripped, PlanItemFields.contractFields]

theorem canonicalPlanHash_iff (hdigest : Function.Injective digest) :
    canonicalPlanHash digest (contractBody c) = canonicalPlanHash digest (contractBody d) ↔ c = d :=
  hdigest.eq_iff.trans contractBody_dumps_iff

def Holds (entries : List (String × Value)) (c : ContractFields) : Prop :=
  ∀ field ∈ itemContractFields, (fieldOf entries field).dumped = (fieldOf (c.attributes .tuple) field).dumped

theorem itemContractHashOf_mapping (h : Holds entries c) :
    itemContractHashOf rt digest (.mapping entries) = canonicalPlanHash digest (contractBody c) := by
  have hmap : itemContractFields.map (fun field => (field, (fieldOf entries field).dumped)) =
      itemContractFields.map fun field => (field, (fieldOf (c.attributes .tuple) field).dumped) :=
    List.map_congr_left fun field hf => by rw [h field hf]
  rw [itemContractHashOf, itemContractHash, hmap]
  simp [itemContractFields, fieldOf, ContractFields.attributes, List.lookup_cons, Value.dumped, contractBody, texts]

def bodyItem (x : PlanItemFields) (id : Uuid) (ordinal : Nat) : List (String × Value) :=
  (itemFields x id ordinal).map fun entry => (entry.1, .json entry.2)

theorem bodyItem_holds (rt : Runtime) (digest : Text → δ) (x : PlanItemFields) (id : Uuid) (ordinal : Nat) :
    Holds (bodyItem x id ordinal) (revisionItem rt digest x id ordinal).toContractFields := by
  simp [Holds, itemContractFields, fieldOf, bodyItem, itemFields, ContractFields.attributes, List.lookup_cons, Value.dumped,
    revisionItem, texts]

inductive Form (δ : Type) where
  | draft (x : PlanItemDraft)
  | row (r : PlanRevisionItem δ)

def Form.item : Form δ → Item
  | .draft x => x.object
  | .row r => r.object

def Form.contract : Form δ → ContractFields
  | .draft x => x.contractFields.stripped
  | .row r => r.toContractFields.stripped

theorem Form.hash_item (a : Form δ) : itemContractHashOf rt digest a.item = canonicalPlanHash digest (contractBody a.contract) := by
  cases a with
  | draft x => exact x.hash_object
  | row r => exact r.hash_object

theorem samePlanItem_eq [DecidableEq δ] (hdigest : Function.Injective digest) (r s : PlanRevisionItem δ) :
    samePlanItem rt digest r s = decide (r.toContractFields.stripped = s.toContractFields.stripped) := by
  simp only [samePlanItem, PlanRevisionItem.hash_object, canonicalPlanHash_iff hdigest]

/-- One hash for the draft, for the row and for a mapping without white space around its texts; it is the same for two drafts
    or rows exactly when their contracts are, so that the carry-forward passes the items with an unchanged contract. -/
theorem item_contract_hash_exact [DecidableEq δ] (hdigest : Function.Injective digest) (rt : Runtime) :
    (∀ (x : PlanItemDraft) (id : Uuid) (ordinal : Nat),
      itemContractHashOf rt digest (revisionItem rt digest x.toPlanItemFields id ordinal).object =
          itemContractHashOf rt digest x.object ∧
        (revisionItem rt digest x.toPlanItemFields id ordinal).itemContractVersion = itemContractHashOf rt digest x.object) ∧
    (∀ (a : Form δ) (entries : List (String × Value)), Holds entries a.contract →
      itemContractHashOf rt digest (.mapping entries) = itemContractHashOf rt digest a.item) ∧
    (∀ a b : Form δ, itemContractHashOf rt digest a.item = itemContractHashOf rt digest b.item ↔ a.contract = b.contract) ∧
    (∀ (completedPredecessors : PlanRevisionItem δ → List (PlanRevisionItem δ)) (items : List (PlanRevisionItem δ)),
      firstUnfinishedOrdinal rt digest completedPredecessors items =
        match items.find? fun item => !(completedPredecessors item).any fun previous =>
          item.toContractFields.stripped = previous.toContractFields.stripped with
        | some item => item.ordinal
        | none => items.length + 1) := by
  refine ⟨fun x id ordinal => ⟨?_, rfl⟩, fun a entries h => ?_, fun a b => ?_, fun predecessors items => ?_⟩
  · rw [PlanRevisionItem.hash_object, PlanItemFields.hash_object, revisionItem_stripped]
  · rw [itemContractHashOf_mapping h, a.hash_item]
  · rw [a.hash_item, b.hash_item, canonicalPlanHash_iff hdigest]
  · have hsame : ∀ item : PlanRevisionItem δ, samePlanItem rt digest item = fun previous =>
        decide (item.toContractFields.stripped = previous.toContractFields.stripped) :=
      fun item => funext (samePlanItem_eq hdigest item)
    show (match items.find? fun item => !(predecessors item).any (samePlanItem rt digest item) with
      | some item => item.ordinal
      | none => items.length + 1) = _
    simp only [hsame]

def sampleItem (summary : Text) (h : (summarized summary ['c']).check = .ok ()) : PlanItemDraft := ⟨summarized summary ['c'], h⟩

/-- A draft with white space around its summary, its row and its item of the stored body have one hash. -/
theorem item_contract_hash_exact_padded : ∃ x : PlanItemDraft, x.summary = [' ', 's'] ∧
    itemContractHashOf asciiRuntime id (revisionItem asciiRuntime id x.toPlanItemFields ⟨7, by decide⟩ 1).object =
      itemContractHashOf asciiRuntime id x.object ∧
    itemContractHashOf asciiRuntime id (.mapping (bodyItem x.toPlanItemFields ⟨7, by decide⟩ 1)) =
      itemContractHashOf asciiRuntime id x.object := by
  let x := sampleItem [' ', 's'] (by decide +kernel)
  obtain ⟨hrow, hmapping, -⟩ := item_contract_hash_exact Function.injective_id asciiRuntime
  have hholds : Holds (bodyItem x.toPlanItemFields ⟨7, by decide⟩ 1) (Form.draft (δ := Text) x).contract :=
    bodyItem_holds asciiRuntime id x.toPlanItemFields ⟨7, by decide⟩ 1
  exact ⟨x, rfl, (hrow x ⟨7, by decide⟩ 1).1, hmapping (.draft x) _ hholds⟩

/-- White space around a summary is not in the hash. -/
theorem padded_summary_hashed_alike : ∃ x y : PlanItemDraft, x.contractFields ≠ y.contractFields ∧
    itemContractHashOf asciiRuntime id x.object = itemContractHashOf asciiRuntime id y.object :=
  ⟨sampleItem ['s'] (by decide +kernel), sampleItem [' ', 's'] (by decide +kernel), by decide +kernel, by
    rw [PlanItemFields.hash_object, PlanItemFields.hash_object, (canonicalPlanHash_iff Function.injective_id).mpr]
    decide +kernel⟩

end Vuzol.Plans
