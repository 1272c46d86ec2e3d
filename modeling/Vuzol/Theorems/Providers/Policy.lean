import Vuzol.Lib.Rows
import Vuzol.Providers.Policy
import Vuzol.Theorems.Providers.Profiles

/-! What the policy offers: exactly the eligible profiles, in an order that does not depend on the configuration's, never a
    profile that no load could make eligible, and along a chain of fallbacks no profile twice. -/

namespace Vuzol.Routing
open Lib Relation

section SortBy
variable {α κ : Type} [LinearOrder κ] {key : α → κ} {l l' : List α}

theorem sortBy_perm : (sortBy key l).Perm l := List.perm_insertionSort _ l

theorem sortBy_pairwise : (sortBy key l).Pairwise fun a b => key a ≤ key b := by
  have : Std.Total fun a b : α => key a ≤ key b := ⟨fun a b => le_total (key a) (key b)⟩
  have : IsTrans α fun a b => key a ≤ key b := ⟨fun _ _ _ => le_trans⟩
  exact List.pairwise_insertionSort _ l

theorem sortBy_congr (hinj : (l.map key).Nodup) (h : l.Perm l') : sortBy key l = sortBy key l' := by
  refine List.Perm.eq_of_pairwise (fun a b ha hb hab hba => ?_) sortBy_pairwise sortBy_pairwise
    ((sortBy_perm.trans h).trans sortBy_perm.symm)
  exact List.inj_on_of_nodup_map hinj (sortBy_perm.mem_iff.mp ha) (h.mem_iff.mpr (sortBy_perm.mem_iff.mp hb))
    (le_antisymm hab hba)

end SortBy

variable {request request' : RoutingRequest} {entries profiles profiles' chain : List ProviderProfileConfig}
  {states : String → Option EffectiveProfileState} {now : Nat} {p q : ProviderProfileConfig}

def Eligible (request : RoutingRequest) (states : String → Option EffectiveProfileState) (now : Nat)
    (p : ProviderProfileConfig) : Prop := exclusions request p (stateOf states p) now = []

theorem evaluate_eligible : (evaluate request states now p).eligible = true ↔ Eligible request states now p :=
  List.isEmpty_iff

theorem eligible_iff : Eligible request states now p ↔ request.failedProfileId ≠ some p.id ∧
    (∀ x ∈ request.barriers p, x.2 = false) ∧ ∀ x ∈ request.limits p (stateOf states p) now, x.2 = false := by
  simp [Eligible, exclusions, or_imp, forall_and]

/-- The order of the configuration does not matter. -/
theorem selectProfile_perm (hids : (profiles.map (·.id)).Nodup) (h : profiles.Perm profiles') :
    selectProfile request profiles states now = selectProfile request profiles' states now := by
  unfold selectProfile ordered eligible
  rw [sortBy_congr hids h]

def sampleProfile (id : String) (fallbackProfileIds : List String) : ProviderProfileConfig where
  id := id
  provider := id
  launchMode := .cli
  capabilities := {.codeEdit}
  concurrencyLimit := 1
  costClass := .strong
  roles := {.executor}
  supportedTaskTypes := {"coding"}
  fallbackProfileIds := fallbackProfileIds

def sampleRequest : RoutingRequest where
  role := .executor
  taskType := "coding"
  requiredCapabilities := {.codeEdit}
  projectAllowedCapabilities := none
  budgetMode := .balanced
  estimatedInputTokens := 0
  maxOutputTokens := 0
  remainingCostUnits := 1

def sampleProfiles : List ProviderProfileConfig := [sampleProfile "kimi" ["codex"], sampleProfile "codex" []]

theorem selectProfile_perm_reverse : selectProfile sampleRequest sampleProfiles (fun _ => none) 0 =
    selectProfile sampleRequest sampleProfiles.reverse (fun _ => none) 0 :=
  selectProfile_perm (by decide) (List.reverse_perm _).symm

theorem mem_eligible : p ∈ eligible request profiles states now ↔ p ∈ profiles ∧ Eligible request states now p := by
  rw [eligible, List.mem_filter, sortBy_perm.mem_iff, evaluate_eligible]

theorem mem_ordered : p ∈ ordered request profiles states now ↔ p ∈ profiles ∧ Eligible request states now p :=
  sortBy_perm.mem_iff.trans mem_eligible

/-- Of two eligible profiles the one with the smaller key stands first. -/
theorem ordered_pairwise (hids : (profiles.map (·.id)).Nodup) : (ordered request profiles states now).Pairwise
    fun p q => request.ordering (stateOf states p) p < request.ordering (stateOf states q) q := by
  have hdistinct : (ordered request profiles states now).Pairwise fun p q => p.id ≠ q.id := by
    refine List.pairwise_map.mp ((sortBy_perm.map _).nodup_iff.mpr ?_)
    exact ((sortBy_perm.map _).nodup_iff.mpr hids).sublist (List.filter_sublist.map _)
  refine (sortBy_pairwise.and hdistinct).imp fun ⟨hle, hne⟩ => hle.lt_of_ne fun heq => hne ?_
  exact congrArg (fun k => (ofLex k).2) heq

theorem Eligible.fenced (h : Eligible request states now p) : request.restrictToProfileIds.all (p.id ∈ ·) = true := by
  have hpin := (eligible_iff.mp h).2.2 _ (List.mem_of_getElem? (i := 8) rfl)
  cases hids : request.restrictToProfileIds with
  | none => rfl
  | some ids => simpa [hids] using hpin

theorem selectProfile_ordered : (selectProfile request profiles states now).selectedProfileId.toList ++
    (selectProfile request profiles states now).alternatives = (ordered request profiles states now).map (·.id) := by
  unfold selectProfile
  cases ordered request profiles states now <;> rfl

theorem selectProfile_offered : (selectProfile request profiles states now).offered request =
    (ordered request profiles states now).map (·.id) := by
  rw [PolicyDecision.offered, selectProfile_ordered, List.filter_eq_self]
  intro id hid
  obtain ⟨p, hp, rfl⟩ := List.mem_map.mp hid
  exact (mem_ordered.mp hp).2.fenced

/-- What is offered: the selected profile and the alternatives, of which the fence of a pin takes none away. They are the
    eligible profiles, each once, from the smallest key on, and the first one of them is selected. -/
theorem offers_eligible (hids : (profiles.map (·.id)).Nodup) :
    (selectProfile request profiles states now).offered request =
        (selectProfile request profiles states now).selectedProfileId.toList ++
          (selectProfile request profiles states now).alternatives ∧
      ∃ ps : List ProviderProfileConfig,
        (selectProfile request profiles states now).offered request = ps.map (·.id) ∧
          (selectProfile request profiles states now).selectedProfileId = (ps.map (·.id)).head? ∧
            (∀ p, p ∈ ps ↔ p ∈ profiles ∧ Eligible request states now p) ∧
              ps.Pairwise fun p q => request.ordering (stateOf states p) p < request.ordering (stateOf states q) q :=
  ⟨selectProfile_offered.trans selectProfile_ordered.symm, _, selectProfile_offered, rfl, fun _ => mem_ordered,
    ordered_pairwise hids⟩

/-- A step pinned to two profiles of the three. -/
def pinnedRequest : RoutingRequest := { sampleRequest with restrictToProfileIds := some {"kimi", "codex"} }

theorem offers_eligible_sample : ∃ ps : List ProviderProfileConfig, ps.map (·.id) = ["codex", "kimi"] ∧
    (selectProfile pinnedRequest (sampleProfile "grok" [] :: sampleProfiles) (fun _ => none) 0).selectedProfileId.toList ++
      (selectProfile pinnedRequest (sampleProfile "grok" [] :: sampleProfiles) (fun _ => none) 0).alternatives =
        ps.map (·.id) ∧
      ∀ p, p ∈ ps ↔ p ∈ sampleProfile "grok" [] :: sampleProfiles ∧ Eligible pinnedRequest (fun _ => none) 0 p := by
  obtain ⟨hfence, ps, hps, -, hmem, -⟩ :=
    @offers_eligible pinnedRequest (sampleProfile "grok" [] :: sampleProfiles) (fun _ => none) 0 (by decide)
  refine ⟨ps, ?_, hfence.symm.trans hps, hmem⟩
  rw [← hps]
  decide +kernel

theorem selected_none_iff : (selectProfile request profiles states now).selectedProfileId = none ↔
    ∀ p ∈ profiles, ¬Eligible request states now p := by
  rw [selectProfile, List.head?_eq_none_iff, List.map_eq_nil_iff, List.eq_nil_iff_forall_not_mem]
  exact forall_congr' fun p => by rw [mem_ordered, not_and]

theorem Eligible.preflight {now₀ : Nat} (h : Eligible request states now p) :
    Eligible request.preflight (fun _ => none) now₀ p := by
  obtain ⟨-, hbarriers, hlimits⟩ := eligible_iff.mp h
  refine eligible_iff.mpr ⟨(fun h => nomatch h), hbarriers, ?_⟩
  simp only [RoutingRequest.limits, List.forall_mem_cons] at hlimits ⊢
  obtain ⟨-, -, -, -, -, -, hconcurrency, -, hpin, -⟩ := hlimits
  refine ⟨rfl, rfl, rfl, ?_, ?_, ?_, ?_, rfl, hpin, fun x hx => (List.not_mem_nil hx).elim⟩
  · cases p.contextLimit <;> simp [RoutingRequest.preflight]
  · cases p.outputLimit <;> simp [RoutingRequest.preflight]
  · simp [RoutingRequest.preflight]
  · have := of_decide_eq_false hconcurrency
    exact decide_eq_false (by simp [stateOf]; omega)

/-- The preflight refuses exactly the steps that no load, budget or failure leaves a profile for. -/
theorem preflight_refuses_iff {now₀ : Nat} :
    (selectProfile request.preflight profiles (fun _ => none) now₀).selectedProfileId = none ↔
      ∀ request' : RoutingRequest, request'.preflight = request.preflight → ∀ states now,
        (selectProfile request' profiles states now).selectedProfileId = none := by
  constructor
  · intro hnone request' hsame states now
    refine selected_none_iff.mpr fun p hp hp' => selected_none_iff.mp hnone p hp ?_
    rw [← hsame]
    exact hp'.preflight
  · exact fun hall => hall request.preflight rfl _ _

/-- After a call of `p` failed, the claim of a step without a trusted profile may choose `q`. The pin of a project and a
    default executor both set one, which may be chosen without being a fallback. -/
def FallsBackTo (profiles : List ProviderProfileConfig) (p q : ProviderProfileConfig) : Prop :=
  p ∈ profiles ∧ p.fallbackProfileIds ≠ [] ∧ ∃ (request : RoutingRequest) (states : String → Option EffectiveProfileState)
    (now : Nat), request.trustedProfileId = none ∧
      q.id ∈ (selectProfile (request.after p) profiles states now).offered (request.after p)

theorem FallsBackTo.fallsBack (hc : Consistent profiles) (h : FallsBackTo profiles p q) : FallsBack profiles p.id q.id := by
  obtain ⟨hp, hne, request, states, now, htrusted, hoffered⟩ := h
  rw [selectProfile_offered] at hoffered
  obtain ⟨r, hr, hid⟩ := List.mem_map.mp hoffered
  have hallowed := (eligible_iff.mp (mem_ordered.mp hr).2).2.2 _ (List.mem_of_getElem? (i := 7) rfl)
  have hafter : request.after p = { request with failedProfileId := some p.id, allowedFallbackIds := p.fallbackProfileIds } :=
    if_neg (by simpa using hne)
  have hown : profile? profiles p.id = some p := find?_unique hc.distinct hp (decide_eq_true rfl) fun y _ => by simp
  refine .single ?_
  rw [Leads, fallbackIds, hown, ← hid]
  simpa [hafter, htrusted] using hallowed

/-- Along consecutive fallbacks no profile is called twice. -/
theorem fallbacks_nodup (hload : loadProfiles entries = .ok profiles) (hchain : chain.IsChain (FallsBackTo profiles)) :
    (chain.map (·.id)).Nodup := by
  obtain ⟨rfl, hc⟩ := loadProfiles_eq_ok.mp hload
  have hids : (chain.map (·.id)).IsChain (FallsBack profiles) :=
    List.isChain_map_of_isChain _ (fun _ _ h => h.fallsBack hc) hchain
  refine (List.isChain_iff_pairwise.mp hids).imp fun {a b} hab hsame => ?_
  rw [hsame] at hab
  exact hc.acyclic b hab

theorem fallbacks_nodup_sample : (sampleProfiles.map (·.id)).Nodup := by
  refine fallbacks_nodup (show loadProfiles sampleProfiles = .ok sampleProfiles by rfl) ?_
  refine List.isChain_pair.mpr ⟨List.mem_cons_self, by decide, sampleRequest, fun _ => none, 0, rfl, ?_⟩
  decide +kernel

end Vuzol.Routing
