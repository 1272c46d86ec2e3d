import Vuzol.Providers.Profiles

/-! What a loaded registry guarantees of the fallbacks. -/

namespace Vuzol.Routing
open Lib Relation

variable {entries profiles seen : List ProviderProfileConfig} {p : ProviderProfileConfig} {fallbackId : String}
  {u : Unit}

theorem uniqueById_from (hseen : (seen.map (·.id)).Nodup) :
    entries.foldlM (fun result entry =>
        if result.any (·.id = entry.id) then .error ("duplicate profile ID: " ++ entry.id) else .ok (result ++ [entry])) seen =
      (.ok profiles : Except String _) ↔
      profiles = seen ++ entries ∧ ((seen ++ entries).map (·.id)).Nodup := by
  induction entries generalizing seen with
  | nil =>
    rw [List.foldlM_nil, List.append_nil, pure_eq_ok, Except.ok.injEq, eq_comm]
    exact (and_iff_left hseen).symm
  | cons entry entries ih =>
    rw [List.foldlM_cons]
    by_cases hdup : seen.any (·.id = entry.id) = true
    · rw [if_pos hdup]
      refine ⟨(fun h => nomatch h), fun ⟨_, hnodup⟩ => ?_⟩
      obtain ⟨s, hs, hid⟩ := List.any_eq_true.mp hdup
      rw [List.map_append, List.nodup_append] at hnodup
      exact absurd (of_decide_eq_true hid) (hnodup.2.2 _ (List.mem_map_of_mem hs) _ List.mem_cons_self)
    · rw [if_neg hdup]
      have hnew : ((seen ++ [entry]).map (·.id)).Nodup := by simpa [List.nodup_append, hseen] using hdup
      exact (ih hnew).trans (by rw [List.append_assoc, List.singleton_append])

theorem uniqueById_eq_ok : uniqueById entries = .ok profiles ↔ profiles = entries ∧ (entries.map (·.id)).Nodup :=
  uniqueById_from List.nodup_nil

/-- The fallback exists, and shares a role and a task type with the profile that it stands in for. -/
def StandsIn (profiles : List ProviderProfileConfig) (p : ProviderProfileConfig) (fallbackId : String) : Prop :=
  ∃ q, profile? profiles fallbackId = some q ∧ p.roles ∩ q.roles ≠ ∅ ∧ p.supportedTaskTypes ∩ q.supportedTaskTypes ≠ ∅

theorem validateFallback_eq_ok : validateFallback profiles p fallbackId = .ok u ↔ StandsIn profiles p fallbackId := by
  unfold validateFallback StandsIn
  cases profile? profiles fallbackId with
  | none => simp
  | some q =>
    by_cases hrole : p.roles ∩ q.roles = ∅
    · simp [hrole]
    · by_cases htask : p.supportedTaskTypes ∩ q.supportedTaskTypes = ∅ <;> simp [hrole, htask]

theorem forM_eq_ok {α ε : Type} {f : α → Except ε Unit} {l : List α} : l.forM f = .ok u ↔ ∀ a ∈ l, f a = .ok () := by
  refine ⟨fun h => ?_, forM_ok⟩
  induction l with
  | nil => exact fun a ha => (List.not_mem_nil ha).elim
  | cons b l ih =>
    obtain ⟨_, hb, hl⟩ := bind_eq_ok.mp (show (f b >>= fun _ => l.forM f) = .ok u from h)
    exact List.forall_mem_cons.mpr ⟨hb, ih hl⟩

/-- `b` is reached from `a` by one fallback or more. -/
abbrev FallsBack (profiles : List ProviderProfileConfig) : String → String → Prop := TransGen (Leads (fallbackIds profiles))

structure Consistent (profiles : List ProviderProfileConfig) : Prop where
  distinct : (profiles.map (·.id)).Nodup
  standsIn : ∀ p ∈ profiles, ∀ fallbackId ∈ p.fallbackProfileIds, StandsIn profiles p fallbackId
  acyclic : ∀ id, ¬FallsBack profiles id id

theorem profile?_mem (h : profile? profiles fallbackId = some p) : p ∈ profiles ∧ p.id = fallbackId :=
  ⟨List.mem_of_find?_eq_some h, by simpa using List.find?_some h⟩

theorem leads_known {a b : String} (h : Leads (fallbackIds profiles) a b) :
    ∃ p ∈ profiles, p.id = a ∧ b ∈ p.fallbackProfileIds := by
  unfold Leads fallbackIds at h
  cases hp : profile? profiles a with
  | none => rw [hp] at h; cases h
  | some p =>
    rw [hp] at h
    exact ⟨p, (profile?_mem hp).1, (profile?_mem hp).2, h⟩

theorem search_eq_ok (hstandsIn : ∀ p ∈ profiles, ∀ fallbackId ∈ p.fallbackProfileIds, StandsIn profiles p fallbackId) :
    (∃ visited, search (fallbackIds profiles) (profiles.length + 1) (profiles.map (·.id)) = .ok visited) ↔
      ∀ id, ¬FallsBack profiles id id := by
  have hclosed : ∀ a ∈ profiles.map (·.id), ∀ b ∈ fallbackIds profiles a, b ∈ profiles.map (·.id) := by
    intro a _ b hb
    obtain ⟨p, hp, -, hb⟩ := leads_known hb
    obtain ⟨q, hq, -⟩ := hstandsIn p hp b hb
    exact List.mem_map.mpr ⟨q, profile?_mem hq⟩
  have hsearch := search_meets hclosed
  rw [List.length_map] at hsearch
  constructor
  · rintro ⟨visited, hrun⟩ id hcycle
    obtain ⟨b, hb, -⟩ := TransGen.head'_iff.mp hcycle
    obtain ⟨p, hp, rfl, -⟩ := leads_known hb
    exact hsearch.of_ok hrun _ (List.mem_map_of_mem hp) hcycle
  · intro hacyclic
    cases hrun : search (fallbackIds profiles) (profiles.length + 1) (profiles.map (·.id)) with
    | error e =>
      obtain ⟨a, -, hcycle⟩ := hsearch.of_error hrun
      exact absurd hcycle (hacyclic a)
    | ok visited => exact ⟨visited, rfl⟩

theorem validateFallbacks_eq_ok : validateFallbacks profiles = .ok u ↔
    (∀ p ∈ profiles, ∀ fallbackId ∈ p.fallbackProfileIds, StandsIn profiles p fallbackId) ∧
      ∀ id, ¬FallsBack profiles id id := by
  unfold validateFallbacks
  rw [bind_eq_ok]
  simp only [forM_eq_ok, validateFallback_eq_ok]
  refine exists_const _ |>.trans (and_congr_right fun hstandsIn => ?_)
  rw [← search_eq_ok hstandsIn]
  cases search (fallbackIds profiles) (profiles.length + 1) (profiles.map (·.id)) with
  | error e => cases e <;> simp
  | ok visited => simp

/-- The registry takes exactly the consistent sets of profiles, and keeps them as they are. -/
theorem loadProfiles_eq_ok : loadProfiles entries = .ok profiles ↔ profiles = entries ∧ Consistent entries := by
  simp only [loadProfiles, bind_eq_ok, uniqueById_eq_ok, validateFallbacks_eq_ok, pure_eq_ok, Except.ok.injEq]
  constructor
  · rintro ⟨_, ⟨rfl, hdistinct⟩, _, ⟨hstandsIn, hacyclic⟩, rfl⟩
    exact ⟨rfl, hdistinct, hstandsIn, hacyclic⟩
  · rintro ⟨rfl, hc⟩
    exact ⟨_, ⟨rfl, hc.distinct⟩, (), ⟨hc.standsIn, hc.acyclic⟩, rfl⟩

end Vuzol.Routing
