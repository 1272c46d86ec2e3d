import Vuzol.Theorems.Workflow.Repairs

/-! The steps of a run as a history that only grows at its end. -/

namespace Vuzol.Workflow
open Lib

variable {m : Materialization} {s t u : State} {x : Step}

theorem perform_kept {op : Op} (hk : Keyed s) (h : perform s op = .ok t) (hx : x ∈ s.steps) :
    ∃ y ∈ t.steps, y.toStepSpec = x.toStepSpec := by
  by_cases hop : ∃ c, op = .claimStep c
  · obtain ⟨c, rfl⟩ := hop
    rcases perform_claim_cases h with rfl | ⟨y, hy, -, rfl⟩
    · exact ⟨x, hx, rfl⟩
    · by_cases hxy : Step.key x = Step.key (leaseStep c y)
      · obtain rfl := eq_of_key_eq hk.nodup hx (State.mem_of_step? hy).1 hxy
        exact ⟨_, mem_put_self hx hxy, rfl⟩
      · exact ⟨x, mem_put_of_ne hx hxy, rfl⟩
  · obtain ⟨y, hy, hxy⟩ := (perform_writes hk (fun c hc => hop ⟨c, hc⟩) h).rows.kept x hx
    exact ⟨y, hy, hxy.toStepSpec⟩

theorem Keyed.id_of_getElem {i : Nat} (hk : Keyed s) (hi : i < s.steps.length) : s.steps[i].id = i := by
  have := congrArg (·[i]?) hk
  simpa [hi] using this

theorem perform_specs {op : Op} (hk : Keyed s) (h : perform s op = .ok t) :
    s.steps.map (·.toStepSpec) <+: t.steps.map (·.toStepSpec) := by
  refine List.prefix_iff_getElem?.mpr fun i hi => ?_
  rw [List.length_map] at hi
  obtain ⟨y, hy, hspec⟩ := perform_kept hk h (List.getElem_mem hi)
  obtain ⟨j, hj, rfl⟩ := List.getElem_of_mem hy
  -- The rows are numbered in their order, so that the row with this specification stands where it stood.
  obtain rfl : i = j := by
    rw [← hk.id_of_getElem hi, ← (perform_keyed hk h).id_of_getElem hj]
    exact congrArg StepSpec.id hspec.symm
  simp [hj, hspec]

/-- Whatever workers, recoveries, the owner and the operator do, no step of a run is removed, changed into another one or
    moved: new steps come behind the others. -/
theorem steps_append_only (hm : materializeRun m = .ok s) (hst : Reach perform (fun _ _ => True) s t)
    (htu : Reach perform (fun _ _ => True) t u) : t.steps.map (·.toStepSpec) <+: u.steps.map (·.toStepSpec) := by
  have hk : Keyed t := hst.invariant (Materialization.keyed hm) fun hk _ h => perform_keyed hk h
  refine (htu.invariant (P := fun u => Keyed u ∧ _ <+: u.steps.map (·.toStepSpec)) ⟨hk, List.prefix_rfl⟩ ?_).2
  exact fun ⟨hv, hp⟩ _ h => ⟨perform_keyed hv h, hp.trans (perform_specs hv h)⟩

/-- A validation fails, and the repair of its source is a new step. -/
theorem steps_append_only_sample : ∃ s t u : State, materializeRun sampleRun = .ok s ∧
    Reach perform (fun _ _ => True) s t ∧ Reach perform (fun _ _ => True) t u ∧ t.steps.length < u.steps.length ∧
      t.steps.map (·.toStepSpec) <+: u.steps.map (·.toStepSpec) := by
  obtain ⟨s, hm, hs⟩ := exists_of_ends (r := materializeRun sampleRun) (p := fun s => ends (fun t : State =>
    ends (fun u : State => t.steps.length < u.steps.length) (runOps perform t (repairRound 0 "a")))
      (runOps perform s upToValidation))
    (by decide +kernel)
  obtain ⟨t, ht, hends⟩ := exists_of_ends hs
  obtain ⟨u, hu, hlt⟩ := exists_of_ends hends
  have hst : Reach perform (fun _ _ => True) s t := reach_of_runOps (fun _ _ _ => trivial) ht
  have htu : Reach perform (fun _ _ => True) t u := reach_of_runOps (fun _ _ _ => trivial) hu
  exact ⟨s, t, u, hm, hst, htu, of_decide_eq_true hlt, steps_append_only hm hst htu⟩

end Vuzol.Workflow
