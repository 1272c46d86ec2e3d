import Vuzol.Review.Verdicts

/-! What the verdict of a partitioned review is at least: no answer and no finding is worse than it, but the verdict of
    the cross-partition assessor is used only where it is `blocked`. -/

namespace Vuzol.Review

open Vuzol.Lib

def ReviewVerdictKind.rank : ReviewVerdictKind → Nat
  | .passed => 0
  | .passedWithWarnings => 1
  | .changesRequired => 2
  | .blocked => 3

instance : LinearOrder ReviewVerdictKind :=
  LinearOrder.lift' ReviewVerdictKind.rank fun a b h => by cases a <;> cases b <;> first | rfl | cases h

/-- The verdict that a finding calls for. -/
def FindingSeverity.implied : FindingSeverity → ReviewVerdictKind
  | .info => .passed
  | .warning => .passedWithWarnings
  | .error => .changesRequired
  | .blocker => .blocked

section
variable (kind : ReviewVerdictKind)
include kind

theorem passed_le : .passed ≤ kind := by cases kind <;> decide

theorem le_blocked : kind ≤ .blocked := by cases kind <;> decide

theorem le_promote (merged : List ReviewFinding) : kind ≤ promote kind merged := by
  unfold promote
  split
  · rename_i h
    rcases h.1 with rfl | rfl <;> decide
  split
  · rename_i h
    rw [h.1]
    decide
  · exact le_rfl

theorem promote_cases (merged : List ReviewFinding) :
    promote kind merged = kind ∨ ∃ f ∈ merged, promote kind merged ≤ f.severity.implied := by
  unfold promote
  split
  · rename_i h
    obtain ⟨f, hf, hsev⟩ := List.any_eq_true.mp h.2
    refine Or.inr ⟨f, hf, ?_⟩
    rcases of_decide_eq_true hsev with hsev | hsev <;> rw [hsev] <;> decide
  split
  · rename_i h
    obtain ⟨f, hf, hsev⟩ := List.any_eq_true.mp h.2
    refine Or.inr ⟨f, hf, ?_⟩
    rw [of_decide_eq_true hsev]
    decide
  · exact Or.inl rfl

end

section Aggregate
variable {verdicts : List ReviewVerdict} {merged : List ReviewFinding}

theorem le_aggregateKind_of_verdict {v : ReviewVerdict} (hv : v ∈ verdicts) : v.verdict ≤ aggregateKind verdicts merged := by
  have hany : ∀ kind, v.verdict = kind → (verdicts.any fun v => decide (v.verdict = kind)) = true := fun kind hkind =>
    List.any_eq_true.mpr ⟨v, hv, decide_eq_true hkind⟩
  cases hkind : v.verdict with
  | passed => exact passed_le _
  | blocked =>
    rw [aggregateKind, if_pos (Or.inl (hany _ hkind))]
  | changesRequired =>
    unfold aggregateKind
    split
    · exact le_blocked _
    · rw [if_pos (Or.inl (hany _ hkind))]
  | passedWithWarnings =>
    unfold aggregateKind
    split
    · exact le_blocked _
    split
    · decide
    · rw [if_pos (Or.inl (hany _ hkind))]

theorem le_aggregateKind_of_finding {f : ReviewFinding} (hf : f ∈ merged) :
    f.severity.implied ≤ aggregateKind verdicts merged := by
  have hany : ∀ severity, f.severity = severity → (merged.any fun f => decide (f.severity = severity)) = true :=
    fun severity hsev => List.any_eq_true.mpr ⟨f, hf, decide_eq_true hsev⟩
  cases hsev : f.severity with
  | info => exact passed_le _
  | blocker =>
    rw [aggregateKind, if_pos (Or.inr (hany _ hsev))]
    exact le_rfl
  | error =>
    unfold aggregateKind
    split
    · exact le_blocked _
    · rw [if_pos (Or.inr (hany _ hsev))]
      exact le_rfl
  | warning =>
    unfold aggregateKind
    split
    · exact le_blocked _
    split
    · decide
    · rw [if_pos (Or.inr (hany _ hsev))]
      exact le_rfl

variable (verdicts merged) in
theorem aggregateKind_cases : aggregateKind verdicts merged = .passed ∨
    (∃ v ∈ verdicts, aggregateKind verdicts merged = v.verdict) ∨
      ∃ f ∈ merged, aggregateKind verdicts merged = f.severity.implied := by
  have hcases : ∀ (kind : ReviewVerdictKind) (severity : FindingSeverity), severity.implied = kind →
      ((verdicts.any fun v => decide (v.verdict = kind)) ∨ merged.any fun f => decide (f.severity = severity)) →
        (∃ v ∈ verdicts, kind = v.verdict) ∨ ∃ f ∈ merged, kind = f.severity.implied := by
    rintro kind severity rfl (h | h)
    · obtain ⟨v, hv, hkind⟩ := List.any_eq_true.mp h
      exact Or.inl ⟨v, hv, (of_decide_eq_true hkind).symm⟩
    · obtain ⟨f, hf, hsev⟩ := List.any_eq_true.mp h
      exact Or.inr ⟨f, hf, by rw [of_decide_eq_true hsev]⟩
  unfold aggregateKind
  split
  · exact Or.inr (hcases .blocked .blocker rfl ‹_›)
  split
  · exact Or.inr (hcases .changesRequired .error rfl ‹_›)
  split
  · exact Or.inr (hcases .passedWithWarnings .warning rfl ‹_›)
  · exact Or.inl rfl

end Aggregate

section Answers
variable (repr : Json → Text)

def ProviderResult.reading (result : ProviderResult) : Option (ReviewVerdictKind × List ReviewFinding) :=
  result.structuredOutput.bind fun structured => (readOutput repr structured).map fun o => (o.1, o.2.2)

/-- The same of the assessor; its verdict may be left out. -/
def ProviderResult.crossReading (result : ProviderResult) : Option (ReviewVerdictKind × List ReviewFinding) :=
  result.structuredOutput.bind fun structured =>
    (rawFindings structured).bind fun items => (findingsOf repr items).bind fun findings =>
      (reviewVerdictKind? (strOf repr ((structured.lookup "verdict").getD (.str "pass".toList)))).map fun kind =>
        (kind, findings)

def requestsFrom {δ : Type} (perFile : Slices) : Nat → List ReviewFinding → List (Partition δ) → List (PartitionRequest δ)
  | _, _, [] => []
  | ordinal, mechanical, p :: ps =>
    { ordinal, partition := p, diff := blobOf perFile p.files, mechanical } :: requestsFrom perFile (ordinal + 1) [] ps

/-- The calls for all partitions of the manifest. -/
def requestsOf {δ : Type} (manifest : PartitionManifest δ) (inspection : GitInspection) (mechanical : List ReviewFinding) :
    List (PartitionRequest δ) :=
  match splitDiffByFile inspection.diff with
  | .ok perFile => requestsFrom perFile 1 mechanical manifest.partitions
  | .error _ => []

variable {repr} {profileId : Text} {δ : Type} {sha256 : Bytes → String}
  {call : PartitionRequest δ → Except ReviewError ProviderResult}
  {bound : Binding} {request : PartitionRequest δ} {result : ProviderResult} {changedFiles : List Path}
  {mechanical : List ReviewFinding} {count : Nat} {v : ReviewVerdict}

theorem verdict_construct_eq_ok {v w : ReviewVerdict} (h : v.construct = .ok w) : w = v := by
  simp only [ReviewVerdict.construct, bind_eq_ok] at h
  obtain ⟨-, -, h⟩ := h
  exact (Except.ok.inj h).symm

theorem verdictFromProviderResult_ok
    (h : verdictFromProviderResult repr profileId result bound changedFiles mechanical count = .ok v) :
    ∃ kind findings, result.reading repr = some (kind, findings) ∧ v.findings = mechanical ++ findings ∧
      v.verdict = promote kind v.findings := by
  unfold verdictFromProviderResult at h
  split at h
  · cases h
  rename_i structured hstructured
  split at h
  · cases h
  rename_i kind summary findings hread
  rw [verdict_construct_eq_ok h]
  exact ⟨kind, findings, by rw [ProviderResult.reading, hstructured, Option.bind_some, hread]; rfl, rfl, rfl⟩

structure Answered (repr : Json → Text) (call : PartitionRequest δ → Except ReviewError ProviderResult)
    (request : PartitionRequest δ) (v : ReviewVerdict) : Prop where
  exists_answer : ∃ result kind findings, call request = .ok result ∧ result.reading repr = some (kind, findings) ∧
    v.findings = request.mechanical ++ findings ∧ v.verdict = promote kind v.findings

theorem reviewSinglePartition_ok (h : reviewSinglePartition repr profileId sha256 call bound request = .ok v) :
    Answered repr call request v := by
  simp only [reviewSinglePartition, bind_eq_ok] at h
  obtain ⟨-, -, -, -, result, hcall, -, -, h⟩ := h
  obtain ⟨kind, findings, hread, hfindings, hverdict⟩ := verdictFromProviderResult_ok h
  exact ⟨result, kind, findings, hcall, hread, hfindings, hverdict⟩

variable {perFile : Slices} {ps : List (Partition δ)} {ordinal : Nat}

theorem reviewPartitions_ok {verdicts : List ReviewVerdict}
    (h : reviewPartitions repr profileId sha256 call bound perFile ordinal mechanical ps = .ok verdicts) :
    List.Forall₂ (Answered repr call) ((requestsFrom perFile ordinal mechanical ps).take verdicts.length) verdicts ∧
      (verdicts.length = ps.length ∨ ∃ v ∈ verdicts, v.stops = true) := by
  induction ps generalizing ordinal mechanical verdicts with
  | nil =>
    cases h
    exact ⟨.nil, Or.inl rfl⟩
  | cons p ps ih =>
    simp only [reviewPartitions, bind_eq_ok] at h
    obtain ⟨v, hv, h⟩ := h
    have hanswered := reviewSinglePartition_ok hv
    split at h
    · rename_i hstops
      cases h
      exact ⟨.cons hanswered .nil, Or.inr ⟨v, List.mem_singleton_self v, hstops⟩⟩
    · simp only [bind_eq_ok] at h
      obtain ⟨verdicts', hrest, h⟩ := h
      cases h
      obtain ⟨hall, hend⟩ := ih hrest
      refine ⟨.cons hanswered hall, ?_⟩
      rcases hend with hlen | ⟨w, hw, hstops⟩
      · exact Or.inl (congrArg Nat.succ hlen)
      · exact Or.inr ⟨w, List.mem_cons_of_mem v hw, hstops⟩

/-- The findings of the assessor are kept, and its verdict shows in them where it is `blocked`. -/
theorem crossPartitionAssessment_ok {manifest : PartitionManifest δ} {verdicts : List ReviewVerdict}
    {cross : ProviderResult} {crossFindings : List ReviewFinding}
    (h : crossPartitionAssessment repr (fun _ => .ok cross) manifest verdicts = .ok crossFindings) :
    ∃ kind findings, cross.crossReading repr = some (kind, findings) ∧ (∀ f ∈ findings, f ∈ crossFindings) ∧
      (kind = .blocked → ∃ f ∈ crossFindings, f.severity = .blocker) ∧
      (∀ f ∈ crossFindings, f ∈ findings ∨ kind = .blocked) := by
  simp only [crossPartitionAssessment, bind_eq_ok] at h
  obtain ⟨-, -, result, hresult, -, -, h⟩ := h
  cases hresult
  split at h
  · cases h
  rename_i structured hstructured
  split at h
  · cases h
  rename_i items hitems
  split at h
  · cases h
  rename_i findings hfindings
  split at h
  · cases h
  rename_i kind hkind
  have hread : cross.crossReading repr = some (kind, findings) := by
    simp only [ProviderResult.crossReading, hstructured, hitems, hfindings, hkind, Option.bind_some, Option.map_some]
  refine ⟨kind, findings, hread, ?_⟩
  split at h
  · rename_i hblocked
    split at h
    · cases h
    rename_i block hblock
    cases h
    have hsev : block.severity = .blocker := by
      unfold ReviewFinding.construct at hblock
      split at hblock
      · rw [← Option.some.inj hblock]
      · cases hblock
    exact ⟨fun f hf => List.mem_append_left _ hf,
      fun _ => ⟨block, List.mem_append_right _ (List.mem_singleton_self block), hsev⟩, fun _ _ => Or.inr hblocked.1⟩
  · rename_i hnot
    cases h
    refine ⟨fun f hf => hf, fun hkind => ?_, fun f hf => Or.inl hf⟩
    cases hany : crossFindings.any fun f => f.severity = .blocker with
    | true =>
      obtain ⟨f, hf, hsev⟩ := List.any_eq_true.mp hany
      exact ⟨f, hf, of_decide_eq_true hsev⟩
    | false => exact absurd ⟨hkind, hany⟩ hnot

theorem mem_requestsFrom
    (h : request ∈ requestsFrom perFile ordinal mechanical ps) : ∀ f ∈ request.mechanical, f ∈ mechanical := by
  induction ps generalizing ordinal mechanical with
  | nil => cases h
  | cons p ps ih =>
    rcases List.mem_cons.mp h with rfl | h
    · exact fun f hf => hf
    · exact fun f hf => absurd (ih h f hf) (List.not_mem_nil)

theorem length_requestsFrom : (requestsFrom perFile ordinal mechanical ps).length = ps.length := by
  induction ps generalizing ordinal mechanical with
  | nil => rfl
  | cons p ps ih => exact congrArg Nat.succ ih

theorem aggregatePartitionVerdicts_ok {verdicts : List ReviewVerdict} {crossFindings : List ReviewFinding} {unknown : Bool}
    (h : aggregatePartitionVerdicts bound verdicts crossFindings changedFiles mechanical unknown = .ok v) :
    v.verdict = aggregateKind verdicts (mechanical ++ verdicts.flatMap (·.findings) ++ crossFindings) ∧
      v.partitionCount = verdicts.length := by
  simp only [aggregatePartitionVerdicts, bind_eq_ok] at h
  obtain ⟨-, -, -, -, h⟩ := h
  rw [verdict_construct_eq_ok h]
  exact ⟨rfl, rfl⟩

end Answers

section FailClosed
variable {repr : Json → Text} {profileId : Text} {δ : Type} {sha256 : Bytes → String}
  {call : PartitionRequest δ → Except ReviewError ProviderResult}
  {bound : Binding} {manifest : PartitionManifest δ} {inspection : GitInspection} {mechanical : List ReviewFinding}
  {cross : ProviderResult} {v : ReviewVerdict}

/-- How a review came to its verdict. -/
structure Reviewed (repr : Json → Text) (call : PartitionRequest δ → Except ReviewError ProviderResult)
    (manifest : PartitionManifest δ) (inspection : GitInspection) (mechanical : List ReviewFinding)
    (cross : ProviderResult) (v : ReviewVerdict) (verdicts : List ReviewVerdict) (crossFindings : List ReviewFinding)
    (kind : ReviewVerdictKind) (findings : List ReviewFinding) : Prop where
  answered : List.Forall₂ (Answered repr call) ((requestsOf manifest inspection mechanical).take verdicts.length) verdicts
  ends : verdicts.length = manifest.partitions.length ∨ ∃ w ∈ verdicts, w.stops = true
  reading : cross.crossReading repr = some (kind, findings)
  keeps : ∀ f ∈ findings, f ∈ crossFindings
  blocks : kind = .blocked → ∃ f ∈ crossFindings, f.severity = .blocker
  adds : ∀ f ∈ crossFindings, f ∈ findings ∨ kind = .blocked
  verdict : v.verdict = aggregateKind verdicts (mechanical ++ verdicts.flatMap (·.findings) ++ crossFindings)
  count : v.partitionCount = verdicts.length

theorem reviewPartitioned_ok
    (h : reviewPartitioned repr profileId sha256 call (fun _ => .ok cross) bound manifest inspection mechanical = .ok v) :
    ∃ verdicts crossFindings kind findings,
      Reviewed repr call manifest inspection mechanical cross v verdicts crossFindings kind findings := by
  simp only [reviewPartitioned, bind_eq_ok, mapError_eq_ok] at h
  obtain ⟨perFile, hsplit, -, -, verdicts, hverdicts, crossFindings, hcross, h⟩ := h
  obtain ⟨hanswered, hends⟩ := reviewPartitions_ok hverdicts
  obtain ⟨kind, findings, hread, hkeeps, hblocks, hadds⟩ := crossPartitionAssessment_ok hcross
  obtain ⟨hverdict, hcount⟩ := aggregatePartitionVerdicts_ok h
  exact ⟨verdicts, crossFindings, kind, findings,
    { answered := by rw [requestsOf, hsplit]; exact hanswered
      ends := hends
      reading := hread
      keeps := hkeeps
      blocks := hblocks
      adds := hadds
      verdict := hverdict
      count := hcount }⟩

/-- No source is worse than the verdict, and a verdict below `blocked` is about all partitions. -/
structure FailClosed (repr : Json → Text) (call : PartitionRequest δ → Except ReviewError ProviderResult)
    (manifest : PartitionManifest δ) (inspection : GitInspection) (mechanical : List ReviewFinding)
    (cross : ProviderResult) (v : ReviewVerdict) : Prop where
  partitions : ∀ request ∈ requestsOf manifest inspection mechanical, ∀ result kind findings,
    call request = .ok result → result.reading repr = some (kind, findings) →
      kind ≤ v.verdict ∧ ∀ f ∈ findings, f.severity.implied ≤ v.verdict
  mechanical : ∀ f ∈ mechanical, f.severity.implied ≤ v.verdict
  cross : ∀ kind findings, cross.crossReading repr = some (kind, findings) →
    kind ≤ v.verdict ∧ ∀ f ∈ findings, f.severity.implied ≤ v.verdict
  complete : v.verdict < .blocked → v.partitionCount = manifest.partitions.length

/-- The verdict of the assessor is `pass` or `blocked`, or another source is as bad. -/
def CrossCovered (repr : Json → Text) (call : PartitionRequest δ → Except ReviewError ProviderResult)
    (manifest : PartitionManifest δ) (inspection : GitInspection) (mechanical : List ReviewFinding)
    (cross : ProviderResult) : Prop :=
  ∀ kind findings, cross.crossReading repr = some (kind, findings) →
    kind = .passed ∨ kind = .blocked ∨ (∃ f ∈ mechanical ++ findings, kind ≤ f.severity.implied) ∨
      ∃ request ∈ requestsOf manifest inspection mechanical, ∃ result kind' findings', call request = .ok result ∧
        result.reading repr = some (kind', findings') ∧ (kind ≤ kind' ∨ ∃ f ∈ findings', kind ≤ f.severity.implied)

variable {verdicts : List ReviewVerdict} {crossFindings findings : List ReviewFinding} {kind : ReviewVerdictKind}
  (R : Reviewed repr call manifest inspection mechanical cross v verdicts crossFindings kind findings)
include R

theorem Reviewed.le_of_finding {f : ReviewFinding}
    (hf : f ∈ mechanical ++ verdicts.flatMap (·.findings) ++ crossFindings) : f.severity.implied ≤ v.verdict := by
  rw [R.verdict]
  exact le_aggregateKind_of_finding hf

theorem Reviewed.blocked_of_stops {w : ReviewVerdict} (hw : w ∈ verdicts) (hstops : w.stops = true) :
    v.verdict = .blocked := by
  refine le_antisymm (le_blocked _) ?_
  simp only [ReviewVerdict.stops, Bool.or_eq_true, decide_eq_true_eq, List.any_eq_true] at hstops
  rcases hstops with hkind | ⟨f, hf, hsev⟩
  · rw [R.verdict, ← hkind]
    exact le_aggregateKind_of_verdict hw
  · have hle := R.le_of_finding
      (List.mem_append_left _ (List.mem_append_right _ (List.mem_flatMap.mpr ⟨w, hw, hf⟩)))
    rwa [hsev] at hle

theorem Reviewed.le_of_answer {request : PartitionRequest δ} (hrequest : request ∈ requestsOf manifest inspection mechanical)
    {result : ProviderResult} {kind' : ReviewVerdictKind} {findings' : List ReviewFinding}
    (hcall : call request = .ok result) (hread : result.reading repr = some (kind', findings')) :
    kind' ≤ v.verdict ∧ ∀ f ∈ findings', f.severity.implied ≤ v.verdict := by
  by_cases htake : request ∈ (requestsOf manifest inspection mechanical).take verdicts.length
  · obtain ⟨w, hw, ⟨result', k, fs, hcall', hread', hfindings, hverdict⟩⟩ := forall₂_mem R.answered htake
    cases hcall.symm.trans hcall'
    cases hread.symm.trans hread'
    refine ⟨?_, fun f hf => R.le_of_finding (List.mem_append_left _ (List.mem_append_right _
      (List.mem_flatMap.mpr ⟨w, hw, by rw [hfindings]; exact List.mem_append_right _ hf⟩)))⟩
    calc kind' ≤ w.verdict := by rw [hverdict]; exact le_promote _ _
      _ ≤ v.verdict := by rw [R.verdict]; exact le_aggregateKind_of_verdict hw
  · have hblocked : v.verdict = .blocked := by
      rcases R.ends with hlen | ⟨w, hw, hstops⟩
      · refine absurd ?_ htake
        have hall : (requestsOf manifest inspection mechanical).length ≤ verdicts.length := by
          unfold requestsOf
          split
          · rw [length_requestsFrom, hlen]
          · exact Nat.zero_le _
        rwa [List.take_of_length_le hall]
      · exact R.blocked_of_stops hw hstops
    rw [hblocked]
    exact ⟨le_blocked _, fun f _ => le_blocked _⟩

theorem Reviewed.failClosed_iff : FailClosed repr call manifest inspection mechanical cross v ↔ kind ≤ v.verdict := by
  constructor
  · exact fun h => (h.cross kind findings R.reading).1
  · intro hle
    refine ⟨fun request hrequest result kind' findings' hcall hread => R.le_of_answer hrequest hcall hread, fun f hf =>
      R.le_of_finding (List.mem_append_left _ (List.mem_append_left _ hf)), fun k fs hread => ?_, fun hlt => ?_⟩
    · cases R.reading.symm.trans hread
      exact ⟨hle, fun f hf => R.le_of_finding (List.mem_append_right _ (R.keeps f hf))⟩
    · rcases R.ends with hlen | ⟨w, hw, hstops⟩
      · rw [R.count, hlen]
      · rw [R.blocked_of_stops hw hstops] at hlt
        exact absurd hlt (lt_irrefl _)

theorem Reviewed.covered_iff : CrossCovered repr call manifest inspection mechanical cross ↔ kind ≤ v.verdict := by
  constructor
  · intro h
    rcases h kind findings R.reading with rfl | rfl | ⟨f, hf, hle⟩ | ⟨request, hrequest, result, k, fs, hcall, hread, hle⟩
    · exact passed_le _
    · obtain ⟨f, hf, hsev⟩ := R.blocks rfl
      have hle := R.le_of_finding (List.mem_append_right _ hf)
      rwa [hsev] at hle
    · refine hle.trans (R.le_of_finding ?_)
      rcases List.mem_append.mp hf with hf | hf
      · exact List.mem_append_left _ (List.mem_append_left _ hf)
      · exact List.mem_append_right _ (R.keeps f hf)
    · obtain ⟨hkind, hfindings⟩ := R.le_of_answer hrequest hcall hread
      rcases hle with hle | ⟨f, hf, hle⟩
      · exact hle.trans hkind
      · exact hle.trans (hfindings f hf)
  · intro hle k fs hread
    cases R.reading.symm.trans hread
    -- A verdict of the list is an answer's own, or was promoted by a finding of its answer or a mechanical one.
    have hanswer : ∀ w ∈ verdicts, ∃ request ∈ requestsOf manifest inspection mechanical, ∃ result kind' findings',
        call request = .ok result ∧ result.reading repr = some (kind', findings') ∧
          (∀ f ∈ w.findings, f ∈ mechanical ∨ f ∈ findings') ∧ w.verdict = promote kind' w.findings := by
      intro w hw
      obtain ⟨request, hrequest, ⟨result, kind', findings', hcall, hread, hfindings, hverdict⟩⟩ :=
        forall₂_mem R.answered.flip hw
      refine ⟨request, List.mem_of_mem_take hrequest, result, kind', findings', hcall, hread, fun f hf => ?_, hverdict⟩
      rw [hfindings] at hf
      rcases List.mem_append.mp hf with hf | hf
      · have hrequest := List.mem_of_mem_take hrequest
        unfold requestsOf at hrequest
        split at hrequest
        · exact Or.inl (mem_requestsFrom hrequest f hf)
        · cases hrequest
      · exact Or.inr hf
    have hfinding : ∀ w ∈ verdicts, ∀ f ∈ w.findings, kind ≤ f.severity.implied →
        (∃ f ∈ mechanical ++ findings, kind ≤ f.severity.implied) ∨
          ∃ request ∈ requestsOf manifest inspection mechanical, ∃ result kind' findings', call request = .ok result ∧
            result.reading repr = some (kind', findings') ∧ (kind ≤ kind' ∨ ∃ f ∈ findings', kind ≤ f.severity.implied) := by
      intro w hw f hf hle
      obtain ⟨request, hrequest, result, kind', findings', hcall, hread, hall, -⟩ := hanswer w hw
      rcases hall f hf with hf | hf
      · exact Or.inl ⟨f, List.mem_append_left _ hf, hle⟩
      · exact Or.inr ⟨request, hrequest, result, kind', findings', hcall, hread, Or.inr ⟨f, hf, hle⟩⟩
    rw [R.verdict] at hle
    rcases aggregateKind_cases verdicts (mechanical ++ verdicts.flatMap (·.findings) ++ crossFindings) with
      hkind | ⟨w, hw, hkind⟩ | ⟨f, hf, hkind⟩
    · rw [hkind] at hle
      exact Or.inl (le_antisymm hle (passed_le _))
    · rw [hkind] at hle
      obtain ⟨request, hrequest, result, kind', findings', hcall, hread, -, hverdict⟩ := hanswer w hw
      rcases promote_cases kind' w.findings with hown | ⟨f, hf, hpromoted⟩
      · exact Or.inr (Or.inr (Or.inr ⟨request, hrequest, result, kind', findings', hcall, hread,
          Or.inl (hle.trans (by rw [hverdict, hown]))⟩))
      · exact Or.inr (Or.inr (hfinding w hw f hf (hle.trans (by rw [hverdict]; exact hpromoted))))
    · rw [hkind] at hle
      rcases List.mem_append.mp hf with hf | hf
      · rcases List.mem_append.mp hf with hf | hf
        · exact Or.inr (Or.inr (Or.inl ⟨f, List.mem_append_left _ hf, hle⟩))
        · obtain ⟨w, hw, hf⟩ := List.mem_flatMap.mp hf
          exact Or.inr (Or.inr (hfinding w hw f hf hle))
      · rcases R.adds f hf with hf | hblocked
        · exact Or.inr (Or.inr (Or.inl ⟨f, List.mem_append_right _ hf, hle⟩))
        · exact Or.inr (Or.inl hblocked)

omit R in
/-- A partitioned review is fail closed just where the verdict of the assessor is covered. -/
theorem partitioned_review_fail_closed
    (h : reviewPartitioned repr profileId sha256 call (fun _ => .ok cross) bound manifest inspection mechanical = .ok v) :
    FailClosed repr call manifest inspection mechanical cross v ↔
      CrossCovered repr call manifest inspection mechanical cross := by
  obtain ⟨verdicts, crossFindings, kind, findings, R⟩ := reviewPartitioned_ok h
  exact R.failClosed_iff.trans R.covered_iff.symm

end FailClosed

def reportOf (kind : ReviewVerdictKind) : ProviderResult where
  structuredOutput := some [("verdict", .str kind.value.toList), ("summary", .str ['k']), ("findings", .arr [])]

def samplePartition (partitionId : String) (file : Path) : Partition Unit where
  partitionId := partitionId
  files := [file]
  fileClasses := [.code]
  level := .l2
  diffHash := none
  charCount := 0
  diffTruncated := false
  generatedFiles := []
  lockfileFiles := []

def sampleBinding : Binding where
  risk := .high
  baseCommit := String.ofList (List.replicate 40 'a')
  resultCommit := String.ofList (List.replicate 40 'b')
  diffHash := some (String.ofList (List.replicate 64 'd'))

def sampleManifest : PartitionManifest Unit where
  policyRevision := "review-policy.v1"
  baseCommit := sampleBinding.baseCommit
  resultCommit := sampleBinding.resultCommit
  diffHash := none
  partitions := [samplePartition "p01" (codePoints "a"), samplePartition "p02" (codePoints "b")]
  generatedInventory := []
  lockfileInventory := []
  truncated := true
  totalFiles := 2
  totalChars := 40

def sampleInspection : GitInspection where
  changedFiles := [codePoints "a", codePoints "b"]
  diff := ascii "diff --git a/a b/a\ndiff --git a/b b/b\n"

def sampleReview (kind : ReviewVerdictKind) : Except ReviewError ReviewVerdict :=
  reviewPartitioned (fun _ => []) ['r'] (fun _ => String.ofList (List.replicate 64 'e')) (fun _ => .ok (reportOf .passed))
    (fun _ => .ok (reportOf kind)) sampleBinding sampleManifest sampleInspection []

theorem sampleReview_ok (kind : ReviewVerdictKind) (hkind : kind ≠ .blocked) :
    ∃ v, sampleReview kind = .ok v ∧ v.verdict = .passed := by
  have hok : (sampleReview kind).map (·.verdict) = .ok .passed := by
    cases kind with
    | blocked => exact absurd rfl hkind
    | _ => decide +kernel
  exact map_eq_ok.mp hok

theorem sampleReview_cross (kind : ReviewVerdictKind) :
    (reportOf kind).crossReading (fun _ => []) = some (kind, []) := by
  cases kind <;> decide +kernel

theorem partitioned_review_fail_closed_pass :
    ∃ v, sampleReview .passed = .ok v ∧ FailClosed (fun _ => []) (fun _ => .ok (reportOf .passed)) sampleManifest
      sampleInspection [] (reportOf .passed) v := by
  obtain ⟨v, hv, -⟩ := sampleReview_ok .passed (by decide)
  refine ⟨v, hv, (partitioned_review_fail_closed hv).mpr fun kind findings hread => ?_⟩
  cases (sampleReview_cross .passed).symm.trans hread
  exact Or.inl rfl

/-- An assessor that asks for changes and names no finding is passed over. -/
theorem cross_verdict_dropped : ∃ v, sampleReview .changesRequired = .ok v ∧ v.verdict = .passed ∧
    (reportOf .changesRequired).crossReading (fun _ => []) = some (.changesRequired, []) ∧
      ¬FailClosed (fun _ => []) (fun _ => .ok (reportOf .passed)) sampleManifest sampleInspection []
        (reportOf .changesRequired) v := by
  obtain ⟨v, hv, hpassed⟩ := sampleReview_ok .changesRequired (by decide)
  have hcross := sampleReview_cross .changesRequired
  refine ⟨v, hv, hpassed, hcross, fun hclosed => ?_⟩
  have hle := (hclosed.cross _ _ hcross).1
  rw [hpassed] at hle
  exact absurd hle (by decide)

end Vuzol.Review
