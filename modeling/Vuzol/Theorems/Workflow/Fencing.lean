import Vuzol.Theorems.Workflow.Writes

/-! Lease fencing. Workers hold the tokens that their claims returned; a token is good for one lease, and a
    lease that was taken away is lost for ever. -/

namespace Vuzol.Workflow

open Vuzol.Lib

/-- A transaction of the engine, or the direct completion that `storage/leasing.py` offers. -/
inductive LeaseOp where
  | engine (op : Op)
  | completeStep (token : LeaseToken) (result : String)

structure Leases where
  state : State
  issued : List LeaseToken := []

def issuedBy (s : State) : Op → List LeaseToken
  | .claimStep c => ((claimStep s c).map Prod.snd).toList
  | _ => []

def Leases.perform (w : Leases) : LeaseOp → Except Failure Leases
  | .engine op => do
    let t ← Workflow.perform w.state op
    .ok { state := t, issued := issuedBy w.state op ++ w.issued }
  | .completeStep token result => do
    let t ← Workflow.completeStep w.state token result
    .ok { w with state := t }

def Interleaved (w w' : Leases) : Prop := Reach Leases.perform (fun _ _ => True) w w'

def LeaseToken.fits (token : LeaseToken) (x : Step) : Prop := x.id = token.stepId ∧ token.holds x = true

structure Fenced (s : State) (token : LeaseToken) : Prop where
  start : startStep s token = .error (.leaseLost token.stepId)
  heartbeat : ∀ now leaseSeconds, heartbeatStep s token now leaseSeconds = .error (.leaseLost token.stepId)
  commit : ∀ f outcome, commitStepOutcome f s token outcome = .error (.leaseLost token.stepId)
  complete : ∀ result, completeStep s token result = .error (.leaseLost token.stepId)

/-- The operation takes the lease of step `id` away: it claims the step, recovers its expired lease, or is a
    pause or a cancel that takes effect while the step is leased or running. -/
def Supersedes (s : State) (id : Nat) : LeaseOp → Prop
  | .engine (.claimStep c) => ∃ token ∈ issuedBy s (.claimStep c), token.stepId = id
  | .engine (.recoverExpiredStep i now) => i = id ∧ ∃ x ∈ s.steps, x.id = id ∧ leaseExpired now x = true
  | .engine (.pauseTask _) => s.run.status ≠ .paused ∧ ∃ x ∈ s.steps, x.id = id ∧ x.status.isHeld = true
  | .engine (.cancelTask _) => s.run.status ≠ .cancelled ∧ ∃ x ∈ s.steps, x.id = id ∧ x.status.isHeld = true
  | _ => False

section Fencing
variable {s t : State} {x y : Step} {token : LeaseToken} {w w' : Leases} {op : LeaseOp}

theorem LeaseToken.holds_iff : token.holds x = true ↔
    x.leaseOwner = some token.owner ∧ x.leaseGeneration = token.generation := by
  simp [LeaseToken.holds]

structure Advanced (x y : Step) : Prop where
  id : y.id = x.id
  generation : x.leaseGeneration ≤ y.leaseGeneration
  lease : y.leaseOwner = x.leaseOwner ∧ y.leaseGeneration = x.leaseGeneration ∨ y.leaseOwner = none ∨
    x.leaseGeneration < y.leaseGeneration

theorem Wrote.advanced {q : Prop} (h : Wrote q x y) : Advanced x y where
  id := h.id_eq
  generation := h.generation
  lease := by
    rcases h.lease with h | ⟨h, -⟩
    · exact Or.inl h
    · exact Or.inr (Or.inl h)

theorem Advanced.not_holds (h : Advanced x y) (hgen : token.generation ≤ x.leaseGeneration)
    (hx : ¬token.holds x = true) : ¬token.holds y = true := by
  rw [LeaseToken.holds_iff] at hx ⊢
  rintro ⟨ho, hg⟩
  rcases h.lease with ⟨ho', hg'⟩ | hnone | hlt
  · exact hx ⟨ho' ▸ ho, hg' ▸ hg⟩
  · rw [hnone] at ho
    cases ho
  · omega

theorem perform_advanced {a : Op} (hk : Keyed s) (h : perform s a = .ok t) :
    ∀ x ∈ s.steps, ∃ y ∈ t.steps, Advanced x y := by
  intro x hx
  by_cases hop : ∃ c, a = .claimStep c
  · obtain ⟨c, rfl⟩ := hop
    rcases perform_claim_cases h with rfl | ⟨z, hz, -, rfl⟩
    · exact ⟨x, hx, (Wrote.refl (q := True) x).advanced⟩
    · obtain ⟨hzmem, -⟩ := State.mem_of_step? hz
      by_cases hid : x.id = z.id
      · obtain rfl := eq_of_key_eq hk.nodup hx hzmem hid
        exact ⟨leaseStep c x, mem_put_self hx rfl, rfl, Nat.le_succ _, Or.inr (Or.inr (Nat.lt_succ_self _))⟩
      · exact ⟨x, mem_put_of_ne hx hid, (Wrote.refl (q := True) x).advanced⟩
  · obtain ⟨y, hy, hw⟩ := (perform_writes hk (fun c hc => hop ⟨c, hc⟩) h).rows.kept x hx
    exact ⟨y, hy, hw.advanced⟩

theorem Leases.perform_advanced (hk : Keyed w.state) (h : w.perform op = .ok w') :
    ∀ x ∈ w.state.steps, ∃ y ∈ w'.state.steps, Advanced x y := by
  cases op with
  | engine a =>
    obtain ⟨t, ht, h⟩ := bind_eq_ok.mp h
    cases h
    exact Workflow.perform_advanced hk ht
  | completeStep token result =>
    obtain ⟨t, ht, h⟩ := bind_eq_ok.mp h
    cases h
    intro x hx
    obtain ⟨y, hy, hw⟩ := (completeStep_writes (q := True) hk ht).rows.kept x hx
    exact ⟨y, hy, hw.advanced⟩

structure Issued (w : Leases) : Prop where
  keyed : Keyed w.state
  behind : ∀ token ∈ w.issued, ∃ x ∈ w.state.steps, x.id = token.stepId ∧ token.generation ≤ x.leaseGeneration
  unique : ∀ a ∈ w.issued, ∀ b ∈ w.issued, a.stepId = b.stepId → a.generation = b.generation → a = b

theorem Issued.row (h : Issued w) (ht : token ∈ w.issued) (hx : x ∈ w.state.steps) (hid : x.id = token.stepId) :
    token.generation ≤ x.leaseGeneration := by
  obtain ⟨z, hz, hzid, hgen⟩ := h.behind token ht
  rwa [eq_of_key_eq h.keyed.nodup hx hz (hid.trans hzid.symm)]

theorem issuedBy_next {a : Op} (h : perform s a = .ok t) (ht : token ∈ issuedBy s a) :
    ∃ x ∈ s.steps, ∃ y ∈ t.steps, x.id = token.stepId ∧ y.id = x.id ∧ token.generation = x.leaseGeneration + 1 ∧
      y.leaseGeneration = x.leaseGeneration + 1 := by
  cases a with
  | claimStep c =>
    cases hclaim : claimStep s c with
    | none => simp [issuedBy, hclaim] at ht
    | some r =>
      obtain ⟨x, hx, -, rfl⟩ := claimStep_eq_some hclaim
      simp only [perform, hclaim, Option.elim_some, Except.ok.injEq] at h
      obtain rfl : token = _ := by simpa [issuedBy, hclaim] using ht
      obtain ⟨hmem, -⟩ := State.mem_of_step? hx
      refine ⟨x, hmem, leaseStep c x, ?_, rfl, rfl, rfl, rfl⟩
      rw [← h]
      exact mem_put_self hmem rfl
  | _ => cases ht

theorem Leases.perform_keyed (hk : Keyed w.state) (h : w.perform op = .ok w') : Keyed w'.state := by
  cases op with
  | engine a =>
    obtain ⟨t, ht, h⟩ := bind_eq_ok.mp h
    cases h
    exact Workflow.perform_keyed hk ht
  | completeStep token result =>
    obtain ⟨t, ht, h⟩ := bind_eq_ok.mp h
    cases h
    exact (completeStep_writes (q := True) hk ht).keyed

theorem Leases.perform_issued (h : w.perform op = .ok w') :
    w'.issued = w.issued ∨ ∃ a t, op = .engine a ∧ Workflow.perform w.state a = .ok t ∧ w'.state = t ∧
      w'.issued = issuedBy w.state a ++ w.issued := by
  cases op with
  | engine a =>
    obtain ⟨t, ht, h⟩ := bind_eq_ok.mp h
    cases h
    exact Or.inr ⟨a, t, rfl, ht, rfl, rfl⟩
  | completeStep token result =>
    obtain ⟨t, ht, h⟩ := bind_eq_ok.mp h
    cases h
    exact Or.inl rfl

theorem Issued.keep (h : Issued w) (hp : w.perform op = .ok w') : Issued w' := by
  have hadv := Leases.perform_advanced h.keyed hp
  have hk := Leases.perform_keyed h.keyed hp
  have hold : ∀ token ∈ w.issued, ∃ x ∈ w'.state.steps, x.id = token.stepId ∧ token.generation ≤ x.leaseGeneration := by
    intro token ht
    obtain ⟨x, hx, hid, hgen⟩ := h.behind token ht
    obtain ⟨y, hy, hxy⟩ := hadv x hx
    exact ⟨y, hy, hxy.id.trans hid, Nat.le_trans hgen hxy.generation⟩
  rcases Leases.perform_issued hp with hsame | ⟨a, t, -, ha, hstate, hnew⟩
  · exact ⟨hk, hsame ▸ hold, hsame ▸ h.unique⟩
  · -- The new token is one generation ahead of every older token of its step.
    have hahead : ∀ token ∈ issuedBy w.state a, ∀ old ∈ w.issued, old.stepId = token.stepId →
        old.generation < token.generation := by
      intro token ht old hold hid
      obtain ⟨x, hx, -, -, hxid, -, hgen, -⟩ := issuedBy_next ha ht
      have := h.row hold hx (hxid.trans hid.symm)
      omega
    have hone : ∀ a1 ∈ issuedBy w.state a, ∀ a2 ∈ issuedBy w.state a, a1 = a2 := by
      intro a1 h1 a2 h2
      cases a with
      | claimStep c =>
        rw [issuedBy, Option.mem_toList] at h1 h2
        exact Option.mem_unique h1 h2
      | _ => cases h1
    refine ⟨hk, ?_, ?_⟩
    · intro token ht
      rw [hnew, List.mem_append] at ht
      rcases ht with ht | ht
      · obtain ⟨x, -, y, hy, hxid, hyid, hgen, hygen⟩ := issuedBy_next ha ht
        exact ⟨y, hstate ▸ hy, hyid.trans hxid, by omega⟩
      · exact hold token ht
    · intro a1 h1 a2 h2 hid hgen
      rw [hnew, List.mem_append] at h1 h2
      rcases h1 with h1 | h1 <;> rcases h2 with h2 | h2
      · exact hone a1 h1 a2 h2
      · have := hahead a1 h1 a2 h2 hid.symm
        omega
      · have := hahead a2 h2 a1 h1 hid
        omega
      · exact h.unique a1 h1 a2 h2 hid hgen

theorem Issued.reach (h : Issued w) (hr : Interleaved w w') : Issued w' :=
  hr.invariant h fun hu _ hp => hu.keep hp

structure Lost (w : Leases) (token : LeaseToken) : Prop where
  issued : token ∈ w.issued
  gone : ∀ x ∈ w.state.steps, ¬token.fits x

theorem Lost.keep (h : Issued w) (hl : Lost w token) (hp : w.perform op = .ok w') : Lost w' token where
  issued := by
    rcases Leases.perform_issued hp with hsame | ⟨a, t, -, -, -, hnew⟩
    · exact hsame ▸ hl.issued
    · rw [hnew]
      exact List.mem_append_right _ hl.issued
  gone := by
    rintro y hy ⟨hyid, hholds⟩
    obtain ⟨x, hx, hid, hgen⟩ := h.behind token hl.issued
    obtain ⟨z, hz, hxz⟩ := Leases.perform_advanced h.keyed hp x hx
    have hk := Leases.perform_keyed h.keyed hp
    obtain rfl : y = z := eq_of_key_eq hk.nodup hy hz (hyid.trans (hid.symm.trans hxz.id.symm))
    exact hxz.not_holds hgen (fun hx' => hl.gone x hx ⟨hid, hx'⟩) hholds

theorem Lost.reach (h : Issued w) (hl : Lost w token) (hr : Interleaved w w') : Lost w' token := by
  have hboth : Issued w' ∧ Lost w' token := by
    refine hr.invariant (P := fun v => Issued v ∧ Lost v token) ⟨h, hl⟩ ?_
    intro u v a hu _ hp
    exact ⟨hu.1.keep hp, hu.2.keep hu.1 hp⟩
  exact hboth.2

section
variable (h : ∀ x ∈ s.steps, ¬token.fits x)
include h

theorem not_holds_of_lost (hfind : s.step? token.stepId = some x) : token.holds x = false := by
  obtain ⟨hx, hid⟩ := State.mem_of_step? hfind
  simpa using fun hh => h x hx ⟨hid, hh⟩

theorem updateLeased_lost {matched : Step → Bool} {change : Step → Step} :
    updateLeased s token matched change = .error (.leaseLost token.stepId) := by
  unfold updateLeased
  cases hfind : s.step? token.stepId with
  | none => rfl
  | some x => simp [not_holds_of_lost h hfind]

theorem leasedRow_lost : leasedRow s token = .error (.leaseLost token.stepId) := by
  unfold leasedRow
  cases hfind : s.step? token.stepId with
  | none => rfl
  | some x => simp [not_holds_of_lost h hfind]

theorem fenced_of_lost : Fenced s token where
  start := by
    unfold startStep
    rw [updateLeased_lost h]
    rfl
  heartbeat _ _ := updateLeased_lost h
  commit _ _ := by
    unfold commitStepOutcome
    rw [leasedRow_lost h]
    rfl
  complete _ := updateLeased_lost h

end

theorem pauseTask_drops {expected : Option Nat} (h : pauseTask s expected = .ok t) (hrun : s.run.status ≠ .paused) :
    List.Forall₂ (fun x y => y.id = x.id ∧ (x.status.isHeld = true → y.leaseOwner = none)) s.steps t.steps := by
  unfold pauseTask at h
  obtain ⟨-, -, h⟩ := bind_eq_ok.mp h
  rw [if_neg hrun] at h
  split_ifs at h
  obtain ⟨s1, h1, h⟩ := bind_eq_ok.mp h
  obtain ⟨s2, h2, h⟩ := bind_eq_ok.mp h
  obtain ⟨rows, hrows, h⟩ := bind_eq_ok.mp h
  cases h
  rw [transitionTask_steps h2, transitionRun_steps h1] at hrows
  refine (forall₂_of_mapM hrows).imp fun x y hxy => ⟨(parkStep_wrote (q := True) hxy).id_eq, fun hheld => ?_⟩
  unfold parkStep at hxy
  rw [if_pos hheld] at hxy
  obtain ⟨y', -, hxy⟩ := bind_eq_ok.mp hxy
  cases hxy
  rfl

theorem cancelTask_drops {expected : Option Nat} (h : cancelTask s expected = .ok t)
    (hrun : s.run.status ≠ .cancelled) :
    List.Forall₂ (fun x y => y.id = x.id ∧ (x.status.isHeld = true → y.leaseOwner = none)) s.steps t.steps := by
  unfold cancelTask at h
  obtain ⟨-, -, h⟩ := bind_eq_ok.mp h
  rw [if_neg hrun] at h
  split_ifs at h
  obtain ⟨rows, hrows, h⟩ := bind_eq_ok.mp h
  obtain ⟨s1, h1, h⟩ := bind_eq_ok.mp h
  obtain ⟨s2, h2, h⟩ := bind_eq_ok.mp h
  cases h
  have hs2 : s2.steps = rows := (settleTask_steps h2).trans (transitionRun_steps h1)
  rw [foldl_abandon_steps, hs2]
  refine (forall₂_of_mapM hrows).imp fun x y hxy => ⟨(cancelStep_wrote (q := True) hxy).id_eq, fun hheld => ?_⟩
  have hopen : x.status.isTerminal = false := by cases hs : x.status <;> simp_all [StepStatus.isHeld] <;> rfl
  unfold cancelStep at hxy
  rw [hopen] at hxy
  obtain ⟨y', -, hxy⟩ := bind_eq_ok.mp hxy
  cases hxy
  rfl

theorem not_fits_of_dropped {rows' : List Step} (hn : (rows'.map Step.key).Nodup)
    (h : ∃ y ∈ rows', y.id = x.id ∧ y.leaseOwner = none) (hid : x.id = token.stepId) : ∀ z ∈ rows', ¬token.fits z := by
  rintro z hz ⟨hzid, hholds⟩
  obtain ⟨y, hy, hyid, hnone⟩ := h
  obtain rfl := eq_of_key_eq hn hz hy (hzid.trans (hid.symm.trans hyid.symm))
  rw [LeaseToken.holds_iff, hnone] at hholds
  cases hholds.1

theorem exists_of_forall₂ {R : Step → Step → Prop} {rows rows' : List Step} (h : List.Forall₂ R rows rows')
    (hx : x ∈ rows) : ∃ y ∈ rows', R x y := (Rewrites.of_forall₂ (N := fun _ => True) h).kept x hx

theorem Issued.superseded (h : Issued w) (ht : token ∈ w.issued) (hp : w.perform op = .ok w')
    (hsup : Supersedes w.state token.stepId op) : Lost w' token := by
  have hk := Leases.perform_keyed h.keyed hp
  have hmem : token ∈ w'.issued := by
    rcases Leases.perform_issued hp with hsame | ⟨a, t, -, -, -, hnew⟩
    · exact hsame ▸ ht
    · rw [hnew]
      exact List.mem_append_right _ ht
  refine ⟨hmem, ?_⟩
  cases op with
  | completeStep => cases hsup
  | engine a =>
    obtain ⟨t, hperf, hp⟩ := bind_eq_ok.mp hp
    cases hp
    cases a with
    | claimStep c =>
      obtain ⟨new, hnew, hid⟩ := hsup
      obtain ⟨x, hx, y, hy, hxid, hyid, -, hgen⟩ := issuedBy_next hperf hnew
      have hbehind := h.row ht hx (hxid.trans hid)
      rintro z hz ⟨hzid, hholds⟩
      obtain rfl : z = y := eq_of_key_eq hk.nodup hz hy (hzid.trans (hid.symm.trans (hxid.symm.trans hyid.symm)))
      have := (LeaseToken.holds_iff.mp hholds).2
      omega
    | recoverExpiredStep i now =>
      obtain ⟨rfl, x, hx, hid, hexp⟩ := hsup
      have hfind : w.state.step? token.stepId = some x := hid ▸ State.step?_of_mem h.keyed.nodup hx
      change recoverExpiredStep w.state token.stepId now = .ok t at hperf
      unfold recoverExpiredStep at hperf
      rw [hfind] at hperf
      simp only [hexp, if_true] at hperf
      exact not_fits_of_dropped hk.nodup (recoverOne_writes (q := True) h.keyed hx hperf).2 hid
    | pauseTask expected =>
      obtain ⟨hrun, x, hx, hid, hheld⟩ := hsup
      obtain ⟨y, hy, hyid, hdrop⟩ := exists_of_forall₂ (pauseTask_drops hperf hrun) hx
      exact not_fits_of_dropped hk.nodup ⟨y, hy, hyid, hdrop hheld⟩ hid
    | cancelTask expected =>
      obtain ⟨hrun, x, hx, hid, hheld⟩ := hsup
      obtain ⟨y, hy, hyid, hdrop⟩ := exists_of_forall₂ (cancelTask_drops hperf hrun) hx
      exact not_fits_of_dropped hk.nodup ⟨y, hy, hyid, hdrop hheld⟩ hid
    | _ => cases hsup

end Fencing

theorem Materialization.keyed {m : Materialization} {s : State} (h : materializeRun m = .ok s) : Keyed s := by
  have hlaid := m.laid
  rw [← (materializeRun_eq_ok h).2.2] at hlaid
  exact hlaid.keys

/-- Leases are fenced under every interleaving. A generation never goes back and a claim moves it on; at
    most one issued token matches a row; and a token whose lease was taken away by a later claim, by
    recovery, by a pause or by a cancel is refused by every call ever after, whoever leases the step then. -/
theorem lease_fencing {m : Materialization} {s₀ : State} {w : Leases} (hm : materializeRun m = .ok s₀)
    (hw : Interleaved { state := s₀ } w) :
    (∀ op w', w.perform op = .ok w' → ∀ x ∈ w.state.steps, ∃ y ∈ w'.state.steps, y.id = x.id ∧
      x.leaseGeneration ≤ y.leaseGeneration ∧
      ((∃ c, op = .engine (.claimStep c) ∧ ∃ token ∈ issuedBy w.state (.claimStep c), token.stepId = x.id) →
        x.leaseGeneration < y.leaseGeneration)) ∧
    (∀ x ∈ w.state.steps, ∀ a ∈ w.issued, ∀ b ∈ w.issued, a.fits x → b.fits x → a = b) ∧
    (∀ op w', w.perform op = .ok w' → ∀ token ∈ w.issued, Supersedes w.state token.stepId op →
      ∀ w'', Interleaved w' w'' → Fenced w''.state token) := by
  have hissued : Issued w :=
    Issued.reach (w := { state := s₀ }) ⟨Materialization.keyed hm, by simp, by simp⟩ hw
  refine ⟨?_, ?_, ?_⟩
  · intro op w' hp x hx
    obtain ⟨y, hy, hxy⟩ := Leases.perform_advanced hissued.keyed hp x hx
    refine ⟨y, hy, hxy.id, hxy.generation, ?_⟩
    rintro ⟨c, rfl, token, ht, hid⟩
    obtain ⟨t, hperf, hp'⟩ := bind_eq_ok.mp hp
    obtain ⟨x', hx', y', hy', hxid', hyid', -, hgen⟩ := issuedBy_next hperf ht
    have hk := Leases.perform_keyed hissued.keyed hp
    cases hp'
    obtain rfl : x = x' := eq_of_key_eq hissued.keyed.nodup hx hx' (hid.symm.trans hxid'.symm)
    obtain rfl : y = y' := eq_of_key_eq hk.nodup hy hy' (hxy.id.trans hyid'.symm)
    omega
  · intro x hx a ha b hb hax hbx
    refine hissued.unique a ha b hb (hax.1.symm.trans hbx.1) ?_
    rw [← (LeaseToken.holds_iff.mp hax.2).2, ← (LeaseToken.holds_iff.mp hbx.2).2]
  · intro op w' hp token ht hsup w'' hr
    exact fenced_of_lost ((hissued.superseded ht hp hsup).reach (hissued.keep hp) hr).gone

def sampleRun : Materialization where
  draft := { taskType := .coding, operation := .fix }
  task := { status := .interpreted, userId := 7, projectId := some "site" }

def sampleClaim (stepId : Nat) : Claim where
  stepId := stepId
  owner := "worker"
  leaseSeconds := 60
  capabilities := [.repositoryRead, .filesystemWrite, .codeEdit, .git, .projectShell, .hostAdmin]
  queueClasses := [.control, .light, .heavy, .privileged]
  now := 0

theorem lease_fencing_after_pause : ∃ w w' : Leases, ∃ token ∈ w.issued,
    w.perform (.engine (.pauseTask none)) = .ok w' ∧ Fenced w'.state token := by
  obtain ⟨s0, hm, hs0⟩ := exists_of_ends (r := materializeRun sampleRun) (p := fun s =>
    ends (fun w : Leases => w.issued == [⟨1, "worker", 1⟩] && w.state.run.status == .running &&
      w.state.steps.any (fun x => x.id == 1 && x.status.isHeld) && ends (fun _ => true)
        (w.perform (.engine (.pauseTask none))))
      (runOps Leases.perform { state := s } [.engine (.startRun {}), .engine (.claimStep (sampleClaim 1))]))
    (by decide +kernel)
  obtain ⟨w, hw, hchecks⟩ := exists_of_ends hs0
  simp only [Bool.and_eq_true, beq_iff_eq, List.any_eq_true] at hchecks
  obtain ⟨⟨⟨hissued, hrun⟩, x, hx, hid, hheld⟩, hpause⟩ := hchecks
  obtain ⟨w', hw', -⟩ := exists_of_ends hpause
  have hmem : (⟨1, "worker", 1⟩ : LeaseToken) ∈ w.issued := by rw [hissued]; simp
  refine ⟨w, w', _, hmem, hw', ?_⟩
  refine (lease_fencing hm (reach_of_runOps (fun _ _ _ => trivial) hw)).2.2 _ w' hw' _ hmem ⟨?_, x, hx, hid, hheld⟩ w' .refl
  rw [hrun]
  decide

end Vuzol.Workflow
