import Vuzol.Leadership.Jobs

/-! A research job is claimed at most once and reported exactly once. Every transaction moves each row of its goal
    along one edge, with a wakeup where the job is finished and a claim where it starts to run; what the open
    transaction of `claim_jobs` has written concerns rows that no other transaction can touch. -/

namespace Vuzol.Leadership

open Vuzol.Discussion (Lifecycle)

variable {limits : JobLimits} {s t : JobTables} {j k : LeadJob} {tx : ClaimTx} {n : Nat}
variable {tx' : ClaimTx} {p : LeadJob → Bool} {goalId now : Nat}

/-! ### Rows -/

def JobState.Edge (a b : JobState) : Prop :=
  b = a ∨ (a = .queued ∧ b = .running) ∨ (a = .running ∧ b.isFinished = true) ∨ (a.isLive = true ∧ b = .cancelled)

instance (a b : JobState) : Decidable (a.Edge b) := inferInstanceAs (Decidable (_ ∨ _))

def JobState.Follows (a b : JobState) : Prop := b = a ∨ a = .queued ∨ (a = .running ∧ b.isLive = false)

instance (a b : JobState) : Decidable (a.Follows b) := inferInstanceAs (Decidable (_ ∨ _))

theorem JobState.Follows.edge {a b c : JobState} (h : a.Follows b) (e : b.Edge c) : a.Follows c := by
  cases a <;> cases b <;> cases c <;> revert h e <;> decide

theorem JobState.Edge.live {a b : JobState} (e : a.Edge b) (h : b.isLive = true) : a.isLive = true := by
  cases a <;> cases b <;> revert h e <;> decide

def claimsOf (issued : List JobClaim) (jobId : Nat) : Nat := issued.countP (·.jobId = jobId)

def JobState.claimed : JobState → Nat → Prop
  | .queued, n => n = 0
  | .cancelled, n => n ≤ 1
  | _, n => n = 1

structure RowSound (j : LeadJob) (woken claimed : Nat) : Prop where
  generation : j.leaseGeneration = claimed
  claims : j.state.claimed claimed
  wakeup : woken = if j.state.isFinished then 1 else 0

theorem RowSound.queued (hs : j.state = .queued) (hg : j.leaseGeneration = 0) : RowSound j 0 0 := by
  refine ⟨hg, ?_, ?_⟩ <;> rw [hs] <;> rfl

structure Moves (j k : LeadJob) (woken : Nat) : Prop where
  id : k.id = j.id
  goalId : k.goalId = j.goalId
  generation : k.leaseGeneration = j.leaseGeneration
  state : (k.state = j.state ∧ woken = 0) ∨ (j.state = .running ∧ k.state.isFinished = true ∧ woken = 1) ∨
    (j.state.isLive = true ∧ k.state = .cancelled ∧ woken = 0)

theorem Moves.refl : Moves j j 0 := ⟨rfl, rfl, rfl, .inl ⟨rfl, rfl⟩⟩

theorem Moves.edge (h : Moves j k n) : j.state.Edge k.state := by
  rcases h.state with ⟨hs, -⟩ | ⟨hr, hf, -⟩ | ⟨hl, hc, -⟩
  · exact .inl hs
  · exact .inr (.inr (.inl ⟨hr, hf⟩))
  · exact .inr (.inr (.inr ⟨hl, hc⟩))

theorem Moves.running (h : Moves j k n) (hk : k.state = .running) : j.state = .running := by
  rcases h.state with ⟨hs, -⟩ | ⟨hr, -, -⟩ | ⟨-, hc, -⟩
  · rw [← hs]
    exact hk
  · exact hr
  · rw [hk] at hc
    cases hc

theorem RowSound.moves {w c : Nat} (h : RowSound j w c) (hm : Moves j k n) : RowSound k (w + n) c := by
  obtain ⟨hg, hc, hw⟩ := h
  refine ⟨hm.generation.trans hg, ?_, ?_⟩ <;>
    rcases hm.state with ⟨hs, hn⟩ | ⟨hr, hf, hn⟩ | ⟨hl, hs, hn⟩
  · rw [hs]
    exact hc
  · rw [hr] at hc
    cases hk : k.state <;> rw [hk] at hf <;> simp only [JobState.isFinished, Bool.false_eq_true] at hf <;> exact hc
  · rw [hs]
    cases hj : j.state <;> rw [hj] at hl hc <;>
      simp only [JobState.claimed, JobState.isLive, Bool.false_eq_true] at hc hl ⊢ <;> omega
  · rw [hs, hn, hw]
    rfl
  · rw [hr] at hw
    rw [hf, hn, hw]
    rfl
  · rw [hs, hn, hw]
    cases hj : j.state <;> rw [hj] at hl <;> simp only [JobState.isLive, Bool.false_eq_true] at hl <;> rfl

variable {leaseSeconds : Nat}

theorem RowSound.claim {w c : Nat} {owner : String} (h : RowSound j w c) (hq : j.state = .queued) :
    RowSound (j.claimed owner leaseSeconds now) w (c + 1) := by
  obtain ⟨hg, hc, hw⟩ := h
  rw [hq] at hc hw
  refine ⟨by rw [← hg]; rfl, ?_, ?_⟩
  · change c + 1 = 1
    change c = 0 at hc
    rw [hc]
  · rw [hw]
    rfl

/-! ### What a transaction changes -/

/-- The rows that a transaction leaves: it moves rows of goals that are not locked, and inserts the wakeups of the
    jobs that it finishes. -/
structure Changes (locked : List Nat) (s t : JobTables) (f : LeadJob → LeadJob) (woken : List Nat) : Prop where
  jobs : t.jobs = s.jobs.map f
  wakeups : t.wakeups = s.wakeups ++ woken
  issued : t.issued = s.issued
  moves : ∀ j ∈ s.jobs, Moves j (f j) (woken.count j.id)
  free : ∀ j ∈ s.jobs, j.goalId ∈ locked → f j = j ∧ woken.count j.id = 0
  known : ∀ i ∈ woken, ∃ j ∈ s.jobs, j.id = i

variable {locked : List Nat} {f : LeadJob → LeadJob} {woken : List Nat}

theorem terminal_moves {state : JobState} {reason : Option String}
    (h : (j.state = .running ∧ state.isFinished = true ∧ n = 1) ∨ (j.state.isLive = true ∧ state = .cancelled ∧ n = 0)) :
    Moves j (j.terminal state now reason) n :=
  ⟨rfl, rfl, rfl, .inr h⟩

theorem edit_changes (hm : ∀ j ∈ s.jobs, p j = true → Moves j (f j) 0) (hfree : ∀ j ∈ s.jobs, p j = true → j.goalId ∉ locked) :
    Changes locked s (s.edit p f) (fun j => if p j then f j else j) [] where
  jobs := rfl
  wakeups := by simp [JobTables.edit]
  issued := rfl
  moves j hj := by
    by_cases hp : p j = true
    · simpa [hp] using hm j hj hp
    · simpa [hp] using Moves.refl
  free j hj hl := by
    have hp : ¬ p j = true := fun hp => hfree j hj hp hl
    simp [hp]
  known := by simp

/-! ### Tables -/

structure Sound (limits : JobLimits) (s : JobTables) : Prop where
  ids : s.jobs.map (·.id) = List.range s.jobs.length
  rows : ∀ j ∈ s.jobs, RowSound j (s.wakeups.count j.id) (claimsOf s.issued j.id)
  woken : ∀ i ∈ s.wakeups, i < s.jobs.length
  issued : ∀ c ∈ s.issued, c.jobId < s.jobs.length
  live : ∀ g, s.liveJobs g ≤ limits.leadJobsNonterminalPerGoal
  running : s.jobs.countP (·.state = .running) ≤ limits.concurrency

theorem Sound.nodup (h : Sound limits s) : (s.jobs.map (·.id)).Nodup := by
  rw [h.ids]
  exact List.nodup_range

theorem Sound.eq_of_id (h : Sound limits s) (hj : j ∈ s.jobs) (hk : k ∈ s.jobs) (hid : j.id = k.id) : j = k :=
  Lib.eq_of_key_eq h.nodup hj hk hid

theorem Sound.lt (h : Sound limits s) (hj : j ∈ s.jobs) : j.id < s.jobs.length := by
  have hmem : j.id ∈ s.jobs.map (·.id) := List.mem_map_of_mem hj
  rw [h.ids] at hmem
  exact List.mem_range.mp hmem

theorem count_eq_zero_of_lt {l : List Nat} {m : Nat} (h : ∀ i ∈ l, i < m) : l.count m = 0 := by
  rw [List.count_eq_zero]
  intro hm
  exact absurd (h m hm) (Nat.lt_irrefl m)

theorem claimsOf_eq_zero_of_lt {l : List JobClaim} {m : Nat} (h : ∀ c ∈ l, c.jobId < m) : claimsOf l m = 0 := by
  rw [claimsOf, List.countP_eq_zero]
  intro c hc heq
  have := h c hc
  rw [of_decide_eq_true heq] at this
  exact absurd this (Nat.lt_irrefl m)

theorem Changes.mem (h : Changes locked s t f woken) : k ∈ t.jobs ↔ ∃ j ∈ s.jobs, f j = k := by
  rw [h.jobs, List.mem_map]

theorem Changes.length (h : Changes locked s t f woken) : t.jobs.length = s.jobs.length := by
  rw [h.jobs, List.length_map]

theorem Changes.countP_le (h : Changes locked s t f woken) {q : LeadJob → Bool}
    (hpq : ∀ j ∈ s.jobs, p (f j) = true → q j = true) : t.jobs.countP p ≤ s.jobs.countP q := by
  rw [h.jobs, List.countP_map]
  exact List.countP_mono_left hpq

theorem Sound.changes (hs : Sound limits s) (h : Changes locked s t f woken) : Sound limits t where
  ids := by
    have hcol : t.jobs.map (·.id) = s.jobs.map (·.id) := by
      rw [h.jobs, List.map_map]
      exact List.map_congr_left fun j hj => (h.moves j hj).id
    rw [hcol, hs.ids, h.length]
  rows k hk := by
    obtain ⟨j, hj, rfl⟩ := h.mem.mp hk
    have hm := h.moves j hj
    rw [h.wakeups, h.issued, hm.id, List.count_append]
    exact (hs.rows j hj).moves hm
  woken i hi := by
    rw [h.wakeups, List.mem_append] at hi
    rw [h.length]
    rcases hi with hi | hi
    · exact hs.woken i hi
    · obtain ⟨j, hj, rfl⟩ := h.known i hi
      exact hs.lt hj
  issued c hc := by
    rw [h.issued] at hc
    rw [h.length]
    exact hs.issued c hc
  live g := by
    refine le_trans (h.countP_le ?_) (hs.live g)
    intro j hj hp
    have hm := h.moves j hj
    simp only [hm.goalId, Bool.and_eq_true] at hp ⊢
    exact ⟨hp.1, hm.edge.live hp.2⟩
  running := by
    refine le_trans (h.countP_le ?_) hs.running
    intro j hj hp
    simpa using (h.moves j hj).running (of_decide_eq_true hp)

theorem Sound.append (hs : Sound limits s) (hid : k.id = s.jobs.length) (hq : k.state = .queued)
    (hg : k.leaseGeneration = 0) (hlive : s.liveJobs k.goalId < limits.leadJobsNonterminalPerGoal) :
    Sound limits { s with jobs := s.jobs ++ [k] } where
  ids := by simp [hs.ids, hid, List.range_succ]
  rows j hj := by
    rcases List.mem_append.mp hj with hj | hj
    · exact hs.rows j hj
    · have hjk : j = k := by simpa using hj
      rw [hjk, hid]
      change RowSound k (s.wakeups.count _) (claimsOf s.issued _)
      rw [count_eq_zero_of_lt hs.woken, claimsOf_eq_zero_of_lt hs.issued]
      exact .queued hq hg
  woken i hi := by
    have := hs.woken i hi
    simp only [List.length_append, List.length_singleton]
    omega
  issued c hc := by
    have := hs.issued c hc
    simp only [List.length_append, List.length_singleton]
    omega
  live g := by
    have happ : JobTables.liveJobs { s with jobs := s.jobs ++ [k] } g =
        s.liveJobs g + if k.goalId = g then 1 else 0 := by
      by_cases hgk : k.goalId = g <;>
        simp [JobTables.liveJobs, List.countP_append, hq, JobState.isLive, hgk]
    rw [happ]
    by_cases hgk : k.goalId = g
    · subst hgk
      rw [if_pos rfl]
      exact hlive
    · rw [if_neg hgk]
      exact hs.live g
  running := by
    rw [List.countP_append]
    simp only [List.countP_singleton, hq]
    simpa using hs.running

/-! ### Transactions -/

theorem mem_of_find? (h : s.jobs.find? p = some j) : j ∈ s.jobs ∧ p j = true :=
  ⟨List.mem_of_find?_eq_some h, List.find?_some h⟩

theorem finish_changes (hs : Sound limits s) (hj : j ∈ s.jobs) (hr : j.state = .running) (hfree : j.goalId ∉ locked)
    (hm : Moves j (f j) 1) :
    Changes locked s { s.edit (·.id = j.id) f with wakeups := finishedWakeup s.wakeups j.id }
      (fun k => if k.id = j.id then f k else k) [j.id] where
  jobs := by simp [JobTables.edit]
  wakeups := by
    have hw := (hs.rows j hj).wakeup
    rw [hr] at hw
    have hnot : j.id ∉ s.wakeups := List.count_eq_zero.mp hw
    simp [finishedWakeup, hnot]
  issued := rfl
  moves k hk := by
    by_cases hid : k.id = j.id
    · have hkj := hs.eq_of_id hk hj hid
      subst hkj
      simpa using hm
    · have hne : ¬ j.id = k.id := fun h => hid h.symm
      simpa [hid, hne] using Moves.refl
  free k hk hl := by
    have hid : k.id ≠ j.id := by
      intro hid
      rw [hs.eq_of_id hk hj hid] at hl
      exact hfree hl
    have hne : ¬ j.id = k.id := fun h => hid h.symm
    simp [hid, hne]
  known i hi := ⟨j, hj, (List.mem_singleton.mp hi).symm⟩

theorem edit_row_changes (hs : Sound limits s) (hj : j ∈ s.jobs) (hfree : j.goalId ∉ locked) (hm : Moves j (f j) 0) :
    Changes locked s (s.edit (·.id = j.id) f) (fun k => if (decide (k.id = j.id)) then f k else k) [] := by
  apply edit_changes
  · intro k hk hid
    rw [hs.eq_of_id hk hj (of_decide_eq_true hid)]
    exact hm
  · intro k hk hid
    rw [hs.eq_of_id hk hj (of_decide_eq_true hid)]
    exact hfree

theorem Changes.refl : Changes locked s s id [] where
  jobs := by simp
  wakeups := by simp
  issued := rfl
  moves _ _ := Moves.refl
  free _ _ _ := ⟨rfl, rfl⟩
  known := by simp

theorem cancelGoalJobs_changes (s : JobTables) (now : Nat) (hfree : goalId ∉ locked) :
    ∃ f woken, Changes locked s (s.cancelGoalJobs goalId now) f woken := by
  refine ⟨_, _, edit_changes ?_ ?_⟩
  · intro j _ hp
    simp only [Bool.and_eq_true, decide_eq_true_eq] at hp
    exact terminal_moves (.inr ⟨hp.2, rfl, rfl⟩)
  · intro j _ hp
    simp only [Bool.and_eq_true, decide_eq_true_eq] at hp
    rw [hp.1]
    exact hfree

theorem cancelJob_changes {jobId : Nat} (hfree : goalId ∉ locked) (h : s.cancelJob goalId jobId now = .ok t) :
    ∃ f woken, Changes locked s t f woken := by
  have hok : t = s.edit (fun j => j.id = jobId && j.goalId = goalId && j.state.isLive)
      fun j => j.terminal .cancelled now (some "cancelled") := by
    obtain ⟨-, -, h⟩ := Lib.bind_eq_ok.mp h
    exact (Except.ok.inj (Lib.check_eq_ok.mp h).2).symm
  subst hok
  refine ⟨_, _, edit_changes ?_ ?_⟩
  · intro j _ hp
    simp only [Bool.and_eq_true, decide_eq_true_eq] at hp
    exact terminal_moves (.inr ⟨hp.2, rfl, rfl⟩)
  · intro j _ hp
    simp only [Bool.and_eq_true, decide_eq_true_eq] at hp
    rw [hp.1.2]
    exact hfree

theorem renewJob_changes {claim : JobClaim} {authorized : Bool} (hs : Sound limits s)
    (hfree : claim.goalId ∉ locked) (h : s.renewJob claim authorized leaseSeconds now = .ok t) :
    ∃ f woken, Changes locked s t f woken := by
  unfold JobTables.renewJob at h
  split at h
  · rename_i goal job hgoal hjob
    obtain ⟨hok, h⟩ := Lib.check_eq_ok.mp h
    cases h
    simp only [claimMatches, Bool.and_eq_true, decide_eq_true_eq] at hok
    refine ⟨_, _, edit_row_changes hs (mem_of_find? hjob).1 ?_ ⟨rfl, rfl, rfl, .inl ⟨rfl, rfl⟩⟩⟩
    rw [hok.2.1.1.1.1.1.1.2, hok.2.1.1.1.1.1.2]
    exact hfree
  · cases h

theorem completeJob_changes {claim : JobClaim} (outcome : JobOutcome) (now : Nat) (hs : Sound limits s)
    (hfree : claim.goalId ∉ locked) : ∃ f woken, Changes locked s (s.completeJob claim outcome now).1 f woken := by
  unfold JobTables.completeJob
  split
  · rename_i goal job hgoal hjob
    obtain ⟨hmem, hp⟩ := mem_of_find? hjob
    simp only [Bool.and_eq_true, decide_eq_true_eq] at hp
    have hunlocked : job.goalId ∉ locked := by
      rw [hp.2]
      exact hfree
    split
    · exact ⟨_, _, .refl⟩
    · rename_i hheld
      have hr : job.state = .running := by
        by_contra hc
        exact hheld (.inl hc)
      split
      · exact ⟨_, _, edit_row_changes hs hmem hunlocked (terminal_moves (.inr ⟨by rw [hr]; rfl, rfl, rfl⟩))⟩
      · split
        · exact ⟨_, _, finish_changes hs hmem hr hunlocked (terminal_moves (.inl ⟨hr, rfl, rfl⟩))⟩
        · refine ⟨_, _, finish_changes hs hmem hr hunlocked ?_⟩
          cases outcome with
          | result text => exact ⟨rfl, rfl, rfl, .inr (.inl ⟨hr, rfl, rfl⟩)⟩
          | failure reason => exact ⟨rfl, rfl, rfl, .inr (.inl ⟨hr, rfl, rfl⟩)⟩
  · exact ⟨_, _, .refl⟩

theorem enqueueJob_ok {payload : JobPayload} {sourceCommit : Except String String}
    (h : s.enqueueJob limits goalId payload sourceCommit = .ok t) :
    s.liveJobs goalId < limits.leadJobsNonterminalPerGoal ∧ ∃ k : LeadJob,
      k.id = s.jobs.length ∧ k.goalId = goalId ∧ k.state = .queued ∧ k.leaseGeneration = 0 ∧
        t = { s with jobs := s.jobs ++ [k] } := by
  unfold JobTables.enqueueJob at h
  split at h
  · cases h
  · obtain ⟨-, -, h⟩ := Lib.bind_eq_ok.mp h
    obtain ⟨-, h⟩ := Lib.guard_eq_ok.mp h
    obtain ⟨question, -, h⟩ := Lib.bind_eq_ok.mp h
    obtain ⟨-, h⟩ := Lib.guard_eq_ok.mp h
    obtain ⟨hlive, h⟩ := Lib.guard_eq_ok.mp h
    obtain ⟨pinnedCommit, -, h⟩ := Lib.bind_eq_ok.mp h
    cases h
    exact ⟨Nat.lt_of_not_le hlive, _, rfl, rfl, rfl, rfl, rfl⟩

theorem recoverJob_changes (now : Nat) {candidate : Nat × Nat} (hs : Sound limits s)
    (hc : ∀ j ∈ s.jobs, j.id = candidate.1 → j.goalId ∉ locked) :
    ∃ f woken, Changes locked s (s.recoverJob now candidate) f woken ∧
      ∀ j ∈ s.jobs, (f j).state = j.state ∨ j.state = .running := by
  unfold JobTables.recoverJob
  split
  · rename_i goal job hgoal hjob
    obtain ⟨hmem, hp⟩ := mem_of_find? hjob
    simp only [LeadJob.isExpired, Bool.and_eq_true, decide_eq_true_eq] at hp
    have hfree := hc job hmem hp.1
    have hother : ∀ (f : LeadJob → LeadJob), ∀ k ∈ s.jobs,
        (if k.id = job.id then f k else k).state = k.state ∨ k.state = .running := by
      intro f k hk
      by_cases hid : k.id = job.id
      · rw [hs.eq_of_id hk hmem hid]
        exact .inr hp.2.1
      · rw [if_neg hid]
        exact .inl rfl
    by_cases hlive : isLive goal.lifecycle = true
    · simp only [LeadJob.recovered, hlive, if_true]
      exact ⟨_, _, finish_changes hs hmem hp.2.1 hfree (terminal_moves (.inl ⟨hp.2.1, rfl, rfl⟩)), hother _⟩
    · simp only [LeadJob.recovered, hlive, Bool.false_eq_true, if_false]
      refine ⟨_, _, edit_row_changes hs hmem hfree (terminal_moves (.inr ⟨by rw [hp.2.1]; rfl, rfl, rfl⟩)), ?_⟩
      simpa only [decide_eq_true_eq] using hother _
  · exact ⟨_, _, .refl, fun _ _ => .inl rfl⟩

/-! ### The open claim -/

theorem row_write (tx : ClaimTx) (j k : LeadJob) : (tx.write k).row j = if k.id = j.id then k else tx.row j := by
  by_cases h : k.id = j.id <;> simp [ClaimTx.row, ClaimTx.write, h]

theorem row_of_quiet (h : ∀ w ∈ tx.written, w.id ≠ j.id) : tx.row j = j := by
  have hnone : tx.written.find? (fun w => decide (w.id = j.id)) = none := by
    rw [List.find?_eq_none]
    intro w hw hid
    exact h w hw (of_decide_eq_true hid)
  rw [ClaimTx.row, hnone]
  rfl

/-- What the transaction makes of a row: it moves along one edge with its wakeup and its claim, and a row whose goal
    is not locked is left alone. -/
structure TxRow (s : JobTables) (tx : ClaimTx) (j : LeadJob) : Prop where
  id : (tx.row j).id = j.id
  goalId : (tx.row j).goalId = j.goalId
  edge : j.state.Edge (tx.row j).state
  sound : RowSound (tx.row j) (s.wakeups.count j.id + tx.woken.count j.id)
    (claimsOf s.issued j.id + claimsOf tx.claims j.id)
  quiet : j.goalId ∉ tx.locked →
    (∀ w ∈ tx.written, w.id ≠ j.id) ∧ tx.woken.count j.id = 0 ∧ claimsOf tx.claims j.id = 0

def ClaimTx.active (tx : ClaimTx) (s : JobTables) : Nat := s.jobs.countP fun j => (tx.row j).state = .running

def ClaimTx.Capacity (tx : ClaimTx) (limits : JobLimits) (s : JobTables) : Prop :=
  match tx.phase with
  | .recovering => tx.claims = []
  | .claiming available =>
    tx.active s + available ≤ limits.concurrency + tx.claims.length ∧ (tx.candidates ≠ [] → tx.claims.length < available)

structure TxSound (limits : JobLimits) (s : JobTables) (tx : ClaimTx) : Prop where
  rows : ∀ j ∈ s.jobs, TxRow s tx j
  written : ∀ w ∈ tx.written, ∃ j ∈ s.jobs, j.id = w.id
  woken : ∀ i ∈ tx.woken, i < s.jobs.length
  claims : ∀ c ∈ tx.claims, c.jobId < s.jobs.length
  candidates : ∀ c ∈ tx.candidates, ∃ j ∈ s.jobs, j.id = c.1 ∧ j.goalId = c.2
  active : tx.active s ≤ limits.concurrency
  capacity : tx.Capacity limits s

theorem ClaimTx.Capacity.mono (h : tx.Capacity limits s) (ha : tx.active t ≤ tx.active s) : tx.Capacity limits t := by
  unfold ClaimTx.Capacity at h ⊢
  split <;> rename_i hp <;> rw [hp] at h
  · exact h
  · exact ⟨by have := h.1; omega, h.2⟩

theorem TxRow.row_eq (h : TxRow s tx j) (hl : j.goalId ∉ tx.locked) (hid : k.id = j.id) : tx.row k = k := by
  apply row_of_quiet
  rw [hid]
  exact (h.quiet hl).1

theorem TxSound.active_le (hx : TxSound limits s tx) (h : Changes tx.locked s t f woken) : tx.active t ≤ tx.active s := by
  apply h.countP_le
  intro j hj hp
  have hrow := hx.rows j hj
  have hm := h.moves j hj
  by_cases hl : j.goalId ∈ tx.locked
  · rw [(h.free j hj hl).1] at hp
    exact hp
  · rw [hrow.row_eq hl hm.id] at hp
    rw [hrow.row_eq hl rfl]
    simpa using hm.running (of_decide_eq_true hp)

theorem TxSound.changes (hx : TxSound limits s tx) (h : Changes tx.locked s t f woken) : TxSound limits t tx where
  rows k hk := by
    obtain ⟨j, hj, rfl⟩ := h.mem.mp hk
    have hrow := hx.rows j hj
    have hm := h.moves j hj
    by_cases hl : j.goalId ∈ tx.locked
    · obtain ⟨hfj, hw⟩ := h.free j hj hl
      rw [hfj]
      refine { hrow with sound := ?_ }
      rw [h.wakeups, h.issued, List.count_append, hw]
      exact hrow.sound
    · have heq := hrow.row_eq hl hm.id
      obtain ⟨hwritten, hwoken, hclaims⟩ := hrow.quiet hl
      refine ⟨by rw [heq], by rw [heq], by rw [heq]; exact .inl rfl, ?_, ?_⟩
      · have hsound := hrow.sound
        rw [hrow.row_eq hl rfl] at hsound
        rw [heq, h.wakeups, h.issued, hm.id, List.count_append]
        have hk := hsound.moves hm
        rw [hwoken] at hk ⊢
        simpa using hk
      · rw [hm.id]
        exact fun _ => ⟨hwritten, hwoken, hclaims⟩
  written w hw := by
    obtain ⟨j, hj, hid⟩ := hx.written w hw
    exact ⟨f j, h.mem.mpr ⟨j, hj, rfl⟩, (h.moves j hj).id.trans hid⟩
  woken i hi := by
    rw [h.length]
    exact hx.woken i hi
  claims c hc := by
    rw [h.length]
    exact hx.claims c hc
  candidates c hc := by
    obtain ⟨j, hj, hid, hgoal⟩ := hx.candidates c hc
    exact ⟨f j, h.mem.mpr ⟨j, hj, rfl⟩, (h.moves j hj).id.trans hid, (h.moves j hj).goalId.trans hgoal⟩
  active := le_trans (hx.active_le h) hx.active
  capacity := hx.capacity.mono (hx.active_le h)

theorem TxSound.append (hs : Sound limits s) (hx : TxSound limits s tx) (hid : k.id = s.jobs.length)
    (hq : k.state = .queued) (hg : k.leaseGeneration = 0) : TxSound limits { s with jobs := s.jobs ++ [k] } tx := by
  have hquiet : ∀ w ∈ tx.written, w.id ≠ k.id := by
    intro w hw heq
    obtain ⟨j, hj, hjw⟩ := hx.written w hw
    have := hs.lt hj
    omega
  have hrow := row_of_quiet hquiet
  have hactive : tx.active { s with jobs := s.jobs ++ [k] } = tx.active s := by
    simp [ClaimTx.active, List.countP_append, hrow, hq]
  refine ⟨?_, ?_, ?_, ?_, ?_, by rw [hactive]; exact hx.active, hx.capacity.mono (le_of_eq hactive)⟩
  · intro j hj
    rcases List.mem_append.mp hj with hj | hj
    · exact { hx.rows j hj with }
    · have hjk : j = k := by simpa using hj
      subst hjk
      have hwoken : tx.woken.count j.id = 0 := by rw [hid, count_eq_zero_of_lt hx.woken]
      have hclaims : claimsOf tx.claims j.id = 0 := by rw [hid, claimsOf_eq_zero_of_lt hx.claims]
      refine ⟨by rw [hrow], by rw [hrow], by rw [hrow]; exact .inl rfl, ?_, fun _ => ⟨hquiet, hwoken, hclaims⟩⟩
      rw [hrow, hwoken, hclaims, hid]
      change RowSound j (s.wakeups.count _ + 0) (claimsOf s.issued _ + 0)
      rw [count_eq_zero_of_lt hs.woken, claimsOf_eq_zero_of_lt hs.issued]
      exact .queued hq hg
  · intro w hw
    obtain ⟨j, hj, hjw⟩ := hx.written w hw
    exact ⟨j, List.mem_append_left _ hj, hjw⟩
  · intro i hi
    have := hx.woken i hi
    simp only [List.length_append, List.length_singleton]
    omega
  · intro c hc
    have := hx.claims c hc
    simp only [List.length_append, List.length_singleton]
    omega
  · intro c hc
    obtain ⟨j, hj, hjc⟩ := hx.candidates c hc
    exact ⟨j, List.mem_append_left _ hj, hjc⟩

/-- The transaction goes on to its next candidate without a change, with another goal locked perhaps. -/
theorem TxSound.next (hx : TxSound limits s tx) (hwritten : tx'.written = tx.written) (hwoken : tx'.woken = tx.woken)
    (hclaims : tx'.claims = tx.claims) (hphase : tx'.phase = tx.phase) (hcand : tx'.candidates = tx.candidates.tail)
    (hlocked : ∀ g ∈ tx.locked, g ∈ tx'.locked) : TxSound limits s tx' := by
  have hrow : ∀ j, tx'.row j = tx.row j := fun j => by simp only [ClaimTx.row, hwritten]
  have hactive : tx'.active s = tx.active s := by simp only [ClaimTx.active, hrow]
  refine ⟨?_, by rw [hwritten]; exact hx.written, by rw [hwoken]; exact hx.woken, by rw [hclaims]; exact hx.claims, ?_,
    by rw [hactive]; exact hx.active, ?_⟩
  · intro j hj
    have h := hx.rows j hj
    refine ⟨by rw [hrow, h.id], by rw [hrow, h.goalId], by rw [hrow]; exact h.edge, ?_, ?_⟩
    · rw [hrow, hwoken, hclaims]
      exact h.sound
    · intro hl
      rw [hwritten, hwoken, hclaims]
      exact h.quiet fun hg => hl (hlocked _ hg)
  · intro c hc
    rw [hcand] at hc
    exact hx.candidates c (List.mem_of_mem_tail hc)
  · have h := hx.capacity
    unfold ClaimTx.Capacity at h ⊢
    rw [hphase, hclaims, hactive]
    split <;> rename_i hp <;> rw [hp] at h
    · exact h
    · refine ⟨h.1, fun hne => h.2 ?_⟩
      intro hnil
      rw [hcand, hnil] at hne
      exact hne rfl

theorem TxSound.rows_write (hs : Sound limits s) (hx : TxSound limits s tx) (hj : j ∈ s.jobs)
    (hwritten : tx'.written = k :: tx.written) (hlocked : ∀ g ∈ tx.locked, g ∈ tx'.locked) (hgoal : j.goalId ∈ tx'.locked)
    (hid : k.id = j.id) (hkg : k.goalId = j.goalId) (hedge : j.state.Edge k.state)
    (hsound : RowSound k (s.wakeups.count j.id + tx'.woken.count j.id) (claimsOf s.issued j.id + claimsOf tx'.claims j.id))
    (hother : ∀ i, i ≠ j.id → tx'.woken.count i = tx.woken.count i ∧ claimsOf tx'.claims i = claimsOf tx.claims i) :
    ∀ i ∈ s.jobs, TxRow s tx' i := by
  intro i hi
  have hrow : tx'.row i = if k.id = i.id then k else tx.row i := by
    rw [← row_write]
    simp only [ClaimTx.row, ClaimTx.write, hwritten]
  by_cases hij : i.id = j.id
  · rw [hs.eq_of_id hi hj hij] at hrow ⊢
    rw [if_pos hid] at hrow
    exact ⟨by rw [hrow, hid], by rw [hrow, hkg], by rw [hrow]; exact hedge, by rw [hrow]; exact hsound,
      fun hl => absurd hgoal hl⟩
  · rw [if_neg fun h => hij (h.symm.trans hid)] at hrow
    have h := hx.rows i hi
    obtain ⟨hw, hc⟩ := hother i.id hij
    refine ⟨by rw [hrow, h.id], by rw [hrow, h.goalId], by rw [hrow]; exact h.edge, by rw [hrow, hw, hc]; exact h.sound, ?_⟩
    intro hl
    obtain ⟨hq, hqw, hqc⟩ := h.quiet fun hg => hl (hlocked _ hg)
    rw [hw, hc, hwritten]
    refine ⟨?_, hqw, hqc⟩
    intro w hw
    rcases List.mem_cons.mp hw with rfl | hw
    · rw [hid]
      exact fun h => hij h.symm
    · exact hq w hw

theorem claimsOf_append {l : List JobClaim} {c : JobClaim} {i : Nat} :
    claimsOf (l ++ [c]) i = claimsOf l i + if c.jobId = i then 1 else 0 := by
  by_cases h : c.jobId = i <;> simp [claimsOf, List.countP_append, h]

theorem mem_of_find?_view (hx : TxSound limits s tx) (h : (tx.view s).jobs.find? p = some k) :
    ∃ j ∈ s.jobs, k = tx.row j ∧ p k = true ∧ TxRow s tx j := by
  have hmem := List.mem_of_find?_eq_some h
  obtain ⟨j, hj, rfl⟩ := List.mem_map.mp hmem
  exact ⟨j, hj, rfl, List.find?_some h, hx.rows j hj⟩

theorem active_le_of_write (hwritten : tx'.written = k :: tx.written) (hk : k.state ≠ .running) :
    tx'.active s ≤ tx.active s := by
  apply List.countP_mono_left
  intro i _ hp
  have hrow : tx'.row i = if k.id = i.id then k else tx.row i := by
    rw [← row_write]
    simp only [ClaimTx.row, ClaimTx.write, hwritten]
  rw [hrow] at hp
  by_cases hki : k.id = i.id
  · rw [if_pos hki] at hp
    exact absurd (of_decide_eq_true hp) hk
  · rwa [if_neg hki] at hp

theorem TxRow.running_of_recovering (h : TxRow s tx j) (hs : Sound limits s) (hj : j ∈ s.jobs) (hclaims : tx.claims = [])
    (hr : (tx.row j).state = .running) : j.state = .running := by
  have hedge := h.edge
  rw [hr] at hedge
  rcases hedge with heq | ⟨hq, -⟩ | ⟨-, hf⟩ | ⟨-, hc⟩
  · exact heq.symm
  · have hc := h.sound.claims
    rw [hr, hclaims] at hc
    have h0 := (hs.rows j hj).claims
    rw [hq] at h0
    change claimsOf s.issued j.id = 0 at h0
    change claimsOf s.issued j.id + 0 = 1 at hc
    omega
  · cases hf
  · cases hc

theorem recovered_moves (lifecycle : Lifecycle) (now : Nat) (hr : j.state = .running) :
    Moves j (j.recovered lifecycle now) (if isLive lifecycle then 1 else 0) := by
  cases h : isLive lifecycle
  · simp only [LeadJob.recovered, h, Bool.false_eq_true, if_false]
    exact terminal_moves (.inr ⟨by rw [hr]; rfl, rfl, rfl⟩)
  · simp only [LeadJob.recovered, h, if_true]
    exact terminal_moves (.inl ⟨hr, rfl, rfl⟩)

theorem recovered_not_running {lifecycle : Lifecycle} : (j.recovered lifecycle now).state ≠ .running := by
  cases h : isLive lifecycle <;> simp [LeadJob.recovered, h, LeadJob.terminal]

theorem TxSound.goal_of_candidate {c : Nat × Nat} (hs : Sound limits s) (hx : TxSound limits s tx)
    (hc : c ∈ tx.candidates) (hj : j ∈ s.jobs) (hid : j.id = c.1) : j.goalId = c.2 := by
  obtain ⟨i, hi, hic, hig⟩ := hx.candidates c hc
  rw [hs.eq_of_id hj hi (hid.trans hic.symm)]
  exact hig

theorem TxSound.recover (hx : TxSound limits s tx) (lifecycle : Lifecycle) (now : Nat) (hs : Sound limits s)
    (hp : tx.phase = .recovering) (hj : j ∈ s.jobs) (hjgoal : j.goalId = goalId) (hr : (tx.row j).state = .running)
    (htx : tx' = { (tx.next.lock goalId).write ((tx.row j).recovered lifecycle now) with
      woken := tx.woken ++ if isLive lifecycle then [j.id] else [] }) : TxSound limits s tx' := by
  have hclaims : tx.claims = [] := by simpa only [ClaimTx.Capacity, hp] using hx.capacity
  have hrow := hx.rows j hj
  have hm := recovered_moves lifecycle now hr
  have hcount : ∀ i, tx'.woken.count i = tx.woken.count i + if j.id = i then (if isLive lifecycle then 1 else 0) else 0 := by
    intro i
    rw [htx]
    cases isLive lifecycle <;> by_cases hi : j.id = i <;> simp [List.count_append, hi]
  subst htx
  refine ⟨?_, ?_, ?_, hx.claims, ?_, le_trans (active_le_of_write rfl recovered_not_running) hx.active, ?_⟩
  · refine hx.rows_write hs hj rfl (fun g hg => List.mem_cons_of_mem _ hg) (by rw [hjgoal]; exact List.mem_cons_self)
      (hm.id.trans hrow.id) (hm.goalId.trans hrow.goalId) ?_ ?_ ?_
    · have hedge := hm.edge
      rw [hr] at hedge
      rw [hrow.running_of_recovering hs hj hclaims hr]
      exact hedge
    · rw [hcount, if_pos rfl, ← Nat.add_assoc]
      exact hrow.sound.moves hm
    · intro i hi
      refine ⟨?_, rfl⟩
      rw [hcount, if_neg fun h => hi h.symm]
      rfl
  · intro w hw
    rcases List.mem_cons.mp hw with rfl | hw
    · exact ⟨j, hj, (hm.id.trans hrow.id).symm⟩
    · exact hx.written w hw
  · intro i hi
    rcases List.mem_append.mp hi with hi | hi
    · exact hx.woken i hi
    · have hij : i = j.id := by
        cases h : isLive lifecycle <;> simp [h] at hi
        exact hi
      rw [hij]
      exact hs.lt hj
  · intro c hc
    exact hx.candidates c (List.mem_of_mem_tail hc)
  · simp only [ClaimTx.Capacity, ClaimTx.write, ClaimTx.lock, ClaimTx.next, hp]
    exact hclaims

theorem TxSound.recoverNext {skip : Bool} (hs : Sound limits s) (hx : TxSound limits s tx) (hp : tx.phase = .recovering) :
    TxSound limits s (tx.recoverNext s skip) := by
  unfold ClaimTx.recoverNext
  split
  · exact hx
  · rename_i jobId goalId rest hcand
    split
    · exact hx.next rfl rfl rfl rfl rfl fun _ h => h
    · split
      · rename_i goal job hgoal hjob
        obtain ⟨j, hj, rfl, hfound, hrow⟩ := mem_of_find?_view hx hjob
        simp only [LeadJob.isExpired, Bool.and_eq_true, decide_eq_true_eq] at hfound
        have hjid : j.id = jobId := hrow.id.symm.trans hfound.1
        have hjgoal := hx.goal_of_candidate hs (by rw [hcand]; exact List.mem_cons_self) hj hjid
        -- a running job has no wakeup yet
        have hnot : (s.wakeups ++ tx.woken).contains jobId = false := by
          have hw := hrow.sound.wakeup
          rw [hfound.2.1, ← List.count_append, hjid] at hw
          simpa using List.count_eq_zero.mp hw
        refine hx.recover goal.lifecycle tx.now hs hp hj hjgoal hfound.2.1 ?_
        simp only [hnot, Bool.not_false, Bool.and_true, hjid]
        cases isLive goal.lifecycle <;> simp [ClaimTx.write, ClaimTx.lock, ClaimTx.next]
      · exact hx.next rfl rfl rfl rfl rfl fun g hg => List.mem_cons_of_mem _ hg
      · exact hx.next rfl rfl rfl rfl rfl fun _ h => h

theorem TxSound.count (hx : TxSound limits s tx) (hp : tx.phase = .recovering) : TxSound limits s (tx.count limits s) := by
  have hactive : (tx.view s).jobs.countP (·.state = .running) = tx.active s := by
    rw [ClaimTx.view, List.countP_map]
    rfl
  have hclaims : tx.claims = [] := by simpa only [ClaimTx.Capacity, hp] using hx.capacity
  refine ⟨fun j hj => { hx.rows j hj with }, hx.written, hx.woken, hx.claims, ?_, hx.active, ?_⟩
  · intro c hc
    simp only [ClaimTx.count] at hc
    split at hc
    · simp at hc
    · obtain ⟨k, hk, rfl⟩ := List.mem_map.mp hc
      obtain ⟨j, hj, rfl⟩ := List.mem_map.mp (List.mem_filter.mp (List.mem_of_mem_take hk)).1
      exact ⟨j, hj, (hx.rows j hj).id.symm, (hx.rows j hj).goalId.symm⟩
  · have h := hx.active
    have hsame : (tx.count limits s).active s = tx.active s := rfl
    simp only [ClaimTx.Capacity, ClaimTx.count, hactive]
    change tx.active s + (limits.concurrency - tx.active s) ≤ limits.concurrency + tx.claims.length ∧ _
    refine ⟨by omega, ?_⟩
    rw [hclaims]
    intro hne
    split at hne
    · exact absurd rfl hne
    · simp only [List.length_nil]
      omega

theorem TxSound.claim {available : Nat} (hx : TxSound limits s tx) (goal : ManagedGoal) (now : Nat) (hs : Sound limits s)
    (hp : tx.phase = .claiming available) (hcand : tx.candidates ≠ []) (hj : j ∈ s.jobs) (hjgoal : j.goalId = goalId)
    (hq : (tx.row j).state = .queued)
    (htx : tx' = { (tx.next.lock goalId).write ((tx.row j).claimed tx.owner tx.leaseSeconds now) with
      claims := tx.claims ++ [⟨(tx.row j).id, goal.id, tx.owner, (tx.row j).leaseGeneration + 1⟩]
      candidates := if available ≤ tx.claims.length + 1 then [] else tx.candidates.tail }) : TxSound limits s tx' := by
  have hrow := hx.rows j hj
  have hcap : tx.active s + available ≤ limits.concurrency + tx.claims.length ∧
      (tx.candidates ≠ [] → tx.claims.length < available) := by simpa only [ClaimTx.Capacity, hp] using hx.capacity
  have hcount : ∀ i, claimsOf tx'.claims i = claimsOf tx.claims i + if j.id = i then 1 else 0 := by
    intro i
    rw [htx]
    simp only [claimsOf_append, hrow.id]
  have hactive : tx'.active s ≤ tx.active s + 1 := by
    refine Lib.countP_le_add_one (k := j.id) hs.nodup ?_
    intro i _ hi hrun
    have hne : ¬ ((tx.row j).claimed tx.owner tx.leaseSeconds now).id = i.id := fun h => hi (h.symm.trans hrow.id)
    have hsame : tx'.row i = tx.row i := by
      have h := row_write tx i ((tx.row j).claimed tx.owner tx.leaseSeconds now)
      rw [if_neg hne] at h
      rw [← h, htx]
      rfl
    rw [← hsame]
    exact hrun
  have hless := hcap.2 hcand
  have hlen : tx'.claims.length = tx.claims.length + 1 := by
    rw [htx]
    simp
  have hphase : tx'.phase = .claiming available := by
    rw [htx]
    exact hp
  have hcandidates : tx'.candidates = if available ≤ tx.claims.length + 1 then [] else tx.candidates.tail := by rw [htx]
  have hstate : j.state = .queued := by
    have hedge := hrow.edge
    rw [hq] at hedge
    rcases hedge with heq | ⟨-, h⟩ | ⟨-, h⟩ | ⟨-, h⟩
    · exact heq.symm
    all_goals cases h
  refine ⟨?_, ?_, ?_, ?_, ?_, ?_, ?_⟩
  · refine hx.rows_write (k := (tx.row j).claimed tx.owner tx.leaseSeconds now) hs hj (by rw [htx]; rfl)
      (fun g hg => by rw [htx]; exact List.mem_cons_of_mem _ hg) (by rw [htx, hjgoal]; exact List.mem_cons_self)
      hrow.id hrow.goalId ?_ ?_ ?_
    · rw [hstate]
      exact .inr (.inl ⟨rfl, rfl⟩)
    · have hwoken : tx'.woken = tx.woken := by rw [htx]; rfl
      rw [hcount, if_pos rfl, hwoken, ← Nat.add_assoc]
      exact hrow.sound.claim hq
    · intro i hi
      rw [hcount, if_neg fun h => hi h.symm]
      exact ⟨by rw [htx]; rfl, rfl⟩
  · intro w hw
    rw [htx] at hw
    rcases List.mem_cons.mp hw with rfl | hw
    · exact ⟨j, hj, hrow.id.symm⟩
    · exact hx.written w hw
  · intro i hi
    rw [htx] at hi
    exact hx.woken i hi
  · intro c hc
    rw [htx] at hc
    rcases Lib.mem_concat.mp hc with hc | rfl
    · exact hx.claims c hc
    · exact hrow.id ▸ hs.lt hj
  · intro c hc
    rw [hcandidates] at hc
    split at hc
    · cases hc
    · exact hx.candidates c (List.mem_of_mem_tail hc)
  · omega
  · simp only [ClaimTx.Capacity, hphase, hlen]
    refine ⟨by omega, ?_⟩
    intro hne
    rw [hcandidates] at hne
    split at hne
    · exact absurd rfl hne
    · omega

theorem TxSound.claimNext {available : Nat} {skip : Bool} (hs : Sound limits s) (hx : TxSound limits s tx)
    (hp : tx.phase = .claiming available) : TxSound limits s (tx.claimNext s available skip now) := by
  unfold ClaimTx.claimNext
  split
  · exact hx
  · rename_i jobId goalId rest hcand
    split
    · exact hx.next rfl rfl rfl rfl rfl fun _ h => h
    · split
      · exact hx.next rfl rfl rfl rfl rfl fun _ h => h
      · rename_i goal hgoal
        split
        · exact hx.next rfl rfl rfl rfl rfl fun g hg => List.mem_cons_of_mem _ hg
        · split
          · exact hx.next rfl rfl rfl rfl rfl fun g hg => List.mem_cons_of_mem _ hg
          · rename_i job hjob
            obtain ⟨j, hj, rfl, hfound, hrow⟩ := mem_of_find?_view hx hjob
            simp only [Bool.and_eq_true, decide_eq_true_eq] at hfound
            have hjgoal := hx.goal_of_candidate hs (by rw [hcand]; exact List.mem_cons_self) hj
              (hrow.id.symm.trans hfound.1)
            refine hx.claim goal now hs hp (by rw [hcand]; exact List.cons_ne_nil _ _) hj hjgoal hfound.2 ?_
            simp only [List.length_append, List.length_singleton]
            rfl

theorem TxSound.commit (hs : Sound limits s) (hx : TxSound limits s tx) : Sound limits (tx.view s) where
  ids := by
    have hcol : (s.jobs.map tx.row).map (·.id) = s.jobs.map (·.id) := by
      rw [List.map_map]
      exact List.map_congr_left fun j hj => (hx.rows j hj).id
    rw [ClaimTx.view, hcol, hs.ids, List.length_map]
  rows k hk := by
    obtain ⟨j, hj, rfl⟩ := List.mem_map.mp hk
    have hrow := hx.rows j hj
    rw [hrow.id, ClaimTx.view, List.count_append, claimsOf, List.countP_append]
    exact hrow.sound
  woken i hi := by
    rw [ClaimTx.view, List.length_map]
    rcases List.mem_append.mp hi with hi | hi
    · exact hs.woken i hi
    · exact hx.woken i hi
  issued c hc := by
    rw [ClaimTx.view, List.length_map]
    rcases List.mem_append.mp hc with hc | hc
    · exact hs.issued c hc
    · exact hx.claims c hc
  live g := by
    refine le_trans ?_ (hs.live g)
    rw [JobTables.liveJobs, ClaimTx.view, List.countP_map]
    refine List.countP_mono_left ?_
    intro j hj hp
    have hrow := hx.rows j hj
    simp only [Function.comp_apply, hrow.goalId, Bool.and_eq_true] at hp ⊢
    exact ⟨hp.1, hrow.edge.live hp.2⟩
  running := by
    rw [ClaimTx.view, List.countP_map]
    exact hx.active

/-! ### Workers -/

def Forward (R : JobState → JobState → Prop) (s t : JobTables) : Prop :=
  ∀ j ∈ s.jobs, ∃ k ∈ t.jobs, k.id = j.id ∧ k.goalId = j.goalId ∧ R j.state k.state

def EntersQueued (s t : JobTables) : Prop := ∀ k ∈ t.jobs, (∃ j ∈ s.jobs, j.id = k.id) ∨ k.state = .queued

structure Stepped (s t : JobTables) : Prop where
  forward : Forward JobState.Edge s t
  enters : EntersQueued s t

theorem Stepped.of_jobs (h : t.jobs = s.jobs) : Stepped s t where
  forward j hj := ⟨j, by rw [h]; exact hj, rfl, rfl, .inl rfl⟩
  enters k hk := .inl ⟨k, by rw [← h]; exact hk, rfl⟩

theorem Changes.stepped (h : Changes locked s t f woken) : Stepped s t where
  forward j hj := ⟨f j, h.mem.mpr ⟨j, hj, rfl⟩, (h.moves j hj).id, (h.moves j hj).goalId, (h.moves j hj).edge⟩
  enters k hk := by
    obtain ⟨j, hj, rfl⟩ := h.mem.mp hk
    exact .inl ⟨j, hj, (h.moves j hj).id.symm⟩

structure Invariant (limits : JobLimits) (s : JobStore) : Prop where
  tables : Sound limits s.tables
  claiming : ∀ tx, s.claiming = some tx → TxSound limits s.tables tx

theorem locked_of_claiming {s : JobStore} (h : s.claiming = some tx) : s.locked = tx.locked := by
  rw [JobStore.locked, h]
  rfl

theorem Invariant.changes {s : JobStore} (h : Invariant limits s) (hc : Changes s.locked s.tables t f woken) :
    Invariant limits { s with tables := t } where
  tables := h.tables.changes hc
  claiming tx htx := by
    have hlocked : s.locked = tx.locked := locked_of_claiming htx
    rw [hlocked] at hc
    exact (h.claiming tx htx).changes hc

def JobState.Recovers (a b : JobState) : Prop := b = a ∨ (a = .running ∧ b.isLive = false)

theorem JobState.Recovers.trans {a b c : JobState} (h1 : a.Recovers b) (h2 : b.Recovers c) : a.Recovers c := by
  rcases h1 with rfl | ⟨ha, hb⟩
  · exact h2
  · rcases h2 with rfl | ⟨hr, -⟩
    · exact .inr ⟨ha, hb⟩
    · rw [hr] at hb
      cases hb

theorem JobState.Recovers.edge {a b : JobState} (h : a.Recovers b) : a.Edge b := by
  rcases h with h | ⟨rfl, hb⟩
  · exact .inl h
  · cases b <;> revert hb <;> decide

theorem Moves.recovers (h : Moves j k n) (hr : k.state = j.state ∨ j.state = .running) : j.state.Recovers k.state := by
  rcases hr with heq | hr
  · exact .inl heq
  · rcases h.state with ⟨hs, -⟩ | ⟨-, hf, -⟩ | ⟨-, hc, -⟩
    · exact .inl hs
    · refine .inr ⟨hr, ?_⟩
      cases hk : k.state <;> rw [hk] at hf <;> simp [JobState.isFinished] at hf <;> rfl
    · exact .inr ⟨hr, by rw [hc]; rfl⟩

theorem Invariant.recoverJobs {s : JobStore} (h : Invariant limits s) (now : Nat) (candidates : List (Nat × Nat))
    (hc : ∀ c ∈ candidates, ∀ j ∈ s.tables.jobs, j.id = c.1 → j.goalId ∉ s.locked) :
    Invariant limits { s with tables := candidates.foldl (·.recoverJob now ·) s.tables } ∧
      Forward JobState.Recovers s.tables (candidates.foldl (·.recoverJob now ·) s.tables) ∧
      EntersQueued s.tables (candidates.foldl (·.recoverJob now ·) s.tables) := by
  induction candidates generalizing s with
  | nil => exact ⟨h, fun j hj => ⟨j, hj, rfl, rfl, .inl rfl⟩, fun k hk => .inl ⟨k, hk, rfl⟩⟩
  | cons c rest ih =>
    obtain ⟨f, woken, hch, hrun⟩ := recoverJob_changes now h.tables (hc c List.mem_cons_self)
    have hnext := ih (h.changes hch) ?_
    · obtain ⟨hinv, hforward, henters⟩ := hnext
      refine ⟨hinv, ?_, ?_⟩
      · intro j hj
        have hm := hch.moves j hj
        obtain ⟨k, hk, hid, hgoal, hrec⟩ := hforward (f j) (hch.mem.mpr ⟨j, hj, rfl⟩)
        exact ⟨k, hk, hid.trans hm.id, hgoal.trans hm.goalId, (hm.recovers (hrun j hj)).trans hrec⟩
      · intro k hk
        rcases henters k hk with ⟨i, hi, hid⟩ | hq
        · obtain ⟨j, hj, rfl⟩ := hch.mem.mp hi
          exact .inl ⟨j, hj, (hch.moves j hj).id.symm.trans hid⟩
        · exact .inr hq
    · intro c' hc' k hk hid
      obtain ⟨j, hj, rfl⟩ := hch.mem.mp hk
      have hm := hch.moves j hj
      rw [hm.goalId]
      exact hc c' (List.mem_cons_of_mem _ hc') j hj (hm.id.symm.trans hid)

theorem free_of_goal {s : JobStore} {op : JobOp} (h : op.free s) (hg : op.goal? = some goalId) : goalId ∉ s.locked := by
  unfold JobOp.free at h
  rw [hg] at h
  simpa using h

theorem Invariant.of_claiming {s : JobStore} (h : Invariant limits s) (htx : TxSound limits s.tables tx) :
    Invariant limits { s with claiming := some tx } where
  tables := h.tables
  claiming tx' htx' := by
    cases htx'
    exact htx

theorem onClaim_ok {s t : JobStore} {g : ClaimTx → Except String JobStore} (h : s.onClaim g = .ok t) :
    ∃ tx, s.claiming = some tx ∧ g tx = .ok t := by
  unfold JobStore.onClaim at h
  split at h
  · cases h
  · rename_i tx htx
    exact ⟨tx, htx, h⟩

theorem mem_expiredJobs {c : Nat × Nat} (hc : c ∈ s.expiredJobs now) : ∃ j ∈ s.jobs, j.id = c.1 ∧ j.goalId = c.2 := by
  obtain ⟨j, hj, rfl⟩ := List.mem_map.mp hc
  have hmem := (List.mem_insertionSort _).mp (List.mem_of_mem_take hj)
  exact ⟨j, (List.mem_filter.mp hmem).1, rfl, rfl⟩

theorem Sound.claimBegin {owner : String} (hs : Sound limits s) :
    TxSound limits s { owner := owner, leaseSeconds := leaseSeconds, now := now, candidates := s.expiredJobs now } where
  rows j hj := ⟨rfl, rfl, .inl rfl, hs.rows j hj, fun _ => ⟨by simp, rfl, rfl⟩⟩
  written := by simp
  woken := by simp
  claims := by simp
  candidates _ := mem_expiredJobs
  active := hs.running
  capacity := rfl

theorem perform_invariant {s t : JobStore} {op : JobOp} (h : Invariant limits s) (hfree : op.free s)
    (hop : s.perform limits op = .ok t) : Invariant limits t ∧ Stepped s.tables t.tables := by
  have hs := h.tables
  -- a transaction that only changes rows
  have hchanges : ∀ {t : JobTables} {f : LeadJob → LeadJob} {woken : List Nat}, Changes s.locked s.tables t f woken →
      Invariant limits { s with tables := t } ∧ Stepped s.tables t := fun hc => ⟨h.changes hc, hc.stepped⟩
  cases op with
  | enqueueJob goalId payload sourceCommit =>
    obtain ⟨u, hu, hop⟩ := Lib.bind_eq_ok.mp hop
    cases hop
    obtain ⟨hlive, k, hid, hgoal, hq, hg, rfl⟩ := enqueueJob_ok hu
    refine ⟨⟨hs.append hid hq hg (by rw [hgoal]; exact hlive), fun tx htx => (h.claiming tx htx).append hs hid hq hg⟩, ?_, ?_⟩
    · intro j hj
      exact ⟨j, List.mem_append_left _ hj, rfl, rfl, .inl rfl⟩
    · intro j hj
      rcases Lib.mem_concat.mp hj with hj | rfl
      · exact .inl ⟨j, hj, rfl⟩
      · exact .inr hq
  | cancelJob goalId jobId now =>
    obtain ⟨u, hu, hop⟩ := Lib.bind_eq_ok.mp hop
    cases hop
    obtain ⟨f, woken, hc⟩ := cancelJob_changes (free_of_goal hfree rfl) hu
    exact hchanges hc
  | cancelGoalJobs goalId now =>
    cases hop
    obtain ⟨f, woken, hc⟩ := cancelGoalJobs_changes s.tables now (free_of_goal hfree rfl)
    exact hchanges hc
  | completeJob claim outcome now =>
    cases hop
    obtain ⟨f, woken, hc⟩ := completeJob_changes outcome now hs (free_of_goal hfree rfl)
    exact hchanges hc
  | renewJob claim authorized leaseSeconds now =>
    obtain ⟨u, hu, hop⟩ := Lib.bind_eq_ok.mp hop
    cases hop
    obtain ⟨f, woken, hc⟩ := renewJob_changes hs (free_of_goal hfree rfl) hu
    exact hchanges hc
  | recoverExpiredJobs skipLocked now =>
    cases hop
    have hunlocked : ∀ c ∈ (s.tables.expiredJobs now).filter fun c => !(skipLocked ++ s.locked).contains c.2,
        ∀ j ∈ s.tables.jobs, j.id = c.1 → j.goalId ∉ s.locked := by
      intro c hc j hj hid
      obtain ⟨hmem, hskip⟩ := List.mem_filter.mp hc
      obtain ⟨i, hi, hiid, higoal⟩ := mem_expiredJobs hmem
      rw [hs.eq_of_id hj hi (hid.trans hiid.symm), higoal]
      simp only [List.contains_append, Bool.not_or, Bool.and_eq_true, Bool.not_eq_true'] at hskip
      simpa using hskip.2
    obtain ⟨hinv, hforward, henters⟩ := h.recoverJobs now _ hunlocked
    refine ⟨hinv, ?_, henters⟩
    intro j hj
    obtain ⟨k, hk, hid, hgoal, hr⟩ := hforward j hj
    exact ⟨k, hk, hid, hgoal, hr.edge⟩
  | changeGoal goal =>
    cases hop
    refine ⟨⟨{ hs with }, fun tx htx => ?_⟩, .of_jobs rfl⟩
    have hx := h.claiming tx htx
    exact { hx with rows := fun j hj => { hx.rows j hj with }, active := hx.active, capacity := hx.capacity }
  | claimBegin owner leaseSeconds now =>
    obtain ⟨-, hop⟩ := Lib.guard_eq_ok.mp hop
    split at hop
    · cases hop
    · cases hop
      exact ⟨h.of_claiming hs.claimBegin, .of_jobs rfl⟩
  | claimRecover skip =>
    obtain ⟨tx, htx, hop⟩ := onClaim_ok hop
    obtain ⟨hp, hop⟩ := Lib.check_eq_ok.mp hop
    cases hop
    exact ⟨h.of_claiming ((h.claiming tx htx).recoverNext hs hp), .of_jobs rfl⟩
  | claimCount =>
    obtain ⟨tx, htx, hop⟩ := onClaim_ok hop
    obtain ⟨hp, hop⟩ := Lib.check_eq_ok.mp hop
    cases hop
    exact ⟨h.of_claiming ((h.claiming tx htx).count hp.1), .of_jobs rfl⟩
  | claimNext skip now =>
    obtain ⟨tx, htx, hop⟩ := onClaim_ok hop
    split at hop
    · cases hop
    · rename_i available hp
      cases hop
      exact ⟨h.of_claiming ((h.claiming tx htx).claimNext hs hp), .of_jobs rfl⟩
  | claimCommit =>
    obtain ⟨tx, htx, hop⟩ := onClaim_ok hop
    have hx := h.claiming tx htx
    split at hop <;> cases hop
    refine ⟨⟨hx.commit hs, fun tx' htx' => nomatch htx'⟩, ?_, ?_⟩
    · intro j hj
      have hrow := hx.rows j hj
      exact ⟨tx.row j, List.mem_map_of_mem hj, hrow.id, hrow.goalId, hrow.edge⟩
    · intro k hk
      obtain ⟨j, hj, rfl⟩ := List.mem_map.mp hk
      exact .inl ⟨j, hj, (hx.rows j hj).id.symm⟩
  | claimCrash =>
    obtain ⟨tx, htx, hop⟩ := onClaim_ok hop
    cases hop
    exact ⟨⟨hs, fun tx' htx' => nomatch htx'⟩, .of_jobs rfl⟩

/-! ### Every run -/

/-- No job is claimed twice, a job that runs or is reported was claimed once, a job is reported exactly when it has
    ended with a report or a failure, and the limits hold. -/
structure RunsOnce (limits : JobLimits) (s : JobTables) : Prop where
  claimed : ∀ jobId, claimsOf s.issued jobId ≤ 1
  started : ∀ j ∈ s.jobs, j.state.claimed (claimsOf s.issued j.id)
  reported : ∀ j ∈ s.jobs, s.wakeups.count j.id = if j.state.isFinished then 1 else 0
  live : ∀ goalId, s.liveJobs goalId ≤ limits.leadJobsNonterminalPerGoal
  running : s.jobs.countP (·.state = .running) ≤ limits.concurrency

theorem JobState.claimed_le_one {a : JobState} (h : a.claimed n) : n ≤ 1 := by
  cases a <;> simp only [JobState.claimed] at h <;> omega

theorem Sound.runsOnce (h : Sound limits s) : RunsOnce limits s where
  claimed jobId := by
    by_cases hlt : jobId < s.jobs.length
    · have hmem : jobId ∈ s.jobs.map (·.id) := by
        rw [h.ids]
        exact List.mem_range.mpr hlt
      obtain ⟨j, hj, rfl⟩ := List.mem_map.mp hmem
      exact JobState.claimed_le_one (h.rows j hj).claims
    · rw [claimsOf_eq_zero_of_lt fun c hc => lt_of_lt_of_le (h.issued c hc) (Nat.le_of_not_lt hlt)]
      exact Nat.zero_le 1
  started j hj := (h.rows j hj).claims
  reported j hj := (h.rows j hj).wakeup
  live := h.live
  running := h.running

def noJobs (goals : List ManagedGoal) : JobStore := { tables := { goals := goals } }

theorem noJobs_invariant {goals : List ManagedGoal} : Invariant limits (noJobs goals) where
  tables := ⟨rfl, by simp [noJobs], by simp [noJobs], by simp [noJobs], fun _ => Nat.zero_le _, Nat.zero_le _⟩
  claiming tx htx := nomatch htx

theorem reaches_invariant {s t : JobStore} (h : Invariant limits s) (hr : s.Reaches limits t) : Invariant limits t :=
  hr.invariant h fun hu hfree hop => (perform_invariant hu hfree hop).1

theorem reaches_forward {s t : JobStore} (h : Invariant limits s) (hr : s.Reaches limits t) :
    Forward JobState.Follows s.tables t.tables := by
  induction hr with
  | refl => exact fun j hj => ⟨j, hj, rfl, rfl, .inl rfl⟩
  | step hr hfree hop ih =>
    have hstep := (perform_invariant (reaches_invariant h hr) hfree hop).2.forward
    intro j hj
    obtain ⟨k, hk, hid, hgoal, hf⟩ := ih j hj
    obtain ⟨l, hl, hid', hgoal', he⟩ := hstep k hk
    exact ⟨l, hl, hid'.trans hid, hgoal'.trans hgoal, hf.edge he⟩

/-- In every state that an interleaving of the transactions reaches, each job was claimed at most once and is
    reported exactly when it has ended with a report or a failure, and the limits hold; every transaction moves
    each job along one edge, from the queue on, and in no run does a job go back. -/
theorem lead_job_runs_once (limits : JobLimits) (goals : List ManagedGoal) (t u : JobStore)
    (ht : (noJobs goals).Reaches limits t) (hu : t.Reaches limits u) :
    RunsOnce limits u.tables ∧ Forward JobState.Follows t.tables u.tables ∧
      ∀ op v, op.free u → u.perform limits op = .ok v → Stepped u.tables v.tables := by
  have hti := reaches_invariant noJobs_invariant ht
  have hui := reaches_invariant hti hu
  exact ⟨hui.tables.runsOnce, reaches_forward hti hu, fun op v hfree hop => (perform_invariant hui hfree hop).2⟩

/-- A goal that takes jobs. -/
def researchGoal : ManagedGoal where
  id := 1

def lateReport : List JobOp :=
  [.enqueueJob 1 ⟨"research", some "why", false⟩ (.ok "c0"), .claimBegin "w" 60 10, .claimCount, .claimNext false 10,
    .claimCommit, .completeJob ⟨0, 1, "w", 1⟩ (.result "report") 100]

theorem lead_job_runs_once_late_report :
    ∃ t, (noJobs [researchGoal]).Reaches {} t ∧ t.tables.wakeups = [0] ∧ t.tables.jobs.map (·.state) = [.failed] ∧
      RunsOnce {} t.tables := by
  have hrun : Lib.ends (fun t : JobStore => t.tables.wakeups = [0] && t.tables.jobs.map (·.state) = [.failed])
      (Lib.runOps (fun s op => if op.free s then JobStore.perform {} s op else .error "waits")
        (noJobs [researchGoal]) lateReport) = true := by decide
  obtain ⟨t, ht, hp⟩ := Lib.exists_of_ends hrun
  simp only [Bool.and_eq_true, decide_eq_true_eq] at hp
  have hr := Lib.reach_of_guarded ht
  exact ⟨t, hr, hp.1, hp.2, (lead_job_runs_once {} [researchGoal] t t hr .refl).1⟩

/-- A job that is cancelled before a runner claims it ends without a run. -/
theorem cancelled_job_never_ran :
    ∃ t, (noJobs [researchGoal]).Reaches {} t ∧ t.tables.jobs.map (·.state) = [.cancelled] ∧ t.tables.issued = [] := by
  have hrun : Lib.ends (fun t : JobStore => t.tables.jobs.map (·.state) = [.cancelled] && t.tables.issued = [])
      (Lib.runOps (fun s op => if op.free s then JobStore.perform {} s op else .error "waits") (noJobs [researchGoal])
        [.enqueueJob 1 ⟨"research", some "why", false⟩ (.ok "c0"), .cancelJob 1 0 10]) = true := by decide
  obtain ⟨t, ht, hp⟩ := Lib.exists_of_ends hrun
  simp only [Bool.and_eq_true, decide_eq_true_eq] at hp
  exact ⟨t, Lib.reach_of_guarded ht, hp.1, hp.2⟩

end Vuzol.Leadership
