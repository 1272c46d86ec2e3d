import Mathlib.Data.List.Sort
import Vuzol.Lib.Url
import Vuzol.Leadership.Goals

/-! The research jobs of a lead (`leadership/jobs.py`): a job is queued for its goal, claimed once by a runner under
    a lease, and ends with a wakeup of the lead or cancelled. Every transaction locks the goal before its jobs.
    A goal is read for its lifecycle and its scope revision only. -/

namespace Vuzol.Leadership

open Vuzol.Discussion (Lifecycle)

inductive JobState where
  | queued | running | succeeded | failed | cancelled
  deriving DecidableEq

/-- `NONTERMINAL_STATES`. -/
def JobState.isLive : JobState → Bool
  | .queued | .running => true
  | _ => false

def JobState.isFinished : JobState → Bool
  | .succeeded | .failed => true
  | _ => false

structure LeadJob where
  id : Nat
  goalId : Nat
  question : String
  pinnedCommit : String
  scopeRevision : Nat
  state : JobState := .queued
  leaseOwner : Option String := none
  leaseExpiresAt : Option Nat := none
  leaseGeneration : Nat := 0
  startedAt : Option Nat := none
  finishedAt : Option Nat := none
  failureReason : Option String := none
  resultText : Option String := none

structure JobClaim where
  jobId : Nat
  goalId : Nat
  owner : String
  generation : Nat

structure JobLimits where
  leadJobsTotalPerGoal : Nat := 10
  leadJobsNonterminalPerGoal : Nat := 2
  concurrency : Nat := 2

/-- The rows that the jobs are kept in. `wakeups` are the jobs with a `job_finished` wakeup, by the idempotency key
    `lead:job:…`; `issued` are the claims that were handed out. -/
structure JobTables where
  goals : List ManagedGoal
  jobs : List LeadJob := []
  wakeups : List Nat := []
  issued : List JobClaim := []

def JobTables.goal? (s : JobTables) (goalId : Nat) : Option ManagedGoal := s.goals.find? (·.id = goalId)

def takesJobs : Lifecycle → Bool
  | .draft | .active | .waiting => true
  | _ => false

def resultBytes : Nat := 16 * 1024

def truncation : String := "\n[truncated]"

def takeBytes : Nat → List Char → List Char
  | _, [] => []
  | n, c :: cs => if c.utf8Size ≤ n then c :: takeBytes (n - c.utf8Size) cs else []

def boundedReport (text : String) : String :=
  if text.utf8ByteSize ≤ resultBytes then text
  else String.ofList (takeBytes (resultBytes - truncation.utf8ByteSize) text.toList) ++ truncation

/-- The payload of a job. `extra` tells that it has keys besides `kind` and `question`. -/
structure JobPayload where
  kind : String
  question : Option String
  extra : Bool := false

def JobPayload.researchInput (p : JobPayload) : Except String String :=
  match p.question with
  | none => .error "invalid_job_input"
  | some question =>
    let text := String.ofList (Lib.strip question.toList)
    if p.extra || text.length = 0 || 2000 < text.length then .error "invalid_job_input" else .ok text

def requireTakesJobs (goal : ManagedGoal) : Except String Unit :=
  if goal.lifecycle = .paused then .error "goal_paused"
  else if takesJobs goal.lifecycle then .ok () else .error "goal_terminal"

def JobTables.liveJobs (s : JobTables) (goalId : Nat) : Nat :=
  s.jobs.countP fun j => j.goalId = goalId && j.state.isLive

/-- `enqueue_job`. The commit is what `source_commit` reads from the repository, or raises. -/
def JobTables.enqueueJob (limits : JobLimits) (s : JobTables) (goalId : Nat) (payload : JobPayload)
    (sourceCommit : Except String String) : Except String JobTables := do
  match s.goal? goalId with
  | none => .error "goal_not_found"
  | some goal =>
    requireTakesJobs goal
    if payload.kind ≠ "research" then .error "job_kind_unsupported"
    else
      let question ← payload.researchInput
      if limits.leadJobsTotalPerGoal ≤ s.jobs.countP (·.goalId = goalId) then .error "job_total_limit"
      else if limits.leadJobsNonterminalPerGoal ≤ s.liveJobs goalId then .error "job_nonterminal_limit"
      else
        let pinnedCommit ← sourceCommit
        .ok { s with jobs := s.jobs ++ [{
          id := s.jobs.length
          goalId := goalId
          question := question
          pinnedCommit := pinnedCommit
          scopeRevision := goal.scopeRevision }] }

def LeadJob.terminal (j : LeadJob) (state : JobState) (now : Nat) (reason : Option String) : LeadJob :=
  { j with state := state, failureReason := reason, finishedAt := some now, leaseOwner := none, leaseExpiresAt := none }

def JobTables.edit (s : JobTables) (p : LeadJob → Bool) (f : LeadJob → LeadJob) : JobTables :=
  { s with jobs := s.jobs.map fun j => if p j then f j else j }

/-- `_finished_wakeup`: the same key is a no-op once it exists. -/
def finishedWakeup (wakeups : List Nat) (jobId : Nat) : List Nat :=
  if wakeups.contains jobId then wakeups else wakeups ++ [jobId]

def JobTables.cancelJob (s : JobTables) (goalId jobId now : Nat) : Except String JobTables := do
  (s.goal? goalId).elim (.ok ()) requireTakesJobs
  if s.jobs.any fun j => j.id = jobId && j.goalId = goalId then
    .ok (s.edit (fun j => j.id = jobId && j.goalId = goalId && j.state.isLive)
      fun j => j.terminal .cancelled now (some "cancelled"))
  else .error "job_not_found"

def JobTables.cancelGoalJobs (s : JobTables) (goalId now : Nat) : JobTables :=
  s.edit (fun j => j.goalId = goalId && j.state.isLive) fun j => j.terminal .cancelled now (some "goal_ended")

def claimMatches (j : LeadJob) (goal : ManagedGoal) (claim : JobClaim) (now : Nat) : Bool :=
  j.id = claim.jobId && j.goalId = goal.id && goal.id = claim.goalId && isLive goal.lifecycle && j.state = .running &&
    j.leaseOwner = some claim.owner && j.leaseGeneration = claim.generation && j.leaseExpiresAt.any (now < ·)

inductive JobOutcome where
  | result (text : String)
  | failure (reason : String)

def LeadJob.finish (j : LeadJob) (now : Nat) : JobOutcome → LeadJob
  | .result text => { j.terminal .succeeded now none with resultText := some (boundedReport text) }
  | .failure reason => { j.terminal .failed now (some (String.ofList (reason.toList.take 512))) with resultText := none }

/-- `complete_job`: the outcome and its wakeup are committed together; a claim whose lease has expired only tells
    that its job was interrupted. -/
def JobTables.completeJob (s : JobTables) (claim : JobClaim) (outcome : JobOutcome) (now : Nat) : JobTables × Bool :=
  match s.goal? claim.goalId, s.jobs.find? fun j => j.id = claim.jobId && j.goalId = claim.goalId with
  | some goal, some job =>
    if job.state ≠ .running ∨ job.leaseGeneration ≠ claim.generation ∨ job.leaseOwner ≠ some claim.owner then (s, false)
    else if ¬isLive goal.lifecycle then
      (s.edit (·.id = job.id) fun j => j.terminal .cancelled now (some "goal_ended"), false)
    else if ¬claimMatches job goal claim now then
      ({ s.edit (·.id = job.id) fun j => j.terminal .failed now (some "interrupted") with
        wakeups := finishedWakeup s.wakeups job.id }, false)
    else
      ({ s.edit (·.id = job.id) fun j => j.finish now outcome with
        wakeups := finishedWakeup s.wakeups job.id }, true)
  | _, _ => (s, false)

/-- `_renew` of the runner: the lease of a job is extended while its claim is current. `authorized` stands for the
    checks of `invocation_current` on the turn of the job and on the owner's grant. -/
def JobTables.renewJob (s : JobTables) (claim : JobClaim) (authorized : Bool) (leaseSeconds now : Nat) :
    Except String JobTables :=
  match s.goal? claim.goalId, s.jobs.find? (·.id = claim.jobId) with
  | some goal, some job =>
    if authorized && takesJobs goal.lifecycle && claimMatches job goal claim now then
      .ok (s.edit (·.id = job.id) fun j => { j with leaseExpiresAt := some (now + leaseSeconds) })
    else .error "research lease lost"
  | _, _ => .error "research lease lost"

def LeadJob.isExpired (now : Nat) (j : LeadJob) : Bool := j.state = .running && j.leaseExpiresAt.any (· ≤ now)

def LeadJob.expiresBefore (j k : LeadJob) : Prop :=
  j.leaseExpiresAt.getD 0 < k.leaseExpiresAt.getD 0 ∨ (j.leaseExpiresAt.getD 0 = k.leaseExpiresAt.getD 0 ∧ j.id ≤ k.id)

instance : DecidableRel LeadJob.expiresBefore := fun _ _ => inferInstanceAs (Decidable (_ ∨ _))

def JobTables.expiredJobs (s : JobTables) (now : Nat) : List (Nat × Nat) :=
  (((s.jobs.filter (·.isExpired now)).insertionSort LeadJob.expiresBefore).take 100).map fun j => (j.id, j.goalId)

def LeadJob.recovered (j : LeadJob) (lifecycle : Lifecycle) (now : Nat) : LeadJob :=
  if isLive lifecycle then j.terminal .failed now (some "interrupted")
  else j.terminal .cancelled now (some "goal_ended")

/-- One round of `recover_expired_jobs`. -/
def JobTables.recoverJob (s : JobTables) (now : Nat) (candidate : Nat × Nat) : JobTables :=
  match s.goal? candidate.2, s.jobs.find? fun j => j.id = candidate.1 && j.isExpired now with
  | some goal, some job =>
    { s.edit (·.id = job.id) fun j => j.recovered goal.lifecycle now with
      wakeups := if isLive goal.lifecycle then finishedWakeup s.wakeups job.id else s.wakeups }
  | _, _ => s

/-- `recover_expired_jobs` in a transaction of its own; the goals that others have locked are skipped. -/
def JobTables.recoverExpiredJobs (s : JobTables) (skipLocked : List Nat) (now : Nat) : JobTables :=
  ((s.expiredJobs now).filter fun c => !skipLocked.contains c.2).foldl (·.recoverJob now ·) s

/-- The part of `claim_jobs` that its transaction has come to. -/
inductive ClaimPhase where
  | recovering
  | claiming (available : Nat)
  deriving DecidableEq

/-- An open transaction of `claim_jobs`: it holds the advisory lock and the goals it has locked, and its rows are
    seen by others when it commits. -/
structure ClaimTx where
  owner : String
  leaseSeconds : Nat
  now : Nat
  phase : ClaimPhase := .recovering
  candidates : List (Nat × Nat) := []
  locked : List Nat := []
  written : List LeadJob := []
  woken : List Nat := []
  claims : List JobClaim := []

def ClaimTx.row (tx : ClaimTx) (j : LeadJob) : LeadJob := (tx.written.find? (·.id = j.id)).getD j

def ClaimTx.view (tx : ClaimTx) (s : JobTables) : JobTables :=
  { s with jobs := s.jobs.map tx.row, wakeups := s.wakeups ++ tx.woken, issued := s.issued ++ tx.claims }

def ClaimTx.next (tx : ClaimTx) : ClaimTx := { tx with candidates := tx.candidates.tail }

def ClaimTx.lock (tx : ClaimTx) (goalId : Nat) : ClaimTx := { tx with locked := goalId :: tx.locked }

def ClaimTx.write (tx : ClaimTx) (j : LeadJob) : ClaimTx := { tx with written := j :: tx.written }

/-- A round of `recover_expired_jobs` in the transaction. `skip` tells that another transaction has locked the goal
    or the job. -/
def ClaimTx.recoverNext (tx : ClaimTx) (s : JobTables) (skip : Bool) : ClaimTx :=
  match tx.candidates with
  | [] => tx
  | (jobId, goalId) :: _ =>
    if skip then tx.next
    else
      match s.goal? goalId, (tx.view s).jobs.find? fun j => j.id = jobId && j.isExpired tx.now with
      | some goal, some job =>
        let ended := (tx.next.lock goalId).write (job.recovered goal.lifecycle tx.now)
        if isLive goal.lifecycle && !(s.wakeups ++ tx.woken).contains jobId then
          { ended with woken := tx.woken ++ [jobId] }
        else ended
      | some _, none => tx.next.lock goalId
      | none, _ => tx.next

def ClaimTx.count (tx : ClaimTx) (limits : JobLimits) (s : JobTables) : ClaimTx :=
  let active := (tx.view s).jobs.countP (·.state = .running)
  let available := limits.concurrency - active
  let queued := (tx.view s).jobs.filter fun j => j.state = .queued && (s.goal? j.goalId).any fun g => takesJobs g.lifecycle
  { tx with
    phase := .claiming available
    candidates := if available = 0 then [] else (queued.take 100).map fun j => (j.id, j.goalId) }

def LeadJob.claimed (j : LeadJob) (owner : String) (leaseSeconds now : Nat) : LeadJob :=
  { j with
    state := .running
    leaseOwner := some owner
    leaseExpiresAt := some (now + leaseSeconds)
    leaseGeneration := j.leaseGeneration + 1
    startedAt := some now }

/-- A round of the claims. -/
def ClaimTx.claimNext (tx : ClaimTx) (s : JobTables) (available : Nat) (skip : Bool) (now : Nat) : ClaimTx :=
  match tx.candidates with
  | [] => tx
  | (jobId, goalId) :: _ =>
    if skip then tx.next
    else
      match s.goal? goalId with
      | none => tx.next
      | some goal =>
        if ¬takesJobs goal.lifecycle then tx.next.lock goalId
        else
          match (tx.view s).jobs.find? fun j => j.id = jobId && j.state = .queued with
          | none => tx.next.lock goalId
          | some job =>
            let taken := (tx.next.lock goalId).write (job.claimed tx.owner tx.leaseSeconds now)
            let claims := tx.claims ++ [⟨job.id, goal.id, tx.owner, job.leaseGeneration + 1⟩]
            { taken with
              claims := claims
              candidates := if available ≤ claims.length then [] else taken.candidates }

/-- The tables, and the transaction of `claim_jobs` that is open: the advisory lock admits one. -/
structure JobStore where
  tables : JobTables
  claiming : Option ClaimTx := none

def JobStore.locked (s : JobStore) : List Nat := s.claiming.elim [] (·.locked)

/-- A transaction of some worker, or a part of one that claims jobs. Each brings its own time. `changeGoal` is any
    other write to the row of a goal. -/
inductive JobOp where
  | enqueueJob (goalId : Nat) (payload : JobPayload) (sourceCommit : Except String String)
  | cancelJob (goalId jobId now : Nat)
  | cancelGoalJobs (goalId now : Nat)
  | completeJob (claim : JobClaim) (outcome : JobOutcome) (now : Nat)
  | renewJob (claim : JobClaim) (authorized : Bool) (leaseSeconds now : Nat)
  | recoverExpiredJobs (skipLocked : List Nat) (now : Nat)
  | changeGoal (goal : ManagedGoal)
  | claimBegin (owner : String) (leaseSeconds now : Nat)
  | claimRecover (skip : Bool)
  | claimCount
  | claimNext (skip : Bool) (now : Nat)
  | claimCommit
  | claimCrash

def JobOp.goal? : JobOp → Option Nat
  | enqueueJob goalId _ _ | cancelJob goalId _ _ | cancelGoalJobs goalId _ => some goalId
  | completeJob claim _ _ | renewJob claim _ _ _ => some claim.goalId
  | changeGoal goal => some goal.id
  | _ => none

def JobOp.free (s : JobStore) (op : JobOp) : Prop := op.goal?.all fun goalId => goalId ∉ s.locked

instance (s : JobStore) (op : JobOp) : Decidable (op.free s) := inferInstanceAs (Decidable (_ = true))

/-- The open transaction of `claim_jobs` goes on. -/
def JobStore.onClaim (s : JobStore) (f : ClaimTx → Except String JobStore) : Except String JobStore :=
  match s.claiming with
  | none => .error "no claim"
  | some tx => f tx

def JobStore.perform (limits : JobLimits) (s : JobStore) : JobOp → Except String JobStore
  | .enqueueJob goalId payload sourceCommit => do
    .ok { s with tables := ← s.tables.enqueueJob limits goalId payload sourceCommit }
  | .cancelJob goalId jobId now => do .ok { s with tables := ← s.tables.cancelJob goalId jobId now }
  | .cancelGoalJobs goalId now => .ok { s with tables := s.tables.cancelGoalJobs goalId now }
  | .completeJob claim outcome now => .ok { s with tables := (s.tables.completeJob claim outcome now).1 }
  | .renewJob claim authorized leaseSeconds now => do
    .ok { s with tables := ← s.tables.renewJob claim authorized leaseSeconds now }
  | .recoverExpiredJobs skipLocked now =>
    .ok { s with tables := s.tables.recoverExpiredJobs (skipLocked ++ s.locked) now }
  | .changeGoal goal => .ok { s with tables := { s.tables with goals := Lib.put (·.id) goal s.tables.goals } }
  | .claimBegin owner leaseSeconds now =>
    if owner = "" ∨ limits.concurrency < 1 ∨ leaseSeconds < 1 then
      .error "job claim requires owner, positive concurrency and lease duration"
    else
      match s.claiming with
      | some _ => .error "locked"
      | none => .ok { s with claiming := some {
          owner := owner, leaseSeconds := leaseSeconds, now := now, candidates := s.tables.expiredJobs now } }
  | .claimRecover skip => s.onClaim fun tx =>
    if tx.phase = .recovering then .ok { s with claiming := some (tx.recoverNext s.tables skip) } else .error "recovered"
  | .claimCount => s.onClaim fun tx =>
    if tx.phase = .recovering ∧ tx.candidates = [] then .ok { s with claiming := some (tx.count limits s.tables) }
    else .error "recovering"
  | .claimNext skip now => s.onClaim fun tx =>
    match tx.phase with
    | .recovering => .error "recovering"
    | .claiming available => .ok { s with claiming := some (tx.claimNext s.tables available skip now) }
  | .claimCommit => s.onClaim fun tx =>
    match tx.phase, tx.candidates with
    | .claiming _, [] => .ok { tables := tx.view s.tables }
    | _, _ => .error "open"
  | .claimCrash => s.onClaim fun _ => .ok { s with claiming := none }

abbrev JobStore.Reaches (limits : JobLimits) (s t : JobStore) : Prop :=
  Lib.Reach (JobStore.perform limits) (fun s op => op.free s) s t

end Vuzol.Leadership
