import Vuzol.Discussion.Service
import Vuzol.Workflow.Engine

/-! The two retries of a blocked step: the owner's retry of a task (`workflows/application.py`), which the engine has among
    its operations, and the retry of a package's item (`retry_item`), which takes the last blocked step. -/

namespace Vuzol.Workflow

/-- The blocked step with the greatest ordinal, which `retry_item` retries. -/
def lastBlockedStep (steps : List Step) : Option Step :=
  (steps.filter (·.status = .blocked)).foldl (fun best x => if best.all fun b => b.ordinal ≤ x.ordinal then some x else best) none

inductive ItemOp where
  | engine (op : Op)
  | retryItem (now : Nat)

def performItem (s : State) : ItemOp → Except Failure State
  | .engine op => perform s op
  | .retryItem now =>
    match lastBlockedStep s.steps with
    | none => .error (.valueError "item_not_safely_retryable")
    | some x => retryBlockedStep s x.id now

end Vuzol.Workflow

namespace Vuzol.Discussion

structure PausedOn (p : State) (run : Run) : Prop where
  status : p.package.status = .paused
  reason : p.package.pauseReason = some .itemBlocked
  failed : p.package.lastFailureTaskId = some run.taskId
  runs : ∃ before after, p.runs.filter (·.taskId == run.taskId) = before ++ run :: after ∧
    ∀ r ∈ before ++ after, ∀ x ∈ r.steps, x.status ≠ .blocked

end Vuzol.Discussion
