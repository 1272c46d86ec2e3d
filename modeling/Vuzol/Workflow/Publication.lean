import Vuzol.Workflow.Engine

/-! The execution check that a publisher passes before it asks for consent and before it swaps a release
    (`workflows/publication.py`). -/

namespace Vuzol.Workflow

/-- What a worker hands to the handler of a step (`workflows/ports.py`). -/
structure StepExecutionRequest where
  taskId : Nat
  runId : Nat
  stepId : Nat
  stepType : StepType
  lease : LeaseToken

/-- `StepWorker._request`. -/
def executionRequest (taskId runId : Nat) (x : Step) (token : LeaseToken) : StepExecutionRequest where
  taskId := taskId
  runId := runId
  stepId := x.id
  stepType := x.stepType
  lease := token

def publicationLeaseLost : String := "publication_lease_lost"

/-- `_check_execution`, on the locked rows of the task `taskId` and its run `runId`. `requested`: the worker has
    requested a cancellation. The error is the category of `PublicationDenied`. -/
def checkExecution (taskId runId : Nat) (s : State) (x : Step) (request : StepExecutionRequest) (requested : Bool)
    (now : Nat) : Except String Unit :=
  if taskId ≠ request.taskId ∨ runId ≠ request.runId ∨ x.stepType ≠ request.stepType ∨ s.run.status ≠ .running ∨
      s.task.status ∉ [TaskStatus.executing, .validating, .reviewing] ∨ x.status ≠ .running ∨
      x.leaseOwner ≠ some request.lease.owner ∨ x.leaseGeneration ≠ request.lease.generation ∨
      x.leaseExpiresAt.all (· ≤ now) then
    .error publicationLeaseLost
  else if requested then .error "cancelled"
  else .ok ()

end Vuzol.Workflow
