import Vuzol.Lib.Json
import Vuzol.Storage.Outbox

/-! The wakeups of a project's lead (`leadership/wakeups.py`): rows of the outbox for the destination `project_lead`, with
    keys of which each is used once. -/

namespace Vuzol.Leadership

open Vuzol.Storage (DeliveryStatus)

inductive WakeupKey where
  | continuation (goalId version : Nat)
  | watchdog (goalId version : Nat)
  | quotaRetry (goalId version : Nat)
  | unparked (goalId version : Nat)
  | given (key : String)
  deriving DecidableEq

/-- A wakeup of a goal. The last three columns of the payload are those of a plan that is asked for again. -/
structure GoalWakeup where
  linkedEntityId : Nat
  key : WakeupKey
  kind : String
  packageId : Option Nat := none
  status : DeliveryStatus := .pending
  scopeRevision : Option Nat := none
  request : List (String × Lib.Json) := []
  plannerProfileId : Option String := none
  deriving DecidableEq

/-- `enqueue_goal_wakeup`, on the rows of the outbox. -/
def enqueueGoalWakeup (outbox : List GoalWakeup) (w : GoalWakeup) : List GoalWakeup :=
  if outbox.any (·.key == w.key) then outbox else outbox ++ [w]

/-- The goal has a wakeup that is not consumed yet. -/
def outstandingWakeup (outbox : List GoalWakeup) (goalId : Nat) : Bool :=
  outbox.any fun w => w.linkedEntityId == goalId && (w.status = .pending || w.status = .leased)

end Vuzol.Leadership
