import Droidcli.App.Tasks
import Mathlib.Logic.Relation

namespace Droidcli.App

open Bytes

-- What a run of a claimed task comes to.
inductive TaskOutcome
  | completed (resultJson : Bytes)
  | failed (error : Bytes)

def TaskOutcome.isComplete : TaskOutcome → Bool
  | completed _ => true
  | failed _    => false

def TaskQueue.record (queue : TaskQueue) (taskId : Bytes) (now : Int) : TaskOutcome → TaskQueue
  | .completed resultJson => (queue.complete taskId resultJson now).2
  | .failed error         => (queue.fail taskId error now).2

-- The queue together with the tasks that some `tick_tasks` has claimed and not yet recorded: their
-- actions run without the lock, so anything can happen in between.
structure TaskSystem where
  queue : TaskQueue
  inFlight : List Task

namespace TaskSystem

def initial : TaskSystem :=
  ⟨⟨[], 0⟩, []⟩

def cancel (s : TaskSystem) (taskId : Bytes) (now : Int) : TaskSystem :=
  { s with queue := (s.queue.cancel taskId now).2 }

inductive Step (s : TaskSystem) : TaskSystem → Prop
  | enqueue {body : Bytes} {task : Task} (parsed now : Int) :
    parseTaskRequestFromJson body parsed = some (.ok task) →
    Step s { s with queue := (s.queue.enqueue task now).2 }
  | cancel (taskId : Bytes) (now : Int) :
    Step s (s.cancel taskId now)
  | claim {task : Task} (now : Int) :
    (s.queue.claimNext now).1 = some task →
    Step s ⟨(s.queue.claimNext now).2, task :: s.inFlight⟩
  | finish {task : Task} (outcome : TaskOutcome) (now : Int) :
    task ∈ s.inFlight →
    Step s ⟨s.queue.record task.id now outcome, s.inFlight.erase task⟩

abbrev Steps : TaskSystem → TaskSystem → Prop :=
  Relation.ReflTransGen Step

def Reachable (s : TaskSystem) : Prop :=
  Steps initial s

-- From here on the task reads as cancelled for as long as it is queued, and is never claimed.
def StaysCancelled (taskId : Bytes) (s : TaskSystem) : Prop :=
  ∀ t, Steps s t →
    (∀ task, t.queue.find taskId = some task → task.status = .cancelled) ∧
    (∀ now task, (t.queue.claimNext now).1 = some task → task.id ≠ taskId)

end TaskSystem
end Droidcli.App
