import Droidcli.App.TaskSystem
import Droidcli.Lib.Trace

namespace Droidcli.App

open Bytes

-- What is done with a queue, when, and what comes of it. An enqueued task bears the id it has got.
inductive QueueEvent
  | enqueued (task : Task) (now : Int)
  | claimed (result : Option Task) (now : Int)
  | finished (taskId : Bytes) (outcome : TaskOutcome) (now : Int)
  | cancelled (taskId : Bytes) (accepted : Bool) (now : Int)

namespace QueueEvent

def now : QueueEvent → Int
  | enqueued _ now | claimed _ now | finished _ _ now | cancelled _ _ now => now

def claims (id : Bytes) : QueueEvent → Bool
  | claimed (some task) _ => task.id = id
  | _                     => false

def finishes (id : Bytes) : QueueEvent → Bool
  | finished taskId _ _ => taskId = id
  | _                   => false

def enqueuedTask : QueueEvent → Option Task
  | enqueued task _ => some task
  | _               => none

end QueueEvent

-- The tasks that have been enqueued, in their order.
def enqueuedTasks (t : List QueueEvent) : List Task :=
  t.filterMap QueueEvent.enqueuedTask

namespace TaskQueue

def IsRunning (queue : TaskQueue) (taskId : Bytes) : Prop :=
  ∃ task ∈ queue.tasks, task.id = taskId ∧ task.status = .running

-- A caller may give a parsed task an id of its own, or leave that to the queue. It reports only on
-- tasks that are running.
inductive Step (queue : TaskQueue) : QueueEvent → TaskQueue → Prop
  | enqueue {body : Bytes} {parsed : Task} (parsedAt now : Int) (id : Bytes) {task : Task} :
    parseTaskRequestFromJson body parsedAt = some (.ok parsed) →
    task = { parsed with id := id } →
    Step queue (.enqueued { task with id := (queue.enqueue task now).1 } now)
      (queue.enqueue task now).2
  | claimNext (now : Int) :
    Step queue (.claimed (queue.claimNext now).1 now) (queue.claimNext now).2
  | finish {taskId : Bytes} (outcome : TaskOutcome) (now : Int) :
    queue.IsRunning taskId →
    Step queue (.finished taskId outcome now) (queue.record taskId now outcome)
  | cancel (taskId : Bytes) (now : Int) :
    Step queue (.cancelled taskId (queue.cancel taskId now).1 now) (queue.cancel taskId now).2

abbrev Run : TaskQueue → List QueueEvent → TaskQueue → Prop :=
  Trace.Run Step

end TaskQueue

-- What a queue is for: jobs that wait until they are due, run, and wait again or are over. None of
-- them is ever forgotten.
inductive Standing
  | waiting (due : Int)
  | running
  | over
  deriving DecidableEq

structure Job where
  id : Bytes
  recurrenceMs : Int
  standing : Standing
  claims : Int
  deriving DecidableEq

namespace Job

def IsDue (now : Int) (job : Job) : Prop :=
  ∃ due, job.standing = .waiting due ∧ due ≤ now

instance (now : Int) (job : Job) : Decidable (job.IsDue now) :=
  match h : job.standing with
  | .waiting due => decidable_of_iff (due ≤ now) (by simp [IsDue, h])
  | .running     => isFalse (by simp [IsDue, h])
  | .over        => isFalse (by simp [IsDue, h])

def claimed (job : Job) : Job :=
  { job with standing := .running, claims := job.claims + 1 }

def finished (now : Int) (job : Job) : Job :=
  { job with
    standing :=
      if 0 < job.recurrenceMs then .waiting (addInt64 now job.recurrenceMs) else .over }

def cancelled (job : Job) : Job :=
  { job with standing := .over }

def after (job : Job) : QueueEvent → Job
  | .claimed (some task) _   => if job.id = task.id then job.claimed else job
  | .finished taskId _ now   => if job.id = taskId then job.finished now else job
  | .cancelled taskId true _ => if job.id = taskId then job.cancelled else job
  | _                        => job

end Job

-- The job that a task stands for.
def Task.job (task : Task) : Job where
  id := task.id
  recurrenceMs := task.recurrenceMs
  standing :=
    match task.status with
    | .unset | .pending            => .waiting task.scheduledForMs
    | .running                     => .running
    | .done | .failed | .cancelled => .over
  claims := task.runCount

def jobsAfter (jobs : List Job) : QueueEvent → List Job
  | .enqueued task _ => jobs ++ [task.job]
  | e                => jobs.map (·.after e)

def jobs (t : List QueueEvent) : List Job :=
  t.foldl jobsAfter []

-- What a queue keeps of the jobs, each in its place: all but some that are over.
inductive Keeps : List Job → List Task → Prop
  | nil : Keeps [] []
  | keep {jobs : List Job} {tasks : List Task} {task : Task} :
    task.status ≠ .unset → Keeps jobs tasks → Keeps (task.job :: jobs) (task :: tasks)
  | drop {jobs : List Job} {tasks : List Task} {job : Job} :
    job.standing = .over → Keeps jobs tasks → Keeps (job :: jobs) tasks

end Droidcli.App
