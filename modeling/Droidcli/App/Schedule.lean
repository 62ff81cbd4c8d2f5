import Droidcli.App.TaskSystem
import Droidcli.Lib.Trace

namespace Droidcli.App

open Bytes Net

-- A reading of `current_timestamp_ms`.
structure Clock where
  now : Int
  lower : int64Min ≤ now
  upper : now ≤ int64Max

-- What a request asks for; whatever is not positive is no delay.
def delayMs (body : Bytes) : Int :=
  match extractJsonIntField body "delay_ms" with
  | .value n => max n 0
  | _        => 0

inductive QueueCall
  | request (body : Bytes) (parsed enqueued : Clock)
  | claimNext (now : Clock)
  | record (taskId : Bytes) (outcome : TaskOutcome) (now : Clock)
  | cancel (taskId : Bytes) (now : Clock)

-- The queue, beside the moments at which the tasks are due. These are sums of integers, and the
-- queue does not see them.
structure Schedule where
  queue : TaskQueue
  due : Bytes → Int

namespace Schedule

def initial : Schedule :=
  ⟨⟨[], 0⟩, fun _ => 0⟩

def request (s : Schedule) (body : Bytes) (parsed enqueued : Clock) : Schedule :=
  match parseTaskRequestFromJson body parsed.now with
  | some (.ok task) =>
    let (id, queue) := s.queue.enqueue task enqueued.now
    let due := if 0 < delayMs body then parsed.now + delayMs body else 0
    ⟨queue, Function.update s.due id due⟩
  | _ => s

def record (s : Schedule) (taskId : Bytes) (outcome : TaskOutcome) (now : Clock) : Schedule where
  queue := s.queue.record taskId now.now outcome
  due :=
    match s.queue.find taskId with
    | some task =>
      if 0 < task.recurrenceMs then
        Function.update s.due taskId (now.now + task.recurrenceMs)
      else
        s.due
    | none => s.due

def call (s : Schedule) : QueueCall → Schedule
  | .request body parsed enqueued => s.request body parsed enqueued
  | .claimNext now                => { s with queue := (s.queue.claimNext now.now).2 }
  | .record taskId outcome now    => s.record taskId outcome now
  | .cancel taskId now            => { s with queue := (s.queue.cancel taskId now.now).2 }

abbrev Step (s : Schedule) (c : QueueCall) (s' : Schedule) : Prop :=
  s.call c = s'

def Exact (s : Schedule) : Prop :=
  ∀ task ∈ s.queue.tasks, task.scheduledForMs = s.due task.id

structure OnTime (s : Schedule) : Prop where
  exact    : s.Exact
  notEarly : ∀ now task, (s.queue.claimNext now).1 = some task → s.due task.id ≤ now

-- The delay or the period is no longer than what is left of the clock.
def Fits (s : Schedule) : QueueCall → Prop
  | .request body parsed _ =>
    ∀ task, parseTaskRequestFromJson body parsed.now = some (.ok task) →
      delayMs body ≤ int64Max - parsed.now
  | .record taskId _ now =>
    ∀ task, s.queue.find taskId = some task → task.recurrenceMs ≤ int64Max - now.now
  | _ => True

end Schedule
end Droidcli.App
