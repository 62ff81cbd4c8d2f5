import Droidcli.Net.Json

namespace Droidcli.App

open Bytes Net

inductive TaskStatus
  | unset
  | pending
  | running
  | done
  | failed
  | cancelled
  deriving DecidableEq

namespace TaskStatus

def text : TaskStatus → Bytes
  | unset     => ""
  | pending   => "pending"
  | running   => "running"
  | done      => "done"
  | failed    => "failed"
  | cancelled => "cancelled"

def isTerminal : TaskStatus → Bool
  | done | failed | cancelled => true
  | _                         => false

end TaskStatus

structure Task where
  id : Bytes
  connectorId : Bytes
  command : Bytes
  payloadJson : Bytes
  status : TaskStatus
  createdAtMs : Int
  updatedAtMs : Int
  scheduledForMs : Int
  recurrenceMs : Int
  runCount : Int
  errorMessage : Bytes
  resultJson : Bytes
  deriving DecidableEq

-- A sum of two `int64_t`: it wraps where it does not fit, as it does on the machines of the host.
def addInt64 (a b : Int) : Int :=
  (a + b).bmod (2 ^ 64)

-- A recurring task cycles back to pending, whatever the run came to.
def Task.rescheduled (task : Task) (now : Int) (terminal : TaskStatus) : Task :=
  if 0 < task.recurrenceMs then
    { task with
      updatedAtMs := now, status := .pending, scheduledForMs := addInt64 now task.recurrenceMs }
  else
    { task with updatedAtMs := now, status := terminal }

def Task.cancelled (task : Task) (now : Int) : Task :=
  { task with status := .cancelled, updatedAtMs := now }

-- The queue, with the process-wide counter of `generate_task_id`, which nothing else reads.
structure TaskQueue where
  tasks : List Task
  counter : Nat

def generateTaskId (now : Int) (sequence : Nat) : Bytes :=
  "task-" ++ decimalInt now ++ minus :: decimal sequence

namespace TaskQueue

def kMaxHistoryEntries : Nat := 256

-- Each round of the loop drops the oldest finished task; a round that finds none leaves the list
-- alone, and so does every further one.
def trimRounds : Nat → List Task → List Task
  | 0, tasks          => tasks
  | rounds + 1, tasks => trimRounds rounds (tasks.eraseP (·.status.isTerminal))

def trimHistory (tasks : List Task) : List Task :=
  trimRounds (tasks.length - kMaxHistoryEntries) tasks

def find (queue : TaskQueue) (taskId : Bytes) : Option Task :=
  queue.tasks.find? (·.id = taskId)

-- Applies `f` to the first task with the id.
def update (taskId : Bytes) (f : Task → Task) : List Task → List Task
  | []            => []
  | task :: tasks => if task.id = taskId then f task :: tasks else task :: update taskId f tasks

-- `now` is what the function reads off `current_timestamp_ms`, here and below.
def enqueue (queue : TaskQueue) (task : Task) (now : Int) : Bytes × TaskQueue :=
  let counter := if task.id = [] then queue.counter + 1 else queue.counter
  let task := { task with
    id := if task.id = [] then generateTaskId now counter else task.id
    status := if task.status = .unset then .pending else task.status
    createdAtMs := now
    updatedAtMs := now
  }
  (task.id, ⟨trimHistory (queue.tasks ++ [task]), counter⟩)

def claimFrom (now : Int) : List Task → Option (Task × List Task)
  | []            => none
  | task :: tasks =>
    if task.status = .pending ∧ task.scheduledForMs ≤ now then
      let claimed :=
        { task with status := .running, updatedAtMs := now, runCount := task.runCount + 1 }
      some (claimed, claimed :: tasks)
    else
      (claimFrom now tasks).map fun (claimed, tasks) => (claimed, task :: tasks)

def claimNext (queue : TaskQueue) (now : Int) : Option Task × TaskQueue :=
  match claimFrom now queue.tasks with
  | some (claimed, tasks) => (some claimed, { queue with tasks := tasks })
  | none                  => (none, queue)

def settle (queue : TaskQueue) (taskId : Bytes) (f : Task → Task) : Bool × TaskQueue :=
  if (queue.find taskId).isSome then
    (true, { queue with tasks := trimHistory (update taskId f queue.tasks) })
  else
    (false, queue)

def complete (queue : TaskQueue) (taskId resultJson : Bytes) (now : Int) : Bool × TaskQueue :=
  queue.settle taskId fun task =>
    Task.rescheduled { task with resultJson := resultJson } now .done

def fail (queue : TaskQueue) (taskId error : Bytes) (now : Int) : Bool × TaskQueue :=
  queue.settle taskId fun task =>
    Task.rescheduled { task with errorMessage := error } now .failed

def cancel (queue : TaskQueue) (taskId : Bytes) (now : Int) : Bool × TaskQueue :=
  match queue.find taskId with
  | none      => (false, queue)
  | some task =>
    if task.status.isTerminal then (false, queue)
    else queue.settle taskId (·.cancelled now)

end TaskQueue

def buildTaskJson (task : Task) : Bytes :=
  jsonObject [
    jsonStringField "id" task.id,
    jsonStringField "connector_id" task.connectorId,
    jsonStringField "command" task.command,
    jsonStringField "payload_json" task.payloadJson,
    jsonStringField "status" task.status.text,
    jsonIntField "created_at_ms" task.createdAtMs,
    jsonIntField "updated_at_ms" task.updatedAtMs,
    jsonIntField "scheduled_for_ms" task.scheduledForMs,
    jsonIntField "recurrence_ms" task.recurrenceMs,
    jsonIntField "run_count" task.runCount,
    jsonStringField "error_message" task.errorMessage,
    jsonStringField "result_json" task.resultJson
  ]

-- The source opens no brace here, only closes one.
def buildTasksJson (tasks : List Task) : Bytes :=
  jsonBoolField "ok" true ++ comma :: needle "tasks" ++ jsonArray (tasks.map buildTaskJson) ++
    [rbrace]

-- `none` when the exception of `std::stoll` escapes, on a number that does not fit.
def parseTaskRequestFromJson (json : Bytes) (now : Int) : Option (Except Bytes Task) :=
  let command := extractJsonStringField json "command"
  if command = [] then some (.error "Task requires a command.")
  else do
    let delayMs ← (extractJsonIntField json "delay_ms").getD 0
    let recurrenceMs ← (extractJsonIntField json "recurrence_ms").getD 0
    return .ok {
      id := []
      connectorId := extractJsonStringField json "connector_id"
      command := command
      payloadJson := extractJsonStringField json "payload_json"
      status := .unset
      createdAtMs := 0
      updatedAtMs := 0
      scheduledForMs := if 0 < delayMs then addInt64 now delayMs else 0
      recurrenceMs := if 0 < recurrenceMs then recurrenceMs else 0
      runCount := 0
      errorMessage := []
      resultJson := []
    }

end Droidcli.App
