import Droidcli.App.TaskSystem
import Droidcli.Cli.HostTools

namespace Droidcli.Cli

open Bytes Net App

section

variable {W : Type} (os : Os W)

-- The middle of `tick_tasks`, which runs without the lock: it performs the action of a claimed
-- task and judges it by the text of its result.
def dispatchTask (host : HostState) (task : Task) (w : W) : Ran W TaskOutcome :=
  if task.command = str "run" then
    let ran := runCommand os host task.payloadJson w
    { ran with value :=
        if contains (str "\"launched\":true") ran.value then .completed ran.value
        else .failed ran.value }
  else if task.command = str "launch" ∧ task.connectorId ≠ [] then
    let ran := launchConnector os host task.connectorId w
    { ran with value :=
        if contains (str "\"success\":true") ran.value then .completed []
        else .failed "launch_connector failed" }
  else if task.command = str "stop" ∧ task.connectorId ≠ [] then
    let ran := stopConnector os task.connectorId w
    { ran with value :=
        if contains (str "\"success\":true") ran.value then .completed []
        else .failed "stop_connector failed" }
  else if task.connectorId ≠ [] then
    let ran := callConnector os host task.connectorId task.command "POST" task.payloadJson w
    { ran with value :=
        if contains (str "\"ok\":false") ran.value then .failed ran.value
        else .completed [] }
  else
    ⟨.failed "task has no connector_id and command is not launch/stop", [], w⟩

def outcomeLogEntry (task : Task) : TaskOutcome → AppLogEntry
  | .completed _  => ⟨"task", task.command, task.id ++ " completed", true⟩
  | .failed error => ⟨"task", task.command, task.id ++ " failed: " ++ error, false⟩

-- The outcome with which `tick_tasks` records the task it claims, if it claims one, with no other
-- thread in between. `TaskSystem` has the interleavings.
def tickTasks (host : HostState) (w : W) : Ran W (Option (Task × TaskOutcome)) × HostState :=
  match host.tasks.claimNext (os.currentTimestampMs w) with
  | (none, _)          => (⟨none, [], w⟩, host)
  | (some task, tasks) =>
    let ran := dispatchTask os { host with tasks := tasks } task w
    let tasks := tasks.record task.id (os.currentTimestampMs ran.world) ran.value
    (⟨some (task, ran.value), ran.logged ++ [outcomeLogEntry task ran.value], ran.world⟩,
      { host with tasks := tasks })

end
end Droidcli.Cli
