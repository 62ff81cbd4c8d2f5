import Droidcli.Cli.OsTools
import Droidcli.Cli.Theorems.Approval

namespace Droidcli.Cli

open Bytes Net Ai Interaction

variable {W S : Type} {os : Os W} {m : Machine W} {seen : W → S} {host : HostState}
  {toolName argumentsJson : Bytes} {w : W}

-- `seen` picks from the world what a user has to fear for: files, processes, the clipboard. The
-- clock, requests to other programs and the host's own notes leave that alone.
structure Harmless (os : Os W) (m : Machine W) (seen : W → S) : Prop where
  passTime         : ∀ w, seen (os.passTime w) = seen w
  syncHttpGet      : ∀ url w, seen (os.syncHttpGet url w).2 = seen w
  syncHttpPostJson : ∀ url body w, seen (os.syncHttpPostJson url body w).2 = seen w
  recordLesson     : ∀ lesson w, seen (m.recordLesson lesson w).2 = seen w
  rememberLocation : ∀ name path w, seen (m.rememberLocation name path w).2 = seen w

section Tools

theorem connectorStatusJson_seen (h : Harmless os m seen) {connectorId : Bytes} :
    seen (connectorStatusJson os host connectorId w).world = seen w := by
  unfold connectorStatusJson
  split
  case h_1 => rfl
  case h_2 =>
    split
    case isTrue  => rfl
    case isFalse => exact h.syncHttpGet _ w

theorem callConnector_seen (h : Harmless os m seen) {connectorId path method body : Bytes} :
    seen (callConnector os host connectorId path method body w).world = seen w := by
  unfold callConnector
  split
  case h_1 => rfl
  case h_2 =>
    split_ifs
    case pos => rfl
    case pos => rfl
    all_goals
      dsimp only
      split
      · first | exact h.syncHttpGet _ w | exact h.syncHttpPostJson _ _ w
      · first | exact h.syncHttpGet _ w | exact h.syncHttpPostJson _ _ w

theorem recordCommandFixJson_seen (h : Harmless os m seen) {body : Bytes} :
    seen (recordCommandFixJson m body w).world = seen w := by
  unfold recordCommandFixJson
  dsimp only
  split
  case isTrue  => rfl
  case isFalse => exact h.recordLesson _ w

theorem rememberLocationJson_seen (h : Harmless os m seen) {body : Bytes} :
    seen (rememberLocationJson m host body w).world = seen w := by
  unfold rememberLocationJson
  dsimp only
  split_ifs
  case pos => rfl
  case pos => rfl
  case pos => rfl
  all_goals exact h.rememberLocation _ _ w

theorem readFile_world {body : Bytes} : (readFile m host body w).world = w := by
  unfold readFile
  dsimp only
  split_ifs
  case pos => rfl
  case pos => rfl
  case neg => split <;> rfl

theorem listDir_world {body : Bytes} : (listDir m body w).world = w := by
  unfold listDir
  dsimp only
  split <;> rfl

theorem ran_if {α : Type} {p : Prop} [Decidable p] {a b : Ran W α}
    (ha : p → seen a.world = seen w) (hb : seen b.world = seen w) :
    seen (if p then a else b).world = seen w := by
  split
  case isTrue hp => exact ha hp
  case isFalse   => exact hb

-- A name that needs a decision is not the name of a tool that needs none.
theorem gated_name {P : Prop} {name : Bytes} (hg : ¬toolCallRequiresApproval toolName)
    (hn : toolCallRequiresApproval name = true := by decide) (he : toolName = name) : P :=
  absurd (he ▸ hn) hg

-- What the tools behind `Os.osTool` do that need no decision.
theorem runOsTool_seen (h : Harmless os m seen) (hg : ¬toolCallRequiresApproval toolName) :
    seen (runOsTool m host toolName argumentsJson w).world = seen w := by
  unfold runOsTool
  refine ran_if (fun _ => rfl) <| ran_if (fun _ => congrArg seen readFile_world) ?_
  refine ran_if (gated_name hg) <| ran_if (fun _ => congrArg seen listDir_world) ?_
  refine ran_if (fun _ => rfl) <| ran_if (fun _ => rfl) <| ran_if (fun _ => rfl) ?_
  refine ran_if (gated_name hg) <| ran_if (gated_name hg) <| ran_if (gated_name hg) ?_
  refine ran_if (gated_name hg) <| ran_if (fun _ => rfl) <| ran_if (gated_name hg) ?_
  refine ran_if (fun _ => rfl) <| ran_if (fun _ => rfl) <| ran_if (fun _ => rfl) ?_
  refine ran_if (fun _ => rememberLocationJson_seen h) <| ran_if (fun _ => rfl) ?_
  exact recordCommandFixJson_seen h

-- Neither what is seen of the world nor the host has changed.
def LeavesSeen (seen : W → S) (host : HostState) (w : W)
    (r : Ran W (Option Bytes) × HostState) : Prop :=
  seen r.1.world = seen w ∧ r.2 = host

theorem kept_if {p : Prop} [Decidable p] {a b : Ran W (Option Bytes) × HostState}
    (ha : p → LeavesSeen seen host w a) (hb : LeavesSeen seen host w b) :
    LeavesSeen seen host w (if p then a else b) := by
  split
  case isTrue hp => exact ha hp
  case isFalse   => exact hb

theorem Harmless.on (h : Harmless os m seen) (host : HostState) :
    Harmless (os.on m host) m seen :=
  { h with }

theorem executeAgentTool_kept (h : Harmless os m seen) (hg : ¬toolCallRequiresApproval toolName)
    {host' : HostState} {appLog : List AppLogEntry} :
    LeavesSeen seen host w
      (executeAgentTool (os.on m host') host appLog toolName argumentsJson w) := by
  unfold executeAgentTool
  refine kept_if (fun _ => ⟨rfl, rfl⟩) ?_
  refine kept_if (fun _ => ⟨connectorStatusJson_seen (h.on host'), rfl⟩) ?_
  refine kept_if (gated_name hg) <| kept_if (gated_name hg) ?_
  refine kept_if (fun _ => ⟨callConnector_seen (h.on host'), rfl⟩) ?_
  refine kept_if (gated_name hg) <| kept_if (fun _ => ⟨rfl, rfl⟩) ?_
  refine kept_if (gated_name hg) <| kept_if (gated_name hg) ?_
  refine kept_if (fun _ => ⟨rfl, rfl⟩) <| kept_if (fun _ => ⟨rfl, rfl⟩) ?_
  refine kept_if (gated_name hg) <| kept_if (gated_name hg) <| kept_if (fun _ => ⟨rfl, rfl⟩) ?_
  exact kept_if (fun _ => ⟨runOsTool_seen h hg, rfl⟩) ⟨rfl, rfl⟩

end Tools

section Runs

-- What a user has to fear for, and the host's registrations, tasks and settings.
def AgentWorld.fearedFor (seen : W → S) (s : AgentWorld W) : S × HostState :=
  (seen s.machine, { s.host with memoryStoreOpen := true })

variable {s : AgentWorld W} {provider : Provider} {o : AgentOp}

theorem openSession_fearedFor {clear : Bool} {requested : Bytes} :
    (s.openSession os clear requested).fearedFor seen = s.fearedFor seen := by
  unfold AgentWorld.openSession
  split_ifs <;> rfl

theorem deleteSession_fearedFor {requested : Bytes} :
    (s.deleteSession os requested).2.fearedFor seen = s.fearedFor seen := by
  unfold AgentWorld.deleteSession
  dsimp only
  split_ifs <;> rfl

theorem executeTool_fearedFor (h : Harmless os m seen) (hg : ¬toolCallRequiresApproval toolName) :
    (s.executeTool (os.on m host) toolName argumentsJson).2.fearedFor seen = s.fearedFor seen := by
  obtain ⟨hw, hh⟩ := @executeAgentTool_kept _ _ os m seen
    { s.host with memoryStoreOpen := s.agent.memoryStore.isOpen } toolName argumentsJson s.machine
    h hg host s.appLog
  refine Prod.ext hw ?_
  exact congrArg (fun host : HostState => { host with memoryStoreOpen := true }) hh

theorem agentHandler_fearedFor (h : Harmless os m seen)
    (hg : ∀ name argumentsJson, o = .executeTool name argumentsJson →
      ¬toolCallRequiresApproval name) :
    (agentHandler (os.on m host) provider o s).2.fearedFor seen = s.fearedFor seen := by
  have hp (s : AgentWorld W) : (s.passTime (os.on m host)).fearedFor seen = s.fearedFor seen :=
    Prod.ext (h.passTime s.machine) rfl
  cases o
  case openSession                    => exact (hp _).trans openSession_fearedFor
  case abandonPending                 => dsimp only [agentHandler]; split_ifs <;> rfl
  case takePending                    => dsimp only [agentHandler]; split <;> rfl
  case record                         => exact hp _
  case post                           => exact hp _
  case executeTool name argumentsJson => exact executeTool_fearedFor h (hg _ _ rfl)
  case deleteSession                  => exact (hp _).trans deleteSession_fearedFor
  all_goals rfl

end Runs

section Approved

variable {tools : List ToolDefinition} {provider : Nat → Provider} {requests : Nat → AgentRequest}
  {s : AgentWorld W} {t : List (Nat × Event AgentRes)} {d d' : AgentPool W}
  {e : Nat × Event AgentRes}

-- What has gone before an execution that a user has approved: the call with this name and these
-- arguments was shown, and the decision that executes it has taken it.
structure Approved (requests : Nat → AgentRequest) (t : List (Nat × Event AgentRes)) (i : Nat)
    (name argumentsJson : Bytes) : Prop where
  approval : (requests i).isApproval
  shown    : ∃ p n, p < n ∧ ∃ pending j, PausedAt t p j pending ∧ ConsumedAt t n i pending ∧
    pending.decidedCall.name = name ∧ pending.decidedCall.argumentsJson = argumentsJson

-- Whatever the requests and the provider's answers, and however they interleave: a step that
-- changes what a user has to fear for, or what the host has registered, queued or set, executes a
-- tool that the user was shown, with these arguments, and has approved.
theorem change_approved (h : Harmless os m seen) (hs : s.agent.pendingToolCall = none)
    (r : (AgentPool.start tools s requests).Run (os.on m host) provider t d)
    (r' : (AgentPool.start tools s requests).Run (os.on m host) provider (t ++ [e]) d')
    (hne : d'.state.fearedFor seen ≠ d.state.fearedFor seen) :
    ∃ name argumentsJson, e.2.op = .executeTool name argumentsJson ∧
      toolCallRequiresApproval name ∧ Approved requests t e.1 name argumentsJson := by
  obtain ⟨i, o, x⟩ := e
  obtain ⟨d'', k, r'', _, _, hd⟩ := Pool.Run.snoc_inv r'
  obtain rfl := Pool.Run.unique r r''
  have hg : ∃ name argumentsJson, o = .executeTool name argumentsJson ∧
      toolCallRequiresApproval name := by
    by_contra hn
    refine hne ?_
    rw [hd]
    refine agentHandler_fearedFor h fun name argumentsJson ho hg => ?_
    exact hn ⟨name, argumentsJson, ho, hg⟩
  obtain ⟨name, argumentsJson, rfl, hg⟩ := hg
  have hgated : GatedAt (t ++ [(i, ⟨.executeTool name argumentsJson, x⟩)]) t.length i name
      argumentsJson := ⟨hg, x, by simp⟩
  obtain ⟨ha, _, n, hn, pending, hc, hname, hargs⟩ := hgated.served r'
  obtain ⟨p, hp⟩ := hc.standing hs r'
  have hlt := hp.lt
  rw [← List.map_take, List.take_append_of_le_length (Nat.le_of_lt hn)] at hp
  simp only [List.length_take, List.length_map, Nat.lt_min] at hlt
  obtain ⟨j, hj⟩ := paused_of_standing hp
  obtain ⟨requested, hc⟩ := hc
  rw [List.getElem?_append_left hn] at hc
  exact ⟨name, argumentsJson, rfl, hg, ha, p, n, hlt.left, pending, j, hj.of_take,
    ⟨requested, hc⟩, hname, hargs⟩

end Approved

section Task

def taskArguments : Bytes := jsonObject [jsonStringField "command" "run"]

def taskRequests : Nat → AgentRequest
  | 0 => .turn (jsonObject [jsonStringField "message" "later"])
  | _ => .toolDecision (jsonObject [jsonBoolField "approved" true])

def taskRun (order : List Nat) : List (Nat × Event AgentRes) × AgentPool Unit :=
  Pool.serially (fun _ => agentHandler (Os.idle.on Machine.idle HostState.initial)
    (.proposing "enqueue_task" taskArguments)) order
    (AgentPool.start [] AgentWorld.fresh taskRequests)

theorem harmless_idle : Harmless Os.idle Machine.idle (id : Unit → Unit) :=
  ⟨fun _ => rfl, fun _ _ => rfl, fun _ _ _ => rfl, fun _ _ => rfl, fun _ _ _ => rfl⟩

def parsedTask : App.Task where
  id := []
  connectorId := []
  command := "run"
  payloadJson := []
  status := .unset
  createdAtMs := 0
  updatedAtMs := 0
  scheduledForMs := 0
  recurrenceMs := 0
  runCount := 0
  errorMessage := []
  resultJson := []

theorem executeTool_task (s : AgentWorld Unit) :
    (s.executeTool (Os.idle.on Machine.idle HostState.initial) "enqueue_task"
      taskArguments).2.host.tasks.counter = s.host.tasks.counter + 1 := by
  have hp : App.parseTaskRequestFromJson taskArguments 0 = some (.ok parsedTask) := by
    decide +kernel
  have hn : str "enqueue_task" ∉ [str "list_connectors", "connector_status", "launch_connector",
      "stop_connector", "call_connector"] := by decide
  simp only [List.mem_cons, List.not_mem_nil, or_false, not_or] at hn
  have hq (host : HostState) :
      (enqueueTask host taskArguments 0 0).2.tasks.counter = host.tasks.counter + 1 := by
    rw [enqueueTask, hp]
    rfl
  simp only [AgentWorld.executeTool, executeAgentTool, hn, if_false, if_true]
  exact hq _

theorem taskRun_run (order : List Nat) :
    (AgentPool.start [] AgentWorld.fresh taskRequests).Run
      (Os.idle.on Machine.idle HostState.initial)
      (fun _ => .proposing "enqueue_task" taskArguments) (taskRun order).1 (taskRun order).2 :=
  Pool.Run.serially .refl

-- The model proposes to queue a task, and the user approves.
theorem change_approved_task :
    Approved taskRequests ((taskRun [0, 1]).1.take 14) 1 "enqueue_task" taskArguments := by
  have ho : opAt (taskRun [0, 1]).1 14 = some (1, .executeTool "enqueue_task" taskArguments) := by
    decide +kernel
  obtain ⟨result, ht⟩ := exists_of_opAt ho
  obtain ⟨d, k, r, hk, _⟩ := Pool.Run.step_at (taskRun_run [0, 1]) ht
  have hne : ((d.state.executeTool (Os.idle.on Machine.idle HostState.initial) "enqueue_task"
      taskArguments).2.fearedFor id) ≠ d.state.fearedFor id := by
    intro h
    have hc := congrArg (·.2.tasks.counter) h
    have := executeTool_task d.state
    simp only [AgentWorld.fearedFor] at hc
    omega
  obtain ⟨name, argumentsJson, ho, _, ha⟩ := change_approved harmless_idle rfl r (r.step hk) hne
  cases ho
  exact ha

end Task

end Droidcli.Cli
