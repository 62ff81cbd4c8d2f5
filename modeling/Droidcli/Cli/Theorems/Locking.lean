import Droidcli.Cli.Locking

namespace Droidcli.Cli

open Bytes Locking Interaction

-- The one answer behind which a method of the host takes the lock that it holds.
def Fatal : (q : HostAsk) → HostAns q → Prop
  | .whether .memoryStoreOpens, opened => opened = false
  | _, _                               => False

abbrev KeepsLock (held : Bool) {α : Type} (p : HostM α) : Prop :=
  Obeys Fatal held held p

variable {held : Bool} {c : Condition} {tools : List Ai.ToolDefinition}

theorem keepsLock_whether (h : c ≠ .memoryStoreOpens) : KeepsLock held (whether c) :=
  obeys_ask fun _ hr => by cases c <;> first | exact h rfl | exact hr

theorem keepsLock_consult {o : AgentOp} : KeepsLock held (consult o) :=
  obeys_ask fun _ => id

theorem keepsLock_locked {α : Type} {p : HostM α} (h : KeepsLock true p) :
    KeepsLock false (locked p) :=
  obeys_locked h

theorem keepsLock_bind {α β : Type} {p : HostM α} {f : α → HostM β} (hp : KeepsLock held p)
    (hf : ∀ a, KeepsLock held (f a)) : KeepsLock held (p >>= f) :=
  obeys_bind hp hf

theorem keepsLock_return : KeepsLock held (return () : HostM Unit) :=
  rfl

theorem keepsLock_locked_return : KeepsLock false (locked (return ()) : HostM Unit) :=
  keepsLock_locked keepsLock_return

theorem keepsLock_if {p : Prop} [Decidable p] {a b : HostM Unit} (ha : KeepsLock held a)
    (hb : KeepsLock held b) : KeepsLock held (if p then a else b) := by
  split
  · exact ha
  · exact hb

theorem keepsLock_branch {p : HostM Bool} {a b : HostM Unit} (hp : KeepsLock held p)
    (ha : KeepsLock held a) (hb : KeepsLock held b) : KeepsLock held (do if ← p then a else b) :=
  keepsLock_bind hp fun _ => keepsLock_if ha hb

namespace DroidHost

theorem keepsLock_appendAppLog : KeepsLock false appendAppLog :=
  keepsLock_locked_return

theorem keepsLock_loggedUnless {guards : List Condition} (h : .memoryStoreOpens ∉ guards) :
    KeepsLock false (loggedUnless guards) := by
  induction guards
  case nil => exact keepsLock_appendAppLog
  case cons guard guards hi =>
    have ⟨hg, hgs⟩ := List.ne_and_not_mem_of_not_mem_cons h
    refine keepsLock_bind (keepsLock_whether hg.symm) fun _ => ?_
    split
    · exact keepsLock_return
    · exact hi hgs

-- Under the lock, the store that could not be opened is reported through the lock.
theorem keepsLock_initializeHost : KeepsLock false initializeHost := by
  refine keepsLock_bind (keepsLock_locked fun opened => ?_) fun _ => keepsLock_appendAppLog
  cases opened
  case false => exact ⟨fun _ => ⟨rfl, _, rfl⟩, fun h => absurd rfl h⟩
  case true  => exact ⟨nofun, fun _ => rfl⟩

theorem keepsLock_dispatchRoute : KeepsLock false dispatchRoute :=
  keepsLock_locked <| keepsLock_branch (keepsLock_whether nofun) keepsLock_return keepsLock_return

theorem keepsLock_tickWatchdog : KeepsLock false tickWatchdog := by
  refine keepsLock_branch (keepsLock_whether nofun) ?_ keepsLock_return
  refine keepsLock_branch (keepsLock_whether nofun) ?_ keepsLock_return
  refine keepsLock_bind keepsLock_locked_return fun _ => ?_
  exact keepsLock_branch (keepsLock_locked (keepsLock_whether nofun)) keepsLock_appendAppLog
    keepsLock_return

theorem keepsLock_updateOllamaConfig : KeepsLock false updateOllamaConfig :=
  keepsLock_locked <| keepsLock_branch (keepsLock_whether nofun) keepsLock_return keepsLock_return

theorem keepsLock_installOllama : KeepsLock false installOllama :=
  keepsLock_branch (keepsLock_whether nofun) keepsLock_appendAppLog keepsLock_return

theorem keepsLock_startOllama : KeepsLock false startOllama := by
  refine keepsLock_bind (keepsLock_whether nofun) fun _ => ?_
  refine keepsLock_if keepsLock_appendAppLog ?_
  exact keepsLock_bind keepsLock_locked_return fun _ => keepsLock_appendAppLog

theorem keepsLock_pullOllamaModel : KeepsLock false pullOllamaModel := by
  refine keepsLock_branch (keepsLock_whether nofun) ?_ keepsLock_return
  refine keepsLock_bind keepsLock_appendAppLog fun _ => ?_
  exact keepsLock_branch (keepsLock_whether nofun) keepsLock_updateOllamaConfig keepsLock_return

theorem keepsLock_registerConnector : KeepsLock false registerConnector :=
  keepsLock_branch (keepsLock_whether nofun) keepsLock_locked_return keepsLock_return

theorem keepsLock_connectorStatusJson : KeepsLock false connectorStatusJson :=
  keepsLock_bind (keepsLock_locked (keepsLock_whether nofun)) fun _ => keepsLock_return

theorem keepsLock_launchConnector : KeepsLock false launchConnector := by
  refine keepsLock_branch (keepsLock_locked (keepsLock_whether nofun)) ?_ keepsLock_return
  exact keepsLock_branch (keepsLock_whether nofun) keepsLock_appendAppLog keepsLock_return

theorem keepsLock_callConnector : KeepsLock false callConnector := by
  refine keepsLock_branch (keepsLock_locked (keepsLock_whether nofun)) ?_ keepsLock_return
  refine keepsLock_branch (keepsLock_whether nofun) ?_ keepsLock_return
  exact keepsLock_branch (keepsLock_whether nofun) keepsLock_appendAppLog keepsLock_return

theorem keepsLock_runCommand : KeepsLock false runCommand :=
  keepsLock_loggedUnless (by decide)

theorem keepsLock_resolveOpenApplicationTarget : KeepsLock false resolveOpenApplicationTarget := by
  refine keepsLock_branch (keepsLock_whether nofun) keepsLock_return ?_
  refine keepsLock_branch (keepsLock_whether nofun) keepsLock_return ?_
  refine keepsLock_bind keepsLock_locked_return fun _ => ?_
  exact keepsLock_branch (keepsLock_whether nofun) keepsLock_return keepsLock_locked_return

theorem keepsLock_openApplication : KeepsLock false openApplication := by
  refine keepsLock_branch (keepsLock_whether nofun) keepsLock_return ?_
  exact keepsLock_bind keepsLock_resolveOpenApplicationTarget fun _ => keepsLock_appendAppLog

theorem keepsLock_precheckAndResolveGatedCall {toolName : Bytes} :
    KeepsLock false (precheckAndResolveGatedCall toolName) := by
  refine keepsLock_if ?_ keepsLock_return
  exact keepsLock_branch (keepsLock_whether nofun) keepsLock_return
    keepsLock_resolveOpenApplicationTarget

-- The filesystem tools that check their path and log what they did.
theorem keepsLock_pathTool :
    KeepsLock false (loggedUnless [.placeholderPath, .inventedDesktopPath]) :=
  keepsLock_loggedUnless (by decide)

theorem keepsLock_writeFile : KeepsLock false writeFile :=
  keepsLock_loggedUnless (by decide)

theorem keepsLock_recordCommandFixJson : KeepsLock false recordCommandFixJson :=
  keepsLock_loggedUnless (by decide)

theorem keepsLock_rememberLocationJson : KeepsLock false rememberLocationJson :=
  keepsLock_loggedUnless (by decide)

theorem keepsLock_enqueueTask : KeepsLock false enqueueTask :=
  keepsLock_branch (keepsLock_whether nofun) keepsLock_locked_return keepsLock_return

theorem keepsLock_dispatchTask : KeepsLock false dispatchTask := by
  refine keepsLock_branch (keepsLock_whether nofun) keepsLock_runCommand ?_
  refine keepsLock_branch (keepsLock_whether nofun) keepsLock_launchConnector ?_
  refine keepsLock_branch (keepsLock_whether nofun) keepsLock_appendAppLog ?_
  exact keepsLock_branch (keepsLock_whether nofun) keepsLock_callConnector keepsLock_return

theorem keepsLock_tickTasks : KeepsLock false tickTasks := by
  refine keepsLock_branch (keepsLock_locked (keepsLock_whether nofun)) ?_ keepsLock_return
  refine keepsLock_bind keepsLock_dispatchTask fun _ => ?_
  exact keepsLock_bind keepsLock_locked_return fun _ => keepsLock_appendAppLog

theorem keepsLock_tick : KeepsLock false tick :=
  keepsLock_bind keepsLock_tickWatchdog fun _ => keepsLock_tickTasks

theorem keepsLock_toolMethods : ∀ m ∈ toolMethods, KeepsLock false m.2 := by
  simp only [toolMethods, List.forall_mem_cons]
  exact ⟨keepsLock_locked_return, keepsLock_connectorStatusJson, keepsLock_launchConnector,
    keepsLock_appendAppLog, keepsLock_callConnector, keepsLock_enqueueTask,
    keepsLock_locked_return, keepsLock_locked_return, keepsLock_runCommand,
    keepsLock_locked_return, keepsLock_return, keepsLock_locked_return,
    keepsLock_openApplication, keepsLock_pathTool, keepsLock_writeFile, keepsLock_appendAppLog,
    keepsLock_return, keepsLock_return, keepsLock_return, keepsLock_pathTool, keepsLock_pathTool,
    keepsLock_pathTool, keepsLock_pathTool, keepsLock_return, keepsLock_appendAppLog,
    keepsLock_return, keepsLock_runCommand, keepsLock_return, keepsLock_locked_return,
    keepsLock_return, keepsLock_rememberLocationJson, keepsLock_return,
    keepsLock_recordCommandFixJson, by simp⟩

theorem keepsLock_executeAgentTool {toolName : Bytes} :
    KeepsLock false (executeAgentTool toolName) := by
  unfold executeAgentTool
  split
  case h_1 hf => exact keepsLock_toolMethods _ (List.mem_of_find?_eq_some hf)
  case h_2    => exact keepsLock_return

theorem keepsLock_agentOp (o : AgentOp) : KeepsLock false (agentOp o) := by
  cases o
  case aiEnabled => exact keepsLock_consult
  case post      => exact keepsLock_consult
  case elapsedMs =>
    refine keepsLock_bind keepsLock_consult fun _ => ?_
    exact keepsLock_bind keepsLock_locked_return fun _ => rfl
  case executeTool =>
    exact keepsLock_bind keepsLock_executeAgentTool fun _ => keepsLock_consult
  case precheck =>
    exact keepsLock_bind keepsLock_precheckAndResolveGatedCall fun _ => keepsLock_consult
  all_goals exact keepsLock_locked keepsLock_consult

theorem keepsLock_serveAgent {request : AgentRequest} :
    KeepsLock false (serveAgent tools request) :=
  keepsLock_bind (obeys_interpret keepsLock_agentOp) fun _ => keepsLock_return

end DroidHost

open DroidHost

theorem keepsLock_call (c : HostCall) : KeepsLock false (c.locking tools) := by
  cases c
  case updateOllamaConfig     => exact keepsLock_updateOllamaConfig
  case installOllama          => exact keepsLock_installOllama
  case startOllama            => exact keepsLock_startOllama
  case pullOllamaModel        => exact keepsLock_pullOllamaModel
  case runCommand             => exact keepsLock_runCommand
  case runFfmpegJson          => exact keepsLock_runCommand
  case openApplication        => exact keepsLock_openApplication
  case readFile               => exact keepsLock_pathTool
  case writeFile              => exact keepsLock_writeFile
  case listDir                => exact keepsLock_appendAppLog
  case copyFileJson           => exact keepsLock_pathTool
  case movePathJson           => exact keepsLock_pathTool
  case deleteFileJson         => exact keepsLock_pathTool
  case createDirectoryJson    => exact keepsLock_pathTool
  case writeClipboardJson     => exact keepsLock_appendAppLog
  case agentTurn              => exact keepsLock_serveAgent
  case agentToolDecision      => exact keepsLock_serveAgent
  case recordCommandFixJson   => exact keepsLock_recordCommandFixJson
  case rememberLocationJson   => exact keepsLock_rememberLocationJson
  case deleteAgentSessionJson => exact keepsLock_serveAgent
  case registerConnector      => exact keepsLock_registerConnector
  case connectorStatusJson    => exact keepsLock_connectorStatusJson
  case launchConnector        => exact keepsLock_launchConnector
  case stopConnector          => exact keepsLock_appendAppLog
  case callConnector          => exact keepsLock_callConnector
  case enqueueTask            => exact keepsLock_enqueueTask
  -- The others hold the lock from their start to their end, or never take it.
  all_goals first | exact keepsLock_locked_return | exact keepsLock_return

theorem keepsLock_method (m : HostMethod) : KeepsLock false (m.locking tools) := by
  cases m
  case call c         => exact keepsLock_call c
  case initializeHost => exact keepsLock_initializeHost
  case tick           => exact keepsLock_tick
  case tickTasks      => exact keepsLock_tickTasks
  case dispatchRoute  => exact keepsLock_dispatchRoute
  all_goals first | exact keepsLock_locked_return | exact keepsLock_return

section Discipline

variable {ι : Type} [DecidableEq ι] {calls : ι → List HostMethod} {d : Crew HostAns ι}
  {t : List (ι × Event (LockRes HostAns))}

theorem obeying_hostThreads : (hostThreads tools calls).Obeying Fatal :=
  fun i => obeys_forM keepsLock_method (calls i)

theorem isFatal_iff {e : Event (LockRes HostAns)} :
    Crew.IsFatal Fatal e ↔ e = memoryStoreFails := by
  constructor
  case mp =>
    intro h
    match e, h with
    | ⟨.ask (.whether .memoryStoreOpens), _⟩, rfl => rfl
  case mpr =>
    rintro rfl
    rfl

-- Threads that call the methods of the host in any order, interleaved in any way, whatever their
-- surroundings answer: none of them waits for the lock that it holds, in no state that they go
-- through, if and only if the memory store was opened wherever the host was initialized.
theorem lockDiscipline_iff (r : Crew.Run (hostThreads tools calls) t d) :
    Crew.Through (hostThreads tools calls) t (fun d => ∀ i, ¬d.SelfDeadlocked i) ↔
      ∀ e ∈ t, e.2 ≠ memoryStoreFails := by
  rw [r.through_iff obeying_hostThreads]
  simp only [isFatal_iff, ne_eq]

end Discipline

-- The daemon's start with a memory store that opens.
theorem lockDiscipline_iff_opened :
    Crew.Through (hostThreads [] fun _ : Unit => [.initializeHost])
      [((), ⟨.acquire, ()⟩), ((), ⟨.ask (.whether .memoryStoreOpens), true⟩), ((), ⟨.release, ()⟩),
        ((), ⟨.acquire, ()⟩), ((), ⟨.release, ()⟩)]
      (fun d => ∀ i, ¬d.SelfDeadlocked i) :=
  (lockDiscipline_iff <| Crew.Run.refl
    |>.snoc (.acquire rfl rfl)
    |>.snoc (.ask rfl)
    |>.snoc (.release rfl)
    |>.snoc (.acquire rfl rfl)
    |>.snoc (.release rfl)).mpr (by simp [memoryStoreFails])

-- The daemon's start with a memory store that does not.
theorem not_lockDiscipline :
    ¬∀ (calls : Unit → List HostMethod) (t : List (Unit × Event (LockRes HostAns)))
      (d : Crew HostAns Unit), Crew.Run (hostThreads [] calls) t d →
        Crew.Through (hostThreads [] calls) t fun d => ∀ i, ¬d.SelfDeadlocked i := by
  intro h
  have r : Crew.Run (hostThreads [] fun _ : Unit => [.initializeHost])
      [((), ⟨.acquire, ()⟩), ((), memoryStoreFails)] _ :=
    (Crew.Run.refl.snoc (.acquire rfl rfl)).snoc (.ask rfl)
  exact h _ _ _ r _ [] _ (List.append_nil _).symm r () ⟨rfl, _, rfl⟩

end Droidcli.Cli
