import Droidcli.Cli.Theorems.Locking
import Droidcli.Cli.Threads

namespace Droidcli.Cli

open Bytes LockOrder Interaction Prog

-- The hand-off slot may be held around the host's mutex, and only `main` waits for threads.
def order : Order Mutex ThreadId ThreadAns where
  rank
    | .polled   => 0
    | .chatWork => 0
    | .host     => 1
  level
    | .main => 1
    | _     => 0
  Fatal
    | .whether _, _ => False
    | .host q, r    => Fatal q r

-- The answer of a memory store that could not be opened.
def memoryStoreStaysShut : Event (ThreadRes Mutex ThreadId ThreadAns) :=
  ⟨.ask (.host (.whether .memoryStoreOpens)), false⟩

deriving instance Inhabited for PendingView, DeletedSession, Ai.OpenAICompatConfig, Ai.PostOutcome

instance (q : ThreadAsk) : Nonempty (ThreadAns q) := by
  cases q
  case whether => exact ⟨false⟩
  case host q  =>
    cases q
    case whether => exact ⟨false⟩
    case agent o => cases o <;> exact ⟨default⟩

variable {n : Nat} {below : List Mutex} {held ends : Bool} {tools : List Ai.ToolDefinition}

-- The mutexes below the host's, and that one if it is held.
def stack (held : Bool) (below : List Mutex) : List Mutex :=
  if held then .host :: below else below

theorem ordered_onHost {α : Type} {p : HostM α} (hp : Locking.Obeys Fatal ends held p)
    (hb : ∀ l ∈ below, order.rank l < order.rank .host) :
    Ordered order n (stack ends below) (stack held below) (onHost p) := by
  induction p generalizing held
  case ret a =>
    have : held = ends := hp
    exact congrArg (stack · below) this
  case op o k hi =>
    cases o
    case acquire =>
      obtain ⟨rfl, hp⟩ := hp
      exact ⟨hb, hi () hp⟩
    case release =>
      obtain ⟨rfl, hp⟩ := hp
      exact ⟨below, rfl, hi () hp⟩
    case ask q   =>
      intro r
      refine ⟨fun hr => ?_, fun hr => hi r ((hp r).right hr)⟩
      obtain ⟨rfl, k', hk⟩ := (hp r).left hr
      exact ⟨.host, List.mem_cons_self, fun u => onHost (k' u), congrArg onHost hk⟩

-- A method of the host, where its mutex is not held.
theorem ordered_method {p : HostM Unit} (hp : KeepsLock false p)
    (hb : ∀ l ∈ below, order.rank l < order.rank .host) :
    Ordered order n below below (onHost p) :=
  ordered_onHost hp hb

-- A piece of a thread that holds no mutex at its start and at its end.
abbrev Balanced (n : Nat) {α : Type} (p : TuiM α) : Prop :=
  Ordered order n [] [] p

theorem balanced_method {p : HostM Unit} (hp : KeepsLock false p) : Balanced n (onHost p) :=
  ordered_method hp (by simp)

theorem balanced_locked_return {l : Mutex} : Balanced n (locked l (return ())) :=
  ordered_locked (by simp) ordered_ret

theorem balanced_holds {c : TuiCondition} : Balanced n (holds c) :=
  ordered_ask fun _ => id

theorem balanced_return {α : Type} {a : α} : Balanced n (return a : TuiM α) :=
  ordered_ret

namespace Tui

open DroidHost

theorem balanced_pushChatEntry : Balanced n pushChatEntry :=
  balanced_method keepsLock_appendAppLog

theorem balanced_spawnReported {j : ThreadId} : Balanced n (spawnReported j) :=
  ordered_bind (balanced_method keepsLock_appendAppLog) fun _ => ordered_spawn

theorem balanced_reported {p : TuiM Unit} (hp : Balanced n p) : Balanced n (reported p) :=
  ordered_bind hp fun _ => balanced_method keepsLock_appendAppLog

-- The one place where a mutex is taken under another one.
theorem balanced_onCustom : Balanced n onCustom := by
  refine ordered_bind balanced_locked_return fun _ => ?_
  refine ordered_bind (balanced_method keepsLock_locked_return) fun _ => ?_
  refine ordered_locked (by simp) ?_
  refine ordered_branch (ordered_ask fun _ => id) ?_ ordered_ret
  exact ordered_method keepsLock_locked_return (by simp [order])

theorem balanced_onFrame : Balanced n onFrame := by
  have hsession : Balanced n (do
      if ← holds .sessionPicked then
        onHost DroidHost.buildAgentHistoryJson
        if ← holds .sessionEmpty then pushChatEntry) := by
    refine ordered_branch balanced_holds ?_ balanced_return
    refine ordered_bind (balanced_method keepsLock_locked_return) fun _ => ?_
    exact ordered_branch balanced_holds balanced_pushChatEntry balanced_return
  refine ordered_bind balanced_holds fun _ => ?_
  split
  case isTrue =>
    refine ordered_bind (balanced_method keepsLock_updateOllamaConfig) fun _ => ?_
    exact ordered_bind balanced_pushChatEntry fun _ => hsession
  case isFalse => exact hsession

theorem balanced_startChatWorker {worker : Nat} : Balanced 1 (startChatWorker worker) :=
  ordered_bind (ordered_join Nat.one_pos) fun _ =>
    ordered_bind balanced_spawnReported fun _ => balanced_return

theorem balanced_onReturn {worker : Nat} : Balanced 1 (onReturn worker) := by
  have hdecision : Balanced 1 (do pushChatEntry; startChatWorker worker) :=
    ordered_bind balanced_pushChatEntry fun _ => balanced_startChatWorker
  refine ordered_branch balanced_holds balanced_return ?_
  refine ordered_branch balanced_holds ?_ ?_
  case refine_1 =>
    refine ordered_bind balanced_holds fun _ => ?_
    split
    case isTrue  => exact ordered_bind balanced_pushChatEntry fun _ => hdecision
    case isFalse => exact hdecision
  case refine_2 =>
    refine ordered_branch balanced_holds ?_ balanced_startChatWorker
    refine ordered_bind (balanced_method keepsLock_locked_return) fun _ => ?_
    exact ordered_branch balanced_holds balanced_startChatWorker balanced_return

theorem balanced_onConnectorKey {method : HostM Unit} (hm : KeepsLock false method) :
    Balanced n (onConnectorKey method) :=
  ordered_branch balanced_holds (balanced_method hm) balanced_return

theorem balanced_onErase : Balanced n onErase :=
  ordered_branch balanced_holds balanced_return balanced_pushChatEntry

theorem balanced_onEraseConfirmed {body : Bytes} : Balanced n (onEraseConfirmed tools body) := by
  refine ordered_bind (balanced_method keepsLock_serveAgent) fun _ => ?_
  refine ordered_bind balanced_holds fun _ => ?_
  split
  case isTrue =>
    refine ordered_bind (balanced_method keepsLock_locked_return) fun _ => ?_
    exact balanced_pushChatEntry
  case isFalse => exact balanced_pushChatEntry

theorem balanced_onEvent {worker : Nat} (event : UiEvent) :
    Balanced 1 (onEvent tools worker event) := by
  have hw {p : TuiM Unit} (hp : Balanced 1 p) : Balanced 1 (do p; return worker) :=
    ordered_bind hp fun _ => balanced_return
  cases event
  case custom        => exact hw balanced_onCustom
  case frame         => exact hw balanced_onFrame
  case enter         => exact balanced_onReturn
  case launch        => exact hw (balanced_onConnectorKey keepsLock_launchConnector)
  case stop          => exact hw (balanced_onConnectorKey keepsLock_appendAppLog)
  case copy          => exact hw balanced_pushChatEntry
  case newSession    => exact hw balanced_pushChatEntry
  case erase         => exact hw balanced_onErase
  case eraseConfirmed => exact hw balanced_onEraseConfirmed

theorem balanced_loop {worker : Nat} {events : List UiEvent} :
    Balanced 1 (loop tools worker events) := by
  induction events generalizing worker
  case nil               => exact balanced_return
  case cons event events hi => exact ordered_bind (balanced_onEvent event) fun _ => hi

theorem balanced_runTui {events : List UiEvent} : Balanced 1 (runTui tools events) := by
  have hloop : Balanced 1 (do
      spawnReported .spinnerTicker
      spawnReported .poller
      let worker ← loop tools 0 events
      join .poller
      join .spinnerTicker
      join (.chatWorker worker)) := by
    refine ordered_bind balanced_spawnReported fun _ => ?_
    refine ordered_bind balanced_spawnReported fun _ => ?_
    refine ordered_bind balanced_loop fun _ => ?_
    refine ordered_bind (ordered_join Nat.one_pos) fun _ => ?_
    exact ordered_bind (ordered_join Nat.one_pos) fun _ => ordered_join Nat.one_pos
  have hprompt : Balanced 1 (do
      onHost ollamaSetupStatusJson
      if ← holds .hasSetupPrompt then pushChatEntry
      spawnReported .spinnerTicker
      spawnReported .poller
      let worker ← loop tools 0 events
      join .poller
      join .spinnerTicker
      join (.chatWorker worker)) := by
    refine ordered_bind (balanced_method keepsLock_locked_return) fun _ => ?_
    refine ordered_bind balanced_holds fun _ => ?_
    split
    case isTrue  => exact ordered_bind balanced_pushChatEntry fun _ => hloop
    case isFalse => exact hloop
  refine ordered_bind balanced_pushChatEntry fun _ => ?_
  refine ordered_bind balanced_holds fun _ => ?_
  split
  case isTrue  => exact ordered_bind (balanced_method keepsLock_locked_return) fun _ => hprompt
  case isFalse => exact hprompt

theorem balanced_forM {methods : List (HostM Unit)} (h : ∀ m ∈ methods, KeepsLock false m) :
    Balanced n (methods.forM onHost) := by
  induction methods
  case nil => exact balanced_return
  case cons m methods hi =>
    have ⟨hm, hms⟩ := List.forall_mem_cons.mp h
    exact ordered_bind (balanced_method hm) fun _ => hi hms

theorem balanced_pollRound (connectors : Nat) : Balanced n (pollRound connectors) := by
  have hconnectors : Balanced n
      ((List.replicate connectors DroidHost.connectorStatusJson).forM onHost) :=
    balanced_forM fun _ hm => List.eq_of_mem_replicate hm ▸ keepsLock_connectorStatusJson
  refine ordered_bind (balanced_method keepsLock_locked_return) fun _ => ?_
  refine ordered_bind hconnectors fun _ => ?_
  refine ordered_bind (balanced_method keepsLock_locked_return) fun _ => ?_
  refine ordered_bind (balanced_method keepsLock_locked_return) fun _ => ?_
  refine ordered_bind (balanced_method keepsLock_return) fun _ => ?_
  refine ordered_bind (balanced_method keepsLock_locked_return) fun _ => ?_
  refine ordered_bind (balanced_method keepsLock_locked_return) fun _ => ?_
  exact balanced_locked_return

theorem balanced_ingestAgentResponse : Balanced n ingestAgentResponse :=
  ordered_branch balanced_holds balanced_locked_return balanced_return

theorem balanced_runChatTurn {body : Bytes} : Balanced n (runChatTurn tools body) := by
  refine ordered_bind (balanced_method keepsLock_locked_return) fun _ => ?_
  refine ordered_branch balanced_holds ?_ ?_
  case refine_1 =>
    exact ordered_branch balanced_holds (balanced_method keepsLock_installOllama) balanced_return
  case refine_2 =>
    refine ordered_branch balanced_holds ?_ ?_
    case refine_1 =>
      exact ordered_branch balanced_holds (balanced_method keepsLock_startOllama) balanced_return
    case refine_2 =>
      refine ordered_branch balanced_holds ?_ ?_
      case refine_1 =>
        refine ordered_branch balanced_holds (balanced_method keepsLock_updateOllamaConfig) ?_
        exact ordered_branch balanced_holds (balanced_method keepsLock_pullOllamaModel)
          balanced_return
      case refine_2 =>
        exact ordered_bind (balanced_method keepsLock_serveAgent) fun _ =>
          balanced_ingestAgentResponse

theorem balanced_job (job : WorkerJob) : Balanced n (job.run tools) := by
  cases job
  case turn body => exact ordered_bind balanced_runChatTurn fun _ => balanced_locked_return
  case toolDecision body =>
    have hd : Balanced n (runToolDecision tools body) :=
      ordered_bind (balanced_method keepsLock_serveAgent) fun _ => balanced_ingestAgentResponse
    exact ordered_bind hd fun _ => balanced_locked_return

end Tui

section Session

variable {session : Session}

theorem balanced_serverRound (request : Option HostCall) :
    Balanced n (serverRound tools request) := by
  have htick : Balanced n (onHost DroidHost.tick) := balanced_method DroidHost.keepsLock_tick
  cases request
  case none      => exact htick
  case some call =>
    exact ordered_bind (balanced_method (keepsLock_call call)) fun _ => htick

theorem balanced_mainThread : Balanced 1 (mainThread tools session) := by
  have hload : Balanced 1
      ((List.replicate session.connectors DroidHost.registerConnector).forM onHost) :=
    Tui.balanced_forM fun _ hm =>
      List.eq_of_mem_replicate hm ▸ DroidHost.keepsLock_registerConnector
  refine ordered_bind (balanced_method keepsLock_locked_return) fun _ => ?_
  refine ordered_bind (balanced_method DroidHost.keepsLock_initializeHost) fun _ => ?_
  refine ordered_bind hload fun _ => ?_
  refine ordered_bind ordered_spawn fun _ => ?_
  refine ordered_bind Tui.balanced_runTui fun _ => ?_
  refine ordered_bind (ordered_join Nat.one_pos) fun _ => ?_
  exact balanced_method keepsLock_locked_return

theorem keeping_crew : Crew.Keeping order (session.crew tools) fun _ => [] where
  ordered i := by
    cases i
    case main          => exact balanced_mainThread
    case server        => exact ordered_forM balanced_serverRound _
    case poller        =>
      exact Tui.balanced_reported (ordered_forM Tui.balanced_pollRound _)
    case spinnerTicker => exact Tui.balanced_reported balanced_return
    case chatWorker n  => exact Tui.balanced_reported (Tui.balanced_job _)
  owner l i := by simp [Session.crew]
  nodup i   := .nil
  started i := by simp

theorem isFatal_order_iff {e : Event (ThreadRes Mutex ThreadId ThreadAns)} :
    Crew.IsFatal order e ↔ e = memoryStoreStaysShut := by
  constructor
  case mp =>
    intro h
    match e, h with
    | ⟨.ask (.host (.whether .memoryStoreOpens)), _⟩, rfl => rfl
  case mpr =>
    rintro rfl
    rfl

-- The daemon, from the start of `main`, its threads interleaved in any way, whatever the terminal,
-- the peers and the tools do: in every state that it goes through, whoever has something left to
-- do waits, in the end, for a thread that can go on, and where nothing can, all threads have ended
-- and no mutex is held. That is so if and only if the memory store was opened.
theorem live_iff_opened {t : List (ThreadId × Event (ThreadRes Mutex ThreadId ThreadAns))}
    {d : Crew Mutex ThreadId ThreadAns} (r : Crew.Run (session.crew tools) t d) :
    Crew.Through (session.crew tools) t Crew.Live ↔ ∀ e ∈ t, e.2 ≠ memoryStoreStaysShut := by
  have hb : ∀ l, order.rank l ≤ 1 := by
    intro l
    cases l <;> simp [order]
  rw [r.live_iff keeping_crew hb]
  simp only [isFatal_order_iff, ne_eq]

end Session

-- The start of a daemon without connectors.
theorem live_iff_opened_startup :
    let session : Session := ⟨0, [], [], [], fun _ => .turn []⟩
    Crew.Through (session.crew [])
      [(.main, ⟨.acquire .host, ()⟩), (.main, ⟨.release .host, ()⟩),
        (.main, ⟨.acquire .host, ()⟩), (.main, ⟨.ask (.host (.whether .memoryStoreOpens)), true⟩),
        (.main, ⟨.release .host, ()⟩), (.main, ⟨.acquire .host, ()⟩),
        (.main, ⟨.release .host, ()⟩), (.main, ⟨.spawn .server, ()⟩)]
      Crew.Live := by
  intro session
  have r := Crew.Run.refl (c := session.crew [])
    |>.snoc (.acquire (i := ThreadId.main) rfl rfl rfl)
    |>.snoc (.release (i := ThreadId.main) rfl rfl)
    |>.snoc (.acquire (i := ThreadId.main) rfl rfl rfl)
    |>.snoc (.ask (i := ThreadId.main) (r := true) rfl rfl)
    |>.snoc (.release (i := ThreadId.main) rfl rfl)
    |>.snoc (.acquire (i := ThreadId.main) rfl rfl rfl)
    |>.snoc (.release (i := ThreadId.main) rfl rfl)
    |>.snoc (.spawn (i := ThreadId.main) rfl rfl)
  exact (live_iff_opened r).mpr (by simp [memoryStoreStaysShut])

end Droidcli.Cli
