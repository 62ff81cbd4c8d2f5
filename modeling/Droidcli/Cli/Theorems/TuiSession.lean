import Droidcli.Cli.Theorems.Answers

namespace Droidcli.Cli.Tui

open Bytes Net Ai Interaction Prog

-- What the user has in front of them, which no state of the program says: the session that is
-- displayed, `none` while it is an empty one whose name is not known, and the one that was when the
-- message under way was sent. `since` is whether the session has not been switched after that, and
-- `answeredSince` whether it was so for the message whose answer last named a session. No message
-- has reached the untouched sessions since the host began them.
structure Panel where
  shown : Option Bytes
  sentFor : Option Bytes
  since : Bool
  starts : Bool
  answeredSince : Bool
  untouched : List Bytes
  deriving DecidableEq

namespace Panel

variable (panel : Panel)

def switch (shown : Option Bytes) : Panel :=
  { panel with shown := shown, since := false, starts := false, answeredSince := false }

-- The reply to a proposed call goes on with the conversation that the call is a part of.
def next : TuiEvent → Panel
  | .sent startNewSession =>
    { panel with sentFor := panel.shown, since := true, starts := startNewSession }
  | .decided sessionId    => { panel with since := panel.shown = some sessionId }
  | .dropped              => { panel with starts := false }
  | .reached _ sessionId  =>
    { panel with
      shown := if panel.since ∧ panel.shown = none then some sessionId else panel.shown
      starts := false
      untouched := panel.untouched.filter (· ≠ sessionId) }
  | .answered sessionId   =>
    if sessionId = [] then panel else { panel with answeredSince := panel.since }
  | .picked sessionId     => panel.switch (some sessionId)
  | .cleared              => panel.switch none
  | .erased wasShown newSessionId =>
    let panel := if wasShown then panel.switch none else panel
    { panel with untouched := newSessionId.toList ++ panel.untouched }
  | .adopted _ | .silent  => panel

def after (t : List TuiEvent) : Panel :=
  t.foldl next panel

-- No answer to a message that was sent before a switch makes its session the current one, and a
-- message reaches the session that was displayed when it was sent: an empty one is a new one, or one
-- that no message has reached.
def Authorized : TuiEvent → Prop
  | .adopted _               => panel.answeredSince
  | .reached clear sessionId =>
    match panel.sentFor with
    | some displayed => sessionId = displayed
    | none           => clear ∨ sessionId ∈ panel.untouched
  | _                        => True

variable {panel} in
theorem reached_shown {clear : Bool} {sessionId : Bytes} (hsince : panel.since)
    (hs : ∀ displayed, panel.shown = some displayed → sessionId = displayed) :
    (panel.next (.reached clear sessionId)).shown = some sessionId := by
  cases hp : panel.shown
  case none           => simp [next, hsince, hp]
  case some displayed => simp [next, hp, hs displayed hp]

@[simp]
theorem after_snoc {t : List TuiEvent} {e : TuiEvent} :
    panel.after (t ++ [e]) = (panel.after t).next e := by
  simp [after]

end Panel

section View

-- The part of the state that decides where messages go.
structure SessionView where
  current : Bytes
  pendingNew : Bool
  confirming : Option Bytes
  inFlight : Bool
  slot : Bytes
  clearInFlight : Bool
  deriving DecidableEq

def TuiState.view (tui : TuiState) : SessionView where
  current := tui.currentSessionId
  pendingNew := tui.pendingNewSession
  confirming := tui.deleteConfirmSessionId
  inFlight := tui.agentTurnInFlight
  slot := tui.chatWork.sessionId
  clearInFlight := tui.chatWork.clearInFlight

variable {tui tui' : TuiState} {role : ChatEntryRole} {text input : Bytes}
  {sessionIds polled : List Bytes} {history : Bytes → List ChatEntry} {blankAllowed : Bool}
  {job : ChatJob} {results : List ChatEntry}

@[simp]
theorem pushChatEntry_view : (tui.pushChatEntry role text).view = tui.view :=
  rfl

@[simp]
theorem syncSessionMenuFromHost_view : tui.syncSessionMenuFromHost.view = tui.view := by
  unfold TuiState.syncSessionMenuFromHost
  split <;> rfl

@[simp]
theorem refreshSessionMenuNow_view : (tui.refreshSessionMenuNow sessionIds).view = tui.view :=
  syncSessionMenuFromHost_view

theorem applySessionMenuSelection_view :
    (tui.applySessionMenuSelection history).view =
      { tui.view with current := tui.pickedSession.getD tui.currentSessionId } := by
  unfold TuiState.applySessionMenuSelection
  cases tui.pickedSession
  case none => rfl
  case some picked => dsimp only; split_ifs <;> rfl

def SessionView.drained (view : SessionView) : SessionView :=
  { view with
    current := if view.slot = [] then view.current else view.slot
    slot := if view.slot = view.current then view.slot else []
    inFlight := view.inFlight && !view.clearInFlight
    clearInFlight := false }

theorem handedOver_eq : tui.handedOver =
    if tui.view.slot ≠ [] ∧ tui.view.slot ≠ tui.view.current then some tui.view.slot else none :=
  rfl

theorem adoptSession_view : (tui.adoptSession sessionIds).view =
    { tui.view with
      current := if tui.view.slot = [] then tui.view.current else tui.view.slot
      slot := if tui.view.slot = tui.view.current then tui.view.slot else [] } := by
  unfold TuiState.adoptSession TuiState.handedOver
  by_cases hs : tui.chatWork.sessionId = []
  case pos => simp [TuiState.view, hs]
  case neg =>
    by_cases hc : tui.chatWork.sessionId = tui.currentSessionId
    case pos => simp [TuiState.view, hc]
    case neg =>
      simp only [ne_eq, hs, hc, not_false_eq_true, and_self, if_true, refreshSessionMenuNow_view]
      simp [TuiState.view, hs, hc]

theorem takeToolCall_view : tui.takeToolCall.view = tui.view := by
  unfold TuiState.takeToolCall
  split <;> rfl

theorem clearFlight_view : tui.clearFlight.view =
    { tui.view with
      inFlight := tui.view.inFlight && !tui.view.clearInFlight
      clearInFlight := false } := by
  unfold TuiState.clearFlight
  cases hc : tui.chatWork.clearInFlight <;> simp [TuiState.view, hc]

theorem drain_view : (tui.drain polled sessionIds).view = tui.view.drained := by
  have ht : ({ tui with sessionMenuEntries := polled }.syncSessionMenuFromHost.takeEntries).view =
      tui.view :=
    @syncSessionMenuFromHost_view { tui with sessionMenuEntries := polled }
  dsimp only [TuiState.drain]
  rw [clearFlight_view, takeToolCall_view, adoptSession_view, ht]
  rfl

-- What becomes of a pending new session, which a turn takes up.
def ChatJob.pendingNew (pending : Bool) : ChatJob → Bool
  | .turn _ _           => false
  | .toolDecision _ _ _ => pending

theorem pressEnter_view (h : tui.pressEnter input blankAllowed = (tui', some job)) :
    tui.agentTurnInFlight = false ∧
      tui'.view = { tui.view with
        pendingNew := job.pendingNew tui.pendingNewSession
        inFlight := true } ∧
      ∀ message startNewSession, job = .turn message startNewSession →
        startNewSession = tui.pendingNewSession := by
  unfold TuiState.pressEnter at h
  split at h
  case isTrue => simp at h
  case isFalse hf =>
    refine ⟨by simpa using hf, ?_⟩
    split at h
    case h_1 approval _ =>
      obtain ⟨rfl, hj⟩ := Prod.mk.inj h
      obtain rfl := Option.some.inj hj
      refine ⟨?_, by simp⟩
      by_cases hr : trim input = []
      case pos => simp only [hr, if_true]; rfl
      case neg => simp only [hr, if_false]; rfl
    case h_2 =>
      split at h
      case isTrue => simp at h
      case isFalse =>
        obtain ⟨rfl, hj⟩ := Prod.mk.inj h
        obtain rfl := Option.some.inj hj
        refine ⟨?_, fun _ _ he => (ChatJob.turn.inj he).right.symm⟩
        by_cases hi : input = []
        case pos => simp only [hi, if_true]; rfl
        case neg => simp only [hi, if_false]; rfl

theorem eraseConfirmed_view {sessionId : Bytes} {deleted : DeletedSession} :
    (tui.eraseConfirmed sessionId (AgentResponse.deleted deleted).json sessionIds).view =
      { tui.view with
        confirming := none
        current := if deleted.ok ∧ sessionId = tui.currentSessionId then
          deleted.newSessionId.getD [] else tui.currentSessionId } := by
  dsimp only [TuiState.eraseConfirmed]
  rw [deleted_ok, deleted_newSessionId]
  cases deleted.ok
  case false => rfl
  case true =>
    simp only [if_true, pushChatEntry_view, refreshSessionMenuNow_view, true_and]
    split_ifs <;> rfl

end View

section Worker

variable {tools : List ToolDefinition} {panel panel' : Panel} {view view' : SessionView}
  {worker : Worker} {new : Bool} {message : Bytes}

def SessionView.Drained (view : SessionView) : Prop :=
  view.slot = [] ∨ view.slot = view.current

-- The message of a turn that has not reached the host yet, if the session is still the same.
structure TurnFits (panel : Panel) (view : SessionView) (new : Bool) : Prop where
  starts  : panel.starts = (panel.since && new)
  sentFor : panel.since → panel.sentFor = panel.shown
  drained : panel.since → view.Drained
  fresh   : panel.since → new → panel.shown = none ∧ view.current = []

-- A call of the host: at its beginning, or with its session behind it.
inductive CallFits (tools : List ToolDefinition) (panel : Panel) (view : SessionView)
    (call : AgentM (Option AgentResponse)) : Prop
  | opening {message current : Bytes} {new : Bool} :
    call = agentTurn tools (turnBody message new current) →
    TurnFits panel view new →
    (panel.since → new = false → view.current = current) →
    CallFits tools panel view call
  | inside :
    call.Always (KeepsSession ·.op) →
    panel.starts = false →
    (panel.since → ∃ displayed, panel.shown = some displayed ∧
      call.Returns Granted (AgentResponse.Names displayed)) →
    CallFits tools panel view call

def WorkerFits (tools : List ToolDefinition) (panel : Panel) (view : SessionView) : Worker → Prop
  | .idle | .answered _                        => panel.starts = false
  | .spawned (.turn _ new)                     => TurnFits panel view new
  | .spawned (.toolDecision _ _ sessionId)     =>
    panel.starts = false ∧ (panel.since → panel.shown = some sessionId)
  | .calling call                              => CallFits tools panel view call

theorem turnFits_of_not_since (hs : panel.since = false) (ht : panel.starts = false) :
    TurnFits panel view new where
  starts  := by simp [hs, ht]
  sentFor := by simp [hs]
  drained := by simp [hs]
  fresh   := by simp [hs]

-- After a switch nothing is expected of the worker any more.
theorem workerFits_of_not_since (h : WorkerFits tools panel view worker)
    (hs : panel'.since = false) (ht : panel'.starts = false) :
    WorkerFits tools panel' view' worker := by
  match worker, h with
  | .idle, _ | .answered _, _                   => exact ht
  | .spawned (.turn _ _), _                     => exact turnFits_of_not_since hs ht
  | .spawned (.toolDecision _ _ _), _           => exact ⟨ht, by simp [hs]⟩
  | .calling _, .opening hc _ _                 =>
    exact .opening hc (turnFits_of_not_since hs ht) (by simp [hs])
  | .calling _, .inside hk _ _                  => exact .inside hk ht (by simp [hs])

-- The worker looks at the current session and the slot only.
theorem workerFits_congr {untouched : List Bytes} (h : WorkerFits tools panel view worker)
    (hc : view'.current = view.current) (hd : view.Drained → view'.Drained) :
    WorkerFits tools { panel with untouched := untouched } view' worker := by
  have ht {new : Bool} (h : TurnFits panel view new) :
      TurnFits { panel with untouched := untouched } view' new := by
    exact ⟨h.starts, h.sentFor, fun hs => hd (h.drained hs), by rw [hc]; exact h.fresh⟩
  match worker, h with
  | .idle, h | .answered _, h           => exact h
  | .spawned (.turn _ _), h             => exact ht h
  | .spawned (.toolDecision _ _ _), h   => exact h
  | .calling _, .opening he hf hb       => exact .opening he (ht hf) (hc ▸ hb)
  | .calling _, .inside hk hs hn        => exact .inside hk hs hn

-- A message that has not reached the host was sent with nothing left in the slot.
theorem workerFits_of_not_drained (h : WorkerFits tools panel view worker) (hd : ¬view.Drained) :
    WorkerFits tools panel view' worker := by
  have hs {new : Bool} (h : TurnFits panel view new) : panel.since = false := by
    simpa using fun hs => hd (h.drained hs)
  have ht {new : Bool} (h : TurnFits panel view new) : TurnFits panel view' new := by
    exact turnFits_of_not_since (hs h) (by simp [h.starts, hs h])
  match worker, h with
  | .idle, h | .answered _, h           => exact h
  | .spawned (.turn _ _), h             => exact ht h
  | .spawned (.toolDecision _ _ _), h   => exact h
  | .calling _, .opening he hf _        => exact .opening he (ht hf) (by simp [hs hf])
  | .calling _, .inside hk hs hn        => exact .inside hk hs hn

end Worker

section Invariant

variable {W : Type} {os : Os W} {tools : List ToolDefinition} {panel : Panel} {s s' : System W}
  {e : TuiEvent} {view : SessionView} {own : Bytes} {worker : Worker}

-- When the user may do what they do, and when the host may answer as it does, so that no message
-- goes astray.
def Careful (panel : Panel) (s : System W) : TuiEvent → Prop
  | .picked sessionId   =>
    sessionId ≠ [] ∧ s.tui.pendingNewSession = false ∧
      (s.tui.chatWork.sessionId = [] ∨ s.tui.chatWork.sessionId = sessionId)
  | .cleared            => s.tui.chatWork.sessionId = []
  | .erased true newSessionId =>
    (s.tui.chatWork.sessionId = [] ∨ some s.tui.chatWork.sessionId = newSessionId) ∧
      (s.tui.currentSessionId = s.host.agent.currentSessionId ∨
        s.host.agent.currentSessionId ∈ panel.untouched)
  | .dropped            => panel.starts → s.host.agent.currentSessionId ∈ panel.untouched
  | .reached _ _        => panel.since
  | .answered sessionId =>
    sessionId = [] ∨ panel.since ∨ sessionId = s.tui.currentSessionId
  | _                   => True

structure Inv (tools : List ToolDefinition) (panel : Panel) (view : SessionView) (own : Bytes)
    (worker : Worker) : Prop where
  began   : own ≠ []
  shown   : panel.shown ≠ some []
  named   : view.current ≠ [] →
    panel.shown = some view.current ∨ panel.shown = none ∧ view.current ∈ panel.untouched
  unnamed : view.current = [] → view.pendingNew = false →
    panel.shown = some own ∨ panel.shown = none ∧ (own ∈ panel.untouched ∨ panel.starts)
  fresh   : view.pendingNew → panel.shown = none ∧ view.current = [] ∧ panel.since = false
  slot    : view.Drained ∨ panel.shown = some view.slot ∧ panel.answeredSince
  confirm : ∀ sessionId ∈ view.confirming, sessionId ≠ [] ∧ view.current ≠ []
  flight  : worker ≠ .idle → view.inFlight ∧ view.clearInFlight = false
  landed  : view.clearInFlight → view.inFlight
  drained : view.inFlight = false → view.Drained
  worker  : WorkerFits tools panel view worker

abbrev System.Inv (tools : List ToolDefinition) (panel : Panel) (s : System W) : Prop :=
  Droidcli.Cli.Tui.Inv tools panel s.tui.view s.host.agent.currentSessionId s.worker

namespace Inv

variable {view' : SessionView} {own' sessionId : Bytes} {worker' : Worker} {job : ChatJob} {new : Bool}

theorem switch {shown : Option Bytes} {untouched : List Bytes}
    (h : Inv tools panel view own worker) (ho : own' ≠ []) (hs : shown ≠ some [])
    (hnamed : view'.current ≠ [] →
      shown = some view'.current ∨ shown = none ∧ view'.current ∈ untouched)
    (hunnamed : view'.current = [] → view'.pendingNew = false → shown = none ∧ own' ∈ untouched)
    (hfresh : view'.pendingNew → shown = none ∧ view'.current = [])
    (hd : view'.Drained) (hconfirm : ∀ id ∈ view'.confirming, id ≠ [] ∧ view'.current ≠ [])
    (hf : view'.inFlight = view.inFlight) (hc : view'.clearInFlight = view.clearInFlight) :
    Inv tools { panel.switch shown with untouched := untouched } view' own' worker where
  began       := ho
  shown       := hs
  named       := hnamed
  unnamed h h':= .inr ((hunnamed h h').imp id .inl)
  fresh h     := ⟨(hfresh h).left, (hfresh h).right, rfl⟩
  slot        := .inl hd
  confirm     := hconfirm
  flight      := by rw [hf, hc]; exact h.flight
  landed      := by rw [hf, hc]; exact h.landed
  drained _   := hd
  worker      := workerFits_of_not_since h.worker rfl rfl

-- What changes neither the panel nor the view.
theorem worker_step (h : Inv tools panel view own worker)
    (hf : worker' ≠ .idle → worker ≠ .idle) (hw : WorkerFits tools panel view worker') :
    Inv tools panel view own worker' :=
  { h with
    flight := fun hn => h.flight (hf hn)
    worker := hw }

theorem confirming_step {confirming : Option Bytes} (h : Inv tools panel view own worker)
    (hc : ∀ id ∈ confirming, id ≠ [] ∧ view.current ≠ []) :
    Inv tools panel { view with confirming := confirming } own worker :=
  { h with
    confirm := hc
    worker := workerFits_congr h.worker rfl id }

theorem finish (h : Inv tools panel view own worker) (hw : worker ≠ .idle)
    (hs : panel.starts = false) :
    Inv tools panel { view with clearInFlight := true } own .idle :=
  { h with
    flight := fun hn => absurd rfl hn
    landed := fun _ => (h.flight hw).left
    worker := hs }

theorem picked (h : Inv tools panel view own worker) (hn : sessionId ≠ [])
    (hp : view.pendingNew = false) (hs : view.slot = [] ∨ view.slot = sessionId) :
    Inv tools (panel.next (.picked sessionId)) { view with current := sessionId } own worker := by
  apply h.switch h.began (by simpa using hn)
  case hnamed   => exact fun _ => .inl rfl
  case hunnamed => exact fun hc => absurd hc hn
  case hfresh   => exact fun hc => by simp [hp] at hc
  case hd       => exact hs
  case hconfirm => exact fun id hid => ⟨(h.confirm id hid).left, hn⟩
  case hf       => rfl
  case hc       => rfl

theorem cleared (h : Inv tools panel view own worker) (hs : view.slot = [])
    (hc : view.confirming = none) :
    Inv tools (panel.next .cleared) { view with current := [], pendingNew := true } own worker := by
  apply h.switch h.began (by simp)
  case hnamed   => exact fun hn => absurd rfl hn
  case hunnamed => exact fun _ hp => by simp at hp
  case hfresh   => exact fun _ => ⟨rfl, rfl⟩
  case hd       => exact .inl hs
  case hconfirm => simp [hc]
  case hf       => rfl
  case hc       => rfl

theorem sent (h : Inv tools panel view own .idle) (hf : view.inFlight = false)
    (hc : view.confirming = none) (hn : new = view.pendingNew) (message : Bytes) :
    Inv tools (panel.next (.sent new)) { view with pendingNew := false, inFlight := true } own
      (.spawned (.turn message new)) where
  began   := h.began
  shown   := h.shown
  named   := h.named
  unnamed := by
    intro hcur _
    cases new
    case true  => exact .inr ⟨(h.fresh hn.symm).left, .inr rfl⟩
    case false =>
      have hstarts : panel.starts = false := h.worker
      have := h.unnamed hcur hn.symm
      simp only [hstarts, Bool.false_eq_true, or_false] at this
      exact this.imp id fun hm => ⟨hm.left, .inl hm.right⟩
  fresh   := nofun
  slot    := h.slot
  confirm := by simp [hc]
  flight  := fun _ => ⟨rfl, by
    by_contra hl
    have := h.landed (by simpa using hl)
    simp [hf] at this⟩
  landed  := fun _ => rfl
  drained := nofun
  worker  := {
    starts := rfl
    sentFor := fun _ => rfl
    drained := fun _ => h.drained hf
    fresh := fun _ hnew => by
      have := h.fresh (hn ▸ hnew)
      exact ⟨this.left, this.right.left⟩
  }

theorem decided (h : Inv tools panel view own .idle) (hf : view.inFlight = false)
    (approved : Bool) (reason : Bytes) :
    Inv tools (panel.next (.decided sessionId)) { view with inFlight := true } own
      (.spawned (.toolDecision approved reason sessionId)) where
  began   := h.began
  shown   := h.shown
  named   := h.named
  unnamed := h.unnamed
  fresh   := by
    intro hp
    have ⟨hs, hcur, _⟩ := h.fresh hp
    exact ⟨hs, hcur, by simp [Panel.next, hs]⟩
  slot    := h.slot
  confirm := h.confirm
  flight  := fun _ => ⟨rfl, by
    by_contra hl
    have := h.landed (by simpa using hl)
    simp [hf] at this⟩
  landed  := fun _ => rfl
  drained := nofun
  worker  := ⟨h.worker, fun hs => by simpa [Panel.next] using hs⟩

theorem dropped {message : Bytes} {results : List ChatEntry}
    (h : Inv tools panel view own (.spawned (.turn message new)))
    (hd : panel.starts → own ∈ panel.untouched) :
    Inv tools (panel.next .dropped) view own (.answered results) where
  began   := h.began
  shown   := h.shown
  named   := h.named
  unnamed := fun hc hp =>
    (h.unnamed hc hp).imp id fun ⟨hs, hm⟩ => ⟨hs, .inl (hm.elim id hd)⟩
  fresh   := h.fresh
  slot    := h.slot
  confirm := h.confirm
  flight  := fun _ => h.flight nofun
  landed  := h.landed
  drained := h.drained
  worker  := rfl

theorem answered {results : List ChatEntry} {slot : Bytes}
    (h : Inv tools panel view own worker) (hw : worker ≠ .idle)
    (hstarts : panel.starts = false)
    (hs : slot = if sessionId = [] then view.slot else sessionId)
    (hnames : panel.since → sessionId ≠ [] → panel.shown = some sessionId)
    (hc : sessionId = [] ∨ panel.since ∨ sessionId = view.current) :
    Inv tools (panel.next (.answered sessionId)) { view with slot := slot } own (.answered results) := by
  by_cases hid : sessionId = []
  case pos =>
    subst hid
    rw [if_pos rfl] at hs
    rw [hs]
    exact h.worker_step (fun _ => hw) hstarts
  case neg =>
    rw [if_neg hid] at hs
    have hp : panel.next (.answered sessionId) = { panel with answeredSince := panel.since } := by
      simp [Panel.next, hid]
    rw [hs, hp]
    exact {
      began := h.began
      shown := h.shown
      named := h.named
      unnamed := h.unnamed
      fresh := h.fresh
      slot := by
        rcases hc.resolve_left hid with hsince | hcur
        case inl => exact .inr ⟨hnames hsince hid, hsince⟩
        case inr => exact .inl (.inr hcur)
      confirm := h.confirm
      flight := fun _ => h.flight hw
      landed := h.landed
      drained := by
        intro hf
        have hi : view.inFlight := (h.flight hw).left
        exact absurd hi (by simpa using hf)
      worker := hstarts
    }

-- A tick. What is handed over by then is the name of the session that is displayed.
theorem drained_step (h : Inv tools panel view own worker) :
    Inv tools panel view.drained own worker ∧
      (view.slot ≠ [] → view.slot ≠ view.current → panel.answeredSince) := by
  have hflight : worker ≠ .idle → view.drained.inFlight ∧ view.drained.clearInFlight = false := by
    intro hw
    have ⟨hi, hc⟩ := h.flight hw
    simp [SessionView.drained, hi, hc]
  by_cases hd : view.Drained
  case pos =>
    have hcur : view.drained.current = view.current := by
      rcases hd with hs | hs <;> simp [SessionView.drained, hs]
    have hdrained : view.drained.Drained := by
      rcases hd with hs | hs
      case inl => left; simp [SessionView.drained, hs]
      case inr => right; simp [SessionView.drained, hs]
    refine ⟨?_, fun hs hc => absurd hd (not_or.mpr ⟨hs, hc⟩)⟩
    exact {
      began := h.began
      shown := h.shown
      named := by rw [hcur]; exact h.named
      unnamed := by rw [hcur]; exact h.unnamed
      fresh := by rw [hcur]; exact h.fresh
      slot := .inl hdrained
      confirm := by rw [hcur]; exact h.confirm
      flight := hflight
      landed := nofun
      drained := fun _ => hdrained
      worker := workerFits_congr h.worker hcur fun _ => hdrained
    }
  case neg =>
    have ⟨hs, ha⟩ := h.slot.resolve_left hd
    have ⟨hn, hne⟩ := not_or.mp hd
    have hcur : view.drained.current = view.slot := if_neg hn
    have hdrained : view.drained.Drained := .inl (if_neg hne)
    refine ⟨?_, fun _ _ => ha⟩
    exact {
      began := h.began
      shown := h.shown
      named := fun _ => .inl (hcur ▸ hs)
      unnamed := fun hc => absurd (hcur ▸ hc) hn
      fresh := by
        intro hp
        have := (h.fresh hp).left
        simp [hs] at this
      slot := .inl hdrained
      confirm := fun id hid => ⟨(h.confirm id hid).left, hcur ▸ hn⟩
      flight := hflight
      landed := nofun
      drained := fun _ => hdrained
      worker := workerFits_of_not_drained h.worker hd
    }

-- The message under way has got to a session, which is now the displayed one.
theorem reached {clear : Bool} (h : Inv tools panel view own worker) (hw : worker ≠ .idle)
    (hsince : panel.since) (hne : sessionId ≠ [])
    (hshown : ∀ displayed, panel.shown = some displayed → sessionId = displayed)
    (hcur : view.current ≠ [] → sessionId = view.current)
    (hworker : WorkerFits tools (panel.next (.reached clear sessionId)) view worker') :
    Inv tools (panel.next (.reached clear sessionId)) view sessionId worker' := by
  have hs : (panel.next (.reached clear sessionId)).shown = some sessionId :=
    Panel.reached_shown hsince hshown
  exact {
    began := hne
    shown := by simpa [hs] using hne
    named := fun hc => .inl (hcur hc ▸ hs)
    unnamed := fun _ _ => .inl hs
    fresh := fun hp => by
      have := (h.fresh hp).right.right
      simp [hsince] at this
    slot := h.slot.imp id fun ⟨hd, ha⟩ => ⟨by rw [hs, hshown _ hd], ha⟩
    confirm := h.confirm
    flight := fun _ => h.flight hw
    landed := h.landed
    drained := h.drained
    worker := hworker
  }

end Inv

section Step

variable {message current : Bytes} {new : Bool} {o : AgentOp} {provider : Provider}
  {k : AgentRes o → AgentM (Option AgentResponse)} {deleted : DeletedSession} {sessionId : Bytes}
  {host : AgentWorld W}

-- What the popup's call does to the host's own session.
theorem eraseSession_own (hne : sessionId ≠ [])
    (hd : (System.eraseSession os tools host sessionId).value = some (.deleted deleted)) :
    let own' := (System.eraseSession os tools host sessionId).state.agent.currentSessionId
    host.agent.currentSessionId = sessionId ∧ deleted.newSessionId = some own' ∧ own' ≠ [] ∨
      host.agent.currentSessionId ≠ sessionId ∧ deleted.newSessionId = none ∧
        own' = host.agent.currentSessionId := by
  have hv : (System.eraseSession os tools host sessionId).value =
      some (.deleted (host.deleteSession os (AgentRequest.sessionField (eraseBody sessionId))).1) :=
    rfl
  have hs : (System.eraseSession os tools host sessionId).state.agent.currentSessionId =
      (host.deleteSession os
        (AgentRequest.sessionField (eraseBody sessionId))).2.agent.currentSessionId :=
    rfl
  rw [eraseBody_sessionId] at hv hs
  rw [hv] at hd
  obtain rfl := AgentResponse.deleted.inj (Option.some.inj hd)
  rw [hs]
  unfold AgentWorld.deleteSession
  rw [if_neg hne]
  dsimp only
  split_ifs with he
  case pos => exact .inl ⟨he.symm, rfl, generateSessionId_ne_nil⟩
  case neg => exact .inr ⟨Ne.symm he, rfl, rfl⟩

theorem hostEvent_of_keeps {r : AgentRes o} (h : KeepsSession o) : hostEvent ⟨o, r⟩ = .silent := by
  cases o
  case openSession => exact h.elim
  all_goals rfl

theorem agentTurn_turnBody :
    agentTurn tools (turnBody message new current) =
      Prog.op (.openSession new (if new then [] else current)) fun (sessionId : Bytes) =>
        turnIn tools (extractJsonStringField (turnBody message new current) "message") sessionId := by
  have he (body : Bytes) : agentTurn tools body =
      Prog.op (.openSession ((extractJsonBoolField body "clear").getD false)
        (AgentRequest.sessionField body)) fun (sessionId : Bytes) =>
          turnIn tools (extractJsonStringField body "message") sessionId :=
    rfl
  rw [he, turnBody_clear, turnBody_sessionId]

-- The session that the host takes a message up in.
theorem opened_session (h : s.Inv tools panel) (ht : TurnFits panel s.tui.view new)
    (hb : panel.since → new = false → s.tui.view.current = current) (hsince : panel.since) :
    let sessionId : Bytes := (agentHandler os provider
      (.openSession new (if new then [] else current)) s.host).1
    sessionId ≠ [] ∧ (∀ displayed, panel.shown = some displayed → sessionId = displayed) ∧
      (s.tui.view.current ≠ [] → sessionId = s.tui.view.current) ∧
      (panel.shown = none → new ∨ sessionId ∈ panel.untouched) := by
  cases new
  case true =>
    have ⟨hs, hcur⟩ := ht.fresh hsince rfl
    refine ⟨openSession_clear, ?_, fun hc => absurd hcur hc, fun _ => .inl rfl⟩
    simp [hs]
  case false =>
    have hcur := hb hsince rfl
    by_cases hc : current = []
    case pos =>
      subst hc
      have hp : s.tui.view.pendingNew = false := by
        by_contra hp
        have := (h.fresh (by simpa using hp)).right.right
        simp [hsince] at this
      have hstarts : panel.starts = false := by simp [ht.starts]
      have hown : (agentHandler os provider (.openSession false []) s.host).1 =
          s.host.agent.currentSessionId := openSession_own
      have hun := h.unnamed hcur hp
      simp only [hstarts, Bool.false_eq_true, or_false] at hun
      rw [if_neg (by decide)]
      simp only [hown]
      refine ⟨h.began, fun displayed hd => ?_, fun hn => absurd hcur hn, fun hs => .inr ?_⟩
      · rcases hun with hun | hun
        case inl => exact Option.some.inj (hun.symm.trans hd)
        case inr => simp [hun.left] at hd
      · rcases hun with hun | hun
        case inl => simp [hun] at hs
        case inr => exact hun.right
    case neg =>
      have hreq : (agentHandler os provider (.openSession false current) s.host).1 = current :=
        openSession_requested hc
      have hnamed := h.named (hcur ▸ hc)
      rw [hcur] at hnamed
      rw [if_neg (by decide)]
      simp only [hreq]
      refine ⟨hc, fun displayed hd => ?_, fun _ => hcur.symm, fun hs => .inr ?_⟩
      · rcases hnamed with hnamed | hnamed
        case inl => exact Option.some.inj (hnamed.symm.trans hd)
        case inr => simp [hnamed.left] at hd
      · rcases hnamed with hnamed | hnamed
        case inl => simp [hnamed] at hs
        case inr => exact hnamed.right

-- The host takes up a message.
theorem work_opening (h : s.Inv tools panel) (hw : s.worker ≠ .idle)
    (he : (Prog.op o k : AgentM _) = agentTurn tools (turnBody message new current))
    (ht : TurnFits panel s.tui.view new) (hb : panel.since → new = false → s.tui.view.current = current)
    (hsince : panel.since) :
    let r := (agentHandler os provider o s.host).1
    let host := (agentHandler os provider o s.host).2
    Inv tools (panel.next (hostEvent ⟨o, r⟩)) s.tui.view host.agent.currentSessionId
      (.calling (k r)) ∧ panel.Authorized (hostEvent ⟨o, r⟩) := by
  rw [agentTurn_turnBody] at he
  cases he
  have ⟨hne, hshown, hcur, hfresh⟩ := @opened_session _ os _ _ _ _ _ provider h ht hb hsince
  intro r host
  have hown : host.agent.currentSessionId = r := openSession_current
  rw [hown]
  refine ⟨h.reached hw hsince hne hshown hcur ?_, ?_⟩
  · exact .inside turnIn_keeps rfl fun _ => ⟨r, Panel.reached_shown hsince hshown, turnIn_names⟩
  · have hsent := ht.sentFor hsince
    cases hp : panel.shown
    case none =>
      simp only [hostEvent, Panel.Authorized, hsent, hp]
      exact hfresh hp
    case some displayed =>
      simp only [hostEvent, Panel.Authorized, hsent, hp]
      exact hshown displayed hp

theorem work_inside (h : s.Inv tools panel) (hw : s.worker ≠ .idle)
    (hk : (Prog.op o k : AgentM (Option AgentResponse)).Always (KeepsSession ·.op))
    (hs : panel.starts = false)
    (hn : panel.since → ∃ displayed, panel.shown = some displayed ∧
      (Prog.op o k).Returns Granted (AgentResponse.Names displayed)) :
    let r := (agentHandler os provider o s.host).1
    let host := (agentHandler os provider o s.host).2
    Inv tools (panel.next (hostEvent ⟨o, r⟩)) s.tui.view host.agent.currentSessionId
      (.calling (k r)) ∧ panel.Authorized (hostEvent ⟨o, r⟩) := by
  intro r host
  have ⟨ho, hk⟩ := hk r
  have hown : host.agent.currentSessionId = s.host.agent.currentSessionId := keepsSession_step ho
  rw [hostEvent_of_keeps ho, hown]
  refine ⟨h.worker_step (fun _ => hw) (.inside hk hs fun hsince => ?_), trivial⟩
  have ⟨displayed, hd, hr⟩ := hn hsince
  exact ⟨displayed, hd, hr r granted_step⟩

-- The answer of the host is there.
theorem Inv.answering {a : Option AgentResponse} (h : s.Inv tools panel)
    (hw : s.worker = .calling (.ret a)) :
    panel.starts = false ∧ (panel.since → ∃ displayed, panel.shown = some displayed ∧
      AgentResponse.Names displayed a) := by
  have hworker := h.worker
  rw [hw] at hworker
  cases hworker
  case opening he _ _ =>
    rw [agentTurn_turnBody] at he
    contradiction
  case inside hs hn => exact ⟨hs, hn⟩

-- The session that is shown has been erased. The host has made another one, which the panel is told,
-- or its own one is still there from before.
theorem erased_shown {own' : Bytes} (h : s.Inv tools panel) (hnew : s.tui.view.pendingNew = false)
    (hown : s.host.agent.currentSessionId = s.tui.currentSessionId ∧
        deleted.newSessionId = some own' ∧ own' ≠ [] ∨
      s.host.agent.currentSessionId ≠ s.tui.currentSessionId ∧ deleted.newSessionId = none ∧
        own' = s.host.agent.currentSessionId)
    (hc : Careful panel s (.erased true deleted.newSessionId)) :
    Inv tools (panel.next (.erased true deleted.newSessionId))
      { s.tui.view with confirming := none, current := deleted.newSessionId.getD [] } own'
      s.worker := by
  have ⟨hslot, hlost⟩ := hc
  have hshown : none ≠ some ([] : Bytes) := nofun
  rcases hown with ⟨he, hmade, hne⟩ | ⟨hne, hmade, he⟩
  case inl =>
    rw [hmade] at hslot ⊢
    apply h.switch hne hshown
    case hnamed   => exact fun _ => .inr ⟨rfl, by simp⟩
    case hunnamed => exact fun hc => absurd hc hne
    case hfresh   => exact fun hp => by simp [hnew] at hp
    case hd       => exact hslot.imp id Option.some.inj
    case hconfirm => exact nofun
    case hf       => rfl
    case hc       => rfl
  case inr =>
    rw [hmade] at hslot ⊢
    have hm : own' ∈ panel.untouched := he ▸ hlost.resolve_left hne.symm
    apply h.switch (he ▸ h.began) hshown
    case hnamed   => exact fun hc => absurd rfl hc
    case hunnamed => exact fun _ _ => ⟨rfl, hm⟩
    case hfresh   => exact fun hp => by simp [hnew] at hp
    case hd       => exact .inl (hslot.resolve_right nofun)
    case hconfirm => exact nofun
    case hf       => rfl
    case hc       => rfl

-- What is shown is not what has been erased.
theorem erased_other {own' : Bytes} {made : Option Bytes} (h : s.Inv tools panel)
    (hnew : s.tui.view.pendingNew = false) (hcur : s.tui.currentSessionId ≠ []) (hne : own' ≠ []) :
    Inv tools (panel.next (.erased false made))
      { s.tui.view with confirming := none, current := s.tui.currentSessionId } own' s.worker where
  began := hne
  shown := h.shown
  named := fun hn => (h.named hn).imp id fun hm => ⟨hm.left, List.mem_append_right _ hm.right⟩
  unnamed := fun hn => absurd hn hcur
  fresh := fun hp => by simp [hnew] at hp
  slot := h.slot
  confirm := nofun
  flight := h.flight
  landed := h.landed
  drained := h.drained
  worker := workerFits_congr h.worker rfl id

theorem erased_step (h : s.Inv tools panel)
    (hs : s.tui.deleteConfirmSessionId = some sessionId)
    (hd : (System.eraseSession os tools s.host sessionId).value = some (.deleted deleted))
    {wasShown : Bool} (hw : wasShown = decide (deleted.ok ∧ sessionId = s.tui.currentSessionId))
    (hc : Careful panel s (.erased wasShown deleted.newSessionId)) :
    Inv tools (panel.next (.erased wasShown deleted.newSessionId))
      { s.tui.view with
        confirming := none
        current := if deleted.ok ∧ sessionId = s.tui.currentSessionId then
          deleted.newSessionId.getD [] else s.tui.currentSessionId }
      (System.eraseSession os tools s.host sessionId).state.agent.currentSessionId s.worker := by
  have ⟨hid, hcur⟩ := h.confirm sessionId hs
  have hnew : s.tui.view.pendingNew = false := by
    by_contra hp
    exact hcur (h.fresh (by simpa using hp)).right.left
  have hown := eraseSession_own hid hd
  generalize (System.eraseSession os tools s.host sessionId).state.agent.currentSessionId = own at hown ⊢
  by_cases hshown : deleted.ok ∧ sessionId = s.tui.currentSessionId
  case pos =>
    rw [if_pos hshown]
    rw [decide_eq_true hshown] at hw
    subst hw
    exact erased_shown h hnew (hshown.right ▸ hown) hc
  case neg =>
    rw [if_neg hshown]
    rw [decide_eq_false hshown] at hw
    subst hw
    have hne : own ≠ [] := by
      rcases hown with ⟨_, _, hne⟩ | ⟨_, _, he⟩
      case inl => exact hne
      case inr => exact he ▸ h.began
    exact erased_other h hnew hcur hne

theorem Inv.step (h : s.Inv tools panel) (hc : Careful panel s e)
    (hst : System.Step os tools s e s') :
    s'.Inv tools (panel.next e) ∧ panel.Authorized e := by
  cases hst
  case move => exact ⟨h, trivial⟩
  case frame history hh =>
    simp only [System.Inv, applySessionMenuSelection_view]
    cases hp : s.tui.pickedSession
    case none => exact ⟨h, trivial⟩
    case some picked =>
      rw [hp] at hc
      have ⟨hn, hnew, hslot⟩ := hc
      exact ⟨h.picked hn hnew hslot, trivial⟩
  case tick polled sessionIds hconf =>
    have ⟨hi, ha⟩ := h.drained_step
    simp only [System.Inv, drain_view]
    unfold TuiState.handedOver
    split
    case isTrue hs  => exact ⟨hi, ha hs.left hs.right⟩
    case isFalse hs => exact ⟨hi, trivial⟩
  case enter input blankAllowed tui job hconf hp hw =>
    have ⟨hf, hv, hnew⟩ := pressEnter_view hp
    rw [System.Inv, hw] at h
    simp only [System.Inv, hv]
    cases job
    case turn message new =>
      exact ⟨h.sent hf hconf (hnew message new rfl) message, trivial⟩
    case toolDecision approved reason sessionId => exact ⟨h.decided hf approved reason, trivial⟩
  case newSession hconf => exact ⟨h.cleared hc hconf, trivial⟩
  case erase hconf =>
    refine ⟨?_, trivial⟩
    by_cases hcur : s.tui.currentSessionId = []
    case pos =>
      simp only [System.Inv, TuiState.pressErase, hcur, if_true]
      exact h
    case neg =>
      simp only [System.Inv, TuiState.pressErase, hcur, if_false]
      exact h.confirming_step fun id hid => ⟨Option.some.inj hid ▸ hcur, hcur⟩
  case cancel => exact ⟨h.confirming_step nofun, trivial⟩
  case confirm sessionId deleted sessionIds hs hd =>
    simp only [System.Inv, eraseConfirmed_view]
    exact ⟨erased_step h hs hd rfl hc, trivial⟩
  case drop message new results hw =>
    rw [System.Inv, hw] at h
    exact ⟨h.dropped hc, trivial⟩
  case call job hw =>
    refine ⟨h.worker_step (fun _ => by simp [hw]) ?_, trivial⟩
    have hworker := h.worker
    rw [hw] at hworker
    cases job
    case turn message new => exact .opening rfl hworker fun _ _ => rfl
    case toolDecision approved reason sessionId =>
      refine .inside agentToolDecision_keeps hworker.left fun hsince => ?_
      have hd := hworker.right hsince
      refine ⟨sessionId, hd, agentToolDecision_names decisionBody_sessionId ?_⟩
      exact fun he => h.shown (he ▸ hd)
  case work o k provider hw =>
    have hne : s.worker ≠ .idle := by simp [hw]
    have hworker := h.worker
    rw [hw] at hworker
    cases hworker
    case opening message current new he ht hb =>
      have ho := he
      rw [agentTurn_turnBody] at ho
      cases ho
      exact work_opening h hne he ht hb hc
    case inside hk hs hn => exact work_inside h hne hk hs hn
  case ingest response parsed hw hp =>
    have hne : s.worker ≠ .idle := by simp [hw]
    have ⟨hstarts, hn⟩ := h.answering hw
    refine ⟨h.answered hne hstarts rfl (fun hsince hid => ?_) hc, trivial⟩
    have ⟨displayed, hd, hr⟩ := hn hsince
    have hnamed := (parsed_sessionId hr).resolve_left (hp ▸ hid)
    exact hp ▸ hnamed ▸ hd
  case throw what hw =>
    have hne : s.worker ≠ .idle := by simp [hw]
    exact ⟨h.worker_step (fun _ => hne) (h.answering hw).left, trivial⟩
  case finish results hw =>
    have hne : s.worker ≠ .idle := by simp [hw]
    have hworker := h.worker
    rw [hw] at hworker
    exact ⟨h.finish hne hworker, trivial⟩
  case elsewhere host hh =>
    rw [System.Inv, ← hh] at h
    exact ⟨h, trivial⟩

end Step

section Runs

-- What the panel shows at first.
def Panel.initial (s : System W) : Panel where
  shown := if s.tui.currentSessionId = [] then none else some s.tui.currentSessionId
  sentFor := none
  since := false
  starts := false
  answeredSince := false
  untouched := [s.host.agent.currentSessionId]

theorem inv_start (h : s.IsStart) : s.Inv tools (Panel.initial s) := by
  have ⟨versionString, lastSessionId, resumed, prompt, _, ht⟩ := h.tui
  have hv : s.tui.view = ⟨s.tui.currentSessionId, false, none, false, [], false⟩ := by
    rw [ht]
    rfl
  rw [System.Inv, hv, h.idle]
  exact {
    began := h.own.left
    shown := by
      by_cases hc : s.tui.currentSessionId = [] <;> simp [Panel.initial, hc]
    named := fun hc => .inl (if_neg hc)
    unnamed := fun hc _ => .inr ⟨if_pos hc, .inl (List.mem_singleton_self _)⟩
    fresh := nofun
    slot := .inl (.inl rfl)
    confirm := nofun
    flight := fun hn => absurd rfl hn
    landed := nofun
    drained := fun _ => .inl rfl
    worker := rfl
  }

-- The session that is displayed has the say over a run.
def SessionAuthority (s : System W) (t : List TuiEvent) : Prop :=
  Trace.Each (fun u e => ((Panel.initial s).after u).Authorized e) t

-- A run of which every step is careful.
abbrev CarefulRun (os : Os W) (tools : List ToolDefinition) (s : System W) :
    List TuiEvent → System W → Prop :=
  Trace.Guarded (fun u s' e => Careful ((Panel.initial s).after u) s' e) (System.Step os tools) s

theorem sessionAuthority_of_careful {t : List TuiEvent} (hs : s.IsStart)
    (r : CarefulRun os tools s t s') : SessionAuthority s t := by
  have hstep : ∀ {u e s₁ s₂}, s₁.Inv tools ((Panel.initial s).after u) →
      Careful ((Panel.initial s).after u) s₁ e → System.Step os tools s₁ e s₂ →
        s₂.Inv tools ((Panel.initial s).after (u ++ [e])) := by
    intro u e s₁ s₂ h hc hst
    rw [Panel.after_snoc]
    exact (h.step hc hst).left
  exact r.each (I := fun u s' => s'.Inv tools ((Panel.initial s).after u)) (inv_start hs) hstep
    fun h hc hst => (h.step hc hst).right

section Examples

deriving instance DecidableEq for AgentResponse

variable {t : List TuiEvent} {call : AgentM (Option AgentResponse)} {message : Bytes}
  {response : AgentResponse} {host : AgentWorld W}

theorem after_silent (panel : Panel) (t : List TuiEvent) (n : Nat) :
    panel.after (t ++ List.replicate n TuiEvent.silent) = panel.after t := by
  induction n
  case zero => simp
  case succ n hi =>
    rw [List.replicate_succ', ← List.append_assoc, Panel.after_snoc, hi]
    rfl

-- The rest of a call of the host.
theorem careful_call (provider : Provider) (r : CarefulRun os tools s t s')
    (hw : s'.worker = .calling call) (hk : call.Always (KeepsSession ·.op)) :
    let out := call.run (agentHandler os provider) s'.host
    ∃ n, CarefulRun os tools s (t ++ List.replicate n .silent)
      ⟨s'.tui, .calling (.ret out.value), out.state⟩ := by
  induction call generalizing t s'
  case ret a =>
    refine ⟨0, ?_⟩
    have he : (⟨s'.tui, .calling (.ret a), s'.host⟩ : System W) = s' := by rw [← hw]
    simpa [he] using r
  case op o k hi =>
    have ⟨ho, hk⟩ := hk (agentHandler os provider o s'.host).1
    have hst : System.Step os tools s' _ _ := .work provider hw
    rw [hostEvent_of_keeps ho] at hst
    have r : CarefulRun os tools s (t ++ [.silent]) _ := r.snoc trivial hst
    have ⟨n, r⟩ := hi _ r rfl hk
    have ht : t ++ List.replicate (n + 1) TuiEvent.silent =
        t ++ [TuiEvent.silent] ++ List.replicate n TuiEvent.silent := by
      simp [List.replicate_succ]
    exact ⟨n + 1, ht ▸ r⟩

-- The call of a turn, from its beginning to its answer.
theorem careful_agentTurn {tui : TuiState} {current : Bytes} {new : Bool} (provider : Provider)
    (r : CarefulRun os tools s t
      ⟨tui, .calling (agentTurn tools (turnBody message new current)), host⟩)
    (hsince : ((Panel.initial s).after t).since) :
    let out := (agentTurn tools (turnBody message new current)).run (agentHandler os provider) host
    ∃ sessionId n, CarefulRun os tools s
      (t ++ [TuiEvent.reached new sessionId] ++ List.replicate n TuiEvent.silent)
      ⟨tui, .calling (.ret out.value), out.state⟩ := by
  rw [agentTurn_turnBody] at r ⊢
  have r : CarefulRun os tools s (t ++ [.reached new (agentHandler os provider
      (.openSession new (if new then [] else current)) host).1]) _ :=
    r.snoc hsince (@System.Step.work _ os tools _ (.openSession new _) _ provider rfl)
  exact ⟨_, careful_call provider r rfl turnIn_keeps⟩

def afterAnswer (tui : TuiState) (message : Bytes) (response : AgentResponse) : TuiState :=
  let sent := (tui.pressEnter message false).1
  let parsed := parseAgentTurnResponse response.json
  { sent with chatWork := (sent.chatWork.ingest parsed).finish parsed.entries }

-- The first message, as far as its answer is handed over.
theorem careful_turn (hs : s.IsStart) (hm : message ≠ []) (provider : Provider) :
    let out := (agentTurn tools (turnBody message false s.tui.currentSessionId)).run
      (agentHandler os provider) s.host
    out.value = some response →
      ∃ sessionId n, CarefulRun os tools s
        ([TuiEvent.sent false, TuiEvent.silent] ++ [TuiEvent.reached false sessionId] ++
          List.replicate n TuiEvent.silent ++
            [TuiEvent.answered (parseAgentTurnResponse response.json).sessionId] ++
              [TuiEvent.silent]) ⟨afterAnswer s.tui message response, .idle, out.state⟩ := by
  intro out hv
  have ⟨_, _, _, _, _, ht⟩ := hs.tui
  have hp : ∃ tui, s.tui.pressEnter message false = (tui, some (.turn message false)) := by
    rw [ht]
    simp [TuiState.pressEnter, TuiState.start, hm]
  have ⟨tui, hp⟩ := hp
  have hcur : tui.currentSessionId = s.tui.currentSessionId :=
    congrArg SessionView.current (pressEnter_view hp).right.left
  have r : CarefulRun os tools s [] s := .nil
  have r : CarefulRun os tools s [.sent false] ⟨tui, .spawned (.turn message false), s.host⟩ :=
    r.snoc trivial (.enter (by rw [ht]; rfl) hp hs.idle)
  have r : CarefulRun os tools s [.sent false, .silent] _ := r.snoc trivial (.call rfl)
  simp only [ChatJob.call, hcur] at r
  have ⟨sessionId, n, r⟩ := careful_agentTurn provider r rfl
  rw [show Prog.Outcome.value _ = _ from hv] at r
  have hc : ((Panel.initial s).after ([TuiEvent.sent false, TuiEvent.silent] ++
      [TuiEvent.reached false sessionId] ++ List.replicate n TuiEvent.silent)).since := by
    rw [after_silent]
    rfl
  have r : CarefulRun os tools s (_ ++ [.answered (parseAgentTurnResponse response.json).sessionId]) _ :=
    r.snoc (Or.inr (Or.inl hc)) (.ingest rfl rfl)
  have r : CarefulRun os tools s (_ ++ [.silent]) _ := r.snoc trivial (.finish rfl)
  refine ⟨sessionId, n, ?_⟩
  rw [afterAnswer, hp]
  exact r

theorem System.Step.adopting {sessionId : Bytes} (polled sessionIds : List Bytes)
    (hc : s.tui.deleteConfirmSessionId = none) (hs : s.tui.handedOver = some sessionId) :
    System.Step os tools s (.adopted sessionId)
      { s with tui := s.tui.drain polled sessionIds } := by
  have : System.Step os tools s _ _ := .tick polled sessionIds hc
  rwa [hs] at this

theorem System.Step.picking {sessionId : Bytes} {entries : List ChatEntry}
    (hs : s.tui.pickedSession = some sessionId) (hh : System.IsHistory s.host sessionId entries) :
    System.Step os tools s (.picked sessionId)
      { s with tui := s.tui.applySessionMenuSelection fun _ => entries } := by
  have : System.Step os tools s _ _ := .frame fun picked hp => by
    rw [hs] at hp
    exact Option.some.inj hp ▸ hh
  rwa [hs] at this

-- The agent says hello in the session that it is in.
def hello (sessionId : Bytes) : AgentResponse :=
  .final [] "hello" sessionId []

def blankStart : System Unit :=
  ⟨TuiState.start "0.1" [] [] [], .idle, .fresh⟩

theorem sessionAuthority_of_careful_hello :
    ∃ t s', CarefulRun Os.idle [] blankStart t s' ∧ .adopted "s" ∈ t ∧ .cleared ∈ t ∧
      SessionAuthority blankStart t := by
  have hs : blankStart.IsStart :=
    ⟨rfl, by decide, "0.1", [], [], [], ⟨[], by decide +kernel, by decide +kernel⟩, rfl⟩
  have hv : ((agentTurn [] (turnBody "hi" false blankStart.tui.currentSessionId)).run
      (agentHandler Os.idle (.saying "hello")) blankStart.host).value = some (hello "s") := by
    decide +kernel
  have ⟨sessionId, n, r⟩ := careful_turn hs (by decide) (.saying "hello") hv
  generalize htui : afterAnswer blankStart.tui "hi" (hello "s") = tui at r
  have hconf : tui.deleteConfirmSessionId = none := by rw [← htui]; decide +kernel
  have hover : tui.handedOver = some (str "s") := by rw [← htui]; decide +kernel
  have hslot : (tui.drain [] ["s"]).chatWork.sessionId = [] := by rw [← htui]; decide +kernel
  have hconf' : (tui.drain [] ["s"]).deleteConfirmSessionId = none := by rw [← htui]; decide +kernel
  have r : CarefulRun Os.idle [] blankStart (_ ++ [.adopted "s"]) _ :=
    r.snoc trivial (.adopting [] ["s"] hconf hover)
  have r : CarefulRun Os.idle [] blankStart (_ ++ [.cleared]) _ := r.snoc hslot (.newSession hconf')
  exact ⟨_, _, r, by simp, by simp, sessionAuthority_of_careful hs r⟩

def resumedHost : AgentWorld Unit :=
  { AgentWorld.fresh with
    agent := ⟨"s", [], ⟨true, [⟨"a", 1, "user", "hi"⟩]⟩, none⟩ }

def resumedStart : System Unit :=
  ⟨TuiState.start "0.1" "a" (resumedEntries [⟨"user", "hi", "12:00"⟩]) [], .idle, resumedHost⟩

-- The second session is picked when the answer in the first one has been shown. The next tick finds
-- the name of the first one still in the slot.
theorem not_sessionAuthority :
    ¬∀ (s s' : System Unit) (t : List TuiEvent), s.IsStart → System.Run Os.idle [] s t s' →
      SessionAuthority s t := by
  intro h
  have hs : resumedStart.IsStart := by
    refine ⟨rfl, by decide, "0.1", "a", _, [], ?_, rfl⟩
    exact ⟨[⟨⟨"a", 1, "user", "hi"⟩, "12:00"⟩], by decide +kernel, by decide +kernel⟩
  have hv : ((agentTurn [] (turnBody "hi" false resumedStart.tui.currentSessionId)).run
      (agentHandler Os.idle (.saying "hello")) resumedStart.host).value = some (hello "a") := by
    decide +kernel
  have ⟨sessionId, n, r⟩ := careful_turn hs (by decide) (.saying "hello") hv
  have r := r.run
  have hload : (((agentTurn [] (turnBody "hi" false resumedStart.tui.currentSessionId)).run
      (agentHandler Os.idle (.saying "hello")) resumedStart.host).state.agent.memoryStore.loadSession
        "b") = [] := by
    decide +kernel
  generalize Prog.Outcome.state _ = host at r hload
  generalize htui : afterAnswer resumedStart.tui "hi" (hello "a") = tui at r
  have hconf : tui.deleteConfirmSessionId = none := by rw [← htui]; decide +kernel
  have hover : tui.handedOver = none := by rw [← htui]; decide +kernel
  have r := r.snoc (.tick ["b"] ["b"] hconf)
  rw [hover] at r
  have hconf : ((tui.drain ["b"] ["b"]).moveSelection 0 true).deleteConfirmSessionId = none := by
    rw [← htui]
    decide +kernel
  have hpick : ((tui.drain ["b"] ["b"]).moveSelection 0 true).pickedSession = some (str "b") := by
    rw [← htui]
    decide +kernel
  have hview (entries : List ChatEntry) := @applySessionMenuSelection_view
    ((tui.drain ["b"] ["b"]).moveSelection 0 true) fun _ => entries
  have hover (entries : List ChatEntry) : (((tui.drain ["b"] ["b"]).moveSelection 0
      true).applySessionMenuSelection fun _ => entries).handedOver = some (str "a") := by
    rw [handedOver_eq, hview, hpick, ← htui]
    decide +kernel
  have r := r.snoc (.move 0 true fun _ => hconf)
  have r := r.snoc (.picking hpick ⟨[], hload.symm, rfl⟩)
  have r := r.snoc (.adopting [] [] ((congrArg SessionView.confirming (hview _)).trans hconf) (hover _))
  have ha := (Trace.each_snoc.mp (h _ _ _ hs r)).right
  rw [Panel.after_snoc] at ha
  exact nomatch ha

end Examples
end Runs
end Invariant

end Droidcli.Cli.Tui
