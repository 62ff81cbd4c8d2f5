import Droidcli.Cli.Theorems.Answers

namespace Droidcli.Cli

open Bytes Net Ai Interaction Prog

-- The two errors with which a turn is turned down before its message is recorded.
def rejections : List (Option AgentResponse) :=
  [some (.failure "missing message" none), some (.failure "AI is disabled (--no-ai)" none)]

theorem not_rejection_of_places {sessionId : Bytes} {answer : Option AgentResponse}
    (h : AgentResponse.Places sessionId answer) : answer ∉ rejections := by
  intro hm
  obtain rfl | rfl := List.mem_pair.mp hm
  all_goals nomatch h

variable {W : Type} {os : Os W} {s : AgentWorld W} {answers : Provider}
  {tools : List ToolDefinition} {sessionId userMessage body : Bytes}

section Abandon

variable (os s answers sessionId) in
-- The state in which a turn goes on when its session's pending call has been dropped.
abbrev abandoned : AgentWorld W :=
  ((abandonPendingCall sessionId).run (agentHandler os answers) s).state

theorem run_abandonPendingCall (h : s.isPendingIn sessionId = false) :
    (abandonPendingCall sessionId).run (agentHandler os answers) s =
      ⟨(), s, [⟨.abandonPending sessionId, false⟩]⟩ := by
  have ha : agentHandler os answers (.abandonPending sessionId) s = (false, s) := by
    simp [agentHandler, h]
  exact run_op_of_eq ha

theorem run_abandonPendingCall_pending (h : s.isPendingIn sessionId) :
    (abandonPendingCall sessionId).run (agentHandler os answers) s =
      let out := (perform (.record sessionId .system abandonedNote) >>= fun _ =>
        logChat "out" (str "pending tool call abandoned (new message arrived before it was " ++
          "approved/declined)") false).run (agentHandler os answers) (s.setPending none)
      { out with trace := ⟨.abandonPending sessionId, true⟩ :: out.trace } := by
  have ha : agentHandler os answers (.abandonPending sessionId) s = (true, s.setPending none) := by
    simp [agentHandler, h]
  exact run_op_of_eq ha

theorem abandoned_host : (abandoned os s answers sessionId).host = s.host := by
  cases h : s.isPendingIn sessionId
  case false => simp [abandoned, run_abandonPendingCall h]
  case true  => rw [abandoned, run_abandonPendingCall_pending h]; rfl

theorem abandoned_agent (h : s.isPendingIn sessionId = false) :
    (abandoned os s answers sessionId).agent = s.agent := by
  simp [abandoned, run_abandonPendingCall h]

theorem abandoned_pendingToolCall (h : s.isPendingIn sessionId) :
    (abandoned os s answers sessionId).agent.pendingToolCall = none := by
  rw [abandoned, run_abandonPendingCall_pending h]
  rfl

end Abandon

section Turn

-- What follows the question whether there is a model that could answer.
def afterAiEnabled (tools : List ToolDefinition) (userMessage sessionId : Bytes) :
    Bool → AgentM (Option AgentResponse)
  | false => do
    logChat "out" "rejected: AI is disabled (--no-ai)" false
    return some (.failure "AI is disabled (--no-ai)" none)
  | true => do
    seedSystemPrompt sessionId
    perform (.record sessionId .user userMessage)
    let provider ← perform .makeModelProvider
    decideTurn tools provider sessionId

theorem turnIn_eq (hm : userMessage ≠ []) :
    turnIn tools userMessage sessionId = (do
      abandonPendingCall sessionId
      logChat "in" (str "user: " ++ userMessage) true
      let aiEnabled ← perform .aiEnabled
      afterAiEnabled tools userMessage sessionId aiEnabled) := by
  rw [turnIn, if_neg hm]
  congr 1
  funext _
  congr 1
  funext _
  congr 1
  funext aiEnabled
  cases aiEnabled <;> rfl

theorem run_turnIn (hm : userMessage ≠ []) :
    let out := (turnIn tools userMessage sessionId).run (agentHandler os answers) s
    if s.host.config.enableAi then AgentResponse.Places sessionId out.value
    else out.state.agent = (abandoned os s answers sessionId).agent := by
  have ha {entry : AppLogEntry} : (agentHandler os answers .aiEnabled (agentHandler os answers
      (.log entry) (abandoned os s answers sessionId)).2).1 = s.host.config.enableAi := by
    rw [← @abandoned_host _ os s answers sessionId]
    rfl
  simp only [turnIn_eq hm, run_bind, logChat, run_perform]
  rw [ha]
  cases s.host.config.enableAi
  case false => rfl
  case true =>
    have hp : (afterAiEnabled tools userMessage sessionId true).Returns (fun _ => True)
        (AgentResponse.Places sessionId) :=
      returns_bind_of_forall fun _ => returns_bind_of_forall fun _ =>
        returns_bind_of_forall fun _ => decideTurn_places
    exact hp.run fun _ _ => trivial

end Turn

section Request

-- What the session fields of a request ask for leaves the host in its session.
def AgentRequest.StaysIn (os : Os W) (s : AgentWorld W) (body : Bytes) : Prop :=
  if extractJsonBoolField body "clear" = some true then
    s.agent.agentTranscript = [] ∧ s.generateSessionId os = s.agent.currentSessionId
  else sessionField body = [] ∨ sessionField body = s.agent.currentSessionId

theorem opened_agent_iff :
    (s.opened os body).agent = s.agent ↔ AgentRequest.StaysIn os s body := by
  have hc : (extractJsonBoolField body "clear").getD false = true ↔
      extractJsonBoolField body "clear" = some true := by
    cases extractJsonBoolField body "clear" <;> simp
  change (s.openSession os _ _).agent = s.agent ↔ _
  unfold AgentWorld.openSession AgentRequest.StaysIn
  simp only [hc]
  split_ifs with h₁ h₂
  case pos =>
    constructor
    case mp  => exact fun h => ⟨by rw [← h]; rfl, by rw [← h]; rfl⟩
    case mpr => exact fun ⟨ht, hi⟩ => by simp [AgentWorld.startSession, ← ht, hi]
  case pos => exact ⟨fun h => absurd (by rw [← h]; rfl) h₂.right, fun h => by simp_all⟩
  case neg => simpa [or_iff_not_imp_left] using h₂

theorem opened_pendingToolCall :
    (s.opened os body).agent.pendingToolCall = s.agent.pendingToolCall := by
  change (s.openSession os _ _).agent.pendingToolCall = _
  unfold AgentWorld.openSession
  split_ifs <;> rfl

theorem abandoned_opened_iff :
    (abandoned os (s.opened os body) answers (s.opened os body).agent.currentSessionId).agent =
        s.agent ↔
      AgentRequest.StaysIn os s body ∧ s.isPendingIn s.agent.currentSessionId = false := by
  rw [← opened_agent_iff]
  generalize hs : s.opened os body = s'
  have hc : s'.agent.pendingToolCall = s.agent.pendingToolCall := hs ▸ opened_pendingToolCall
  have hi (h : s'.agent = s.agent) : s'.isPendingIn s'.agent.currentSessionId =
      s.isPendingIn s.agent.currentSessionId := by
    simp [AgentWorld.isPendingIn, h]
  cases hp : s'.isPendingIn s'.agent.currentSessionId
  case false =>
    rw [abandoned_agent hp]
    exact ⟨fun h => ⟨h, hi h ▸ hp⟩, And.left⟩
  case true =>
    constructor
    case mpr => exact fun ⟨h, hf⟩ => absurd (hi h ▸ hp) (by simp [hf])
    case mp =>
      intro h
      have hn := @abandoned_pendingToolCall _ os s' answers s'.agent.currentSessionId hp
      rw [h, ← hc] at hn
      simp [AgentWorld.isPendingIn, hn] at hp

-- A turn that is turned down leaves the session, the transcript, the pending call and the records
-- alone exactly if it stays in its session and has no pending call to drop.
theorem rejected_agent_iff
    (hr : ((AgentRequest.turn body).handle os tools answers s).value ∈ rejections) :
    ((AgentRequest.turn body).handle os tools answers s).state.agent = s.agent ↔
      AgentRequest.StaysIn os s body ∧ (extractJsonStringField body "message" ≠ [] →
        s.isPendingIn s.agent.currentSessionId = false) := by
  rw [handle_turn] at hr ⊢
  simp only [AgentRequest.turnRest] at hr ⊢
  by_cases hm : extractJsonStringField body "message" = []
  case pos =>
    simp only [hm, turnIn, ne_eq, not_true, false_implies, and_true]
    exact opened_agent_iff
  case neg =>
    have hh := @run_turnIn _ os (s.opened os body) answers tools
      (s.opened os body).agent.currentSessionId (extractJsonStringField body "message") hm
    dsimp only at hh
    split_ifs at hh
    case pos => exact absurd hr (not_rejection_of_places hh)
    case neg => simp only [hh, abandoned_opened_iff, ne_eq, hm, not_false_iff, true_implies]

theorem rejected_agent_iff_empty :
    let out := (AgentRequest.turn (jsonObject [])).handle Os.idle [] (.saying []) .fresh
    out.value ∈ rejections ∧ (out.state.agent = AgentWorld.fresh.agent ↔
      AgentRequest.StaysIn Os.idle .fresh (jsonObject []) ∧
        (extractJsonStringField (jsonObject []) "message" ≠ [] →
          AgentWorld.fresh.isPendingIn AgentWorld.fresh.agent.currentSessionId = false)) :=
  have hr : ((AgentRequest.turn (jsonObject [])).handle Os.idle [] (.saying []) .fresh).value ∈
      rejections := List.mem_cons_self
  ⟨hr, rejected_agent_iff hr⟩

-- A request without a message moves the host to the session that it names.
theorem not_rejected_agent :
    ¬∀ (body : Bytes) (answers : Provider) (s : AgentWorld Unit),
      ((AgentRequest.turn body).handle Os.idle [] answers s).value ∈ rejections →
      ((AgentRequest.turn body).handle Os.idle [] answers s).state.agent = s.agent := by
  intro h
  have h := h (jsonObject [jsonStringField "session_id" "other"]) (.saying []) .fresh
    List.mem_cons_self
  have hs : str "other" = "s" := congrArg AgentState.currentSessionId h
  exact absurd hs (by decide)

end Request
end Droidcli.Cli
