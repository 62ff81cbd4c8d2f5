import Droidcli.Cli.Theorems.Answers
import Droidcli.Cli.Theorems.Transcript

namespace Droidcli.Cli

open Bytes Net Ai Classify Interaction Prog

-- The message that an event appends to the transcript.
def appended : Event AgentRes → List ChatMessage
  | ⟨.record _ role content, _⟩ => [⟨role, content⟩]
  | _                           => []

abbrev NotAssistant (message : ChatMessage) : Prop :=
  message.role ≠ .assistant

-- A reply is the last of the messages that are appended, and the only one of the assistant. Without
-- a reply there is none of the assistant.
def Concludes (messages : List ChatMessage) : Option AgentResponse → Prop
  | some (.final _ assistant _ _) => ∃ before,
    messages = before ++ [⟨.assistant, assistant⟩] ∧ ∀ message ∈ before, NotAssistant message
  | some (.failure _ _) => ∀ message ∈ messages, NotAssistant message
  | some (.pending _ _ _) => ∀ message ∈ messages, NotAssistant message
  | some (.deleted _) => False
  | none => True

theorem Concludes.behind {messages messages' : List ChatMessage} {answer : Option AgentResponse}
    (h : Concludes messages' answer) (hm : ∀ message ∈ messages, NotAssistant message) :
    Concludes (messages ++ messages') answer := by
  cases answer
  case none => trivial
  case some response =>
    cases response
    case failure => exact List.forall_mem_append.mpr ⟨hm, h⟩
    case pending => exact List.forall_mem_append.mpr ⟨hm, h⟩
    case deleted => exact h.elim
    case final =>
      have ⟨before, he, hb⟩ := h
      exact ⟨messages ++ before, by simp [he], List.forall_mem_append.mpr ⟨hm, hb⟩⟩

-- The operation appends no message of the assistant.
def UnvoicedOp : AgentOp → Prop
  | .record _ role _ => role ≠ .assistant
  | _                => True

section Programs

variable {α : Type} {provider : OpenAICompatConfig} {tools : List ToolDefinition}
  {sessionId toolName argumentsJson resultJson thinkingText : Bytes} {userMessage reason : Bytes}
  {actions : List PendingToolActionRecord} {pending : PendingAgentToolCall} {o : AgentOp}
  {purpose : CallPurpose} {p : AgentM α} {f : α → AgentM (Option AgentResponse)}

theorem UnvoicedOp.appended {e : Event AgentRes} (h : UnvoicedOp e.op) :
    ∀ message ∈ appended e, NotAssistant message := by
  have ⟨o, r⟩ := e
  cases o
  case record => exact List.forall_mem_singleton.mpr h
  all_goals nofun

theorem ClassifyOp.unvoiced (h : ClassifyOp purpose o) : UnvoicedOp o := by
  cases o <;> simp_all [ClassifyOp, AttemptOp, UnvoicedOp]

theorem ExecuteOp.unvoiced (h : ExecuteOp sessionId o) : UnvoicedOp o := by
  cases o <;> simp_all [ExecuteOp, UnvoicedOp]

theorem PhraseOp.unvoiced (h : PhraseOp o) : UnvoicedOp o := by
  cases o <;> simp_all [PhraseOp, UnvoicedOp]

-- What is appended before a part that concludes, if it is not the assistant's.
theorem concludes_bind (hp : p.Always (UnvoicedOp ·.op))
    (hf : ∀ a, (f a).Collects appended Concludes) : (p >>= f).Collects appended Concludes := by
  have hc := collects_of_always (hp.mono fun _ h => h.appended)
    (@returns_of_forall _ _ _ _ (fun _ => True) p fun _ => trivial)
  exact collects_bind hc fun _ a hm => (hf a).mono fun _ _ h => h.behind hm.left

theorem concludes_perform_bind {o : AgentOp} {f : AgentRes o → AgentM (Option AgentResponse)}
    (ho : UnvoicedOp o) (hf : ∀ r, (f r).Collects appended Concludes) :
    (perform o >>= f).Collects appended Concludes :=
  concludes_bind (always_perform.mpr fun _ => ho) hf

-- The reply to the user is recorded, logged and returned.
theorem concludes_voiced {text : Bytes} :
    (perform (.record sessionId .assistant text) >>= fun _ =>
      logChat "out" (str "assistant: " ++ text) true >>= fun _ =>
        ret (some (.final thinkingText text sessionId actions))).Collects appended Concludes :=
  fun _ _ => ⟨[], rfl, nofun⟩

theorem reply_concludes :
    (reply provider sessionId toolName argumentsJson resultJson actions thinkingText).Collects
      appended Concludes := by
  refine concludes_bind (phraseResult_always.mono fun _ h => h.unvoiced) fun result => ?_
  cases result
  case none => trivial
  case some => exact concludes_voiced

-- A call that is not executed waits for a decision.
theorem executeDecisionOrPause_returns :
    (executeDecisionOrPause sessionId toolName argumentsJson actions thinkingText).Returns
      (fun _ => True) fun execution => ∀ response, execution = some (.paused response) →
        Concludes [] (some response) := by
  unfold executeDecisionOrPause
  dsimp only
  split_ifs
  case pos =>
    refine returns_bind_of_forall fun checked => ?_
    cases checked
    case error => exact returns_bind_of_forall fun _ => returns_bind_of_forall fun _ => nofun
    case ok =>
      refine returns_bind_of_forall fun _ response he => ?_
      cases he
      nofun
  case neg =>
    refine returns_bind_of_forall fun result => ?_
    cases result
    case none => nofun
    case some => exact returns_bind_of_forall fun _ => returns_bind_of_forall fun _ => nofun

-- A call that is decided on, and what follows its execution.
theorem concludes_execution {f : Option Execution → AgentM (Option AgentResponse)}
    (hn : f none = ret none) (hp : ∀ response, f (some (.paused response)) = ret (some response))
    (he : ∀ actions result, (f (some (.executed actions result))).Collects appended Concludes) :
    (executeDecisionOrPause sessionId toolName argumentsJson actions thinkingText >>= f).Collects
      appended Concludes := by
  have hc := collects_of_always (executeDecisionOrPause_always.mono fun _ h => h.unvoiced.appended)
    (@executeDecisionOrPause_returns sessionId toolName argumentsJson thinkingText actions)
  refine collects_bind hc fun messages execution ⟨hm, hr⟩ => ?_
  rcases execution with _ | ⟨actions, result⟩ | response
  case none          => exact hn ▸ trivial
  case some.executed => exact (he actions result).mono fun _ _ h => h.behind hm
  case some.paused   => exact hp response ▸ (hr response rfl).behind hm

theorem followRetry_concludes {decision : Option TurnDecision} :
    (followRetry provider sessionId toolName argumentsJson resultJson actions thinkingText
      decision).Collects appended Concludes := by
  unfold followRetry
  split
  case h_1 => trivial
  case h_2 => exact concludes_execution rfl (fun _ => rfl) fun _ _ => reply_concludes
  case h_3 => exact reply_concludes

theorem finishTurnAfterExecution_concludes {allowRetry : Bool} :
    (finishTurnAfterExecution tools provider sessionId toolName argumentsJson resultJson actions
      allowRetry thinkingText).Collects appended Concludes := by
  unfold finishTurnAfterExecution
  split_ifs
  case neg => exact reply_concludes
  case pos =>
    refine concludes_perform_bind nofun fun _ => ?_
    exact concludes_bind (classifyViaLlm_always.mono fun _ h => h.unvoiced) fun _ =>
      followRetry_concludes

theorem followDecision_concludes {decision : Option TurnDecision} :
    (followDecision tools provider sessionId decision).Collects appended Concludes := by
  unfold followDecision
  split
  case h_1 => trivial
  case h_2 => exact nofun
  case h_3 => exact concludes_voiced
  case h_4 =>
    exact concludes_execution rfl (fun _ => rfl) fun _ _ => finishTurnAfterExecution_concludes

theorem abandonPendingCall_unvoiced :
    (abandonPendingCall sessionId).Always (UnvoicedOp ·.op) := by
  refine always_bind (always_perform.mpr fun _ => trivial) fun abandoned => ?_
  split_ifs
  case neg => exact always_ret
  case pos => exact always_bind (always_perform.mpr fun _ => nofun) fun _ => logChat_always trivial

theorem seedSystemPrompt_unvoiced : (seedSystemPrompt sessionId).Always (UnvoicedOp ·.op) := by
  refine always_bind (always_perform.mpr fun _ => trivial) fun prompt => ?_
  cases prompt
  case none => exact always_ret
  case some => exact always_perform.mpr fun _ => nofun

theorem turnIn_concludes :
    (turnIn tools userMessage sessionId).Collects appended Concludes := by
  unfold turnIn
  split
  case isTrue => exact nofun
  refine concludes_bind abandonPendingCall_unvoiced fun _ => ?_
  refine concludes_perform_bind trivial fun _ => concludes_perform_bind trivial fun aiEnabled => ?_
  split_ifs
  case neg => exact concludes_perform_bind trivial fun _ => nofun
  refine concludes_bind seedSystemPrompt_unvoiced fun _ => ?_
  refine concludes_perform_bind nofun fun _ => concludes_perform_bind trivial fun provider => ?_
  exact concludes_bind (classifyViaLlm_always.mono fun _ h => h.unvoiced) fun _ =>
    followDecision_concludes

theorem recordDecision_concludes {approved : Bool} {result : Option Bytes} :
    (recordDecision tools pending approved result).Collects appended Concludes := by
  unfold recordDecision
  cases result
  case none => trivial
  refine concludes_perform_bind trivial fun _ => concludes_perform_bind nofun fun _ => ?_
  exact concludes_perform_bind trivial fun _ => finishTurnAfterExecution_concludes

theorem agentToolDecision_concludes {body : Bytes} :
    (agentToolDecision tools body).Collects appended Concludes := by
  refine concludes_perform_bind trivial fun taken => ?_
  cases taken
  case none => exact nofun
  case some pending =>
    change (resolvePending tools pending (AgentRequest.approved body) _).Collects appended Concludes
    cases AgentRequest.approved body
    case false => exact resolvePending_declined ▸ recordDecision_concludes
    case true  => exact concludes_perform_bind trivial fun _ => recordDecision_concludes

end Programs

section Requests

variable {W : Type} {os : Os W} {s : AgentWorld W} {answers : Provider} {body : Bytes}
  {tools : List ToolDefinition} {o : AgentOp}

theorem agentHandler_appends (ho : KeepsSession o) :
    (agentHandler os answers o s).2.agent.agentTranscript =
      s.agent.agentTranscript ++ appended ⟨o, (agentHandler os answers o s).1⟩ := by
  have hk (hk : KeepsMessages o) : (agentHandler os answers o s).2.agent.agentTranscript =
      s.agent.agentTranscript := by
    have ⟨_, ha⟩ := @agentHandler_frame _ os s answers o hk
    rw [ha]
  cases o
  case openSession   => cases ho
  case deleteSession => cases ho
  case record        => rfl
  all_goals simpa [appended] using hk trivial

theorem run_appends {α : Type} {p : AgentM α} (hp : p.Always (KeepsSession ·.op)) :
    (p.run (agentHandler os answers) s).state.agent.agentTranscript =
      s.agent.agentTranscript ++ (p.run (agentHandler os answers) s).trace.flatMap appended := by
  induction p generalizing s
  case ret => simp
  case op o k hi =>
    have ⟨ho, hk⟩ := hp (agentHandler os answers o s).1
    have hs := @agentHandler_appends _ os s answers o ho
    simp only [run_op, List.flatMap_cons, hi _ hk, hs, List.append_assoc]

-- A program that leaves the host in its session appends what it concludes with.
theorem run_concludes {p : AgentM (Option AgentResponse)} (hp : p.Always (KeepsSession ·.op))
    (hc : p.Collects appended Concludes) :
    ∃ messages, (p.run (agentHandler os answers) s).state.agent.agentTranscript =
        s.agent.agentTranscript ++ messages ∧
      Concludes messages (p.run (agentHandler os answers) s).value :=
  ⟨_, run_appends hp, hc.run⟩

-- What a request appends to the transcript it goes on with, which for a turn is the one of the
-- session that it opens.
theorem handle_concludes :
    (let out := (AgentRequest.turn body).handle os tools answers s
      ∃ messages, out.state.agent.agentTranscript =
          (s.opened os body).agent.agentTranscript ++ messages ∧ Concludes messages out.value) ∧
    let out := (AgentRequest.toolDecision body).handle os tools answers s
    ∃ messages, out.state.agent.agentTranscript = s.agent.agentTranscript ++ messages ∧
      Concludes messages out.value :=
  ⟨run_concludes turnIn_keeps turnIn_concludes,
    run_concludes agentToolDecision_keeps agentToolDecision_concludes⟩

end Requests
end Droidcli.Cli
