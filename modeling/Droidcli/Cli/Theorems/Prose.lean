import Droidcli.Cli.Theorems.AgentTurn
import Droidcli.Lib.Coupling
import Droidcli.Net.Theorems.Json
import Mathlib.Data.List.Forall2

namespace Droidcli.Cli

open Bytes Net Ai Classify Interaction Prog

section Alike

-- What two runs leave behind differs in reports of `self_status` only, and only where `reported`.
variable (reported : Prop)

-- Two reports of `self_status` that differ in the app log they count the failures of.
def SelfStatusPair (x y : Bytes) : Prop :=
  reported ∧ ∃ host appLog appLog',
    x = buildSelfStatusJson host appLog ∧ y = buildSelfStatusJson host appLog'

-- The results of one tool call in two runs.
def ResultAlike (tool x y : Bytes) : Prop :=
  x = y ∨ tool = str "self_status" ∧ SelfStatusPair reported x y

-- What two runs record under one role.
def ContentAlike (role : ChatRole) (x y : Bytes) : Prop :=
  x = y ∨ role = .tool ∧ SelfStatusPair reported x y

structure MessageAlike (m m' : ChatMessage) : Prop where
  role : m.role = m'.role
  content : ContentAlike reported m.role m.content m'.content

structure RecordAlike (r r' : MemoryRecord) : Prop where
  sessionId : r.sessionId = r'.sessionId
  hopIndex : r.hopIndex = r'.hopIndex
  role : r.role = r'.role
  content : r.content = r'.content ∨ r.role = str "tool" ∧
    ∃ x y, SelfStatusPair reported x y ∧ r.content = cstr x ∧ r'.content = cstr y

structure ActionAlike (a a' : PendingToolActionRecord) : Prop where
  tool : a.tool = a'.tool
  argumentsJson : a.argumentsJson = a'.argumentsJson
  resultJson : ResultAlike reported a.tool a.resultJson a'.resultJson

abbrev ActionsAlike := List.Forall₂ (ActionAlike reported)

structure PendingAlike (p p' : PendingAgentToolCall) : Prop where
  sessionId : p.sessionId = p'.sessionId
  decidedCall : p.decidedCall = p'.decidedCall
  actions : ActionsAlike reported p.actions p'.actions

structure ViewAlike (v v' : PendingView) : Prop where
  tool : v.tool = v'.tool
  argumentsJson : v.argumentsJson = v'.argumentsJson
  looksDestructive : v.looksDestructive = v'.looksDestructive
  actions : ActionsAlike reported v.actions v'.actions

-- The same response but for its thinking.
inductive ResponseAlike : AgentResponse → AgentResponse → Prop
  | failure {error : Bytes} {sessionId : Option Bytes} :
      ResponseAlike (.failure error sessionId) (.failure error sessionId)
  | final {thinking thinking' assistant sessionId : Bytes}
      {actions actions' : List PendingToolActionRecord} :
      ActionsAlike reported actions actions' →
      ResponseAlike (.final thinking assistant sessionId actions)
        (.final thinking' assistant sessionId actions')
  | pending {thinking thinking' sessionId : Bytes} {view view' : PendingView} :
      ViewAlike reported view view' →
      ResponseAlike (.pending thinking sessionId view) (.pending thinking' sessionId view')
  | deleted {deleted : DeletedSession} : ResponseAlike (.deleted deleted) (.deleted deleted)

-- The states of two runs, wherever both have come equally far. The app logs may differ.
structure WorldAlike {W : Type} (s t : AgentWorld W) : Prop where
  session : s.agent.currentSessionId = t.agent.currentSessionId
  transcript : List.Forall₂ (MessageAlike reported) s.agent.agentTranscript t.agent.agentTranscript
  isOpen : s.agent.memoryStore.isOpen = t.agent.memoryStore.isOpen
  records :
    List.Forall₂ (RecordAlike reported) s.agent.memoryStore.entries t.agent.memoryStore.entries
  pending : Option.Rel (PendingAlike reported) s.agent.pendingToolCall t.agent.pendingToolCall
  host : s.host = t.host
  machine : s.machine = t.machine

variable {reported}

theorem ResultAlike.refl (tool x : Bytes) : ResultAlike reported tool x x :=
  .inl rfl

theorem MessageAlike.refl (m : ChatMessage) : MessageAlike reported m m :=
  ⟨rfl, .inl rfl⟩

theorem RecordAlike.refl (r : MemoryRecord) : RecordAlike reported r r :=
  ⟨rfl, rfl, rfl, .inl rfl⟩

theorem ActionAlike.refl (a : PendingToolActionRecord) : ActionAlike reported a a :=
  ⟨rfl, rfl, .inl rfl⟩

theorem ActionsAlike.refl (actions : List PendingToolActionRecord) :
    ActionsAlike reported actions actions :=
  List.forall₂_same.mpr fun a _ => .refl a

theorem PendingAlike.refl (p : PendingAgentToolCall) : PendingAlike reported p p :=
  ⟨rfl, rfl, .refl p.actions⟩

theorem WorldAlike.refl {W : Type} (s : AgentWorld W) : WorldAlike reported s s where
  session := rfl
  transcript := List.forall₂_same.mpr fun m _ => .refl m
  isOpen := rfl
  records := List.forall₂_same.mpr fun r _ => .refl r
  pending := by
    cases s.agent.pendingToolCall
    case none   => exact .none
    case some p => exact .some (.refl p)
  host := rfl
  machine := rfl

theorem SelfStatusPair.okField {x y : Bytes} (h : SelfStatusPair reported x y) :
    okField x = true ∧ okField y = true := by
  obtain ⟨-, host, appLog, appLog', rfl, rfl⟩ := h
  simp [Classify.okField, buildSelfStatusJson]

theorem ResultAlike.okField {tool x y : Bytes} (h : ResultAlike reported tool x y) :
    okField x = okField y := by
  obtain rfl | ⟨_, hs⟩ := h
  · rfl
  · rw [hs.okField.1, hs.okField.2]

theorem ActionsAlike.snoc {actions actions' : List PendingToolActionRecord} {tool arguments : Bytes}
    {x y : Bytes} (h : ActionsAlike reported actions actions') (hr : ResultAlike reported tool x y) :
    ActionsAlike reported (actions ++ [⟨tool, arguments, x⟩]) (actions' ++ [⟨tool, arguments, y⟩]) :=
  List.rel_append h (.cons ⟨rfl, rfl, hr⟩ .nil)

end Alike

section Providers

-- Two responses to the same call. With a tool call only the first one's name and arguments count,
-- without one the text; of a second classification's text only that it is there.
structure AnswerAlike (purpose : CallPurpose) (r r' : ProviderResponse) : Prop where
  transportOk : r.transportOk = r'.transportOk
  httpSuccess : r.httpSuccess = r'.httpSuccess
  errorMessage : r.errorMessage = r'.errorMessage
  toolCall : purpose ≠ .phrase →
    r.toolCalls.head?.map (fun call => (call.name, call.argumentsJson)) =
      r'.toolCalls.head?.map fun call => (call.name, call.argumentsJson)
  text : match purpose with
    | .classify => r.toolCalls = [] → r.assistantMessage = r'.assistantMessage
    | .retry    => r.toolCalls = [] → (r.assistantMessage = [] ↔ r'.assistantMessage = [])
    | .phrase   => r.assistantMessage = r'.assistantMessage

-- Providers that agree in all that a run may depend on.
def ProviderAlike (P Q : Provider) : Prop :=
  ∀ purpose attempt,
    Option.Rel (AnswerAlike purpose) (P purpose attempt).parse (Q purpose attempt).parse

variable {purpose : CallPurpose} {r r' : ProviderResponse}

theorem AnswerAlike.toolCalls_nil (h : AnswerAlike purpose r r') (hp : purpose ≠ .phrase) :
    r.toolCalls = [] ↔ r'.toolCalls = [] := by
  have := h.toolCall hp
  cases hr : r.toolCalls <;> cases hr' : r'.toolCalls <;> simp_all

end Providers

section Steps

variable {reported : Prop} {W : Type} {os : Os W} {P Q : Provider}

def executed : Event AgentRes → Option (Bytes × Bytes)
  | ⟨.executeTool toolName argumentsJson, _⟩ => some (toolName, argumentsJson)
  | _                                       => none

-- `self_status` is executed only where `reported`.
def Reports (reported : Prop) (e : Event AgentRes) : Prop :=
  ∀ argumentsJson, e.op = .executeTool (str "self_status") argumentsJson → reported

-- Two programs in front of two providers keep the states alike and execute the same tools.
abbrev Lockstep (reported : Prop) (os : Os W) (P Q : Provider) {α β : Type} (p : AgentM α)
    (q : AgentM β) (V : α → β → Prop) : Prop :=
  Coupled (agentHandler os P) (agentHandler os Q) executed (Reports reported)
    (WorldAlike reported) p q V

theorem silent_log {entry : AppLogEntry} :
    Silent (agentHandler os P) (agentHandler os Q) executed (WorldAlike reported) (.log entry) :=
  ⟨fun _ _ h => ⟨h.1, h.2, h.3, h.4, h.5, h.6, h.7⟩,
    fun _ _ h => ⟨h.1, h.2, h.3, h.4, h.5, h.6, h.7⟩, fun _ => rfl⟩

theorem silent_elapsedMs :
    Silent (agentHandler os P) (agentHandler os Q) executed (WorldAlike reported) .elapsedMs :=
  ⟨fun _ _ h => h, fun _ _ h => h, fun _ => rfl⟩

theorem lockstep_log {e e' : AppLogEntry} :
    Lockstep reported os P Q (perform (.log e)) (perform (.log e')) fun _ _ => True :=
  coupled_perform fun _ _ h _ => ⟨trivial, ⟨h.1, h.2, h.3, h.4, h.5, h.6, h.7⟩, rfl⟩

theorem lockstep_aiEnabled : Lockstep reported os P Q (perform .aiEnabled) (perform .aiEnabled) Eq :=
  coupled_perform fun s t h _ => ⟨by simp [agentHandler, h.host], h, rfl⟩

theorem lockstep_seedPrompt :
    Lockstep reported os P Q (perform .seedPrompt) (perform .seedPrompt) Eq := by
  refine coupled_perform fun s t h _ => ⟨?_, h, rfl⟩
  have ht : s.agent.agentTranscript = [] ↔ t.agent.agentTranscript = [] := by
    simp only [← List.length_eq_zero_iff, h.transcript.length_eq]
  simp only [agentHandler, AgentWorld.seedPrompt, h.host, h.machine, ht]

theorem lockstep_transcript :
    Lockstep reported os P Q (perform .transcript) (perform .transcript)
      (List.Forall₂ (MessageAlike reported)) :=
  coupled_perform fun _ _ h _ => ⟨h.transcript, h, rfl⟩

theorem lockstep_makeModelProvider :
    Lockstep reported os P Q (perform .makeModelProvider) (perform .makeModelProvider) Eq :=
  coupled_perform fun s t h _ =>
    ⟨by simp [agentHandler, AgentWorld.makeModelProvider, h.host], h, rfl⟩

theorem WorldAlike.passTime {s t : AgentWorld W} (h : WorldAlike reported s t) :
    WorldAlike reported (s.passTime os) (t.passTime os) :=
  ⟨h.session, h.transcript, h.isOpen, h.records, h.pending, h.host,
    congrArg os.passTime h.machine⟩

theorem lockstep_post {call call' : ProviderCall} (hp : call.purpose = call'.purpose)
    (ha : call.attempt = call'.attempt) :
    Lockstep reported os P Q (perform (.post call)) (perform (.post call')) fun o o' =>
      o = P call.purpose call.attempt ∧ o' = Q call.purpose call.attempt :=
  coupled_perform fun _ _ h _ => ⟨⟨rfl, by simp [agentHandler, hp, ha]⟩, h.passTime, rfl⟩

theorem lockstep_abandonPending {sessionId : Bytes} :
    Lockstep reported os P Q (perform (.abandonPending sessionId))
      (perform (.abandonPending sessionId)) Eq := by
  refine coupled_perform fun s t h _ => ?_
  have hp : s.isPendingIn sessionId = t.isPendingIn sessionId := by
    unfold AgentWorld.isPendingIn
    match s.agent.pendingToolCall, t.agent.pendingToolCall, h.pending with
    | _, _, .none    => rfl
    | _, _, .some hp => simp [hp.sessionId]
  simp only [agentHandler, hp]
  split
  · exact ⟨rfl, ⟨h.1, h.2, h.3, h.4, .none, h.6, h.7⟩, rfl⟩
  · exact ⟨rfl, h, rfl⟩

theorem lockstep_precheck {call : ToolCall} :
    Lockstep reported os P Q (perform (.precheck call)) (perform (.precheck call)) Eq :=
  coupled_perform fun s t h _ => by
    have he : (agentHandler os P (.precheck call) s).1 =
        (agentHandler os Q (.precheck call) t).1 := by
      simp only [agentHandler, h.host, h.machine]
    exact ⟨he, h, by rw [he]⟩

theorem viewAlike {p p' : PendingAgentToolCall} (h : PendingAlike reported p p')
    (host : HostState) (w : W) :
    ViewAlike reported (viewPendingToolCall os host w p) (viewPendingToolCall os host w p') := by
  refine ⟨by simp [viewPendingToolCall, h.decidedCall],
    by simp [viewPendingToolCall, h.decidedCall], by simp [viewPendingToolCall, h.decidedCall], ?_⟩
  simp only [viewPendingToolCall, ActionsAlike, List.forall₂_map_left_iff,
    List.forall₂_map_right_iff]
  exact h.actions.imp fun a a' ha => ⟨ha.tool, by simp [ha.tool, ha.argumentsJson], ha.resultJson⟩

theorem lockstep_pause {p p' : PendingAgentToolCall} (hp : PendingAlike reported p p') :
    Lockstep reported os P Q (perform (.pause p)) (perform (.pause p')) (ViewAlike reported) :=
  coupled_perform fun s t h _ => ⟨by simpa [agentHandler, h.host, h.machine] using viewAlike hp _ _,
    ⟨h.1, h.2, h.3, h.4, .some hp, h.6, h.7⟩, rfl⟩

theorem lockstep_record {sessionId x y : Bytes} {role : ChatRole}
    (hx : ContentAlike reported role x y) :
    Lockstep reported os P Q (perform (.record sessionId role x)) (perform (.record sessionId role y))
      fun _ _ => True := by
  refine coupled_perform fun s t h _ => ⟨trivial, WorldAlike.passTime ?_, rfl⟩
  have hm : List.Forall₂ (MessageAlike reported) (s.agent.agentTranscript ++ [⟨role, x⟩])
      (t.agent.agentTranscript ++ [⟨role, y⟩]) :=
    List.rel_append h.transcript (.cons ⟨rfl, hx⟩ .nil)
  refine ⟨h.session, hm, ?_, ?_, h.pending, h.host, h.machine⟩
  case refine_1 =>
    simp only [AgentWorld.recordAgentMessage, MemoryStore.append, h.isOpen]
    split <;> simp [h.isOpen]
  case refine_2 =>
    simp only [AgentWorld.recordAgentMessage, MemoryStore.append, h.isOpen, hm.length_eq]
    split
    case isFalse => exact h.records
    case isTrue =>
      refine List.rel_append h.records (.cons ⟨rfl, rfl, rfl, ?_⟩ .nil)
      refine hx.imp (congrArg cstr) fun ⟨hr, hs⟩ => ⟨?_, x, y, hs, rfl, rfl⟩
      change cstr role.toText = str "tool"
      rw [hr]
      decide

theorem executeAgentTool_appLog {host : HostState} {appLog appLog' : List AppLogEntry}
    {toolName argumentsJson : Bytes} {w : W} (h : toolName ≠ str "self_status") :
    executeAgentTool os host appLog toolName argumentsJson w =
      executeAgentTool os host appLog' toolName argumentsJson w := by
  simp only [executeAgentTool, h, if_false]

theorem executeAgentTool_selfStatus {host : HostState} {appLog : List AppLogEntry}
    {argumentsJson : Bytes} {w : W} :
    executeAgentTool os host appLog (str "self_status") argumentsJson w =
      (⟨some (buildSelfStatusJson host appLog), [], w⟩, host) := by
  simp only [executeAgentTool, str_inj, String.reduceEq, if_true, if_false]

-- The app log reaches a result through `self_status` only.
theorem lockstep_executeTool {toolName argumentsJson : Bytes} :
    Lockstep reported os P Q (perform (.executeTool toolName argumentsJson))
      (perform (.executeTool toolName argumentsJson))
      (Option.Rel (ResultAlike reported toolName)) := by
  refine coupled_perform fun s t h hc => ?_
  simp only [agentHandler, AgentWorld.executeTool, h.host, h.machine, h.isOpen]
  by_cases hn : toolName = str "self_status"
  case pos =>
    subst hn
    simp only [executeAgentTool_selfStatus]
    exact ⟨.some (.inr ⟨rfl, hc _ rfl, _, _, _, rfl, rfl⟩),
      ⟨h.session, h.transcript, h.isOpen, h.records, h.pending, rfl, rfl⟩, rfl⟩
  case neg =>
    rw [@executeAgentTool_appLog _ os _ s.appLog t.appLog _ _ _ hn]
    refine ⟨?_, ⟨h.session, h.transcript, h.isOpen, h.records, h.pending, rfl, rfl⟩, rfl⟩
    cases (executeAgentTool os { t.host with memoryStoreOpen := t.agent.memoryStore.isOpen }
      t.appLog toolName argumentsJson t.machine).1.value
    case none   => exact .none
    case some x => exact .some (.refl toolName x)

end Steps

section Classification

variable {reported : Prop} {W : Type} {os : Os W} {P Q : Provider} {purpose : CallPurpose}

def kindOf (response : ProviderResponse) : TurnDecisionKind :=
  if ¬response.transportOk ∨ ¬response.httpSuccess then
    .transportFailed <|
      if response.errorMessage = [] then "provider request failed" else response.errorMessage
  else
    match response.toolCalls with
    | call :: _ => .llmTool call.name call.argumentsJson
    | []        => .plainReply <|
      if response.assistantMessage = [] then
        "(no reply text - the model returned an empty response, try rephrasing)"
      else response.assistantMessage

theorem silent_logOp {o : AgentOp} (h : LogOp o) :
    Silent (agentHandler os P) (agentHandler os Q) executed (WorldAlike reported) o := by
  cases o
  case log       => exact silent_log
  case elapsedMs => exact silent_elapsedMs
  all_goals exact h.elim

theorem decisionOf_value {h : Handler AgentRes (AgentWorld W)} {response : ProviderResponse}
    {s : AgentWorld W} :
    ((decisionOf response).run h s).value = ⟨kindOf response, response.thinkingText⟩ := by
  unfold decisionOf kindOf
  split
  case isTrue => rfl
  cases response.toolCalls
  case nil => rfl
  case cons =>
    dsimp only
    split_ifs <;> rfl

theorem judgeResponse_value {h : Handler AgentRes (AgentWorld W)} {response : ProviderResponse}
    {attemptsUsed : Nat} {s : AgentWorld W} :
    ((judgeResponse response attemptsUsed).run h s).value =
      ⟨kindOf response, response.thinkingText⟩ := by
  unfold judgeResponse
  simp only [run_bind]
  split_ifs
  case pos =>
    rw [run_bind]
    exact decisionOf_value
  case neg => exact decisionOf_value

-- The decisions of two runs. A second classification's text is not compared.
def DecisionAlike (purpose : CallPurpose) (d d' : TurnDecision) : Prop :=
  d.kind = d'.kind ∨
    purpose = .retry ∧ (∃ text, d.kind = .plainReply text) ∧ ∃ text, d'.kind = .plainReply text

theorem AnswerAlike.kindOf {r r' : ProviderResponse} (h : AnswerAlike purpose r r')
    (hp : purpose ≠ .phrase) :
    DecisionAlike purpose ⟨kindOf r, r.thinkingText⟩ ⟨kindOf r', r'.thinkingText⟩ := by
  unfold DecisionAlike Cli.kindOf
  simp only [h.transportOk, h.httpSuccess, h.errorMessage]
  split
  case isTrue => exact .inl rfl
  have hc := h.toolCall hp
  have ht := h.text
  cases hr : r.toolCalls <;> cases hr' : r'.toolCalls <;> simp only [hr, hr'] at hc ht ⊢
  case nil.cons => simp at hc
  case cons.nil => simp at hc
  case cons.cons =>
    simp only [List.head?_cons, Option.map_some, Option.some.injEq, Prod.mk.injEq] at hc
    simp only [hc.1, hc.2, true_or]
  case nil.nil =>
    cases purpose
    case phrase   => exact absurd rfl hp
    case classify => simp only [ht trivial, true_or]
    case retry    => exact .inr ⟨rfl, ⟨_, rfl⟩, _, rfl⟩

-- An answer that ends the attempts of a classification.
theorem AnswerAlike.settled {r r' : ProviderResponse} (h : AnswerAlike purpose r r')
    (hp : purpose ≠ .phrase) :
    (r.assistantMessage ≠ [] ∨ r.toolCalls ≠ []) ↔
      (r'.assistantMessage ≠ [] ∨ r'.toolCalls ≠ []) := by
  have hc := h.toolCalls_nil hp
  have ht := h.text
  by_cases hr : r.toolCalls = []
  case neg => simp [hr, hc.not.mp hr]
  case pos =>
    cases purpose
    case phrase   => exact absurd rfl hp
    case classify => simp [hr, hc.mp hr, ht hr]
    case retry    => simp [hr, hc.mp hr, ht hr]

theorem lockstep_judgeResponse {r r' : ProviderResponse} {n n' : Nat}
    (h : AnswerAlike purpose r r') (hp : purpose ≠ .phrase) :
    Lockstep reported os P Q (judgeResponse r n) (judgeResponse r' n') (DecisionAlike purpose) :=
  coupled_silent (judgeResponse_always.mono fun _ => silent_logOp)
    (judgeResponse_always.mono fun _ => silent_logOp)
    fun s t => by simpa only [judgeResponse_value] using h.kindOf hp

theorem lockstep_attemptClassify {messages messages' : List ChatMessage}
    {request request' : ProviderRequest} (h : ProviderAlike P Q) (hp : purpose ≠ .phrase)
    (left attempt : Nat) : Lockstep reported os P Q
      (attemptClassify purpose messages request left attempt)
      (attemptClassify purpose messages' request' left attempt)
      (Option.Rel fun a b => AnswerAlike purpose a.1 b.1) := by
  unfold attemptClassify
  refine coupled_bind (lockstep_post rfl rfl) fun o o' ho => ?_
  obtain ⟨rfl, rfl⟩ := ho
  have ha := h purpose attempt
  generalize (P purpose attempt).parse = r at ha ⊢
  generalize (Q purpose attempt).parse = r' at ha ⊢
  cases ha
  case none => exact coupled_ret .none
  case some ha =>
    dsimp only
    rw [ha.transportOk, ha.httpSuccess]
    simp only [ha.settled hp]
    split_ifs
    case pos => exact coupled_ret (.some ha)
    case pos => exact coupled_ret (.some ha)
    case neg =>
      cases left
      case zero => exact coupled_bind lockstep_log fun _ _ _ => coupled_ret (.some ha)
      case succ left =>
        exact coupled_bind lockstep_log fun _ _ _ => lockstep_attemptClassify h hp left (attempt + 1)

theorem buildOpenaiChatRequest_alike {config : OpenAICompatConfig}
    {messages messages' : List ChatMessage} {tools : List ToolDefinition}
    (h : messages = [] ↔ messages' = []) :
    (∃ e, buildOpenaiChatRequest config messages tools = .error e ∧
      buildOpenaiChatRequest config messages' tools = .error e) ∨
    ∃ q q', buildOpenaiChatRequest config messages tools = .ok q ∧
      buildOpenaiChatRequest config messages' tools = .ok q' := by
  unfold buildOpenaiChatRequest
  simp only [h]
  split_ifs <;> simp

theorem lockstep_classifyCopy {tools : List ToolDefinition} {provider : OpenAICompatConfig}
    {transcript transcript' : List ChatMessage} (h : ProviderAlike P Q) (hp : purpose ≠ .phrase)
    (ht : List.Forall₂ (MessageAlike reported) transcript transcript') :
    Lockstep reported os P Q (classifyCopy purpose tools provider transcript)
      (classifyCopy purpose tools provider transcript') (Option.Rel (DecisionAlike purpose)) := by
  have hn : transcript = [] ↔ transcript' = [] := by
    simp only [← List.length_eq_zero_iff, ht.length_eq]
  unfold classifyCopy
  obtain ⟨e, he, he'⟩ | ⟨q, q', hq, hq'⟩ :=
    (@buildOpenaiChatRequest_alike provider _ _ tools) hn
  · simp only [he, he']
    exact coupled_bind lockstep_log fun _ _ _ => coupled_ret (.some (.inl rfl))
  · simp only [hq, hq']
    refine coupled_bind (lockstep_attemptClassify h hp _ _) fun a b hab => ?_
    match a, b, hab with
    | _, _, .none => exact coupled_ret .none
    | some (r, n), some (r', n'), .some ha =>
      exact coupled_bind (lockstep_judgeResponse ha hp) fun _ _ hd => coupled_ret (.some hd)

theorem lockstep_classifyViaLlm {tools : List ToolDefinition} {provider : OpenAICompatConfig}
    (h : ProviderAlike P Q) (hp : purpose ≠ .phrase) :
    Lockstep reported os P Q (classifyViaLlm purpose tools provider)
      (classifyViaLlm purpose tools provider) (Option.Rel (DecisionAlike purpose)) :=
  coupled_bind lockstep_transcript fun _ _ ht => lockstep_classifyCopy h hp ht

end Classification

section Turn

variable {reported : Prop} {W : Type} {os : Os W} {P Q : Provider} {tools : List ToolDefinition}
  {provider : OpenAICompatConfig} {sessionId toolName argumentsJson thinkingText : Bytes}
  {thinkingText' x y : Bytes} {actions actions' : List PendingToolActionRecord}

theorem ResultAlike.genericResultSentence (h : ResultAlike reported toolName x y) :
    genericResultSentence x = genericResultSentence y := by
  obtain rfl | ⟨_, hs⟩ := h
  · rfl
  · simp only [Cli.genericResultSentence, hs.okField.1, hs.okField.2, if_true]

-- No template reads a report of `self_status`.
theorem ResultAlike.tryTemplateReply (h : ResultAlike reported toolName x y) :
    tryTemplateReply toolName argumentsJson x = tryTemplateReply toolName argumentsJson y := by
  obtain rfl | ⟨rfl, _⟩ := h
  · rfl
  · simp only [Classify.tryTemplateReply, str_inj, String.reduceEq, if_false, or_self]

theorem ResultAlike.eq_of_isRetriableTool (h : ResultAlike reported toolName x y)
    (hr : isRetriableTool toolName) : x = y := by
  obtain rfl | ⟨rfl, _⟩ := h
  · rfl
  · simp [isRetriableTool, str_inj] at hr

theorem ResultAlike.recorded (h : ResultAlike reported toolName x y) :
    ContentAlike reported .tool x y :=
  h.imp_right fun hs => ⟨rfl, hs.2⟩

theorem lockstep_phraseViaLlm (h : ProviderAlike P Q) (hr : ResultAlike reported toolName x y) :
    Lockstep reported os P Q (phraseViaLlm provider toolName x)
      (phraseViaLlm provider toolName y) Eq := by
  unfold phraseViaLlm
  obtain ⟨e, he, he'⟩ | ⟨q, q', hq, hq'⟩ := @buildOpenaiChatRequest_alike provider
    [phrasingMessage toolName x] [phrasingMessage toolName y] [] (by simp)
  · simp only [he, he']
    exact coupled_ret (congrArg some hr.genericResultSentence)
  · simp only [hq, hq']
    refine coupled_bind (lockstep_post rfl rfl) fun o o' ho => coupled_ret ?_
    obtain ⟨rfl, rfl⟩ := ho
    match (P .phrase 0).parse, (Q .phrase 0).parse, h .phrase 0 with
    | _, _, .none => rfl
    | some r, some r', .some ha =>
      simp only [Option.map_some, ha.transportOk, ha.httpSuccess, ha.text,
        hr.genericResultSentence]

theorem lockstep_phraseResult (h : ProviderAlike P Q) (hr : ResultAlike reported toolName x y) :
    Lockstep reported os P Q (phraseResult provider toolName argumentsJson x)
      (phraseResult provider toolName argumentsJson y) Eq := by
  unfold phraseResult
  rw [hr.tryTemplateReply]
  cases tryTemplateReply toolName argumentsJson y
  case none => exact coupled_ret rfl
  case some =>
    dsimp only
    split_ifs
    case pos => exact coupled_ret rfl
    case neg => exact lockstep_phraseViaLlm h hr

abbrev ReplyAlike (reported : Prop) : Option AgentResponse → Option AgentResponse → Prop :=
  Option.Rel (ResponseAlike reported)

theorem lockstep_reply (h : ProviderAlike P Q) (hr : ResultAlike reported toolName x y)
    (ha : ActionsAlike reported actions actions') :
    Lockstep reported os P Q (reply provider sessionId toolName argumentsJson x actions thinkingText)
      (reply provider sessionId toolName argumentsJson y actions' thinkingText')
      (ReplyAlike reported) := by
  refine coupled_bind (lockstep_phraseResult h hr) fun a _ he => ?_
  obtain rfl := he
  cases a
  case none => exact coupled_ret .none
  case some assistantText =>
    refine coupled_bind (lockstep_record (.inl rfl)) fun _ _ _ => ?_
    exact coupled_bind lockstep_log fun _ _ _ => coupled_ret (.some (.final ha))

inductive ExecutionAlike (reported : Prop) (toolName : Bytes) : Execution → Execution → Prop
  | executed {actions actions' : List PendingToolActionRecord} {x y : Bytes} :
      ActionsAlike reported actions actions' → ResultAlike reported toolName x y →
      ExecutionAlike reported toolName (.executed actions x) (.executed actions' y)
  | paused {response response' : AgentResponse} :
      ResponseAlike reported response response' →
      ExecutionAlike reported toolName (.paused response) (.paused response')

theorem lockstep_executeDecisionOrPause (ha : ActionsAlike reported actions actions') :
    Lockstep reported os P Q
      (executeDecisionOrPause sessionId toolName argumentsJson actions thinkingText)
      (executeDecisionOrPause sessionId toolName argumentsJson actions' thinkingText')
      (Option.Rel (ExecutionAlike reported toolName)) := by
  unfold executeDecisionOrPause
  dsimp only
  split_ifs
  case pos =>
    refine coupled_bind lockstep_precheck fun checked _ he => ?_
    obtain rfl := he
    cases checked
    case error failureJson =>
      refine coupled_bind lockstep_log fun _ _ _ => ?_
      refine coupled_bind (lockstep_record (.inl rfl)) fun _ _ _ => ?_
      exact coupled_ret (.some (.executed (ha.snoc (.refl _ _)) (.refl _ _)))
    case ok argumentsJson =>
      refine coupled_bind (lockstep_pause ⟨rfl, rfl, ha⟩) fun _ _ hv => ?_
      exact coupled_ret (.some (.paused (.pending hv)))
  case neg =>
    refine coupled_bind lockstep_executeTool fun a b hab => ?_
    match a, b, hab with
    | _, _, .none => exact coupled_ret .none
    | some x, some y, .some hr =>
      refine coupled_bind lockstep_log fun _ _ _ => ?_
      refine coupled_bind (lockstep_record hr.recorded) fun _ _ _ => ?_
      exact coupled_ret (.some (.executed (ha.snoc hr) hr))

theorem lockstep_followRetry (h : ProviderAlike P Q) (hr : ResultAlike reported toolName x y)
    (ha : ActionsAlike reported actions actions') {d d' : Option TurnDecision}
    (hd : Option.Rel (DecisionAlike .retry) d d') :
    Lockstep reported os P Q
      (followRetry provider sessionId toolName argumentsJson x actions thinkingText d)
      (followRetry provider sessionId toolName argumentsJson y actions' thinkingText' d')
      (ReplyAlike reported) := by
  match d, d', hd with
  | _, _, .none => exact coupled_ret .none
  | some ⟨kind, thinking⟩, some ⟨kind', thinking'⟩, .some hd =>
    obtain hk | ⟨-, ⟨text, hk⟩, text', hk'⟩ := hd
    case inl =>
      obtain rfl : kind = kind' := hk
      cases kind
      case llmTool retryName retryArguments =>
        refine coupled_bind (lockstep_executeDecisionOrPause ha) fun a b hab => ?_
        match a, b, hab with
        | _, _, .none                         => exact coupled_ret .none
        | _, _, .some (.paused hp)            => exact coupled_ret (.some hp)
        | _, _, .some (.executed ha hr)       => exact lockstep_reply h hr ha
      case plainReply      => exact lockstep_reply h hr ha
      case transportFailed => exact lockstep_reply h hr ha
    case inr =>
      obtain rfl : kind = .plainReply text := hk
      obtain rfl : kind' = .plainReply text' := hk'
      exact lockstep_reply h hr ha

theorem lockstep_finishTurnAfterExecution {allowRetry : Bool} (h : ProviderAlike P Q)
    (hr : ResultAlike reported toolName x y) (ha : ActionsAlike reported actions actions') :
    Lockstep reported os P Q
      (finishTurnAfterExecution tools provider sessionId toolName argumentsJson x actions
        allowRetry thinkingText)
      (finishTurnAfterExecution tools provider sessionId toolName argumentsJson y actions'
        allowRetry thinkingText') (ReplyAlike reported) := by
  unfold finishTurnAfterExecution
  rw [hr.okField]
  split_ifs with hc
  case neg => exact lockstep_reply h hr ha
  case pos =>
    obtain rfl := hr.eq_of_isRetriableTool hc.2.2
    refine coupled_bind (lockstep_record (.inl rfl)) fun _ _ _ => ?_
    refine coupled_bind (lockstep_classifyViaLlm h (by decide)) fun _ _ hd => ?_
    exact lockstep_followRetry h hr ha hd

theorem lockstep_followDecision (h : ProviderAlike P Q) {d d' : Option TurnDecision}
    (hd : Option.Rel (DecisionAlike .classify) d d') :
    Lockstep reported os P Q (followDecision tools provider sessionId d)
      (followDecision tools provider sessionId d') (ReplyAlike reported) := by
  match d, d', hd with
  | _, _, .none => exact coupled_ret .none
  | some ⟨kind, thinking⟩, some ⟨kind', thinking'⟩, .some hd =>
    obtain hk | ⟨hp, -⟩ := hd
    case inr => exact absurd hp (by decide)
    obtain rfl : kind = kind' := hk
    cases kind
    case transportFailed => exact coupled_ret (.some .failure)
    case plainReply text =>
      refine coupled_bind (lockstep_record (.inl rfl)) fun _ _ _ => ?_
      exact coupled_bind lockstep_log fun _ _ _ => coupled_ret (.some (.final .nil))
    case llmTool toolName argumentsJson =>
      refine coupled_bind (lockstep_executeDecisionOrPause .nil) fun a b hab => ?_
      match a, b, hab with
      | _, _, .none                   => exact coupled_ret .none
      | _, _, .some (.paused hp)      => exact coupled_ret (.some hp)
      | _, _, .some (.executed ha hr) => exact lockstep_finishTurnAfterExecution h hr ha

theorem lockstep_abandonPendingCall :
    Lockstep reported os P Q (abandonPendingCall sessionId) (abandonPendingCall sessionId)
      fun _ _ => True := by
  refine coupled_bind lockstep_abandonPending fun a _ he => ?_
  obtain rfl := he
  split_ifs
  case neg => exact coupled_ret trivial
  case pos => exact coupled_bind (lockstep_record (.inl rfl)) fun _ _ _ => lockstep_log

theorem lockstep_seedSystemPrompt :
    Lockstep reported os P Q (seedSystemPrompt sessionId) (seedSystemPrompt sessionId)
      fun _ _ => True := by
  refine coupled_bind lockstep_seedPrompt fun a _ he => ?_
  obtain rfl := he
  cases a
  case none => exact coupled_ret trivial
  case some => exact lockstep_record (.inl rfl)

theorem lockstep_turnIn {userMessage : Bytes} (h : ProviderAlike P Q) :
    Lockstep reported os P Q (turnIn tools userMessage sessionId)
      (turnIn tools userMessage sessionId) (ReplyAlike reported) := by
  unfold turnIn
  split_ifs
  case pos => exact coupled_ret (.some .failure)
  refine coupled_bind lockstep_abandonPendingCall fun _ _ _ => ?_
  refine coupled_bind lockstep_log fun _ _ _ => ?_
  refine coupled_bind lockstep_aiEnabled fun aiEnabled _ he => ?_
  obtain rfl := he
  cases aiEnabled
  case false => exact coupled_bind lockstep_log fun _ _ _ => coupled_ret (.some .failure)
  case true  =>
    refine coupled_bind lockstep_seedSystemPrompt fun _ _ _ => ?_
    refine coupled_bind (lockstep_record (.inl rfl)) fun _ _ _ => ?_
    refine coupled_bind lockstep_makeModelProvider fun provider _ he => ?_
    obtain rfl := he
    exact coupled_bind (lockstep_classifyViaLlm h (by decide)) fun _ _ hd =>
      lockstep_followDecision h hd

theorem lockstep_recordDecision {pending : PendingAgentToolCall} {approved : Bool}
    {result result' : Option Bytes} (h : ProviderAlike P Q)
    (hr : Option.Rel (ResultAlike reported pending.decidedCall.name) result result') :
    Lockstep reported os P Q (recordDecision tools pending approved result)
      (recordDecision tools pending approved result') (ReplyAlike reported) := by
  match result, result', hr with
  | _, _, .none => exact coupled_ret .none
  | some x, some y, .some hr =>
    refine coupled_bind lockstep_log fun _ _ _ => ?_
    refine coupled_bind (lockstep_record hr.recorded) fun _ _ _ => ?_
    refine coupled_bind lockstep_makeModelProvider fun provider _ he => ?_
    obtain rfl := he
    exact lockstep_finishTurnAfterExecution h hr ((ActionsAlike.refl _).snoc hr)

theorem lockstep_resolvePending {pending : PendingAgentToolCall} {approved : Bool} {reason : Bytes}
    (h : ProviderAlike P Q) :
    Lockstep reported os P Q (resolvePending tools pending approved reason)
      (resolvePending tools pending approved reason) (ReplyAlike reported) := by
  cases approved
  case false => exact lockstep_recordDecision h (.some (.refl _ _))
  case true  =>
    exact coupled_bind lockstep_executeTool fun _ _ hr => lockstep_recordDecision h hr

end Turn

section Requests

variable {reported : Prop} {W : Type} {os : Os W} {P Q : Provider} {tools : List ToolDefinition}

-- The tools that a request has executed, with their arguments.
abbrev executions (trace : List (Event AgentRes)) : List (Bytes × Bytes) :=
  trace.filterMap executed

-- The outcomes of one request in two runs.
structure OutcomeAlike (reported : Prop)
    (a b : Prog.Outcome AgentRes (Option AgentResponse) (AgentWorld W)) : Prop where
  response : ReplyAlike reported a.value b.value
  state : WorldAlike reported a.state b.state
  executions : executions a.trace = executions b.trace

theorem OutcomeAlike.of_lockstep {p q : AgentM (Option AgentResponse)} {s : AgentWorld W}
    {e : Event AgentRes} (h : Lockstep reported os P Q p q (ReplyAlike reported))
    (hc : ∀ e ∈ (p.run (agentHandler os P) s).trace, Reports reported e) :
    OutcomeAlike reported
      { p.run (agentHandler os P) s with trace := e :: (p.run (agentHandler os P) s).trace }
      { q.run (agentHandler os Q) s with trace := e :: (q.run (agentHandler os Q) s).trace } where
  response := (h s s (.refl s) hc).1
  state := (h s s (.refl s) hc).2.1
  executions := by simp only [Cli.executions, List.filterMap_cons, (h s s (.refl s) hc).2.2]

-- The first step of a request does not ask the provider, so the runs part behind it.
theorem handle_alike {request : AgentRequest} {s : AgentWorld W} (h : ProviderAlike P Q)
    (hc : ∀ e ∈ (request.handle os tools P s).trace, Reports reported e) :
    OutcomeAlike reported (request.handle os tools P s) (request.handle os tools Q s) := by
  cases request
  case turn body =>
    rw [handle_turn] at hc ⊢
    exact .of_lockstep (lockstep_turnIn h) fun e he => hc e (.tail _ he)
  case toolDecision body =>
    cases ha : s.acceptedPending (AgentRequest.sessionField body)
    case none =>
      rw [handle_rejected ha, handle_rejected ha]
      exact ⟨.some .failure, .refl s, rfl⟩
    case some pending =>
      rw [handle_decision ha] at hc ⊢
      rw [handle_decision ha]
      exact .of_lockstep (lockstep_resolvePending h) fun e he => hc e (.tail _ he)
  case deleteSession body => exact ⟨.some .deleted, .refl _, rfl⟩

theorem reports_of_mem {t : List (Event AgentRes)} {e : Event AgentRes} (he : e ∈ t) :
    Reports (∃ argumentsJson, (str "self_status", argumentsJson) ∈ executions t) e := by
  intro argumentsJson ho
  refine ⟨argumentsJson, List.mem_filterMap.mpr ⟨e, he, ?_⟩⟩
  obtain ⟨o, r⟩ := e
  subst ho
  rfl

-- What a model says beside its tool calls leaves no trace but in a report of `self_status`.
theorem handle_proseInert (h : ProviderAlike P Q) (request : AgentRequest) (s : AgentWorld W) :
    OutcomeAlike
      (∃ argumentsJson,
        (str "self_status", argumentsJson) ∈ executions (request.handle os tools P s).trace)
      (request.handle os tools P s) (request.handle os tools Q s) :=
  handle_alike h fun _ he => reports_of_mem he

section Musing

-- A model that looks at the host's status first. Before that it may reason.
def musing (reasoning : Bytes) : Provider
  | .classify, _ => chatCompletion [
      jsonStringField "content" [],
      jsonStringField "reasoning" reasoning,
      needle "tool_calls" ++ jsonArray [jsonObject [
        needle "function" ++ jsonObject [jsonStringField "name" "self_status"]
      ]]
    ]
  | _, _ => chatCompletion [jsonStringField "content" "Fine."]

def statusRequest : AgentRequest :=
  .turn (jsonObject [jsonStringField "message" "Are you well?"])

-- The last failure is about to leave the twenty entries that `self_status` looks at.
def failedWorld : AgentWorld Unit :=
  { AgentWorld.fresh with
    appLog := ⟨"chat", "out", [], false⟩ :: List.replicate 17 ⟨"chat", "out", [], true⟩ }

def musingResponse (reasoning : Bytes) : ProviderResponse where
  transportOk := true
  httpSuccess := true
  assistantMessage := []
  thinkingText := reasoning
  toolCalls := [⟨[], "self_status", []⟩]
  errorMessage := []
  promptTokens := 0
  completionTokens := 0
  doneReason := []

theorem musing_alike : ProviderAlike (musing "Let me check.") (musing []) := by
  have hc : (musing "Let me check." .classify 0).parse = some (musingResponse "Let me check.") := by
    decide +kernel
  have hc' : (musing [] .classify 0).parse = some (musingResponse []) := by decide +kernel
  have hp : ((musing [] .phrase 0).parse).isSome := by decide +kernel
  have ⟨r, hr⟩ := Option.isSome_iff_exists.mp hp
  intro purpose attempt
  cases purpose
  case classify =>
    change Option.Rel _ (musing "Let me check." .classify 0).parse (musing [] .classify 0).parse
    rw [hc, hc']
    exact .some ⟨rfl, rfl, rfl, fun _ => rfl, fun h => absurd h (by decide)⟩
  case retry =>
    change Option.Rel _ (musing [] .phrase 0).parse (musing [] .phrase 0).parse
    rw [hr]
    exact .some ⟨rfl, rfl, rfl, fun _ => rfl, fun _ => .rfl⟩
  case phrase =>
    change Option.Rel _ (musing [] .phrase 0).parse (musing [] .phrase 0).parse
    rw [hr]
    exact .some ⟨rfl, rfl, rfl, fun _ => rfl, rfl⟩

theorem handle_proseInert_musing :
    OutcomeAlike
      (∃ argumentsJson, (str "self_status", argumentsJson) ∈
        executions (statusRequest.handle Os.idle [] (musing "Let me check.") failedWorld).trace)
      (statusRequest.handle Os.idle [] (musing "Let me check.") failedWorld)
      (statusRequest.handle Os.idle [] (musing []) failedWorld) :=
  handle_proseInert musing_alike statusRequest failedWorld

-- The reasoning is one more entry of the log, and `self_status` loses sight of the failure.
theorem not_sameTranscript :
    ¬∀ (P Q : Provider) (request : AgentRequest) (s : AgentWorld Unit), ProviderAlike P Q →
      (request.handle Os.idle [] P s).state.agent.agentTranscript =
        (request.handle Os.idle [] Q s).state.agent.agentTranscript := by
  intro h
  have h := h _ _ statusRequest failedWorld musing_alike
  exact absurd h (by decide +kernel)

end Musing
end Requests

end Droidcli.Cli
