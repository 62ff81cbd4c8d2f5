import Droidcli.Ai.Theorems.Members
import Droidcli.Cli.Theorems.Freshness
import Droidcli.Cli.Theorems.Seam
import Droidcli.Cli.TuiSession

namespace Droidcli.Cli

open Bytes Net Json Ai Classify Interaction Prog

section Programs

variable {P : Event AgentRes → Prop} {provider : OpenAICompatConfig} {tools : List ToolDefinition}
  {sessionId toolName argumentsJson resultJson thinkingText : Bytes} {userMessage reason : Bytes}
  {actions : List PendingToolActionRecord} {pending : PendingAgentToolCall} {o : AgentOp}

-- A request's answer names no other session than this one.
def AgentResponse.Names (sessionId : Bytes) : Option AgentResponse → Prop
  | some (.failure _ named)   => ∀ s ∈ named, s = sessionId
  | some (.final _ _ named _) => named = sessionId
  | some (.pending _ named _) => named = sessionId
  | some (.deleted _)         => False
  | none                      => True

-- The answer belongs to this session and, if it is given at all, says so.
def AgentResponse.Places (sessionId : Bytes) : Option AgentResponse → Prop
  | some (.failure _ named)   => named = some sessionId
  | some (.final _ _ named _) => named = sessionId
  | some (.pending _ named _) => named = sessionId
  | some (.deleted _)         => False
  | none                      => True

open AgentResponse (Names Places)

theorem AgentResponse.Places.names {answer : Option AgentResponse}
    (h : Places sessionId answer) : Names sessionId answer := by
  cases answer
  case none => trivial
  case some response =>
    cases response
    case failure => exact fun _ hn => Option.some.inj <| hn.symm.trans h
    case final   => exact h
    case pending => exact h
    case deleted => exact h

theorem reply_places :
    (reply provider sessionId toolName argumentsJson resultJson actions thinkingText).Returns P
      (Places sessionId) := by
  refine returns_bind_of_forall fun result => ?_
  cases result
  case none => trivial
  case some => exact returns_bind_of_forall fun _ => returns_bind_of_forall fun _ => rfl

theorem executeDecisionOrPause_places :
    (executeDecisionOrPause sessionId toolName argumentsJson actions thinkingText).Returns P
      fun execution => ∀ response ∈ execution, match response with
        | .paused response => Places sessionId (some response)
        | .executed _ _    => True := by
  unfold executeDecisionOrPause
  dsimp only
  split_ifs
  case pos =>
    refine returns_bind_of_forall fun checked => ?_
    cases checked
    case error =>
      exact returns_bind_of_forall fun _ => returns_bind_of_forall fun _ => by simp
    case ok => exact returns_bind_of_forall fun _ => by simp [Places]
  case neg =>
    refine returns_bind_of_forall fun result => ?_
    cases result
    case none => simp
    case some => exact returns_bind_of_forall fun _ => returns_bind_of_forall fun _ => by simp

theorem followRetry_places {decision : Option TurnDecision} :
    (followRetry provider sessionId toolName argumentsJson resultJson actions thinkingText
      decision).Returns P (Places sessionId) := by
  unfold followRetry
  split
  case h_1 => trivial
  case h_3 => exact reply_places
  case h_2 =>
    refine returns_bind executeDecisionOrPause_places fun execution he => ?_
    split
    case h_1 => trivial
    case h_2 response => exact he _ rfl
    case h_3 => exact reply_places

theorem finishTurnAfterExecution_places {allowRetry : Bool} :
    (finishTurnAfterExecution tools provider sessionId toolName argumentsJson resultJson actions
      allowRetry thinkingText).Returns P (Places sessionId) := by
  unfold finishTurnAfterExecution
  split_ifs
  case pos => exact returns_bind_of_forall fun _ => returns_bind_of_forall fun _ => followRetry_places
  case neg => exact reply_places

theorem followDecision_places {decision : Option TurnDecision} :
    (followDecision tools provider sessionId decision).Returns P (Places sessionId) := by
  unfold followDecision
  split
  case h_1 => trivial
  case h_2 => simp [Places]
  case h_3 => exact returns_bind_of_forall fun _ => returns_bind_of_forall fun _ => rfl
  case h_4 =>
    refine returns_bind executeDecisionOrPause_places fun execution he => ?_
    split
    case h_1 => trivial
    case h_2 response => exact he _ rfl
    case h_3 => exact finishTurnAfterExecution_places

theorem decideTurn_places :
    (decideTurn tools provider sessionId).Returns P (Places sessionId) :=
  returns_bind_of_forall fun _ => followDecision_places

theorem turnIn_names :
    (turnIn tools userMessage sessionId).Returns P (Names sessionId) := by
  unfold turnIn
  split
  case isTrue => simp [Names]
  refine returns_bind_of_forall fun _ => returns_bind_of_forall fun _ => ?_
  refine returns_bind_of_forall fun aiEnabled => ?_
  split_ifs
  case neg => exact returns_bind_of_forall fun _ => by simp [Names]
  refine returns_bind_of_forall fun _ => returns_bind_of_forall fun _ => ?_
  exact returns_bind_of_forall fun _ => decideTurn_places.mono fun _ h => h.names

theorem recordDecision_names {approved : Bool} {result : Option Bytes} :
    (recordDecision tools pending approved result).Returns P (Names pending.sessionId) := by
  unfold recordDecision
  cases result
  case none => trivial
  refine returns_bind_of_forall fun _ => returns_bind_of_forall fun _ => ?_
  exact returns_bind_of_forall fun _ => finishTurnAfterExecution_places.mono fun _ h => h.names

theorem resolvePending_names {approved : Bool} :
    (resolvePending tools pending approved reason).Returns P (Names pending.sessionId) := by
  cases approved
  case false => exact resolvePending_declined ▸ recordDecision_names
  case true  => exact resolvePending_approved ▸ returns_bind_of_forall fun _ => recordDecision_names

-- The pending call that a request gets is one of the session that it asks for.
def Granted : Event AgentRes → Prop
  | ⟨.takePending requested, some pending⟩ => requested = [] ∨ requested = pending.sessionId
  | _                                      => True

theorem agentToolDecision_names {body : Bytes}
    (hs : AgentRequest.sessionField body = sessionId) (hne : sessionId ≠ []) :
    (agentToolDecision tools body).Returns Granted (Names sessionId) := by
  intro result hg
  cases result
  case none => exact nofun
  case some pending =>
    have hp : pending.sessionId = sessionId := by
      rw [← hs] at hne ⊢
      exact (hg.resolve_left hne).symm
    rw [← hp]
    exact resolvePending_names

-- The operation leaves the host in its session.
def KeepsSession : AgentOp → Prop
  | .openSession _ _ | .deleteSession _ => False
  | _                                   => True

theorem TurnOp.keeps (h : TurnOp sessionId o) : KeepsSession o := by
  cases o <;> simp_all [TurnOp, TailOp, KeepsSession]

theorem turnIn_keeps : (turnIn tools userMessage sessionId).Always (KeepsSession ·.op) :=
  turnIn_always.mono fun _ h => h.keeps

theorem agentToolDecision_keeps {body : Bytes} :
    (agentToolDecision tools body).Always (KeepsSession ·.op) := by
  have hr {pending : PendingAgentToolCall} {approved : Bool} {result : Option Bytes} :
      (recordDecision tools pending approved result).Always (KeepsSession ·.op) :=
    recordDecision_tail.mono fun _ h => h.turn.keeps
  refine fun result => ⟨trivial, ?_⟩
  cases result
  case none => trivial
  case some pending =>
    change (resolvePending tools pending _ _).Always _
    cases (extractJsonBoolField body "approved").getD false
    case false => exact resolvePending_declined ▸ hr
    case true  => exact fun _ => ⟨trivial, hr⟩

end Programs

section Handler

variable {W : Type} {os : Os W} {provider : Provider} {s : AgentWorld W} {o : AgentOp}
  {requested : Bytes} {clear : Bool}

theorem granted_step : Granted ⟨o, (agentHandler os provider o s).1⟩ := by
  cases o
  case takePending requested =>
    simp only [agentHandler]
    split
    case h_1 => trivial
    case h_2 pending ha =>
      have hr := (Option.filter_eq_some_iff.mp ha).right
      change requested = [] ∨ requested = pending.sessionId
      exact of_decide_eq_true hr
  all_goals trivial

theorem keepsSession_step (h : KeepsSession o) :
    (agentHandler os provider o s).2.agent.currentSessionId = s.agent.currentSessionId := by
  refine current_step.resolve_right fun ho => ?_
  cases o
  case openSession   => exact h
  case deleteSession => exact h
  all_goals contradiction

theorem generateSessionId_ne_nil : s.generateSessionId os ≠ [] := by
  have hd : str "-" ≠ [] := by decide
  simp [AgentWorld.generateSessionId, hd]

theorem openSession_clear :
    (agentHandler os provider (.openSession true requested) s).1 ≠ [] :=
  generateSessionId_ne_nil

theorem openSession_own :
    (agentHandler os provider (.openSession false []) s).1 = s.agent.currentSessionId := by
  simp [agentHandler, AgentWorld.openSession]

theorem openSession_current :
    (agentHandler os provider (.openSession clear requested) s).2.agent.currentSessionId =
      (agentHandler os provider (.openSession clear requested) s).1 :=
  rfl

end Handler

namespace Tui

section Json

variable {before : List (Bytes × Field)} {key k json message sessionId reason : Bytes} {field : Field}
  {behind : List Bytes} {startNewSession approved : Bool} {response : AgentResponse}
  {deleted : DeletedSession}

-- A request names its session unless that is empty.
def sessionMember (sessionId : Bytes) : List (Bytes × Field) :=
  if sessionId = [] then [] else [("session_id", .string sessionId)]

theorem sessionMember_read (hb : ∀ f ∈ before, Word f.1 ∧ str "session_id" ≠ f.1) :
    AgentRequest.sessionField (flatObject (before ++ sessionMember sessionId)) = sessionId := by
  rw [sessionMember]
  split_ifs with hs
  case pos =>
    rw [List.append_nil, hs]
    exact stringField_absent (flatObject_absent (by decide) hb)
  case neg => exact @flatObject_read _ _ (.string sessionId) (by decide) hb trivial

theorem messageMember_other (hne : key ≠ str "message") :
    ∀ f ∈ [(str "message", Field.string message)], Word f.1 ∧ key ≠ f.1 := by
  simp only [List.forall_mem_singleton]
  exact ⟨by decide, hne⟩

theorem turnBody_new : turnBody message true sessionId =
    flatObject [("message", .string message), ("clear", .bool true)] :=
  rfl

theorem turnBody_old : turnBody message false sessionId =
    flatObject ([(str "message", .string message)] ++ sessionMember sessionId) := by
  rw [turnBody, sessionMember]
  split_ifs <;> first | contradiction | rfl

theorem turnBody_clear : (extractJsonBoolField (turnBody message startNewSession sessionId)
    "clear").getD false = startNewSession := by
  have hb := @messageMember_other (str "clear") message (by decide)
  cases startNewSession
  case true =>
    have hr := @flatObject_read _ _ (.bool true) (by decide) hb trivial
    exact congrArg (Option.getD · false) hr
  case false =>
    have hs : ∀ f ∈ sessionMember sessionId, Word f.1 ∧ str "clear" ≠ f.1 := by
      rw [sessionMember]
      split_ifs
      case pos => simp
      case neg => simp only [List.forall_mem_singleton]; decide
    rw [turnBody_old, boolField_absent]
    · rfl
    · exact flatObject_absent (by decide) (List.forall_mem_append.mpr ⟨hb, hs⟩)

theorem turnBody_sessionId : AgentRequest.sessionField (turnBody message startNewSession sessionId) =
    if startNewSession then [] else sessionId := by
  have hb := @messageMember_other (str "session_id") message (by decide)
  cases startNewSession
  case true =>
    rw [turnBody_new]
    refine stringField_absent (flatObject_absent (by decide) ?_)
    refine List.forall_mem_cons.mpr ⟨hb _ (by simp), ?_⟩
    simp only [List.forall_mem_singleton]
    decide
  case false =>
    rw [turnBody_old, if_neg (by decide)]
    exact sessionMember_read hb

theorem decisionBody_sessionId :
    AgentRequest.sessionField (decisionBody approved reason sessionId) = sessionId := by
  have hd : decisionBody approved reason sessionId = flatObject
      ((str "approved", Field.bool approved) ::
        (if reason = [] then [] else [(str "reason", .string reason)]) ++ sessionMember sessionId) := by
    rw [decisionBody, sessionMember]
    split_ifs <;> rfl
  rw [hd]
  apply sessionMember_read
  refine List.forall_mem_cons.mpr ⟨by dsimp only; decide, ?_⟩
  split_ifs
  case pos => simp
  case neg => simp only [List.forall_mem_singleton]; decide

theorem eraseBody_sessionId : AgentRequest.sessionField (eraseBody sessionId) = sessionId :=
  extractJsonStringField_first

theorem parse_sessionId : (parseAgentTurnResponse json).sessionId =
    extractJsonStringField json "session_id" := by
  unfold parseAgentTurnResponse
  dsimp only
  split
  case isTrue  => rfl
  case isFalse => split <;> rfl

theorem failureMembers_other (hok : key ≠ str "ok") (herror : key ≠ str "error") (error : Bytes) :
    ∀ f ∈ [(str "ok", Field.bool false), (str "error", .string error)], Word f.1 ∧ key ≠ f.1 := by
  refine List.forall_mem_cons.mpr ⟨⟨by decide, hok⟩, ?_⟩
  simp only [List.forall_mem_singleton]
  exact ⟨by decide, herror⟩

theorem pendingMembers_other (thinking : Bytes) :
    ∀ f ∈ (str "ok", Field.bool true) :: thinkingMember thinking,
      Word f.1 ∧ str "session_id" ≠ f.1 := by
  refine List.forall_mem_cons.mpr ⟨by dsimp only; decide, ?_⟩
  rw [thinkingMember]
  split_ifs
  case pos => simp
  case neg => simp only [List.forall_mem_singleton]; decide

theorem parsed_sessionId (h : AgentResponse.Names sessionId (some response)) :
    (parseAgentTurnResponse response.json).sessionId = [] ∨
      (parseAgentTurnResponse response.json).sessionId = sessionId := by
  rw [parse_sessionId]
  cases response
  case deleted => exact h.elim
  case final thinking assistant named actions =>
    exact .inr (final_assistant.sessionId.trans h)
  case failure error named =>
    have hb := @failureMembers_other (str "session_id") (by decide) (by decide) error
    cases named
    case none => exact .inl (stringField_absent (flatObject_absent (by decide) hb))
    case some named =>
      have hr := @flatObject_read _ _ (.string named) (by decide) hb trivial
      exact .inr (hr.trans (h _ rfl))
  case pending thinking named view =>
    have hr := @jsonObject_readFrom _ _ (.string named) [needle "pending_tool_call" ++ jsonObject [
        jsonStringField "tool" view.tool,
        jsonStringField "arguments_json" view.argumentsJson,
        jsonBoolField "looks_destructive" view.looksDestructive
      ], actionsField view.actions] (by decide) (pendingMembers_other thinking) trivial
    refine .inr (Eq.trans ?_ (hr.trans h))
    rw [AgentResponse.json, thinkingField, thinkingMember]
    split_ifs <;> rfl

theorem deleted_ok :
    extractJsonBoolField (AgentResponse.deleted deleted).json "ok" = some deleted.ok := by
  exact @jsonObject_readFrom [] "ok" (.bool deleted.ok) _ (by decide) nofun trivial

theorem deleted_newSessionId :
    extractJsonStringField (AgentResponse.deleted deleted).json "new_session_id" =
      deleted.newSessionId.getD [] := by
  have hb : ∀ f ∈ [(str "ok", Field.bool deleted.ok), (str "session_id", .string deleted.sessionId)],
      Word f.1 ∧ str "new_session_id" ≠ f.1 := by
    refine List.forall_mem_cons.mpr ⟨by dsimp only; decide, ?_⟩
    simp only [List.forall_mem_singleton]
    decide
  rw [AgentResponse.json]
  cases deleted.newSessionId
  case none      => exact stringField_absent (flatObject_absent (by decide) hb)
  case some made => exact @flatObject_read _ _ (.string made) (by decide) hb trivial

end Json
end Tui
end Droidcli.Cli
