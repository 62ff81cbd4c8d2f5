import Droidcli.Cli.Theorems.AgentTurn

namespace Droidcli.Cli

open Bytes Net Ai Classify Interaction Prog

def AgentOp.isPost : AgentOp → Bool
  | .post _ => true
  | _       => false

def AgentOp.isExecution : AgentOp → Bool
  | .executeTool _ _ => true
  | _                => false

def AgentOp.isGatedExecution : AgentOp → Bool
  | .executeTool name _ => toolCallRequiresApproval name
  | _                   => false

-- What the operations are weighed at: a call to the provider, the execution of a tool that requires
-- no approval or of one that does, and every other operation.
structure Price where
  post : Nat
  free : Nat
  gated : Nat
  step : Nat

namespace Price

variable (price : Price)

def weigh (e : Event AgentRes) : Nat :=
  match e.op with
  | .post _             => price.post
  | .executeTool name _ => if toolCallRequiresApproval name then price.gated else price.free
  | _                   => price.step

section Programs

variable {price} {α : Type} {o : AgentOp} {provider : OpenAICompatConfig}
  {tools : List ToolDefinition} {purpose : CallPurpose} {p : AgentM α}
  {sessionId toolName argumentsJson resultJson thinkingText userMessage body reason : Bytes}
  {actions : List PendingToolActionRecord} {pending : PendingAgentToolCall} {m n : Nat}

theorem within_perform (h : ∀ r, price.weigh ⟨o, r⟩ ≤ n) :
    (perform o).Within price.weigh n :=
  fun r => ⟨0, h r, trivial⟩

-- Any operation but a call to the provider and an execution.
theorem within_step (h : ∀ r, price.weigh ⟨o, r⟩ = price.step) :
    (perform o).Within price.weigh price.step :=
  within_perform fun r => Nat.le_of_eq (h r)

theorem within_logChat {direction summary : Bytes} {success : Bool} :
    (logChat direction summary success).Within price.weigh price.step :=
  within_step fun _ => rfl

theorem within_ret {a : α} : (ret a : AgentM α).Within price.weigh n :=
  trivial

theorem attemptClassify_within {messages : List ChatMessage} {request : ProviderRequest}
    {left attempt : Nat} : (attemptClassify purpose messages request left attempt).Within
      price.weigh ((left + 1) * (price.post + price.step)) := by
  have hn (k : Nat) : (k + 1) * (price.post + price.step) =
      price.post + (price.step + k * (price.post + price.step)) := by
    rw [Nat.succ_mul]
    omega
  induction left generalizing attempt <;> unfold attemptClassify
  all_goals
    rw [hn]
    refine within_bind (within_perform fun _ => Nat.le_refl price.post) fun outcome => ?_
    cases outcome.parse
    case none => exact within_ret
    dsimp only
    split_ifs
    case pos => exact within_ret
    case pos => exact within_ret
    refine within_bind within_logChat fun _ => ?_
    first | exact within_ret | apply_assumption

theorem decisionOf_within {response : ProviderResponse} :
    (decisionOf response).Within price.weigh price.step := by
  unfold decisionOf
  split
  case isTrue => exact within_ret
  cases response.toolCalls
  case nil => exact within_ret
  case cons =>
    dsimp only
    split_ifs
    case pos => exact within_bind (n := 0) within_logChat fun _ => within_ret
    case neg => exact within_ret

theorem judgeResponse_within {response : ProviderResponse} {attemptsUsed : Nat} :
    (judgeResponse response attemptsUsed).Within price.weigh (4 * price.step) := by
  have hn : 4 * price.step = price.step + (price.step + (price.step + price.step)) := by omega
  rw [hn]
  unfold judgeResponse
  refine within_bind (within_step fun _ => rfl) fun wallClockMs => ?_
  refine within_bind (within_step fun _ => rfl) fun _ => ?_
  split_ifs
  case pos => exact within_bind (within_step fun _ => rfl) fun _ => decisionOf_within
  case neg => exact decisionOf_within.mono (by omega)

theorem classifyViaLlm_within :
    (classifyViaLlm purpose tools provider).Within price.weigh (3 * price.post + 8 * price.step) := by
  have hn : 3 * price.post + 8 * price.step =
      price.step + ((kMaxEmptyRetries + 1) * (price.post + price.step) + 4 * price.step) := by
    simp only [kMaxEmptyRetries]
    omega
  rw [hn]
  refine within_bind (within_step fun _ => rfl) fun transcriptCopy => ?_
  unfold classifyCopy
  cases buildOpenaiChatRequest provider transcriptCopy tools
  case error =>
    refine Within.mono (m := price.step + 0) ?_ (within_bind within_logChat fun _ => within_ret)
    omega
  case ok request =>
    refine within_bind attemptClassify_within fun result => ?_
    cases result
    case none => exact within_ret
    case some => exact within_bind (n := 0) judgeResponse_within fun _ => within_ret

theorem phraseResult_within :
    (phraseResult provider toolName argumentsJson resultJson).Within price.weigh price.post := by
  unfold phraseResult
  cases tryTemplateReply toolName argumentsJson resultJson
  case none => exact within_ret
  case some =>
    dsimp only
    split_ifs
    case pos => exact within_ret
    case neg =>
      unfold phraseViaLlm
      dsimp only
      cases buildOpenaiChatRequest provider [phrasingMessage toolName resultJson] []
      case error => exact within_ret
      case ok    =>
        exact within_bind (n := 0) (within_perform fun _ => Nat.le_refl _) fun _ => within_ret

theorem reply_within :
    (reply provider sessionId toolName argumentsJson resultJson actions thinkingText).Within
      price.weigh (price.post + 2 * price.step) := by
  have hn : 2 * price.step = price.step + (price.step + 0) := by omega
  rw [hn]
  refine within_bind phraseResult_within fun result => ?_
  cases result
  case none => exact within_ret
  case some =>
    refine within_bind (within_step fun _ => rfl) fun _ => ?_
    exact within_bind within_logChat fun _ => within_ret

theorem executeDecisionOrPause_within :
    (executeDecisionOrPause sessionId toolName argumentsJson actions thinkingText).Within
      price.weigh (price.free + 3 * price.step) := by
  unfold executeDecisionOrPause
  dsimp only
  split_ifs
  case pos hg =>
    refine Within.mono (m := price.step + (price.step + (price.step + 0))) (by omega) ?_
    refine within_bind (within_step fun _ => rfl) fun checked => ?_
    cases checked
    case error =>
      refine within_bind within_logChat fun _ => ?_
      exact within_bind (within_step fun _ => rfl) fun _ => within_ret
    case ok =>
      exact within_bind (within_step fun _ => rfl) fun _ => within_ret
  case neg hg =>
    refine Within.mono (m := price.free + (price.step + (price.step + 0))) (by omega) ?_
    refine within_bind (within_perform fun _ => by simp [weigh, hg]) fun result => ?_
    cases result
    case none => exact within_ret
    case some =>
      refine within_bind within_logChat fun _ => ?_
      exact within_bind (within_step fun _ => rfl) fun _ => within_ret

theorem followRetry_within {decision : Option TurnDecision} :
    (followRetry provider sessionId toolName argumentsJson resultJson actions thinkingText
      decision).Within price.weigh (price.post + price.free + 5 * price.step) := by
  unfold followRetry
  split
  case h_1 => exact within_ret
  case h_3 => exact reply_within.mono (by omega)
  case h_2 =>
    refine Within.mono (m := price.free + 3 * price.step + (price.post + 2 * price.step)) (by omega) ?_
    refine within_bind executeDecisionOrPause_within fun execution => ?_
    split
    case h_1 => exact within_ret
    case h_2 => exact within_ret
    case h_3 => exact reply_within

theorem finishTurnAfterExecution_within {allowRetry : Bool} :
    (finishTurnAfterExecution tools provider sessionId toolName argumentsJson resultJson actions
      allowRetry thinkingText).Within price.weigh
      (4 * price.post + price.free + 14 * price.step) := by
  unfold finishTurnAfterExecution
  split_ifs
  case neg => exact reply_within.mono (by omega)
  case pos =>
    refine Within.mono (m := price.step + (3 * price.post + 8 * price.step +
      (price.post + price.free + 5 * price.step))) (by omega) ?_
    refine within_bind (within_step fun _ => rfl) fun _ => ?_
    exact within_bind classifyViaLlm_within fun _ => followRetry_within

theorem followDecision_within {decision : Option TurnDecision} :
    (followDecision tools provider sessionId decision).Within price.weigh
      (4 * price.post + 2 * price.free + 17 * price.step) := by
  unfold followDecision
  split
  case h_1 => exact within_ret
  case h_2 => exact within_ret
  case h_3 =>
    refine Within.mono (m := price.step + (price.step + 0)) (by omega) ?_
    refine within_bind (within_step fun _ => rfl) fun _ => ?_
    exact within_bind within_logChat fun _ => within_ret
  case h_4 =>
    refine Within.mono (m := price.free + 3 * price.step +
      (4 * price.post + price.free + 14 * price.step)) (by omega) ?_
    refine within_bind executeDecisionOrPause_within fun execution => ?_
    split
    case h_1 => exact within_ret
    case h_2 => exact within_ret
    case h_3 => exact finishTurnAfterExecution_within

theorem abandonPendingCall_within :
    (abandonPendingCall sessionId).Within price.weigh (3 * price.step) := by
  refine Within.mono (m := price.step + (price.step + price.step)) (by omega) ?_
  refine within_bind (within_step fun _ => rfl) fun abandoned => ?_
  split_ifs
  case pos => exact within_bind (within_step fun _ => rfl) fun _ => within_logChat
  case neg => exact within_ret

theorem seedSystemPrompt_within :
    (seedSystemPrompt sessionId).Within price.weigh (2 * price.step) := by
  refine Within.mono (m := price.step + price.step) (by omega) ?_
  refine within_bind (within_step fun _ => rfl) fun prompt => ?_
  cases prompt
  case none => exact within_ret
  case some => exact within_step fun _ => rfl

theorem decideTurn_within : (decideTurn tools provider sessionId).Within price.weigh
    (7 * price.post + 2 * price.free + 25 * price.step) := by
  refine Within.mono (m := 3 * price.post + 8 * price.step +
    (4 * price.post + 2 * price.free + 17 * price.step)) (by omega) ?_
  exact within_bind classifyViaLlm_within fun _ => followDecision_within

theorem turnIn_within : (turnIn tools userMessage sessionId).Within price.weigh
    (7 * price.post + 2 * price.free + 34 * price.step) := by
  unfold turnIn
  split
  case isTrue => exact within_ret
  refine Within.mono (m := 3 * price.step + (price.step + (price.step + (2 * price.step +
    (price.step + (price.step + (7 * price.post + 2 * price.free + 25 * price.step))))))) (by omega) ?_
  refine within_bind abandonPendingCall_within fun _ => ?_
  refine within_bind within_logChat fun _ => ?_
  refine within_bind (within_step fun _ => rfl) fun aiEnabled => ?_
  split_ifs
  case neg =>
    refine Within.mono (m := price.step + 0) (by omega) ?_
    exact within_bind within_logChat fun _ => within_ret
  refine within_bind seedSystemPrompt_within fun _ => ?_
  refine within_bind (within_step fun _ => rfl) fun _ => ?_
  exact within_bind (within_step fun _ => rfl) fun _ => decideTurn_within

theorem recordDecision_within {approved : Bool} {result : Option Bytes} :
    (recordDecision tools pending approved result).Within price.weigh
      (4 * price.post + price.free + 17 * price.step) := by
  unfold recordDecision
  cases result
  case none => exact within_ret
  refine Within.mono (m := price.step + (price.step + (price.step +
    (4 * price.post + price.free + 14 * price.step)))) (by omega) ?_
  refine within_bind within_logChat fun _ => ?_
  refine within_bind (within_step fun _ => rfl) fun _ => ?_
  exact within_bind (within_step fun _ => rfl) fun _ => finishTurnAfterExecution_within

-- The call that is decided on may be of either kind of tool.
theorem resolvePending_within {approved : Bool} :
    (resolvePending tools pending approved reason).Within price.weigh
      (max price.free price.gated + (4 * price.post + price.free + 17 * price.step)) := by
  cases approved
  case false =>
    rw [resolvePending_declined]
    exact recordDecision_within.mono (Nat.le_add_left _ _)
  case true =>
    rw [resolvePending_approved]
    refine within_bind (within_perform fun _ => ?_) fun _ => recordDecision_within
    simp only [weigh]
    split_ifs
    case pos => exact Nat.le_max_right ..
    case neg => exact Nat.le_max_left ..

theorem serve_within {request : AgentRequest} : (request.serve tools).Within price.weigh
    (7 * price.post + price.free + max price.free price.gated + 35 * price.step) := by
  cases request
  case turn body =>
    refine Within.mono (m := price.step +
      (7 * price.post + 2 * price.free + 34 * price.step)) (by omega) ?_
    exact within_bind (within_step fun _ => rfl) fun _ => turnIn_within
  case toolDecision body =>
    refine Within.mono (m := price.step + (max price.free price.gated +
      (4 * price.post + price.free + 17 * price.step))) (by omega) ?_
    refine within_bind (within_step fun _ => rfl) fun taken => ?_
    cases taken
    case none => exact within_ret
    case some => exact resolvePending_within
  case deleteSession body =>
    refine Within.mono (m := price.step + (price.step + 0)) (by omega) ?_
    refine within_bind (within_step fun _ => rfl) fun deleted => ?_
    exact within_bind (within_step fun _ => rfl) fun _ => within_ret

end Programs

-- Weighed so that the operations of one kind are counted.
theorem sum_weigh {t : List (Event AgentRes)} {isCounted : AgentOp → Bool}
    (h : ∀ e : Event AgentRes, price.weigh e = if isCounted e.op then 1 else 0) :
    (t.map price.weigh).sum = t.countP (isCounted ·.op) := by
  induction t
  case nil => rfl
  case cons e t hi => simp only [List.map_cons, List.sum_cons, hi, h, List.countP_cons, Nat.add_comm]

end Price

section Bounds

variable {tools : List ToolDefinition} {request : AgentRequest} {t : List (Event AgentRes)}
  {q : AgentM (Option AgentResponse)}

theorem countP_le {isCounted : AgentOp → Bool} (price : Price)
    (h : ∀ e : Event AgentRes, price.weigh e = if isCounted e.op then 1 else 0)
    (he : Emits (request.serve tools) t q) : t.countP (isCounted ·.op) ≤
      7 * price.post + price.free + max price.free price.gated + 35 * price.step :=
  price.sum_weigh h ▸ he.within price.serve_within

-- However the request is answered, and as far as it has come: the calls to the provider, the tools
-- executed, those of them that require approval, and all its steps.
theorem serve_bounded (h : Emits (request.serve tools) t q) :
    t.countP (·.op.isPost) ≤ 7 ∧ t.countP (·.op.isExecution) ≤ 2 ∧
      t.countP (·.op.isGatedExecution) ≤ 1 ∧ t.length ≤ 44 := by
  refine ⟨?_, ?_, ?_, ?_⟩
  case refine_1 =>
    refine countP_le ⟨1, 0, 0, 0⟩ (fun ⟨o, _⟩ => ?_) h
    cases o <;> simp [Price.weigh, AgentOp.isPost]
  case refine_2 =>
    refine countP_le ⟨0, 1, 1, 0⟩ (fun ⟨o, _⟩ => ?_) h
    cases o <;> simp [Price.weigh, AgentOp.isExecution]
  case refine_3 =>
    refine countP_le ⟨0, 0, 1, 0⟩ (fun ⟨o, _⟩ => ?_) h
    cases o <;> rfl
  case refine_4 =>
    have hl := @countP_le tools request t q (fun _ => true) ⟨1, 1, 1, 1⟩ (fun ⟨o, _⟩ => by
      cases o <;> simp [Price.weigh]) h
    simpa using hl

-- A model that never has anything to say.
theorem serve_bounded_silence :
    let t := ((AgentRequest.turn (jsonObject [jsonStringField "message" "hi"])).handle Os.idle []
      (.saying []) .fresh).trace
    t.countP (·.op.isPost) ≤ 7 ∧ t.countP (·.op.isExecution) ≤ 2 ∧
      t.countP (·.op.isGatedExecution) ≤ 1 ∧ t.length ≤ 44 :=
  serve_bounded run_emits

end Bounds
end Droidcli.Cli
