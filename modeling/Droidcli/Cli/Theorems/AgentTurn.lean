import Droidcli.Cli.AgentHandler
import Mathlib.Tactic.SplitIfs

namespace Droidcli.Cli

open Bytes Net Ai Classify Interaction Prog

-- What each part of a request does to the agent: the operations it may perform, for every answer
-- it may be given.
section Footprints

def LogOp : AgentOp → Prop
  | .log _ | .elapsedMs => True
  | _                   => False

def AttemptOp (purpose : CallPurpose) : AgentOp → Prop
  | .elapsedMs | .log _ => True
  | .post call          => call.purpose = purpose
  | _                   => False

def ClassifyOp (purpose : CallPurpose) : AgentOp → Prop
  | .transcript => True
  | o           => AttemptOp purpose o

def PhraseOp : AgentOp → Prop
  | .post call => call.purpose = .phrase
  | _          => False

def ReplyOp (sessionId : Bytes) : AgentOp → Prop
  | .log _           => True
  | .post call       => call.purpose = .phrase
  | .record s role _ => s = sessionId ∧ role = .assistant
  | _                => False

-- A gated call is put into the pending slot, any other call is executed.
def ExecuteOp (sessionId : Bytes) : AgentOp → Prop
  | .precheck _ | .log _ => True
  | .record s role _     => s = sessionId ∧ role = .tool
  | .pause pending       =>
    pending.sessionId = sessionId ∧ toolCallRequiresApproval pending.decidedCall.name
  | .executeTool name _  => ¬toolCallRequiresApproval name
  | _                    => False

-- What a request may do for a session once it has opened it, or taken its pending call: it does
-- not touch the session or the pending slot of anyone else, and executes no gated call.
def TailOp (sessionId : Bytes) : AgentOp → Prop
  | .record s _ _       => s = sessionId
  | .pause pending      =>
    pending.sessionId = sessionId ∧ toolCallRequiresApproval pending.decidedCall.name
  | .executeTool name _ => ¬toolCallRequiresApproval name
  | .openSession _ _ | .abandonPending _ | .takePending _ | .deleteSession _ => False
  | _                   => True

-- A turn may also abandon the pending call of its own session.
def TurnOp (sessionId : Bytes) : AgentOp → Prop
  | .abandonPending s => s = sessionId
  | o                 => TailOp sessionId o

-- What a declined decision may still do: record the refusal and phrase it.
def DeclineOp (sessionId : Bytes) : AgentOp → Prop
  | .log _ | .makeModelProvider => True
  | .post call                  => call.purpose = .phrase
  | .record s _ _               => s = sessionId
  | _                           => False

end Footprints

variable {sessionId : Bytes} {tools : List ToolDefinition} {provider : OpenAICompatConfig}
  {purpose : CallPurpose} {o : AgentOp}

theorem LogOp.attempt (h : LogOp o) : AttemptOp purpose o := by
  cases o <;> simp_all [LogOp, AttemptOp]

theorem AttemptOp.classify (h : AttemptOp purpose o) : ClassifyOp purpose o := by
  cases o <;> simp_all [AttemptOp, ClassifyOp]

theorem ClassifyOp.tail (h : ClassifyOp purpose o) : TailOp sessionId o := by
  cases o <;> simp_all [ClassifyOp, AttemptOp, TailOp]

theorem ReplyOp.tail (h : ReplyOp sessionId o) : TailOp sessionId o := by
  cases o <;> simp_all [ReplyOp, TailOp]

theorem ExecuteOp.tail (h : ExecuteOp sessionId o) : TailOp sessionId o := by
  cases o <;> simp_all [ExecuteOp, TailOp]

section Programs

theorem logChat_always {P : AgentOp → Prop} {direction summary : Bytes} {success : Bool}
    (h : P (.log ⟨"chat", direction, summary, success⟩)) :
    (logChat direction summary success).Always (P ·.op) :=
  always_perform.mpr fun _ => h

theorem attemptClassify_always {messages : List ChatMessage} {request : ProviderRequest}
    {left attempt : Nat} :
    (attemptClassify purpose messages request left attempt).Always (AttemptOp purpose ·.op) := by
  induction left generalizing attempt <;> unfold attemptClassify
  all_goals
    refine always_bind (always_perform.mpr fun _ => rfl) fun outcome => ?_
    cases outcome.parse
    case none => exact always_ret
    dsimp only
    split_ifs
    case pos => exact always_ret
    case pos => exact always_ret
    refine always_bind (logChat_always trivial) fun _ => ?_
    first | exact always_ret | apply_assumption

theorem decisionOf_always {response : ProviderResponse} :
    (decisionOf response).Always (LogOp ·.op) := by
  unfold decisionOf
  split
  case isTrue => exact always_ret
  cases response.toolCalls
  case nil => exact always_ret
  case cons =>
    dsimp only
    split_ifs
    case pos => exact always_bind (logChat_always trivial) fun _ => always_ret
    case neg => exact always_ret

theorem judgeResponse_always {response : ProviderResponse} {attemptsUsed : Nat} :
    (judgeResponse response attemptsUsed).Always (LogOp ·.op) := by
  unfold judgeResponse
  refine always_bind (always_perform.mpr fun _ => trivial) fun wallClockMs => ?_
  refine always_bind (always_perform.mpr fun _ => trivial) fun _ => ?_
  split_ifs
  case pos => exact always_bind (always_perform.mpr fun _ => trivial) fun _ => decisionOf_always
  case neg => exact decisionOf_always

theorem classifyCopy_always {transcriptCopy : List ChatMessage} :
    (classifyCopy purpose tools provider transcriptCopy).Always (AttemptOp purpose ·.op) := by
  unfold classifyCopy
  cases buildOpenaiChatRequest provider transcriptCopy tools
  case error => exact always_bind (logChat_always trivial) fun _ => always_ret
  case ok request =>
    refine always_bind attemptClassify_always fun result => ?_
    cases result
    case none => exact always_ret
    case some =>
      exact always_bind (judgeResponse_always.mono fun _ h => h.attempt) fun _ => always_ret

theorem classifyViaLlm_always :
    (classifyViaLlm purpose tools provider).Always (ClassifyOp purpose ·.op) :=
  always_bind (always_perform.mpr fun _ => trivial) fun _ =>
    classifyCopy_always.mono fun _ h => h.classify

theorem phraseResult_always {toolName argumentsJson resultJson : Bytes} :
    (phraseResult provider toolName argumentsJson resultJson).Always (PhraseOp ·.op) := by
  unfold phraseResult
  cases tryTemplateReply toolName argumentsJson resultJson
  case none => exact always_ret
  case some =>
    dsimp only
    split_ifs
    case pos => exact always_ret
    case neg =>
      unfold phraseViaLlm
      dsimp only
      cases buildOpenaiChatRequest provider [phrasingMessage toolName resultJson] []
      case error => exact always_ret
      case ok    => exact always_bind (always_perform.mpr fun _ => rfl) fun _ => always_ret

variable {toolName argumentsJson resultJson thinkingText : Bytes}
  {actions : List PendingToolActionRecord}

theorem PhraseOp.reply (h : PhraseOp o) : ReplyOp sessionId o := by
  cases o <;> simp_all [PhraseOp, ReplyOp]

theorem reply_always :
    (reply provider sessionId toolName argumentsJson resultJson actions thinkingText).Always
      (ReplyOp sessionId ·.op) := by
  unfold reply
  refine always_bind (phraseResult_always.mono fun _ h => h.reply) fun result => ?_
  cases result
  case none => exact always_ret
  case some =>
    refine always_bind (always_perform.mpr fun _ => ⟨rfl, rfl⟩) fun _ => ?_
    exact always_bind (logChat_always trivial) fun _ => always_ret

theorem executeDecisionOrPause_always :
    (executeDecisionOrPause sessionId toolName argumentsJson actions thinkingText).Always
      (ExecuteOp sessionId ·.op) := by
  unfold executeDecisionOrPause
  dsimp only
  split_ifs
  case pos hg =>
    refine always_bind (always_perform.mpr fun _ => trivial) fun checked => ?_
    cases checked
    case error =>
      refine always_bind (logChat_always trivial) fun _ => ?_
      exact always_bind (always_perform.mpr fun _ => ⟨rfl, rfl⟩) fun _ => always_ret
    case ok => exact always_bind (always_perform.mpr fun _ => ⟨rfl, hg⟩) fun _ => always_ret
  case neg hg =>
    refine always_bind (always_perform.mpr fun _ => hg) fun result => ?_
    cases result
    case none => exact always_ret
    case some =>
      refine always_bind (logChat_always trivial) fun _ => ?_
      exact always_bind (always_perform.mpr fun _ => ⟨rfl, rfl⟩) fun _ => always_ret

-- After a declined call there is nothing left but the reply.
theorem finishTurnAfterExecution_of_not_allowRetry :
    finishTurnAfterExecution tools provider sessionId toolName argumentsJson resultJson actions false
      thinkingText =
      reply provider sessionId toolName argumentsJson resultJson actions thinkingText := by
  simp [finishTurnAfterExecution]

theorem reply_tail :
    (reply provider sessionId toolName argumentsJson resultJson actions thinkingText).Always
      (TailOp sessionId ·.op) :=
  reply_always.mono fun _ h => h.tail

theorem followRetry_tail {decision : Option TurnDecision} :
    (followRetry provider sessionId toolName argumentsJson resultJson actions thinkingText
      decision).Always (TailOp sessionId ·.op) := by
  unfold followRetry
  split
  case h_1 => exact always_ret
  case h_3 => exact reply_tail
  case h_2 =>
    refine always_bind (executeDecisionOrPause_always.mono fun _ h => h.tail) fun execution => ?_
    split
    case h_1 => exact always_ret
    case h_2 => exact always_ret
    case h_3 => exact reply_tail

theorem finishTurnAfterExecution_tail {allowRetry : Bool} :
    (finishTurnAfterExecution tools provider sessionId toolName argumentsJson resultJson actions
      allowRetry thinkingText).Always (TailOp sessionId ·.op) := by
  unfold finishTurnAfterExecution
  split_ifs
  case neg => exact reply_tail
  refine always_bind (always_perform.mpr fun _ => rfl) fun _ => ?_
  exact always_bind (classifyViaLlm_always.mono fun _ h => h.tail) fun _ => followRetry_tail

theorem followDecision_tail {decision : Option TurnDecision} :
    (followDecision tools provider sessionId decision).Always (TailOp sessionId ·.op) := by
  unfold followDecision
  split
  case h_1 => exact always_ret
  case h_2 => exact always_ret
  case h_3 =>
    refine always_bind (always_perform.mpr fun _ => rfl) fun _ => ?_
    exact always_bind (logChat_always trivial) fun _ => always_ret
  case h_4 =>
    refine always_bind (executeDecisionOrPause_always.mono fun _ h => h.tail) fun execution => ?_
    split
    case h_1 => exact always_ret
    case h_2 => exact always_ret
    case h_3 => exact finishTurnAfterExecution_tail

theorem decideTurn_tail :
    (decideTurn tools provider sessionId).Always (TailOp sessionId ·.op) :=
  always_bind (classifyViaLlm_always.mono fun _ h => h.tail) fun _ => followDecision_tail

theorem TailOp.turn (h : TailOp sessionId o) : TurnOp sessionId o := by
  cases o <;> simp_all [TailOp, TurnOp]

theorem abandonPendingCall_always :
    (abandonPendingCall sessionId).Always (TurnOp sessionId ·.op) := by
  unfold abandonPendingCall
  refine always_bind (always_perform.mpr fun _ => rfl) fun abandoned => ?_
  split_ifs
  case pos => exact always_bind (always_perform.mpr fun _ => rfl) fun _ => logChat_always trivial
  case neg => exact always_ret

theorem seedSystemPrompt_always :
    (seedSystemPrompt sessionId).Always (TurnOp sessionId ·.op) := by
  unfold seedSystemPrompt
  refine always_bind (always_perform.mpr fun _ => trivial) fun prompt => ?_
  cases prompt
  case none => exact always_ret
  case some => exact always_perform.mpr fun _ => rfl

theorem turnIn_always {userMessage : Bytes} :
    (turnIn tools userMessage sessionId).Always (TurnOp sessionId ·.op) := by
  unfold turnIn
  split
  case isTrue => exact always_ret
  refine always_bind abandonPendingCall_always fun _ => ?_
  refine always_bind (logChat_always trivial) fun _ => ?_
  refine always_bind (always_perform.mpr fun _ => trivial) fun aiEnabled => ?_
  split_ifs
  case neg => exact always_bind (logChat_always trivial) fun _ => always_ret
  refine always_bind seedSystemPrompt_always fun _ => ?_
  refine always_bind (always_perform.mpr fun _ => rfl) fun _ => ?_
  refine always_bind (always_perform.mpr fun _ => trivial) fun provider => ?_
  exact decideTurn_tail.mono fun _ h => h.turn

theorem ReplyOp.decline (h : ReplyOp sessionId o) : DeclineOp sessionId o := by
  cases o <;> simp_all [ReplyOp, DeclineOp]

variable {pending : PendingAgentToolCall} {reason : Bytes}

theorem recordDecision_declined {result : Option Bytes} :
    (recordDecision tools pending false result).Always (DeclineOp pending.sessionId ·.op) := by
  unfold recordDecision
  cases result
  case none => exact always_ret
  refine always_bind (logChat_always trivial) fun _ => ?_
  refine always_bind (always_perform.mpr fun _ => rfl) fun _ => ?_
  refine always_bind (always_perform.mpr fun _ => trivial) fun provider => ?_
  rw [finishTurnAfterExecution_of_not_allowRetry]
  exact reply_always.mono fun _ h => h.decline

theorem recordDecision_tail {approved : Bool} {result : Option Bytes} :
    (recordDecision tools pending approved result).Always (TailOp pending.sessionId ·.op) := by
  unfold recordDecision
  cases result
  case none => exact always_ret
  refine always_bind (logChat_always trivial) fun _ => ?_
  refine always_bind (always_perform.mpr fun _ => rfl) fun _ => ?_
  exact always_bind (always_perform.mpr fun _ => trivial) fun _ => finishTurnAfterExecution_tail

theorem resolvePending_approved :
    resolvePending tools pending true reason =
      perform (.executeTool pending.decidedCall.name pending.decidedCall.argumentsJson) >>=
        recordDecision tools pending true :=
  rfl

theorem resolvePending_declined :
    resolvePending tools pending false reason =
      recordDecision tools pending false (some (declinedJson reason)) :=
  rfl

theorem resolvePending_approved_emits {es : List (Event AgentRes)}
    {q : AgentM (Option AgentResponse)} (h : Emits (resolvePending tools pending true reason) es q) :
    es = [] ∨ ∃ result es',
      es = ⟨.executeTool pending.decidedCall.name pending.decidedCall.argumentsJson, result⟩ :: es' ∧
        ∀ e ∈ es', TailOp pending.sessionId e.op := by
  refine h.op_inv.imp And.left fun ⟨result, es', he, hk⟩ => ⟨result, es', he, ?_⟩
  exact (hk.always recordDecision_tail).1

end Programs

-- Operations that neither take a pending call nor execute a gated one, and let only gated calls
-- wait for a decision.
def FreeOp : AgentOp → Prop
  | .takePending _      => False
  | .executeTool name _ => ¬toolCallRequiresApproval name
  | .pause pending      => toolCallRequiresApproval pending.decidedCall.name
  | _                   => True

theorem TurnOp.free (h : TurnOp sessionId o) : FreeOp o := by
  cases o <;> simp_all [TurnOp, TailOp, FreeOp]

theorem TailOp.free (h : TailOp sessionId o) : FreeOp o :=
  h.turn.free

def AgentRequest.approved (body : Bytes) : Bool :=
  (extractJsonBoolField body "approved").getD false

-- The events of a request, as far as it has come.
inductive Served : AgentRequest → List (Event AgentRes) → Prop
  | turn {body : Bytes} {es : List (Event AgentRes)} :
    (∀ e ∈ es, FreeOp e.op) → Served (.turn body) es
  | deletion {body : Bytes} {es : List (Event AgentRes)} :
    (∀ e ∈ es, FreeOp e.op) → Served (.deleteSession body) es
  | waiting {body : Bytes} : Served (.toolDecision body) []
  | rejected {body requested : Bytes} :
    Served (.toolDecision body) [⟨.takePending requested, none⟩]
  | declined {body requested : Bytes} {pending : PendingAgentToolCall}
      {es : List (Event AgentRes)} :
    AgentRequest.approved body = false → (∀ e ∈ es, DeclineOp pending.sessionId e.op) →
    Served (.toolDecision body) (⟨.takePending requested, some pending⟩ :: es)
  | taken {body requested : Bytes} {pending : PendingAgentToolCall} :
    AgentRequest.approved body →
    Served (.toolDecision body) [⟨.takePending requested, some pending⟩]
  | executed {body requested : Bytes} {pending : PendingAgentToolCall} {result : Option Bytes}
      {es : List (Event AgentRes)} :
    AgentRequest.approved body → (∀ e ∈ es, TailOp pending.sessionId e.op) →
    Served (.toolDecision body) (⟨.takePending requested, some pending⟩ ::
      ⟨.executeTool pending.decidedCall.name pending.decidedCall.argumentsJson, result⟩ :: es)

theorem agentTurn_free {body : Bytes} : (agentTurn tools body).Always (FreeOp ·.op) :=
  always_bind (always_perform.mpr fun _ => trivial) fun _ => turnIn_always.mono fun _ h => h.free

theorem deleteAgentSessionJson_free {body : Bytes} :
    (deleteAgentSessionJson body).Always (FreeOp ·.op) := by
  refine always_bind (always_perform.mpr fun _ => trivial) fun _ => ?_
  exact always_bind (always_perform.mpr fun _ => trivial) fun _ => always_ret

theorem AgentRequest.served {request : AgentRequest} {es : List (Event AgentRes)}
    {q : AgentM (Option AgentResponse)} (h : Emits (request.serve tools) es q) :
    Served request es := by
  cases request
  case turn          => exact .turn (h.always agentTurn_free).1
  case deleteSession => exact .deletion (h.always deleteAgentSessionJson_free).1
  case toolDecision body =>
    obtain ⟨rfl, _⟩ | ⟨taken, es, rfl, hk⟩ := h.op_inv
    · exact .waiting
    cases taken
    case none => exact hk.ret_inv ▸ .rejected
    case some pending =>
      change Emits (resolvePending tools pending (AgentRequest.approved body) _) es q at hk
      cases ha : AgentRequest.approved body <;> rw [ha] at hk
      case false =>
        rw [resolvePending_declined] at hk
        exact .declined ha (hk.always recordDecision_declined).1
      case true =>
        obtain rfl | ⟨_, _, rfl, ht⟩ := resolvePending_approved_emits hk
        · exact .taken ha
        · exact .executed ha ht

section Served

variable {request : AgentRequest} {requested name argumentsJson : Bytes} {result : Option Bytes}
  {pending : PendingAgentToolCall} {e : Event AgentRes} {es u v : List (Event AgentRes)}

def AgentRequest.isApproval : AgentRequest → Bool
  | toolDecision body => approved body
  | _                 => false

def AgentRequest.isRefusal : AgentRequest → Bool
  | toolDecision body => !approved body
  | _                 => false

theorem DeclineOp.free (h : DeclineOp sessionId o) : FreeOp o := by
  cases o <;> simp_all [DeclineOp, FreeOp]

-- A gated tool is executed right after the decision has taken the call, and no other follows.
theorem Served.gated (h : Served request (u ++ ⟨.executeTool name argumentsJson, result⟩ :: v))
    (hg : toolCallRequiresApproval name) :
    request.isApproval ∧ (∀ e ∈ v, FreeOp e.op) ∧ ∃ requested pending,
      u = [⟨.takePending requested, some pending⟩] ∧ pending.decidedCall.name = name ∧
        pending.decidedCall.argumentsJson = argumentsJson := by
  have hf {es : List (Event AgentRes)} (he : ∀ e ∈ es, FreeOp e.op) :
      ⟨.executeTool name argumentsJson, result⟩ ∉ es := fun hm => he _ hm hg
  generalize hes : u ++ ⟨.executeTool name argumentsJson, result⟩ :: v = es at h
  have hm : ⟨.executeTool name argumentsJson, result⟩ ∈ es := by simp [← hes]
  cases h
  case turn he     => exact absurd hm (hf he)
  case deletion he => exact absurd hm (hf he)
  case waiting     => simp at hm
  case rejected    => simp at hm
  case taken       => simp at hm
  case declined he =>
    refine absurd hm ?_
    simpa using hf fun e hm => (he e hm).free
  case executed requested pending r es ha he =>
    rcases u with _ | ⟨e₁, _ | ⟨e₂, u⟩⟩
    case nil => injection hes with he₁; cases he₁
    case cons.nil =>
      injection hes with he₁ hes
      injection hes with he₂ hv
      cases he₁; cases he₂; cases hv
      exact ⟨ha, fun e hm => (he e hm).free, requested, pending, rfl, rfl, rfl⟩
    case cons.cons =>
      injection hes with _ hes
      injection hes with _ hv
      exact absurd (by simp [← hv]) (hf fun e hm => (he e hm).free)

-- A decision takes a call at its start, if at all.
theorem Served.consumed (h : Served request (u ++ ⟨.takePending requested, some pending⟩ :: v)) :
    u = [] := by
  have hf {es : List (Event AgentRes)} (he : ∀ e ∈ es, FreeOp e.op) :
      (⟨.takePending requested, some pending⟩ : Event AgentRes) ∉ es := fun hm => he _ hm
  generalize hes : u ++ ⟨.takePending requested, some pending⟩ :: v = es at h
  obtain _ | ⟨e, u⟩ := u
  · rfl
  have hm : (⟨.takePending requested, some pending⟩ : Event AgentRes) ∈ es.tail := by
    simp [← hes]
  cases h
  case turn he     => exact absurd (List.mem_of_mem_tail hm) (hf he)
  case deletion he => exact absurd (List.mem_of_mem_tail hm) (hf he)
  case waiting     => simp at hm
  case rejected    => simp at hm
  case taken       => simp at hm
  case declined he => exact absurd hm (hf fun e hm => (he e hm).free)
  case executed he =>
    refine absurd hm ?_
    simpa using hf fun e hm => (he e hm).free

theorem Served.paused (h : Served request es) (he : e ∈ es) (hp : e.op = .pause pending) :
    toolCallRequiresApproval pending.decidedCall.name := by
  have hf {es : List (Event AgentRes)} (hes : ∀ e ∈ es, FreeOp e.op) (he : e ∈ es) :
      toolCallRequiresApproval pending.decidedCall.name := by
    simpa [hp, FreeOp] using hes e he
  cases h
  case turn hes     => exact hf hes he
  case deletion hes => exact hf hes he
  case waiting      => simp at he
  case rejected     => simp_all
  case taken        => simp_all
  case declined hes =>
    obtain rfl | he := List.mem_cons.mp he
    · simp at hp
    · exact hf (fun e he => (hes e he).free) he
  case executed hes =>
    obtain rfl | rfl | he := by simpa using he
    · simp at hp
    · simp at hp
    · exact hf (fun e he => (hes e he).free) he

-- An approval that has taken a call and come to its end has executed the call.
theorem agentToolDecision_executes {body : Bytes} {a : Option AgentResponse}
    (h : Emits (agentToolDecision tools body) es (ret a)) (ha : AgentRequest.approved body)
    (he : ⟨.takePending requested, some pending⟩ ∈ es) :
    ∃ result,
      ⟨.executeTool pending.decidedCall.name pending.decidedCall.argumentsJson, result⟩ ∈ es := by
  obtain ⟨rfl, _⟩ | ⟨taken, es, rfl, hk⟩ := h.op_inv
  · simp at he
  have hs : Served (.toolDecision body) _ := AgentRequest.served h
  obtain ⟨u, v, hu⟩ := List.append_of_mem he
  rw [hu] at hs
  have := hs.consumed
  subst this
  injection hu with he₁ hes
  cases he₁
  change Emits (resolvePending tools pending (AgentRequest.approved body) _) es _ at hk
  rw [ha] at hk
  obtain ⟨_, hq⟩ | ⟨result, es, rfl, _⟩ := hk.op_inv
  · cases hq
  · exact ⟨result, by simp⟩

-- A refusal executes no tool and lets the model decide nothing.
def RefusalOp : AgentOp → Prop
  | .executeTool _ _ | .transcript => False
  | .post call                     => call.purpose = .phrase
  | _                              => True

theorem DeclineOp.refusal (h : DeclineOp sessionId o) : RefusalOp o := by
  cases o <;> simp_all [DeclineOp, RefusalOp]

theorem Served.refusal (h : Served request es) (hr : request.isRefusal) (he : e ∈ es) :
    RefusalOp e.op := by
  cases h
  case turn     => simp [AgentRequest.isRefusal] at hr
  case deletion => simp [AgentRequest.isRefusal] at hr
  case waiting  => simp at he
  case rejected => simp_all [RefusalOp]
  case taken    => simp_all [RefusalOp]
  case executed => simp_all [AgentRequest.isRefusal]
  case declined hd =>
    obtain rfl | he := List.mem_cons.mp he
    · trivial
    · exact (hd e he).refusal

end Served

-- A request as its first step, and what follows from it.
section Handle

variable {W : Type} {os : Os W} {s : AgentWorld W} {answers : Provider} {body : Bytes}
  {C : AgentOp → AgentWorld W → Prop} {pending : PendingAgentToolCall}

def AgentRequest.sessionField (body : Bytes) : Bytes :=
  extractJsonStringField body "session_id"

def AgentRequest.opening (body : Bytes) : AgentOp :=
  .openSession ((extractJsonBoolField body "clear").getD false) (sessionField body)

-- The state in which a turn goes on, and which has its session as the current one.
def AgentWorld.opened (os : Os W) (s : AgentWorld W) (body : Bytes) : AgentWorld W :=
  (s.openSession os ((extractJsonBoolField body "clear").getD false)
    (AgentRequest.sessionField body)).passTime os

abbrev AgentRequest.turnRest (tools : List ToolDefinition) (body : Bytes) (s : AgentWorld W) :
    AgentM (Option AgentResponse) :=
  turnIn tools (extractJsonStringField body "message") s.agent.currentSessionId

abbrev AgentRequest.decisionRest (tools : List ToolDefinition) (body : Bytes)
    (pending : PendingAgentToolCall) : AgentM (Option AgentResponse) :=
  resolvePending tools pending (approved body) (extractJsonStringField body "reason")

theorem handle_turn :
    (AgentRequest.turn body).handle os tools answers s =
      let s' := s.opened os body
      let out := (AgentRequest.turnRest tools body s').run (agentHandler os answers) s'
      { out with trace :=
          ⟨AgentRequest.opening body, s'.agent.currentSessionId⟩ :: out.trace } :=
  rfl

theorem meets_turn :
    ((AgentRequest.turn body).serve tools).Meets (agentHandler os answers) C s ↔
      C (AgentRequest.opening body) s ∧ (AgentRequest.turnRest tools body (s.opened os body)).Meets
        (agentHandler os answers) C (s.opened os body) :=
  .rfl

theorem pendingToolCall_of_accepted {requested : Bytes}
    (ha : s.acceptedPending requested = some pending) : s.agent.pendingToolCall = some pending :=
  (Option.filter_eq_some_iff.mp ha).1

theorem agentHandler_takePending_some {requested : Bytes}
    (ha : s.acceptedPending requested = some pending) :
    agentHandler os answers (.takePending requested) s = (some pending, s.setPending none) := by
  simp [agentHandler, ha]

theorem agentHandler_takePending_none {requested : Bytes}
    (ha : s.acceptedPending requested = none) :
    agentHandler os answers (.takePending requested) s = (none, s) := by
  simp [agentHandler, ha]

theorem handle_rejected (ha : s.acceptedPending (AgentRequest.sessionField body) = none) :
    (AgentRequest.toolDecision body).handle os tools answers s =
      ⟨some (.failure "no tool call is awaiting a decision" none), s,
        [⟨.takePending (AgentRequest.sessionField body), none⟩]⟩ :=
  run_op_of_eq (agentHandler_takePending_none ha)

theorem meets_rejected (ha : s.acceptedPending (AgentRequest.sessionField body) = none) :
    ((AgentRequest.toolDecision body).serve tools).Meets (agentHandler os answers) C s ↔
      C (.takePending (AgentRequest.sessionField body)) s :=
  (meets_op_of_eq (agentHandler_takePending_none ha)).trans (and_iff_left trivial)

theorem handle_decision (ha : s.acceptedPending (AgentRequest.sessionField body) = some pending) :
    (AgentRequest.toolDecision body).handle os tools answers s =
      let out := (AgentRequest.decisionRest tools body pending).run (agentHandler os answers)
        (s.setPending none)
      { out with trace :=
          ⟨.takePending (AgentRequest.sessionField body), some pending⟩ :: out.trace } :=
  run_op_of_eq (agentHandler_takePending_some ha)

theorem meets_decision (ha : s.acceptedPending (AgentRequest.sessionField body) = some pending) :
    ((AgentRequest.toolDecision body).serve tools).Meets (agentHandler os answers) C s ↔
      C (.takePending (AgentRequest.sessionField body)) s ∧
        (AgentRequest.decisionRest tools body pending).Meets (agentHandler os answers) C
          (s.setPending none) :=
  meets_op_of_eq (agentHandler_takePending_some ha)

end Handle
end Droidcli.Cli
