import Droidcli.Cli.Theorems.Transcript

namespace Droidcli.Cli

open Bytes Net Ai Classify Interaction Prog

variable {W : Type} {os : Os W} {s : AgentWorld W} {answers : Provider} {sessionId : Bytes}
  {tools : List ToolDefinition} {provider : OpenAICompatConfig}

-- What the provider is sent: the transcript as it is, or a result that the transcript holds.
def PostStep : AgentOp → AgentWorld W → Prop
  | .post call, s => call.messages = s.agent.agentTranscript ∨ call.purpose = .phrase ∧
      ∃ toolName result, call.messages = [phrasingMessage toolName result] ∧
        ⟨.tool, result⟩ ∈ s.agent.agentTranscript
  | _, _ => True

def NoPost : AgentOp → Prop
  | .post _ => False
  | _       => True

section Posts

variable {α : Type} {p : AgentM α} {m : ChatMessage}

theorem meets_postStep (hp : p.Always (NoPost ·.op)) :
    p.Meets (agentHandler os answers) PostStep s :=
  hp.meets fun e _ he => by cases ho : e.op <;> simp_all [NoPost, PostStep]

theorem mem_transcript_step {o : AgentOp} (ho : SessionOp sessionId o)
    (hm : m ∈ s.agent.agentTranscript) :
    m ∈ (agentHandler os answers o s).2.agent.agentTranscript := by
  have hk (hk : KeepsMessages o) : m ∈ (agentHandler os answers o s).2.agent.agentTranscript := by
    have ⟨_, ha⟩ : ∃ pending, (agentHandler os answers o s).2.agent =
      { s.agent with pendingToolCall := pending } := agentHandler_frame hk
    rw [ha]
    exact hm
  cases o
  case openSession   => cases ho
  case deleteSession => cases ho
  case record        => exact List.mem_append_left _ hm
  all_goals exact hk trivial

-- What a session's part of a request has recorded stays in the transcript.
theorem mem_transcript_run (hp : p.Always (SessionOp sessionId ·.op))
    (hm : m ∈ s.agent.agentTranscript) :
    m ∈ (p.run (agentHandler os answers) s).state.agent.agentTranscript := by
  refine (Always.run_invariant (C := fun _ _ => True) (t := [])
    (I := fun _ (s : AgentWorld W) => m ∈ s.agent.agentTranscript) ?_ hp
    (hp.meets fun _ _ _ => trivial) hm).1
  exact fun _ _ _ hm ho _ => mem_transcript_step ho hm

theorem logChat_noPost {direction summary : Bytes} {success : Bool} :
    (logChat direction summary success).Always (NoPost ·.op) :=
  logChat_always trivial

theorem attemptClassify_posts {purpose : CallPurpose} {messages : List ChatMessage}
    {request : ProviderRequest} {left attempt : Nat} (hm : messages = s.agent.agentTranscript) :
    (attemptClassify purpose messages request left attempt).Meets (agentHandler os answers)
      PostStep s := by
  induction left generalizing attempt s <;> unfold attemptClassify
  all_goals
    refine meets_bind.mpr ⟨meets_perform.mpr (.inl hm), ?_⟩
    generalize (Prog.run _ _ s).value = outcome
    cases outcome.parse
    case none => exact meets_ret
    dsimp only
    split_ifs
    case pos => exact meets_ret
    case pos => exact meets_ret
    refine meets_bind.mpr ⟨meets_postStep logChat_noPost, ?_⟩
    first | exact meets_ret | (apply_assumption; exact hm)

theorem classifyViaLlm_session {purpose : CallPurpose} :
    (classifyViaLlm purpose tools provider).Always (SessionOp sessionId ·.op) :=
  classifyViaLlm_always.mono fun _ h => h.tail.turn.session

theorem classifyViaLlm_posts {purpose : CallPurpose} :
    (classifyViaLlm purpose tools provider).Meets (agentHandler os answers) PostStep s := by
  refine meets_bind.mpr ⟨meets_perform.mpr trivial, ?_⟩
  unfold classifyCopy
  split
  case h_1 => exact meets_postStep (always_bind logChat_noPost fun _ => always_ret)
  case h_2 request _ =>
    refine meets_bind.mpr ⟨attemptClassify_posts rfl, ?_⟩
    split
    case h_1 => exact meets_ret
    case h_2 =>
      refine meets_postStep (always_bind (judgeResponse_always.mono fun e he => ?_) fun _ => always_ret)
      cases ho : e.op <;> simp_all [LogOp, NoPost]

theorem executeDecisionOrPause_noPost {toolName argumentsJson thinkingText : Bytes}
    {actions : List PendingToolActionRecord} :
    (executeDecisionOrPause sessionId toolName argumentsJson actions thinkingText).Always
      (NoPost ·.op) :=
  executeDecisionOrPause_always.mono fun e he => by
    cases ho : e.op <;> simp_all [ExecuteOp, NoPost]

variable {toolName argumentsJson resultJson thinkingText : Bytes}
  {actions : List PendingToolActionRecord}

theorem reply_posts (hm : ⟨.tool, resultJson⟩ ∈ s.agent.agentTranscript) :
    (reply provider sessionId toolName argumentsJson resultJson actions thinkingText).Meets
      (agentHandler os answers) PostStep s := by
  unfold reply
  refine meets_bind.mpr ⟨?_, ?_⟩
  case refine_1 =>
    unfold phraseResult
    split
    case h_1 => exact meets_ret
    case h_2 =>
      split_ifs
      case pos => exact meets_ret
      case neg =>
        unfold phraseViaLlm
        dsimp only
        split
        case h_1 => exact meets_ret
        case h_2 =>
          exact meets_bind.mpr ⟨meets_perform.mpr (.inr ⟨rfl, _, _, rfl, hm⟩), meets_ret⟩
  case refine_2 =>
    split
    case h_1 => exact meets_ret
    case h_2 =>
      exact meets_postStep <| always_bind (always_perform.mpr fun _ => trivial) fun _ =>
        always_bind logChat_noPost fun _ => always_ret

-- What is phrased has been recorded.
theorem executeDecisionOrPause_records {actions' : List PendingToolActionRecord} {result : Bytes}
    (h : ((executeDecisionOrPause sessionId toolName argumentsJson actions thinkingText).run
      (agentHandler os answers) s).value = some (.executed actions' result)) :
    ⟨.tool, result⟩ ∈ ((executeDecisionOrPause sessionId toolName argumentsJson actions
      thinkingText).run (agentHandler os answers) s).state.agent.agentTranscript := by
  unfold executeDecisionOrPause at h ⊢
  dsimp only at h ⊢
  split_ifs at h ⊢
  case pos =>
    rw [run_bind, run_perform] at h ⊢
    generalize agentHandler os answers (.precheck _) s = checked at h ⊢
    obtain ⟨_ | argumentsJson, s'⟩ := checked
    case error =>
      injection h with h
      injection h with _ hr
      subst hr
      exact List.mem_append_right _ (List.mem_singleton.mpr rfl)
    case ok => nomatch h
  case neg =>
    rw [run_bind, run_perform] at h ⊢
    generalize agentHandler os answers (.executeTool _ _) s = executed at h ⊢
    obtain ⟨_ | toolResult, s'⟩ := executed
    case none => nomatch h
    case some =>
      injection h with h
      injection h with _ hr
      subst hr
      exact List.mem_append_right _ (List.mem_singleton.mpr rfl)

theorem executeDecisionOrPause_posts :
    (executeDecisionOrPause sessionId toolName argumentsJson actions thinkingText).Meets
      (agentHandler os answers) PostStep s :=
  meets_postStep executeDecisionOrPause_noPost

theorem followRetry_posts {decision : Option TurnDecision}
    (hm : ⟨.tool, resultJson⟩ ∈ s.agent.agentTranscript) :
    (followRetry provider sessionId toolName argumentsJson resultJson actions thinkingText
      decision).Meets (agentHandler os answers) PostStep s := by
  unfold followRetry
  split
  case h_1 => exact meets_ret
  case h_3 => exact reply_posts hm
  case h_2 =>
    refine meets_bind.mpr ⟨executeDecisionOrPause_posts, ?_⟩
    split
    case h_1 => exact meets_ret
    case h_2 => exact meets_ret
    case h_3 h => exact reply_posts (executeDecisionOrPause_records h)

theorem finishTurnAfterExecution_posts {allowRetry : Bool}
    (hm : ⟨.tool, resultJson⟩ ∈ s.agent.agentTranscript) :
    (finishTurnAfterExecution tools provider sessionId toolName argumentsJson resultJson actions
      allowRetry thinkingText).Meets (agentHandler os answers) PostStep s := by
  unfold finishTurnAfterExecution
  split_ifs
  case neg => exact reply_posts hm
  refine meets_bind.mpr ⟨meets_perform.mpr trivial, ?_⟩
  refine meets_bind.mpr ⟨classifyViaLlm_posts, followRetry_posts ?_⟩
  refine mem_transcript_run (@classifyViaLlm_session sessionId _ _ _) ?_
  exact List.mem_append_left _ hm

theorem followDecision_posts {decision : Option TurnDecision} :
    (followDecision tools provider sessionId decision).Meets (agentHandler os answers) PostStep
      s := by
  unfold followDecision
  split
  case h_1 => exact meets_ret
  case h_2 => exact meets_ret
  case h_3 =>
    exact meets_postStep <| always_bind (always_perform.mpr fun _ => trivial) fun _ =>
      always_bind logChat_noPost fun _ => always_ret
  case h_4 =>
    refine meets_bind.mpr ⟨executeDecisionOrPause_posts, ?_⟩
    split
    case h_1 => exact meets_ret
    case h_2 => exact meets_ret
    case h_3 h => exact finishTurnAfterExecution_posts (executeDecisionOrPause_records h)

theorem decideTurn_posts :
    (decideTurn tools provider sessionId).Meets (agentHandler os answers) PostStep s :=
  meets_bind.mpr ⟨classifyViaLlm_posts, followDecision_posts⟩

theorem turnIn_posts {userMessage : Bytes} :
    (turnIn tools userMessage sessionId).Meets (agentHandler os answers) PostStep s := by
  unfold turnIn
  split
  case isTrue => exact meets_ret
  have ha : (abandonPendingCall sessionId).Always (NoPost ·.op) := by
    refine always_bind (always_perform.mpr fun _ => trivial) fun _ => ?_
    split_ifs
    case pos => exact always_bind (always_perform.mpr fun _ => trivial) fun _ => logChat_noPost
    case neg => exact always_ret
  have hp : (seedSystemPrompt sessionId).Always (NoPost ·.op) := by
    refine always_bind (always_perform.mpr fun _ => trivial) fun prompt => ?_
    cases prompt
    case none => exact always_ret
    case some => exact always_perform.mpr fun _ => trivial
  refine meets_bind.mpr ⟨meets_postStep ha, ?_⟩
  refine meets_bind.mpr ⟨meets_postStep logChat_noPost, ?_⟩
  refine meets_bind.mpr ⟨meets_perform.mpr trivial, ?_⟩
  split_ifs
  case neg => exact meets_postStep (always_bind logChat_noPost fun _ => always_ret)
  refine meets_bind.mpr ⟨meets_postStep hp, ?_⟩
  refine meets_bind.mpr ⟨meets_perform.mpr trivial, ?_⟩
  exact meets_bind.mpr ⟨meets_perform.mpr trivial, decideTurn_posts⟩

theorem recordDecision_posts {pending : PendingAgentToolCall} {approved : Bool}
    {result : Option Bytes} :
    (recordDecision tools pending approved result).Meets (agentHandler os answers) PostStep s := by
  unfold recordDecision
  cases result
  case none => exact meets_ret
  case some toolResult =>
    refine meets_bind.mpr ⟨meets_postStep logChat_noPost, ?_⟩
    refine meets_bind.mpr ⟨meets_perform.mpr trivial, ?_⟩
    refine meets_bind.mpr ⟨meets_perform.mpr trivial, finishTurnAfterExecution_posts ?_⟩
    exact List.mem_append_right _ (List.mem_singleton.mpr rfl)

theorem resolvePending_posts {pending : PendingAgentToolCall} {approved : Bool} {reason : Bytes} :
    (resolvePending tools pending approved reason).Meets (agentHandler os answers) PostStep s := by
  cases approved
  case false =>
    rw [resolvePending_declined]
    exact recordDecision_posts
  case true =>
    rw [resolvePending_approved]
    exact meets_bind.mpr ⟨meets_perform.mpr trivial, recordDecision_posts⟩

theorem deleteAgentSessionJson_noPost {body : Bytes} :
    (deleteAgentSessionJson body).Always (NoPost ·.op) := by
  refine always_bind (always_perform.mpr fun _ => trivial) fun _ => ?_
  exact always_bind (always_perform.mpr fun _ => trivial) fun _ => always_ret

theorem serve_posts {request : AgentRequest} :
    (request.serve tools).Meets (agentHandler os answers) PostStep s := by
  cases request
  case turn => exact meets_turn.mpr ⟨trivial, turnIn_posts⟩
  case deleteSession => exact meets_postStep deleteAgentSessionJson_noPost
  case toolDecision body =>
    cases ha : s.acceptedPending (AgentRequest.sessionField body)
    case none         => exact (meets_rejected ha).mpr trivial
    case some pending => exact (meets_decision ha).mpr ⟨trivial, resolvePending_posts⟩

end Posts
-- The messages that were recorded, each with the session it was recorded for.
def recordOf : Event AgentRes → Option (Bytes × ChatMessage)
  | ⟨.record sessionId role content, _⟩ => some (sessionId, ⟨role, content⟩)
  | _                                   => none

abbrev recordsOf (t : List (Event AgentRes)) : List (Bytes × ChatMessage) :=
  t.filterMap recordOf

-- A message as it was recorded for a session, or as the store gives it back.
def RecordedFor (history : List (Bytes × ChatMessage)) (sessionId : Bytes) (m : ChatMessage) :
    Prop :=
  ∃ x ∈ history, x.1 = sessionId ∧ x.2.role = m.role ∧
    (m.content = x.2.content ∨ m.content = cstr x.2.content)

-- The messages of a host are those that were recorded, and are kept apart by session.
structure Provenance (history : List (Bytes × ChatMessage)) (s : AgentWorld W) : Prop where
  current    : nul ∉ s.agent.currentSessionId
  sessions   : ∀ x ∈ history, nul ∉ x.1
  transcript : ∀ m ∈ s.agent.agentTranscript, RecordedFor history s.agent.currentSessionId m
  entries    : ∀ row ∈ s.agent.memoryStore.entries, ∃ x ∈ history,
    row.sessionId = cstr x.1 ∧ row.role = x.2.role.toText ∧ row.content = cstr x.2.content

-- The conditions under which a step keeps the sessions apart.
def IsolationStep : AgentOp → AgentWorld W → Prop
  -- A request that names a session names one without a NUL.
  | .openSession clear requested, _ => clear = false → nul ∉ requested
  -- A decision takes a call of the current session.
  | .takePending requested, s => ∀ pending ∈ s.acceptedPending requested,
      pending.sessionId = s.agent.currentSessionId
  | _, _ => True

instance {history : List (Bytes × ChatMessage)} {m : ChatMessage} :
    Decidable (RecordedFor history sessionId m) :=
  inferInstanceAs (Decidable (∃ x ∈ history, _ ∧ _ ∧ (_ ∨ _)))

instance : (o : AgentOp) → (s : AgentWorld W) → Decidable (IsolationStep o s)
  | .openSession _ _, _       => inferInstanceAs (Decidable (_ = _ → ¬_))
  | .takePending requested, s =>
    inferInstanceAs (Decidable (∀ pending ∈ s.acceptedPending requested, _ = _))
  | .record _ _ _, _ | .deleteSession _, _ | .abandonPending _, _ | .pause _, _ | .log _, _
  | .aiEnabled, _ | .seedPrompt, _ | .transcript, _ | .makeModelProvider, _ | .post _, _
  | .elapsedMs, _ | .executeTool _ _, _ | .precheck _, _ => inferInstanceAs (Decidable True)

section Provenance

variable {history : List (Bytes × ChatMessage)} {x : Bytes × ChatMessage} {m : ChatMessage}

theorem RecordedFor.append {more : List (Bytes × ChatMessage)}
    (h : RecordedFor history sessionId m) : RecordedFor (history ++ more) sessionId m :=
  have ⟨x, hx, hm⟩ := h
  ⟨x, List.mem_append_left _ hx, hm⟩

namespace Provenance

theorem of_agent {s' : AgentWorld W} {pending : Option PendingAgentToolCall}
    (h : Provenance history s) (ha : s'.agent = { s.agent with pendingToolCall := pending }) :
    Provenance history s' where
  current    := by rw [ha]; exact h.current
  sessions   := h.sessions
  transcript := by rw [ha]; exact h.transcript
  entries    := by rw [ha]; exact h.entries

theorem append_nil {more : List (Bytes × ChatMessage)} (h : Provenance history s)
    (hm : more = []) : Provenance (history ++ more) s := by
  rwa [hm, List.append_nil]

theorem recordAgentMessage {role : ChatRole} {content : Bytes} (h : Provenance history s) :
    Provenance (history ++ [(s.agent.currentSessionId, ⟨role, content⟩)])
      (s.recordAgentMessage s.agent.currentSessionId role content) where
  current := h.current
  sessions x hx := by
    obtain hx | hx := List.mem_append.mp hx
    · exact h.sessions x hx
    · exact List.mem_singleton.mp hx ▸ h.current
  transcript m hm := by
    obtain hm | hm := List.mem_append.mp hm
    · exact (h.transcript m hm).append
    · refine ⟨_, List.mem_append_right _ (List.mem_singleton.mpr rfl), rfl, ?_⟩
      rw [List.mem_singleton.mp hm]
      exact ⟨rfl, .inl rfl⟩
  entries row hrow := by
    simp only [AgentWorld.recordAgentMessage, MemoryStore.append] at hrow
    split_ifs at hrow
    case neg =>
      obtain ⟨x, hx, hr⟩ := h.entries row hrow
      exact ⟨x, List.mem_append_left _ hx, hr⟩
    case pos =>
      obtain hrow | hrow := List.mem_append.mp hrow
      · obtain ⟨x, hx, hr⟩ := h.entries row hrow
        exact ⟨x, List.mem_append_left _ hx, hr⟩
      · refine ⟨_, List.mem_append_right _ (List.mem_singleton.mpr rfl), ?_⟩
        rw [List.mem_singleton.mp hrow]
        exact ⟨rfl, cstr_eq_self role.nul_not_mem_toText, rfl⟩

theorem startSession (h : Provenance history s) : Provenance history (s.startSession os) where
  current    := nul_not_mem_generateSessionId
  sessions   := h.sessions
  transcript := nofun
  entries    := h.entries

theorem switchSession (h : Provenance history s) (hn : nul ∉ sessionId) :
    Provenance history (s.switchSession sessionId) where
  current  := hn
  sessions := h.sessions
  transcript m hm := by
    obtain ⟨row, hrow, rfl⟩ := List.mem_map.mp hm
    have hrow : row ∈ s.agent.memoryStore.rowsOf sessionId := by
      simp only [MemoryStore.loadSession] at hrow
      split_ifs at hrow
      · exact List.mem_mergeSort.mp hrow
      · exact absurd hrow List.not_mem_nil
    obtain ⟨hrow, hs⟩ := List.mem_filter.mp hrow
    obtain ⟨x, hx, hsession, hrole, hcontent⟩ := h.entries row hrow
    refine ⟨x, hx, ?_, ?_, .inr hcontent⟩
    · change x.1 = sessionId
      rw [← cstr_eq_self (h.sessions x hx), ← hsession, of_decide_eq_true hs, cstr_eq_self hn]
    · rw [hrole, ChatRole.ofText_toText]
  entries := h.entries

theorem openSession {clear : Bool} {requested : Bytes} (h : Provenance history s)
    (hi : IsolationStep (.openSession clear requested) s) :
    Provenance history (s.openSession os clear requested) := by
  unfold AgentWorld.openSession
  split_ifs with hc
  case pos => exact h.startSession
  case pos => exact h.switchSession (hi (by simpa using hc))
  case neg => exact h

theorem deleteSession {requested : Bytes} (h : Provenance history s) :
    Provenance history (s.deleteSession os requested).2 := by
  have hx {target : Bytes} : ∀ row ∈ (s.agent.memoryStore.deleteSession target).2.entries,
      row ∈ s.agent.memoryStore.entries := by
    intro row hrow
    simp only [MemoryStore.deleteSession] at hrow
    split_ifs at hrow
    · exact List.mem_of_mem_filter hrow
    · exact hrow
  simp only [AgentWorld.deleteSession]
  generalize (if requested = [] then s.agent.currentSessionId else requested) = target
  split_ifs
  case pos =>
    exact ⟨nul_not_mem_generateSessionId, h.sessions, fun _ hm => absurd hm List.not_mem_nil,
      fun row hrow => h.entries row (hx row hrow)⟩
  case neg =>
    exact ⟨h.current, h.sessions, h.transcript, fun row hrow => h.entries row (hx row hrow)⟩

end Provenance

-- The messages are kept apart, and the session is the current one.
def ProvenanceFor (sessionId : Bytes) (history : List (Bytes × ChatMessage)) (s : AgentWorld W) :
    Prop :=
  Provenance history s ∧ s.agent.currentSessionId = sessionId

theorem ProvenanceFor.step {o : AgentOp} (h : ProvenanceFor sessionId history s)
    (ho : SessionOp sessionId o) :
    ProvenanceFor sessionId (history ++ recordsOf [⟨o, (agentHandler os answers o s).1⟩])
      (agentHandler os answers o s).2 := by
  have hk (hk : KeepsMessages o) :
      ProvenanceFor sessionId history (agentHandler os answers o s).2 := by
    have ⟨_, ha⟩ : ∃ pending, (agentHandler os answers o s).2.agent =
      { s.agent with pendingToolCall := pending } := agentHandler_frame hk
    exact ⟨h.1.of_agent ha, by rw [ha]; exact h.2⟩
  cases o
  case openSession   => cases ho
  case deleteSession => cases ho
  case record sessionId role content =>
    obtain ⟨h, rfl⟩ := h
    cases ho
    exact ⟨h.recordAgentMessage.of_agent rfl, rfl⟩
  all_goals
    simp only [recordsOf, List.filterMap_cons, recordOf, List.filterMap_nil, List.append_nil]
    exact hk trivial

-- The session on whose behalf a request acts, from its trace.
def onBehalfOf : List (Event AgentRes) → Option Bytes
  | ⟨.openSession _ _, sessionId⟩ :: _   => some sessionId
  | ⟨.takePending _, some pending⟩ :: _  => some pending.sessionId
  | _                                    => none

-- What a call to the provider may be built from on behalf of a session.
def SentFor (history : List (Bytes × ChatMessage)) (sessionId : Bytes) (call : ProviderCall) :
    Prop :=
  (∀ m ∈ call.messages, RecordedFor history sessionId m) ∨
    call.purpose = .phrase ∧ ∃ toolName result, call.messages = [phrasingMessage toolName result] ∧
      RecordedFor history sessionId ⟨.tool, result⟩

-- Every call to the provider in the trace of a request is built from messages that have been
-- recorded for the request's session.
def Isolated (history : List (Bytes × ChatMessage)) (t : List (Event AgentRes)) : Prop :=
  ∀ u call result v, t = u ++ ⟨.post call, result⟩ :: v →
    ∃ sessionId, onBehalfOf t = some sessionId ∧ SentFor (history ++ recordsOf u) sessionId call

theorem ProvenanceFor.sent {call : ProviderCall} (h : ProvenanceFor sessionId history s)
    (hp : PostStep (.post call) s) : SentFor history sessionId call := by
  obtain ⟨h, rfl⟩ := h
  obtain hm | ⟨hphrase, toolName, result, hm, ht⟩ := hp
  · exact .inl (hm ▸ h.transcript)
  · exact .inr ⟨hphrase, toolName, result, hm, h.transcript _ ht⟩

theorem ProvenanceFor.run {α : Type} {p : AgentM α} (h : ProvenanceFor sessionId history s)
    (hp : p.Always (SessionOp sessionId ·.op))
    (hm : p.Meets (agentHandler os answers) PostStep s) :
    Provenance (history ++ recordsOf (p.run (agentHandler os answers) s).trace)
        (p.run (agentHandler os answers) s).state ∧
      ∀ u call result v,
        (p.run (agentHandler os answers) s).trace = u ++ ⟨.post call, result⟩ :: v →
        SentFor (history ++ recordsOf u) sessionId call := by
  have ⟨hend, hsplit⟩ := Always.run_invariant (t := [])
    (I := fun t => ProvenanceFor sessionId (history ++ recordsOf t))
    (fun t o s hs ho _ => by
      rw [recordsOf, List.filterMap_append, ← List.append_assoc]
      exact hs.step ho) hp hm (by simpa [recordsOf] using h)
  refine ⟨hend.1, fun u call result v ht => ?_⟩
  have ⟨s', hs, hc⟩ := hsplit u _ v ht
  exact hs.sent hc

theorem isolated_of_noPost {t : List (Event AgentRes)} (h : ∀ e ∈ t, NoPost e.op) :
    Isolated history t :=
  fun _ call result _ ht => (h ⟨.post call, result⟩ (by simp [ht])).elim

theorem isolated_cons {e : Event AgentRes} {t : List (Event AgentRes)}
    (hn : NoPost e.op) (hr : recordOf e = none) (hb : onBehalfOf (e :: t) = some sessionId)
    (ht : ∀ u call result v, t = u ++ ⟨.post call, result⟩ :: v →
      SentFor (history ++ recordsOf u) sessionId call) : Isolated history (e :: t) := by
  intro u call result v h
  refine ⟨sessionId, hb, ?_⟩
  cases u
  case nil =>
    injection h with he
    subst he
    exact hn.elim
  case cons e' u =>
    injection h with he h
    simpa [recordsOf, ← he, hr] using ht u call result v h

theorem AgentRequest.handle_isolated {request : AgentRequest} (h : Provenance history s)
    (hm : (request.serve tools).Meets (agentHandler os answers) IsolationStep s) :
    Isolated history (request.handle os tools answers s).trace ∧
      Provenance (history ++ recordsOf (request.handle os tools answers s).trace)
        (request.handle os tools answers s).state := by
  cases request
  case turn body =>
    have ⟨hi, _⟩ := meets_turn.mp hm
    have hposts : ((AgentRequest.turn body).serve tools).Meets (agentHandler os answers) PostStep s :=
      serve_posts
    have hs : ProvenanceFor (s.opened os body).agent.currentSessionId history (s.opened os body) :=
      ⟨(h.openSession hi).of_agent rfl, rfl⟩
    have ⟨hend, hsent⟩ := hs.run turnIn_session (meets_turn.mp hposts).2
    rw [handle_turn]
    exact ⟨isolated_cons trivial rfl rfl hsent, hend⟩
  case toolDecision body =>
    cases ha : s.acceptedPending (AgentRequest.sessionField body)
    case none =>
      rw [handle_rejected ha]
      exact ⟨isolated_of_noPost (by simp [NoPost]), h.append_nil rfl⟩
    case some pending =>
      have ⟨hi, _⟩ := (meets_decision ha).mp hm
      have hs : ProvenanceFor pending.sessionId history (s.setPending none) :=
        ⟨h.of_agent rfl, (hi pending ha).symm⟩
      have hposts : (AgentRequest.decisionRest tools body pending).Meets (agentHandler os answers)
          PostStep (s.setPending none) := resolvePending_posts
      have ⟨hend, hsent⟩ := hs.run resolvePending_session hposts
      rw [handle_decision ha]
      exact ⟨isolated_cons trivial rfl rfl hsent, hend⟩
  case deleteSession body =>
    have hs : Provenance history ((AgentRequest.deleteSession body).handle os tools answers s).state :=
      h.deleteSession.of_agent rfl
    exact ⟨isolated_of_noPost deleteAgentSessionJson_noPost.run, hs.append_nil rfl⟩

-- Every request of a run is isolated.
def IsolatedAll (os : Os W) (tools : List ToolDefinition) :
    List (Bytes × ChatMessage) → List (AgentRequest × Provider) → AgentWorld W → Prop
  | _, [], _                                   => True
  | history, (request, answers) :: requests, s =>
    let out := request.handle os tools answers s
    Isolated history out.trace ∧
      IsolatedAll os tools (history ++ recordsOf out.trace) requests out.state

theorem isolatedAll {requests : List (AgentRequest × Provider)} (h : Provenance history s)
    (hm : MeetsAll os tools IsolationStep requests s) :
    IsolatedAll os tools history requests s := by
  induction requests generalizing history s
  case nil => trivial
  case cons request requests hi =>
    have ⟨ht, hs⟩ := AgentRequest.handle_isolated h hm.1
    exact ⟨ht, hi hs hm.2⟩

section Mixing

theorem provenance_fresh : Provenance [] AgentWorld.fresh where
  current    := by decide
  sessions   := nofun
  transcript := nofun
  entries    := nofun

theorem isolatedAll_list :
    IsolatedAll Os.failing [] [] [listRequest, approveRequest, clearRequest] .fresh :=
  isolatedAll provenance_fresh ⟨by decide +kernel, by decide +kernel, by decide +kernel, trivial⟩

def postAt (t : List (Event AgentRes)) (n : Nat) : Option ProviderCall :=
  match t[n]? with
  | some ⟨.post call, _⟩ => some call
  | _                    => none

theorem Isolated.at {t : List (Event AgentRes)} (h : Isolated history t) (n : Nat) :
    ∀ call ∈ postAt t n, call.purpose = .phrase ∨ ∃ sessionId ∈ onBehalfOf t,
      ∀ m ∈ call.messages, RecordedFor (history ++ recordsOf (t.take n)) sessionId m := by
  intro call hc
  have ⟨result, ht⟩ : ∃ result, t[n]? = some ⟨.post call, result⟩ := by
    unfold postAt at hc
    split at hc
    case h_1 call' result ht =>
      cases hc
      exact ⟨result, ht⟩
    case h_2 => nomatch hc
  have ⟨hn, he⟩ := List.getElem?_eq_some_iff.mp ht
  have hsplit : t = t.take n ++ ⟨.post call, result⟩ :: t.drop (n + 1) := by
    rw [← he, ← List.drop_eq_getElem_cons hn, List.take_append_drop]
  have ⟨sessionId, hb, hs⟩ := h _ _ _ _ hsplit
  exact hs.symm.imp And.left fun hs => ⟨sessionId, hb, hs⟩

-- The retry of a call of the first session is decided on the transcript of the second one.
theorem not_isolatedAll :
    ¬∀ requests, IsolatedAll Os.failing [] [] requests .fresh := by
  intro h
  have h := (h [listRequest, clearRequest, approveRequest]).2.2.1.at 7
  exact absurd h (by decide +kernel)

end Mixing
end Provenance
end Droidcli.Cli
