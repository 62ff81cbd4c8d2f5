import Droidcli.Cli.Theorems.AgentTurn
import Mathlib.Algebra.Group.Nat.Defs
import Mathlib.Algebra.Group.Prod

namespace Droidcli.Cli

open Bytes Net Ai Classify Interaction Prog

def AgentOp.isRetryNote : AgentOp → Bool
  | .record _ .system content => retryAdvice.isSuffixOf content
  | _                         => false

def AgentOp.isClassification : AgentOp → Bool
  | .transcript => true
  | _           => false

-- How many retry notes are recorded in a trace, and how many classifications are made.
def tally (t : List (Event AgentRes)) : Nat × Nat :=
  (t.countP (·.op.isRetryNote), t.countP (·.op.isClassification))

def Quiet (o : AgentOp) : Prop :=
  ¬o.isRetryNote ∧ ¬o.isClassification

section Tally

variable {t u : List (Event AgentRes)} {e : Event AgentRes}

@[simp]
theorem tally_append : tally (t ++ u) = tally t + tally u := by
  simp [tally]

theorem tally_cons (he : Quiet e.op) : tally (e :: t) = tally t := by
  simp [tally, he.1, he.2]

theorem tally_eq_zero (h : ∀ e ∈ t, Quiet e.op) : tally t = 0 := by
  simp only [tally, Prod.mk_eq_zero, List.countP_eq_zero]
  exact ⟨fun e he => (h e he).1, fun e he => (h e he).2⟩

end Tally

variable {W : Type} {os : Os W} {s : AgentWorld W} {answers : Provider} {sessionId : Bytes}
  {tools : List ToolDefinition} {provider : OpenAICompatConfig} {o : AgentOp}

section Quiet

theorem AttemptOp.quiet {purpose : CallPurpose} (h : AttemptOp purpose o) : Quiet o := by
  cases o <;> simp_all [AttemptOp, Quiet, AgentOp.isRetryNote, AgentOp.isClassification]

theorem ReplyOp.quiet (h : ReplyOp sessionId o) : Quiet o := by
  cases o <;> simp_all [ReplyOp, Quiet, AgentOp.isRetryNote, AgentOp.isClassification]

theorem ExecuteOp.quiet (h : ExecuteOp sessionId o) : Quiet o := by
  cases o <;> simp_all [ExecuteOp, Quiet, AgentOp.isRetryNote, AgentOp.isClassification]

variable {α : Type} {p : AgentM α}

theorem tally_quiet (hp : p.Always (Quiet ·.op)) :
    tally (p.run (agentHandler os answers) s).trace = 0 :=
  tally_eq_zero hp.run

theorem isRetryNote_retryNote {toolName resultJson : Bytes} :
    (AgentOp.record sessionId .system (retryNote toolName resultJson)).isRetryNote :=
  List.isSuffixOf_iff_suffix.mpr (List.suffix_append _ _)

theorem not_isRetryNote_abandonedNote : ¬retryAdvice.isSuffixOf abandonedNote := by
  decide +kernel

-- A system prompt is no retry note, whatever it has been configured to be.
theorem not_isRetryNote_seedPrompt {prompt : Bytes} (h : s.seedPrompt os = some prompt) :
    ¬retryAdvice.isSuffixOf prompt := by
  intro hs
  have ⟨t, ht⟩ := List.isSuffixOf_iff_suffix.mp hs
  simp only [AgentWorld.seedPrompt, Option.ite_none_right_eq_some, Option.some.injEq] at h
  have hl := congrArg List.getLast? (ht.trans h.2.symm)
  rw [List.getLast?_append, List.getLast?_append,
    show retryAdvice.getLast? = some 0x29 by decide +kernel,
    show (str "since this won't update on its own.").getLast? = some 0x2e by decide +kernel] at hl
  cases hl

theorem abandonPendingCall_quiet : (abandonPendingCall sessionId).Always (Quiet ·.op) := by
  refine always_bind (always_perform.mpr fun _ => ⟨nofun, nofun⟩) fun abandoned => ?_
  split_ifs
  case neg => exact always_ret
  case pos =>
    refine always_bind (always_perform.mpr fun _ => ⟨not_isRetryNote_abandonedNote, nofun⟩) fun _ => ?_
    exact logChat_always ⟨nofun, nofun⟩

theorem seedSystemPrompt_quiet :
    (seedSystemPrompt sessionId).Meets (agentHandler os answers) (fun o _ => Quiet o) s := by
  have hq : Quiet .seedPrompt := by simp [Quiet, AgentOp.isRetryNote, AgentOp.isClassification]
  refine meets_bind.mpr ⟨meets_perform.mpr hq, ?_⟩
  rw [run_perform]
  simp only [agentHandler]
  cases hp : s.seedPrompt os
  case none => exact meets_ret
  case some => exact meets_perform.mpr ⟨not_isRetryNote_seedPrompt hp, by simp [AgentOp.isClassification]⟩

end Quiet

section Classify

theorem classifyViaLlm_tally {purpose : CallPurpose} :
    tally ((classifyViaLlm purpose tools provider).run (agentHandler os answers) s).trace =
      (0, 1) := by
  rw [classifyViaLlm, run_bind, tally_append, tally_quiet (classifyCopy_always.mono fun _ h => h.quiet)]
  rfl

end Classify
-- The response asks for a decision.
def waits : Option AgentResponse → Bool
  | some (.pending _ _ _) => true
  | _                     => false

def AgentWorld.Proposes (s : AgentWorld W) (actions : List PendingToolActionRecord) : Prop :=
  ∃ pending, s.agent.pendingToolCall = some pending ∧ pending.actions = actions

section Run

variable {toolName argumentsJson resultJson thinkingText : Bytes}
  {actions : List PendingToolActionRecord}

theorem reply_not_waits :
    ¬waits ((reply provider sessionId toolName argumentsJson resultJson actions thinkingText).run
      (agentHandler os answers) s).value := by
  rw [reply, run_bind]
  split <;> nofun

theorem executeDecisionOrPause_tally :
    tally ((executeDecisionOrPause sessionId toolName argumentsJson actions thinkingText).run
      (agentHandler os answers) s).trace = 0 :=
  tally_quiet (executeDecisionOrPause_always.mono fun _ h => h.quiet)

-- A paused call carries the actions that came before it.
theorem executeDecisionOrPause_proposes {response : AgentResponse}
    (h : ((executeDecisionOrPause sessionId toolName argumentsJson actions thinkingText).run
      (agentHandler os answers) s).value = some (.paused response)) :
    ((executeDecisionOrPause sessionId toolName argumentsJson actions thinkingText).run
      (agentHandler os answers) s).state.Proposes actions := by
  unfold executeDecisionOrPause at h ⊢
  dsimp only at h ⊢
  split_ifs at h ⊢ <;> rw [run_bind, run_perform] at h ⊢
  case pos =>
    generalize agentHandler os answers (.precheck _) s = checked at h ⊢
    obtain ⟨_ | argumentsJson, s'⟩ := checked
    case error => nomatch h
    case ok    => exact ⟨_, rfl, rfl⟩
  case neg =>
    generalize agentHandler os answers (.executeTool _ _) s = executed at h
    obtain ⟨_ | toolResult, s'⟩ := executed
    case none => nomatch h
    case some => nomatch h

theorem executeDecisionOrPause_actions {actions' : List PendingToolActionRecord} {result : Bytes}
    (h : ((executeDecisionOrPause sessionId toolName argumentsJson actions thinkingText).run
      (agentHandler os answers) s).value = some (.executed actions' result)) : actions' ≠ [] := by
  unfold executeDecisionOrPause at h
  dsimp only at h
  split_ifs at h <;> rw [run_bind, run_perform] at h
  case pos =>
    generalize agentHandler os answers (.precheck _) s = checked at h
    obtain ⟨_ | argumentsJson, s'⟩ := checked
    case error =>
      injection h with h
      injection h with ha
      simp [← ha]
    case ok => nomatch h
  case neg =>
    generalize agentHandler os answers (.executeTool _ _) s = executed at h
    obtain ⟨_ | toolResult, s'⟩ := executed
    case none => nomatch h
    case some =>
      injection h with h
      injection h with ha
      simp [← ha]

theorem followRetry_proposes {decision : Option TurnDecision}
    (h : waits ((followRetry provider sessionId toolName argumentsJson resultJson actions
      thinkingText decision).run (agentHandler os answers) s).value) :
    ((followRetry provider sessionId toolName argumentsJson resultJson actions thinkingText
      decision).run (agentHandler os answers) s).state.Proposes actions := by
  unfold followRetry at h ⊢
  split at h
  case h_1 => nomatch h
  case h_3 => exact absurd h reply_not_waits
  case h_2 retryName retryArguments retryThinking =>
    have hp {response : AgentResponse} := @executeDecisionOrPause_proposes W os s answers sessionId
      retryName retryArguments retryThinking actions response
    rw [run_bind] at h ⊢
    generalize (executeDecisionOrPause _ _ _ _ _).run _ s = out at h hp ⊢
    obtain ⟨_ | execution, s', t⟩ := out
    case none => nomatch h
    cases execution
    case executed => exact absurd h reply_not_waits
    case paused   => exact hp rfl

-- Whether the first result of a turn or of a decision is followed by an automatic retry.
abbrev Retries (toolName resultJson : Bytes) : Prop :=
  ¬okField resultJson ∧ isRetriableTool toolName

theorem followRetry_quiet {decision : Option TurnDecision} :
    (followRetry provider sessionId toolName argumentsJson resultJson actions thinkingText
      decision).Always (Quiet ·.op) := by
  unfold followRetry
  split
  case h_1 => exact always_ret
  case h_3 => exact reply_always.mono fun _ h => h.quiet
  case h_2 =>
    refine always_bind (executeDecisionOrPause_always.mono fun _ h => h.quiet) fun execution => ?_
    split
    case h_1 => exact always_ret
    case h_2 => exact always_ret
    case h_3 => exact reply_always.mono fun _ h => h.quiet

theorem finishTurnAfterExecution_retries (hr : Retries toolName resultJson) :
    let out := (finishTurnAfterExecution tools provider sessionId toolName argumentsJson resultJson
      actions true thinkingText).run (agentHandler os answers) s
    tally out.trace = (1, 1) ∧ (waits out.value → out.state.Proposes actions) := by
  have hr : (true : Bool) ∧ ¬okField resultJson ∧ isRetriableTool toolName := ⟨rfl, hr⟩
  rw [finishTurnAfterExecution, if_pos hr]
  refine ⟨?_, fun h => ?_⟩
  case refine_1 =>
    simp only [run_bind, tally_append, classifyViaLlm_tally, tally_quiet followRetry_quiet]
    simp only [run_perform, tally, isRetryNote_retryNote, AgentOp.isClassification,
      List.countP_singleton, if_true]
    rfl
  case refine_2 =>
    rw [run_bind, run_bind] at h ⊢
    exact followRetry_proposes h

theorem finishTurnAfterExecution_of_not_retries {allowRetry : Bool}
    (hr : ¬(allowRetry ∧ Retries toolName resultJson)) :
    let out := (finishTurnAfterExecution tools provider sessionId toolName argumentsJson resultJson
      actions allowRetry thinkingText).run (agentHandler os answers) s
    tally out.trace = 0 ∧ ¬waits out.value := by
  rw [finishTurnAfterExecution, if_neg hr]
  exact ⟨tally_quiet (reply_always.mono fun _ h => h.quiet), reply_not_waits⟩

-- How far the automatic retry has come when a call waits for a decision: it has been used up
-- exactly if the call comes with earlier actions.
def Waiting (n : Nat × Nat) (s : AgentWorld W) : Prop :=
  s.Proposes [] ∧ n = (0, 1) ∨ ∃ actions, actions ≠ [] ∧ s.Proposes actions ∧ n = (1, 2)

theorem followDecision_tally {decision : Option TurnDecision} :
    let out := (followDecision tools provider sessionId decision).run (agentHandler os answers) s
    (tally out.trace = 0 ∨ tally out.trace = (1, 1)) ∧
      (waits out.value → Waiting ((0, 1) + tally out.trace) out.state) := by
  unfold followDecision
  split
  case h_1 => exact ⟨.inl rfl, nofun⟩
  case h_2 => exact ⟨.inl rfl, nofun⟩
  case h_3 => exact ⟨.inl rfl, nofun⟩
  case h_4 toolName argumentsJson thinkingText =>
    have hq := @executeDecisionOrPause_tally W os s answers sessionId toolName argumentsJson
      thinkingText []
    have hp {response : AgentResponse} := @executeDecisionOrPause_proposes W os s answers sessionId
      toolName argumentsJson thinkingText [] response
    have ha {actions : List PendingToolActionRecord} {result : Bytes} :=
      @executeDecisionOrPause_actions W os s answers sessionId toolName argumentsJson thinkingText []
        actions result
    rw [run_bind]
    simp only [tally_append, hq, zero_add]
    generalize (executeDecisionOrPause _ _ _ _ _).run _ s = out at hp ha ⊢
    obtain ⟨_ | execution, s', t⟩ := out
    case none => exact ⟨.inl rfl, nofun⟩
    cases execution
    case paused => exact ⟨.inl rfl, fun _ => .inl ⟨hp rfl, rfl⟩⟩
    case executed actions result =>
      by_cases hr : Retries toolName result
      case pos =>
        have ⟨ht, hw⟩ := @finishTurnAfterExecution_retries W os s' answers sessionId tools provider
          toolName argumentsJson result thinkingText actions hr
        exact ⟨.inr ht, fun h => .inr ⟨actions, ha rfl, hw h, by rw [ht]; rfl⟩⟩
      case neg =>
        have ⟨ht, hw⟩ := @finishTurnAfterExecution_of_not_retries W os s' answers sessionId tools
          provider toolName argumentsJson result thinkingText actions true fun h => hr h.2
        exact ⟨.inl ht, fun h => absurd h hw⟩

-- What holds of the tally, the response and the state at the end of a program.
def Ends (os : Os W) (answers : Provider)
    (Q : Nat × Nat → Option AgentResponse → AgentWorld W → Prop)
    (p : AgentM (Option AgentResponse)) (s : AgentWorld W) : Prop :=
  Q (tally (p.run (agentHandler os answers) s).trace) (p.run (agentHandler os answers) s).value
    (p.run (agentHandler os answers) s).state

theorem ends_bind {α : Type} {p : AgentM α} {f : α → AgentM (Option AgentResponse)}
    {Q : Nat × Nat → Option AgentResponse → AgentWorld W → Prop}
    (hp : p.Meets (agentHandler os answers) (fun o _ => Quiet o) s)
    (hf : ∀ a s', Ends os answers Q (f a) s') : Ends os answers Q (p >>= f) s := by
  have h0 : tally (p.run (agentHandler os answers) s).trace = 0 :=
    tally_eq_zero fun e he => (hp.trace he).choose_spec
  simp only [Ends, run_bind, tally_append, h0, zero_add]
  exact hf _ _

theorem meets_quiet (ho : Quiet o) :
    (perform o).Meets (agentHandler os answers) (fun o _ => Quiet o) s :=
  meets_perform.mpr ho

theorem logChat_quiet {direction summary : Bytes} {success : Bool} :
    (logChat direction summary success).Meets (agentHandler os answers) (fun o _ => Quiet o) s :=
  meets_quiet ⟨nofun, nofun⟩

-- At most one retry note has been recorded, and at most two classifications have been made.
def WithinBudget (n : Nat × Nat) (response : Option AgentResponse) (s : AgentWorld W) : Prop :=
  n.1 ≤ 1 ∧ n.2 ≤ 2 ∧ (waits response → Waiting n s)

theorem withinBudget_zero {response : Option AgentResponse} (h : ¬waits response) :
    WithinBudget 0 response s :=
  ⟨Nat.zero_le _, Nat.zero_le _, fun hw => absurd hw h⟩

theorem decideTurn_withinBudget :
    Ends os answers WithinBudget (decideTurn tools provider sessionId) s := by
  simp only [Ends, WithinBudget, decideTurn, run_bind, tally_append, classifyViaLlm_tally]
  have ⟨ht, hw⟩ := @followDecision_tally W os
    ((classifyViaLlm .classify tools provider).run (agentHandler os answers) s).state answers
    sessionId tools provider
    ((classifyViaLlm .classify tools provider).run (agentHandler os answers) s).value
  refine ⟨?_, ?_, hw⟩
  all_goals obtain h | h := ht <;> rw [h] <;> decide

theorem turnIn_withinBudget {userMessage : Bytes} :
    Ends os answers WithinBudget (turnIn tools userMessage sessionId) s := by
  unfold turnIn
  split
  case isTrue => exact withinBudget_zero nofun
  refine ends_bind (abandonPendingCall_quiet.meets fun _ _ h => h) fun _ s => ?_
  refine ends_bind logChat_quiet fun _ s => ?_
  refine ends_bind (meets_quiet ⟨nofun, nofun⟩) fun aiEnabled s => ?_
  split_ifs
  case neg => exact ends_bind logChat_quiet fun _ _ => withinBudget_zero nofun
  refine ends_bind seedSystemPrompt_quiet fun _ s => ?_
  refine ends_bind (meets_quiet ⟨nofun, nofun⟩) fun _ s => ?_
  exact ends_bind (meets_quiet ⟨nofun, nofun⟩) fun _ _ => decideTurn_withinBudget

variable {pending : PendingAgentToolCall} {reason : Bytes}

-- The pending call is executed, and fails in such a way that the model is asked for another one.
def FailsRetriably (os : Os W) (s : AgentWorld W) (pending : PendingAgentToolCall) : Prop :=
  ∃ result, (s.executeTool os pending.decidedCall.name pending.decidedCall.argumentsJson).1 =
    some result ∧ Retries pending.decidedCall.name result

def Retried (n : Nat × Nat) (response : Option AgentResponse) (s : AgentWorld W) : Prop :=
  n = (1, 1) ∧ (waits response → ∃ actions, actions ≠ [] ∧ s.Proposes actions)

def NotRetried (n : Nat × Nat) (response : Option AgentResponse) (_ : AgentWorld W) : Prop :=
  n = 0 ∧ ¬waits response

theorem recordDecision_retried {result : Bytes} (hr : Retries pending.decidedCall.name result) :
    Ends os answers Retried (recordDecision tools pending true (some result)) s := by
  refine ends_bind logChat_quiet fun _ s => ?_
  refine ends_bind (meets_quiet ⟨nofun, nofun⟩) fun _ s => ?_
  refine ends_bind (meets_quiet ⟨nofun, nofun⟩) fun _ s => ?_
  refine (finishTurnAfterExecution_retries hr).imp id fun hw h => ⟨_, ?_, hw h⟩
  exact List.append_ne_nil_of_right_ne_nil _ (List.cons_ne_nil _ _)

theorem recordDecision_notRetried {approved : Bool} {result : Option Bytes}
    (hr : ∀ r ∈ result, ¬(approved ∧ Retries pending.decidedCall.name r)) :
    Ends os answers NotRetried (recordDecision tools pending approved result) s := by
  cases result
  case none => exact ⟨rfl, nofun⟩
  refine ends_bind logChat_quiet fun _ s => ?_
  refine ends_bind (meets_quiet ⟨nofun, nofun⟩) fun _ s => ?_
  refine ends_bind (meets_quiet ⟨nofun, nofun⟩) fun _ s => ?_
  exact finishTurnAfterExecution_of_not_retries (hr _ rfl)

theorem ends_executeTool {Q : Nat × Nat → Option AgentResponse → AgentWorld W → Prop}
    (h : ∀ s', Ends os answers Q (recordDecision tools pending true (s.executeTool os
      pending.decidedCall.name pending.decidedCall.argumentsJson).1) s') :
    Ends os answers Q (resolvePending tools pending true reason) s := by
  have h0 := @tally_quiet W os s answers _
    (perform (.executeTool pending.decidedCall.name pending.decidedCall.argumentsJson))
    (always_perform.mpr fun _ => ⟨nofun, nofun⟩)
  simp only [Ends, resolvePending_approved, run_bind, tally_append, h0, zero_add]
  exact h _

theorem resolvePending_retried (h : FailsRetriably os s pending) :
    Ends os answers Retried (resolvePending tools pending true reason) s := by
  have ⟨result, he, hr⟩ := h
  refine ends_executeTool fun s' => ?_
  rw [he]
  exact recordDecision_retried hr

theorem resolvePending_notRetried {approved : Bool} (h : ¬(approved ∧ FailsRetriably os s pending)) :
    Ends os answers NotRetried (resolvePending tools pending approved reason) s := by
  cases approved
  case false =>
    rw [resolvePending_declined]
    exact recordDecision_notRetried nofun
  case true =>
    refine ends_executeTool fun s' => recordDecision_notRetried fun r he ⟨_, hr⟩ => ?_
    exact h ⟨rfl, r, he, hr⟩

end Run

-- A turn and the decisions that resolve its pending calls, one after the other, each in the state
-- and with the body given in the list.
inductive TurnRun (os : Os W) (tools : List ToolDefinition) (s : AgentWorld W) :
    List (AgentWorld W × Bytes) → List (Event AgentRes) →
      Prog.Outcome AgentRes (Option AgentResponse) (AgentWorld W) → Prop
  | turn (body : Bytes) (answers : Provider) :
    TurnRun os tools s [] ((AgentRequest.turn body).handle os tools answers s).trace
      ((AgentRequest.turn body).handle os tools answers s)
  | decision (body : Bytes) (answers : Provider) {steps : List (AgentWorld W × Bytes)}
      {t : List (Event AgentRes)}
      {out : Prog.Outcome AgentRes (Option AgentResponse) (AgentWorld W)} :
    TurnRun os tools s steps t out → waits out.value →
    (out.state.acceptedPending (AgentRequest.sessionField body)).isSome →
    TurnRun os tools s (steps ++ [(out.state, body)])
      (t ++ ((AgentRequest.toolDecision body).handle os tools answers out.state).trace)
      ((AgentRequest.toolDecision body).handle os tools answers out.state)

-- A decision approves a call that an automatic retry has proposed, and that fails retriably.
def RetryFails (os : Os W) (step : AgentWorld W × Bytes) : Prop :=
  AgentRequest.approved step.2 ∧
    ∃ pending ∈ step.1.acceptedPending (AgentRequest.sessionField step.2),
      pending.actions ≠ [] ∧ FailsRetriably os (step.1.setPending none) pending

variable {steps : List (AgentWorld W × Bytes)} {t : List (Event AgentRes)}
  {out : Prog.Outcome AgentRes (Option AgentResponse) (AgentWorld W)}

theorem tally_handle_turn {body : Bytes} :
    tally ((AgentRequest.turn body).handle os tools answers s).trace =
      tally ((AgentRequest.turnRest tools body (s.opened os body)).run (agentHandler os answers)
        (s.opened os body)).trace := by
  rw [handle_turn]
  exact tally_cons ⟨nofun, nofun⟩

theorem tally_handle_decision {body : Bytes} {pending : PendingAgentToolCall}
    (ha : s.acceptedPending (AgentRequest.sessionField body) = some pending) :
    tally ((AgentRequest.toolDecision body).handle os tools answers s).trace =
      tally ((AgentRequest.decisionRest tools body pending).run (agentHandler os answers)
        (s.setPending none)).trace := by
  rw [handle_decision ha]
  exact tally_cons ⟨nofun, nofun⟩

theorem retryFails_iff {body : Bytes} {pending : PendingAgentToolCall}
    (ha : s.acceptedPending (AgentRequest.sessionField body) = some pending) :
    RetryFails os (s, body) ↔ pending.actions ≠ [] ∧
      AgentRequest.approved body ∧ FailsRetriably os (s.setPending none) pending := by
  simp [RetryFails, ha, and_left_comm]

theorem Waiting.tally_eq {n : Nat × Nat} {pending : PendingAgentToolCall} (h : Waiting n s)
    (hp : s.agent.pendingToolCall = some pending) :
    n = if pending.actions = [] then (0, 1) else (1, 2) := by
  obtain ⟨⟨p, hs, ha⟩, hn⟩ | ⟨actions, hne, ⟨p, hs, ha⟩, hn⟩ := h
  all_goals
    cases hp.symm.trans hs
    simp [ha, hn]
  exact hne

-- As long as no retry fails, the budget is kept; afterwards it is exceeded for good.
theorem TurnRun.budget (r : TurnRun os tools s steps t out) :
    ((∀ step ∈ steps, ¬RetryFails os step) → WithinBudget (tally t) out.value out.state) ∧
      (∀ step ∈ steps, RetryFails os step → 2 ≤ (tally t).1) := by
  induction r
  case turn body answers =>
    refine ⟨fun _ => ?_, nofun⟩
    rw [tally_handle_turn]
    exact turnIn_withinBudget
  case decision body answers steps t out _ hw ha hi =>
    have ⟨pending, ha⟩ := Option.isSome_iff_exists.mp ha
    have hn (hs : ∀ step ∈ steps, ¬RetryFails os step) :=
      ((hi.1 hs).2.2 hw).tally_eq (pendingToolCall_of_accepted ha)
    rw [tally_append, tally_handle_decision ha, handle_decision ha]
    by_cases hr : AgentRequest.approved body ∧ FailsRetriably os (out.state.setPending none) pending
    case pos =>
      have hd := @resolvePending_retried W os (out.state.setPending none) answers tools pending
        (extractJsonStringField body "reason") hr.2
      rw [← hr.1] at hd
      refine ⟨fun hs => ?_, fun step hs hf => ?_⟩
      case refine_1 =>
        rw [List.forall_mem_append, List.forall_mem_singleton, retryFails_iff ha] at hs
        have hact : pending.actions = [] := by
          by_contra hne
          exact hs.2 ⟨hne, hr⟩
        rw [hn hs.1, if_pos hact, hd.1]
        refine ⟨by decide, by decide, fun hw => ?_⟩
        have ⟨actions, hne, hp⟩ := hd.2 hw
        exact .inr ⟨actions, hne, hp, rfl⟩
      case refine_2 =>
        rw [hd.1]
        by_cases hb : ∀ step ∈ steps, ¬RetryFails os step
        case neg =>
          have ⟨step, hs, hf⟩ : ∃ step ∈ steps, RetryFails os step := by simpa using hb
          exact Nat.le_trans (hi.2 step hs hf) (Nat.le_add_right _ _)
        case pos =>
          obtain hs | hs := List.mem_append.mp hs
          · exact absurd hf (hb step hs)
          · rw [List.mem_singleton.mp hs, retryFails_iff ha] at hf
            rw [hn hb, if_neg hf.1]
            decide
    case neg =>
      have hd := @resolvePending_notRetried W os (out.state.setPending none) answers tools pending
        (extractJsonStringField body "reason") _ hr
      rw [hd.1, add_zero]
      refine ⟨fun hs => ?_, fun step hs hf => ?_⟩
      case refine_1 =>
        rw [List.forall_mem_append] at hs
        have ⟨h₁, h₂, _⟩ := hi.1 hs.1
        exact ⟨h₁, h₂, fun hw => absurd hw hd.2⟩
      case refine_2 =>
        obtain hs | hs := List.mem_append.mp hs
        · exact hi.2 step hs hf
        · rw [List.mem_singleton.mp hs, retryFails_iff ha] at hf
          exact absurd hf.2 hr

theorem oneRetry_iff (r : TurnRun os tools s steps t out) :
    (tally t).1 ≤ 1 ∧ (tally t).2 ≤ 2 ↔ ∀ step ∈ steps, ¬RetryFails os step := by
  constructor
  case mp =>
    intro h step hs hf
    have := r.budget.2 step hs hf
    omega
  case mpr =>
    intro h
    have ⟨h₁, h₂, _⟩ := r.budget.1 h
    exact ⟨h₁, h₂⟩

section SecondRetry

def listing : Provider :=
  .proposing "run_command" (jsonObject [jsonStringField "command" "dir"])

def approval : Bytes :=
  jsonObject [jsonBoolField "approved" true]

-- A turn proposes a command; it fails when it is approved, the retry proposes it again, and it
-- fails once more when it is approved again.
def afterProposal : Prog.Outcome AgentRes (Option AgentResponse) (AgentWorld Unit) :=
  (AgentRequest.turn (jsonObject [jsonStringField "message" "list"])).handle Os.failing [] listing
    .fresh

def afterFailure : Prog.Outcome AgentRes (Option AgentResponse) (AgentWorld Unit) :=
  (AgentRequest.toolDecision approval).handle Os.failing [] listing afterProposal.state

theorem turnRun_failure : TurnRun Os.failing [] .fresh [(afterProposal.state, approval)]
    (afterProposal.trace ++ afterFailure.trace) afterFailure :=
  .decision approval listing (.turn _ listing) (by decide +kernel) (by decide +kernel)

theorem oneRetry_iff_failure :
    (tally (afterProposal.trace ++ afterFailure.trace)).1 ≤ 1 ∧
        (tally (afterProposal.trace ++ afterFailure.trace)).2 ≤ 2 ↔
      ∀ step ∈ [(afterProposal.state, approval)], ¬RetryFails Os.failing step :=
  oneRetry_iff turnRun_failure

theorem not_oneRetry :
    ¬∀ steps t out, TurnRun Os.failing [] .fresh steps t out →
      (tally t).1 ≤ 1 ∧ (tally t).2 ≤ 2 := by
  intro h
  have r := turnRun_failure.decision approval listing (by decide +kernel) (by decide +kernel)
  exact absurd (h _ _ _ r) (by decide +kernel)

end SecondRetry
end Droidcli.Cli
