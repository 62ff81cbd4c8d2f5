import Droidcli.Cli.Theorems.AgentTurn

namespace Droidcli.Cli

open Bytes Net Ai Interaction Prog

-- What a request does on behalf of the session `sessionId`.
def SessionOp (sessionId : Bytes) : AgentOp → Prop
  | .record s _ _  => s = sessionId
  | .pause pending => pending.sessionId = sessionId
  | .openSession _ _ | .takePending _ | .deleteSession _ => False
  | _              => True

section Session

variable {sessionId : Bytes} {tools : List ToolDefinition} {o : AgentOp}

theorem TurnOp.session (h : TurnOp sessionId o) : SessionOp sessionId o := by
  cases o <;> simp_all [TurnOp, TailOp, SessionOp]

theorem turnIn_session {userMessage : Bytes} :
    (turnIn tools userMessage sessionId).Always (SessionOp sessionId ·.op) :=
  turnIn_always.mono fun _ h => h.session

variable {pending : PendingAgentToolCall} {approved : Bool}

theorem recordDecision_session {result : Option Bytes} :
    (recordDecision tools pending approved result).Always (SessionOp pending.sessionId ·.op) :=
  recordDecision_tail.mono fun _ h => h.turn.session

theorem resolvePending_session {reason : Bytes} :
    (resolvePending tools pending approved reason).Always (SessionOp pending.sessionId ·.op) := by
  cases approved
  case false =>
    rw [resolvePending_declined]
    exact recordDecision_session
  case true =>
    rw [resolvePending_approved]
    exact always_bind (always_perform.mpr fun _ => trivial) fun _ => recordDecision_session

end Session

section Store

namespace MemoryStore

variable {store : MemoryStore} {sessionId other role content : Bytes} {hopIndex : Int}

-- The rows of a session carry the indices from 0 on, in the order in which they were added.
def Indexed (store : MemoryStore) : Prop :=
  ∀ sessionId, (store.rowsOf sessionId).map (·.hopIndex) =
    (List.range (store.rowsOf sessionId).length).map (↑)

theorem Indexed.loadSession (h : store.Indexed) (ho : store.isOpen) :
    store.loadSession sessionId = store.rowsOf sessionId := by
  have hp : ((store.rowsOf sessionId).map (·.hopIndex)).Pairwise (· ≤ ·) := by
    rw [h sessionId, List.pairwise_map]
    exact List.pairwise_lt_range.imp fun h => by omega
  rw [List.pairwise_map] at hp
  simp only [MemoryStore.loadSession, ho, if_true]
  exact List.mergeSort_of_pairwise (hp.imp fun h => by simpa using h)

theorem rowsOf_append (ho : store.isOpen) :
    (store.append sessionId hopIndex role content).rowsOf other =
      store.rowsOf other ++
        if cstr sessionId = cstr other then [⟨cstr sessionId, hopIndex, cstr role, cstr content⟩]
        else [] := by
  by_cases h : cstr sessionId = cstr other <;> simp [append, ho, rowsOf, h]

theorem isOpen_append : (store.append sessionId hopIndex role content).isOpen = store.isOpen := by
  cases ho : store.isOpen <;> simp [append, ho]

theorem rowsOf_congr (h : cstr sessionId = cstr other) :
    store.rowsOf sessionId = store.rowsOf other := by
  simp [rowsOf, h]

theorem Indexed.append (h : store.Indexed) (ho : store.isOpen) :
    (store.append sessionId (store.rowsOf sessionId).length role content).Indexed := by
  intro other
  rw [rowsOf_append ho]
  split_ifs with hc
  case pos => simp [h other, rowsOf_congr hc, List.range_succ]
  case neg => simpa using h other

theorem rowsOf_deleteSession (ho : store.isOpen) :
    (store.deleteSession sessionId).2.rowsOf other =
      if cstr sessionId = cstr other then [] else store.rowsOf other := by
  split_ifs with h
  case pos => simp [deleteSession, ho, rowsOf, List.filter_filter, h]
  case neg =>
    simp only [deleteSession, ho, rowsOf, List.filter_filter, if_true]
    refine List.filter_congr fun row _ => ?_
    simp only [ne_eq, decide_not, Bool.and_eq_left_iff_imp, decide_eq_true_eq,
      Bool.not_eq_eq_eq_not, Bool.not_true, decide_eq_false_iff_not]
    intro ho hs
    exact h (hs.symm.trans ho)

theorem isOpen_deleteSession : (store.deleteSession sessionId).2.isOpen = store.isOpen := by
  cases ho : store.isOpen <;> simp [deleteSession, ho]

theorem Indexed.deleteSession (h : store.Indexed) (ho : store.isOpen) :
    (store.deleteSession sessionId).2.Indexed := by
  intro other
  rw [rowsOf_deleteSession ho]
  split_ifs
  case pos => rfl
  case neg => exact h other

end MemoryStore

def messageOf (row : MemoryRecord) : ChatMessage :=
  ⟨.ofText row.role, row.content⟩

end Store

variable {W : Type} {os : Os W} {s : AgentWorld W} {sessionId : Bytes}

theorem nul_not_mem_generateSessionId : nul ∉ s.generateSessionId os := by
  simp only [AgentWorld.generateSessionId, List.mem_append, not_or]
  exact ⟨⟨nul_not_mem_cstr, by decide⟩, nul_not_mem_hexadecimal⟩

-- The transcript is what the store holds of the current session, and every session's rows are
-- numbered from 0 on.
structure AgentWorld.InSync (s : AgentWorld W) : Prop where
  isOpen     : s.agent.memoryStore.isOpen
  indexed    : s.agent.memoryStore.Indexed
  transcript :
    s.agent.agentTranscript = (s.agent.memoryStore.rowsOf s.agent.currentSessionId).map messageOf

-- What is promised after each request.
structure AgentWorld.Agrees (s : AgentWorld W) : Prop where
  transcript : s.agent.agentTranscript =
    AgentWorld.messagesOf s.agent.memoryStore s.agent.currentSessionId
  indices : ∀ sessionId, (s.agent.memoryStore.loadSession sessionId).map (·.hopIndex) =
    (List.range (s.agent.memoryStore.loadSession sessionId).length).map (↑)

-- The conditions under which a step keeps the transcript and the store in agreement.
def InStep (os : Os W) : AgentOp → AgentWorld W → Prop
  -- A new session id is not the id of a stored session.
  | .openSession true _, s => s.agent.memoryStore.rowsOf (s.generateSessionId os) = []
  -- A decision takes a call of the current session.
  | .takePending requested, s => ∀ pending ∈ s.acceptedPending requested,
      cstr pending.sessionId = cstr s.agent.currentSessionId
  -- What is recorded contains no NUL, and its index fits into 32 bits.
  | .record _ _ content, s => nul ∉ content ∧ s.agent.agentTranscript.length + 1 < 2 ^ 31
  -- A deletion that names another id than the current one does not mean the current session's
  -- messages, and the id after a deletion is new.
  | .deleteSession requested, s =>
    let target := if requested = [] then s.agent.currentSessionId else requested
    let left := (s.agent.memoryStore.deleteSession target).2
    if target = s.agent.currentSessionId then left.rowsOf (s.generateSessionId os) = []
    else cstr target = cstr s.agent.currentSessionId →
      s.agent.memoryStore.rowsOf s.agent.currentSessionId = []
  | _, _ => True

instance : (o : AgentOp) → (s : AgentWorld W) → Decidable (InStep os o s)
  | .openSession true _, _       => inferInstanceAs (Decidable (_ = _))
  | .takePending requested, s    =>
    inferInstanceAs (Decidable (∀ pending ∈ s.acceptedPending requested, _ = _))
  | .record _ _ _, _             => inferInstanceAs (Decidable (_ ∧ _))
  | .deleteSession requested, _  =>
    inferInstanceAs (Decidable (if (if requested = [] then _ else _) = _ then _ else _ → _))
  | .openSession false _, _ | .abandonPending _, _ | .pause _, _ | .log _, _ | .aiEnabled, _
  | .seedPrompt, _ | .transcript, _ | .makeModelProvider, _ | .post _, _ | .elapsedMs, _
  | .executeTool _ _, _ | .precheck _, _ => inferInstanceAs (Decidable True)

namespace AgentWorld.InSync

theorem agrees (h : s.InSync) : s.Agrees where
  transcript := by
    rw [h.transcript, messagesOf, h.indexed.loadSession h.isOpen]
    rfl
  indices sessionId := by
    rw [h.indexed.loadSession h.isOpen]
    exact h.indexed sessionId

theorem length_transcript (h : s.InSync) : s.agent.agentTranscript.length =
    (s.agent.memoryStore.rowsOf s.agent.currentSessionId).length := by
  rw [h.transcript, List.length_map]

theorem recordAgentMessage {role : ChatRole} {content : Bytes} (h : s.InSync)
    (hs : cstr sessionId = cstr s.agent.currentSessionId) (hc : nul ∉ content)
    (hl : s.agent.agentTranscript.length + 1 < 2 ^ 31) :
    (s.recordAgentMessage sessionId role content).InSync := by
  have hstore : (s.recordAgentMessage sessionId role content).agent.memoryStore =
      s.agent.memoryStore.append sessionId (s.agent.memoryStore.rowsOf sessionId).length
        role.toText content := by
    simp only [AgentWorld.recordAgentMessage, List.length_append, List.length_singleton,
      MemoryStore.rowsOf_congr hs, ← h.length_transcript]
    rw [Int.bmod_eq_of_le (by omega) (by omega)]
    simp
  refine ⟨?_, ?_, ?_⟩
  · rw [hstore, MemoryStore.isOpen_append, h.isOpen]
  · exact hstore ▸ h.indexed.append h.isOpen
  · rw [hstore]
    simp only [AgentWorld.recordAgentMessage, MemoryStore.rowsOf_append h.isOpen, hs, if_true,
      List.map_append, ← h.transcript, List.map_cons, List.map_nil, messageOf]
    rw [cstr_eq_self hc, cstr_eq_self role.nul_not_mem_toText, role.ofText_toText]

theorem startSession (h : s.InSync)
    (hn : s.agent.memoryStore.rowsOf (s.generateSessionId os) = []) : (s.startSession os).InSync where
  isOpen     := h.isOpen
  indexed    := h.indexed
  transcript := by simp [AgentWorld.startSession, hn]

theorem switchSession (h : s.InSync) : (s.switchSession sessionId).InSync where
  isOpen     := h.isOpen
  indexed    := h.indexed
  transcript := by
    simp only [AgentWorld.switchSession, messagesOf, h.indexed.loadSession h.isOpen]
    rfl

theorem of_agent {s' : AgentWorld W} {pending : Option PendingAgentToolCall} (h : s.InSync)
    (ha : s'.agent = { s.agent with pendingToolCall := pending }) : s'.InSync where
  isOpen     := by rw [ha]; exact h.isOpen
  indexed    := by rw [ha]; exact h.indexed
  transcript := by rw [ha]; exact h.transcript

theorem deleteSession {requested : Bytes} (h : s.InSync)
    (hi : InStep os (.deleteSession requested) s) : (s.deleteSession os requested).2.InSync := by
  simp only [AgentWorld.deleteSession, InStep] at hi ⊢
  generalize (if requested = [] then s.agent.currentSessionId else requested) = target at hi ⊢
  have ho : (s.agent.memoryStore.deleteSession target).2.isOpen := by
    rw [MemoryStore.isOpen_deleteSession, h.isOpen]
  have hx : (s.agent.memoryStore.deleteSession target).2.Indexed :=
    h.indexed.deleteSession h.isOpen
  split_ifs at hi ⊢
  case pos => exact ⟨ho, hx, (congrArg (List.map messageOf) hi).symm⟩
  case neg =>
    refine ⟨ho, hx, ?_⟩
    simp only [MemoryStore.rowsOf_deleteSession h.isOpen, h.transcript]
    split_ifs with hc
    case pos => rw [hi hc]
    case neg => rfl

end AgentWorld.InSync

-- The messages of all sessions stay as they are.
def KeepsMessages : AgentOp → Prop
  | .openSession _ _ | .record _ _ _ | .deleteSession _ => False
  | _                                                   => True

variable {provider : Provider} {o : AgentOp}

theorem agentHandler_frame (ho : KeepsMessages o) : ∃ pending,
    (agentHandler os provider o s).2.agent = { s.agent with pendingToolCall := pending } := by
  cases o
  case openSession   => cases ho
  case record        => cases ho
  case deleteSession => cases ho
  case abandonPending sessionId =>
    cases h : s.isPendingIn sessionId <;> exact ⟨_, by simp [agentHandler, h]; rfl⟩
  case takePending requested =>
    cases h : s.acceptedPending requested <;> exact ⟨_, by simp [agentHandler, h]; rfl⟩
  all_goals exact ⟨_, rfl⟩

-- The transcript is in sync, and the session is the current one.
def InSyncFor (sessionId : Bytes) (s : AgentWorld W) : Prop :=
  s.InSync ∧ cstr s.agent.currentSessionId = cstr sessionId

theorem InSyncFor.step (h : InSyncFor sessionId s) (ho : SessionOp sessionId o)
    (hi : InStep os o s) : InSyncFor sessionId (agentHandler os provider o s).2 := by
  have hk (hk : KeepsMessages o) : InSyncFor sessionId (agentHandler os provider o s).2 := by
    have ⟨_, ha⟩ : ∃ pending, (agentHandler os provider o s).2.agent =
      { s.agent with pendingToolCall := pending } := agentHandler_frame hk
    exact ⟨h.1.of_agent ha, by rw [ha]; exact h.2⟩
  cases o
  case openSession   => cases ho
  case deleteSession => cases ho
  case record sessionId role content =>
    cases ho
    exact ⟨(h.1.recordAgentMessage h.2.symm hi.1 hi.2).of_agent rfl, h.2⟩
  all_goals exact hk trivial

theorem InSyncFor.run {α : Type} {p : AgentM α} (h : InSyncFor sessionId s)
    (hp : p.Always (SessionOp sessionId ·.op))
    (hm : p.Meets (agentHandler os provider) (InStep os) s) :
    (p.run (agentHandler os provider) s).state.InSync := by
  refine (Always.run_invariant (I := fun _ => InSyncFor sessionId) (t := []) ?_ hp hm h).1.1
  exact fun _ _ _ hs ho hi => hs.step ho hi

theorem AgentWorld.InSync.openSession {clear : Bool} {requested : Bytes} (h : s.InSync)
    (hi : InStep os (.openSession clear requested) s) :
    (s.openSession os clear requested).InSync := by
  unfold AgentWorld.openSession
  split_ifs with hc
  case pos =>
    subst hc
    exact h.startSession hi
  case pos => exact h.switchSession
  case neg => exact h

variable {tools : List ToolDefinition}

theorem AgentRequest.handle_inSync {request : AgentRequest} (h : s.InSync)
    (hm : (request.serve tools).Meets (agentHandler os provider) (InStep os) s) :
    (request.handle os tools provider s).state.InSync := by
  cases request
  case turn body =>
    have ⟨hi, hrest⟩ := meets_turn.mp hm
    have hs : InSyncFor (s.opened os body).agent.currentSessionId (s.opened os body) :=
      ⟨(h.openSession hi).of_agent rfl, rfl⟩
    rw [handle_turn]
    exact hs.run turnIn_session hrest
  case toolDecision body =>
    cases ha : s.acceptedPending (AgentRequest.sessionField body)
    case none =>
      rw [handle_rejected ha]
      exact h
    case some pending =>
      have ⟨hi, hrest⟩ := (meets_decision ha).mp hm
      have hs : InSyncFor pending.sessionId (s.setPending none) :=
        ⟨h.of_agent rfl, (hi pending ha).symm⟩
      rw [handle_decision ha]
      exact hs.run resolvePending_session hrest
  case deleteSession body => exact (h.deleteSession hm.1).of_agent rfl

theorem agrees_handleAll {requests : List (AgentRequest × Provider)} (h : s.InSync)
    (hm : MeetsAll os tools (InStep os) requests s) : (handleAll os tools requests s).Agrees := by
  induction requests generalizing s
  case nil => exact h.agrees
  case cons request requests hi => exact hi (AgentRequest.handle_inSync h hm.1) hm.2

section Drift

def listRequest : AgentRequest × Provider :=
  (.turn (jsonObject [jsonStringField "message" "list"]),
    .proposing "run_command" (jsonObject [jsonStringField "command" "dir"]))

-- The user moves on to a new session.
def clearRequest : AgentRequest × Provider :=
  (.turn (jsonObject [jsonBoolField "clear" true, jsonStringField "message" "hi"]), .saying "Hello.")

def approveRequest : AgentRequest × Provider :=
  (.toolDecision (jsonObject [jsonBoolField "approved" true]), .saying "Done.")

theorem AgentWorld.inSync_fresh : AgentWorld.fresh.InSync :=
  ⟨rfl, fun _ => rfl, rfl⟩

theorem agrees_handleAll_list :
    (handleAll Os.idle [] [listRequest, approveRequest, clearRequest] .fresh).Agrees :=
  agrees_handleAll AgentWorld.inSync_fresh
    ⟨by decide +kernel, by decide +kernel, by decide +kernel, trivial⟩

theorem length_messagesOf {store : MemoryStore} (ho : store.isOpen) :
    (AgentWorld.messagesOf store sessionId).length = (store.rowsOf sessionId).length := by
  simp [AgentWorld.messagesOf, MemoryStore.loadSession, ho]

theorem not_agrees_handleAll :
    ¬∀ requests, (handleAll Os.idle [] requests .fresh).Agrees := by
  intro h
  have h := congrArg List.length (h [listRequest, clearRequest, approveRequest]).transcript
  rw [length_messagesOf (by decide +kernel)] at h
  exact absurd h (by decide +kernel)

end Drift
end Droidcli.Cli
