import Droidcli.Cli.Theorems.Transcript

namespace Droidcli.Cli

open Bytes Net Ai Interaction Prog

-- The store does not tell these two sessions apart.
def SameSession (sessionId other : Bytes) : Prop :=
  cstr sessionId = cstr other

instance (sessionId other : Bytes) : Decidable (SameSession sessionId other) :=
  inferInstanceAs (Decidable (_ = _))

-- With these events a request begins to work for a session: it opens the session, or takes the
-- call that was pending for it.
def EntersSession (sessionId : Bytes) : Event AgentRes → Prop
  | ⟨.openSession _ _, current⟩      => SameSession current sessionId
  | ⟨.takePending _, some pending⟩   => SameSession pending.sessionId sessionId
  | _                                => False

instance (sessionId : Bytes) : (e : Event AgentRes) → Decidable (EntersSession sessionId e)
  | ⟨.openSession _ _, _⟩      => inferInstanceAs (Decidable (SameSession _ _))
  | ⟨.takePending _, some _⟩   => inferInstanceAs (Decidable (SameSession _ _))
  | ⟨.takePending _, none⟩ | ⟨.abandonPending _, _⟩ | ⟨.pause _, _⟩ | ⟨.record _ _ _, _⟩
  | ⟨.log _, _⟩ | ⟨.aiEnabled, _⟩ | ⟨.seedPrompt, _⟩ | ⟨.transcript, _⟩ | ⟨.makeModelProvider, _⟩
  | ⟨.post _, _⟩ | ⟨.elapsedMs, _⟩ | ⟨.executeTool _ _, _⟩ | ⟨.precheck _, _⟩
  | ⟨.deleteSession _, _⟩ => inferInstanceAs (Decidable False)

-- With these operations it leaves something behind for a session.
def WorksFor (sessionId : Bytes) : AgentOp → Prop
  | .record s _ _  => SameSession s sessionId
  | .pause pending => SameSession pending.sessionId sessionId
  | _              => False

section Entering

variable {sessionId other : Bytes} {tools : List ToolDefinition} {o : AgentOp}
  {u v : List (Event AgentRes)} {e : Event AgentRes} {q : AgentM (Option AgentResponse)}

theorem SessionOp.sameSession (h : SessionOp other o) (hw : WorksFor sessionId o) :
    SameSession other sessionId := by
  cases o
  case record => exact h ▸ hw
  case pause  => exact h ▸ hw
  all_goals cases hw

-- Behind its first step a request works for one session only, and the first step names it.
theorem enters_of_emits {first : Event AgentRes} {p : AgentM (Option AgentResponse)}
    (hp : p.Always (SessionOp other ·.op))
    (hf : SameSession other sessionId → EntersSession sessionId first)
    (hw : WorksFor sessionId e.op) (hfirst : ¬WorksFor sessionId first.op)
    (h : Emits p v q) (he : u ++ [e] = first :: v) : ∃ e' ∈ u, EntersSession sessionId e' := by
  cases u
  case nil =>
    have ⟨he, _⟩ := List.cons.inj he
    exact absurd (he ▸ hw) hfirst
  case cons e' u =>
    have ⟨hee, he⟩ := List.cons.inj he
    have hm : e ∈ v := he ▸ List.mem_append_right _ (List.mem_singleton_self e)
    have hs := (h.always hp).1 e hm
    exact ⟨e', by simp, hee ▸ hf (hs.sameSession hw)⟩

theorem AgentRequest.enters {request : AgentRequest} (h : Emits (request.serve tools) (u ++ [e]) q)
    (hw : WorksFor sessionId e.op) : ∃ e' ∈ u, EntersSession sessionId e' := by
  cases request
  case turn body =>
    cases h.op_inv
    case inl h => simp at h
    case inr h =>
      have ⟨current, v, he, hk⟩ := h
      exact enters_of_emits turnIn_session id hw id hk he
  case toolDecision body =>
    cases h.op_inv
    case inl h => simp at h
    case inr h =>
      have ⟨taken, v, he, hk⟩ := h
      cases taken
      case none =>
        cases hk.ret_inv
        have ⟨_, he⟩ := List.append_inj' (he.trans (List.nil_append _).symm) rfl
        rw [(List.cons.inj he).left] at hw
        cases hw
      case some pending => exact enters_of_emits resolvePending_session id hw id hk he
  case deleteSession body =>
    have hd : (deleteAgentSessionJson body).Always fun e => ¬WorksFor sessionId e.op := by
      apply always_bind (always_perform.mpr fun _ => id)
      intro deleted
      apply always_bind (always_perform.mpr fun _ => id)
      exact fun _ => always_ret
    exact absurd hw <| (h.always hd).1 e (by simp)

end Entering

variable {W : Type} {os : Os W} {s : AgentWorld W} {provider : Provider} {sessionId : Bytes}
  {o : AgentOp}

-- Nothing of the session is left, and nothing leads back to it.
structure AgentWorld.Forgotten (sessionId : Bytes) (s : AgentWorld W) : Prop where
  rows    : s.agent.memoryStore.rowsOf sessionId = []
  current : ¬SameSession s.agent.currentSessionId sessionId
  pending : ∀ pending ∈ s.agent.pendingToolCall, ¬SameSession pending.sessionId sessionId

-- The conditions under which a step does not lead back to a session: no request names it, and no
-- new session gets its id.
def Apart (os : Os W) (sessionId : Bytes) : AgentOp → AgentWorld W → Prop
  | .openSession true _, s          => ¬SameSession (s.generateSessionId os) sessionId
  | .openSession false requested, _ => requested ≠ [] → ¬SameSession requested sessionId
  | .deleteSession _, s             => ¬SameSession (s.generateSessionId os) sessionId
  | _, _                            => True

instance (os : Os W) (sessionId : Bytes) :
    (o : AgentOp) → (s : AgentWorld W) → Decidable (Apart os sessionId o s)
  | .openSession true _, _          => inferInstanceAs (Decidable (¬_))
  | .openSession false requested, _ => inferInstanceAs (Decidable (requested ≠ [] → ¬_))
  | .deleteSession _, _             => inferInstanceAs (Decidable (¬_))
  | .abandonPending _, _ | .takePending _, _ | .pause _, _ | .record _ _ _, _ | .log _, _
  | .aiEnabled, _ | .seedPrompt, _ | .transcript, _ | .makeModelProvider, _ | .post _, _
  | .elapsedMs, _ | .executeTool _ _, _ | .precheck _, _ => inferInstanceAs (Decidable True)

namespace AgentWorld.Forgotten

theorem openSession {clear : Bool} {requested : Bytes} (h : s.Forgotten sessionId)
    (ha : Apart os sessionId (.openSession clear requested) s) :
    (s.openSession os clear requested).Forgotten sessionId := by
  unfold AgentWorld.openSession
  cases clear
  case true => exact ⟨h.rows, ha, h.pending⟩
  case false =>
    rw [if_neg (by decide)]
    split_ifs with hr
    case pos => exact ⟨h.rows, ha hr.left, h.pending⟩
    case neg => exact h

theorem recordAgentMessage {other : Bytes} {role : ChatRole} {content : Bytes}
    (h : s.Forgotten sessionId) (hw : ¬SameSession other sessionId) :
    (s.recordAgentMessage other role content).Forgotten sessionId := by
  refine ⟨?_, h.current, h.pending⟩
  cases ho : s.agent.memoryStore.isOpen
  case false => simpa [AgentWorld.recordAgentMessage, MemoryStore.append, ho] using h.rows
  case true =>
    rw [AgentWorld.recordAgentMessage, MemoryStore.rowsOf_append ho, h.rows]
    exact if_neg hw

theorem deleteSession {requested : Bytes} (h : s.Forgotten sessionId)
    (ha : Apart os sessionId (.deleteSession requested) s) :
    (s.deleteSession os requested).2.Forgotten sessionId := by
  have hr (target : Bytes) :
      (s.agent.memoryStore.deleteSession target).2.rowsOf sessionId = [] := by
    cases ho : s.agent.memoryStore.isOpen
    case false => simpa [MemoryStore.deleteSession, ho] using h.rows
    case true =>
      rw [MemoryStore.rowsOf_deleteSession ho, h.rows]
      exact ite_self _
  unfold AgentWorld.deleteSession
  dsimp only
  split_ifs
  case pos => exact ⟨hr _, ha, h.pending⟩
  case pos => exact ⟨hr _, ha, h.pending⟩
  case neg => exact ⟨hr _, h.current, h.pending⟩
  case neg => exact ⟨hr _, h.current, h.pending⟩

theorem frame {s' : AgentWorld W} (pending : Option PendingAgentToolCall)
    (h : s.Forgotten sessionId) (ha : s'.agent = { s.agent with pendingToolCall := pending })
    (hp : ∀ p ∈ pending, ¬SameSession p.sessionId sessionId) : s'.Forgotten sessionId where
  rows    := by rw [ha]; exact h.rows
  current := by rw [ha]; exact h.current
  pending := by rw [ha]; exact hp

theorem step (h : s.Forgotten sessionId) (hw : ¬WorksFor sessionId o) (ha : Apart os sessionId o s) :
    (agentHandler os provider o s).2.Forgotten sessionId ∧
      ¬EntersSession sessionId ⟨o, (agentHandler os provider o s).1⟩ := by
  cases o
  case openSession clear requested =>
    have hs := h.openSession ha
    exact ⟨hs.frame _ rfl hs.pending, hs.current⟩
  case abandonPending other =>
    cases hp : s.isPendingIn other
    case false => exact ⟨by simpa [agentHandler, hp] using h, id⟩
    case true  => exact ⟨by simpa [agentHandler, hp] using h.frame none rfl (by simp), id⟩
  case takePending requested =>
    cases hp : s.acceptedPending requested
    case none => simpa [agentHandler, hp] using ⟨h, id⟩
    case some pending =>
      have hs : ¬SameSession pending.sessionId sessionId :=
        h.pending pending (pendingToolCall_of_accepted hp)
      simpa [agentHandler, hp] using ⟨h.frame none rfl (by simp), hs⟩
  case pause pending =>
    have hp : ∀ p ∈ some pending, ¬SameSession p.sessionId sessionId := by
      intro p hp
      exact Option.mem_some_iff.mp hp ▸ hw
    exact ⟨h.frame (some pending) rfl hp, id⟩
  case record => exact ⟨(h.recordAgentMessage hw).frame _ rfl h.pending, id⟩
  case deleteSession requested =>
    have hs := h.deleteSession ha
    exact ⟨hs.frame _ rfl hs.pending, id⟩
  all_goals exact ⟨h.frame _ rfl h.pending, id⟩

end AgentWorld.Forgotten

section Runs

variable {tools : List ToolDefinition} {providers : Nat → Provider} {requests : Nat → AgentRequest}
  {t u : List (Nat × Event AgentRes)} {d e : AgentPool W} {i : Nat} {requested : Bytes}
  {k : DeletedSession → AgentM (Option AgentResponse)}

-- The conditions on the state before a session is deleted: no request is at work for it, no call
-- of it is pending, and it does not become the current session again.
structure Deletable (os : Os W) (sessionId : Bytes) (t : List (Nat × Event AgentRes))
    (d : AgentPool W) : Prop where
  idle    : ∀ j, ∀ e ∈ Pool.eventsOf j t, EntersSession sessionId e → ∃ a, d.threads j = .ret a
  pending : ∀ pending ∈ d.state.agent.pendingToolCall, ¬SameSession pending.sessionId sessionId
  current :
    if sessionId = d.state.agent.currentSessionId then
      ¬SameSession (d.state.generateSessionId os) sessionId
    else ¬SameSession d.state.agent.currentSessionId sessionId

-- What a deletion promises of the events `u` behind it, which end in the state `s`.
structure StaysDeleted (sessionId : Bytes) (t u : List (Nat × Event AgentRes)) (s : AgentWorld W) :
    Prop where
  -- No record is stored under the session,
  stored   : ∀ j other role content,
    (j, ⟨.record other role content, ()⟩) ∈ u → ¬SameSession other sessionId
  rows     : s.agent.memoryStore.rowsOf sessionId = []
  -- and what is executed was not pending for it.
  executed : ∀ j toolName argumentsJson result requested pending,
    (j, ⟨.executeTool toolName argumentsJson, result⟩) ∈ u →
    (j, ⟨.takePending requested, some pending⟩) ∈ t ++ u → ¬SameSession pending.sessionId sessionId

-- The pool as the deletion leaves it.
def afterDeletion (os : Os W) (d : AgentPool W) (i : Nat) (requested : Bytes)
    (k : DeletedSession → AgentM (Option AgentResponse)) : AgentPool W :=
  ⟨(d.state.deleteSession os requested).2.passTime os,
    Function.update d.threads i (k (d.state.deleteSession os requested).1)⟩

theorem Deletable.forgotten {deleted : DeletedSession} (hd : Deletable os deleted.sessionId t d)
    (he : (d.state.deleteSession os requested).1 = deleted) (ho : deleted.ok) :
    (d.state.deleteSession os requested).2.Forgotten deleted.sessionId := by
  have hc := hd.current
  have hp := hd.pending
  rw [← he] at ho hc hp ⊢
  unfold AgentWorld.deleteSession at ho hc hp ⊢
  dsimp only at ho hc hp ⊢
  generalize (if requested = [] then d.state.agent.currentSessionId else requested) = target
    at ho hc hp ⊢
  have hopen : d.state.agent.memoryStore.isOpen := by
    cases hs : d.state.agent.memoryStore.isOpen
    case true  => rfl
    case false => split_ifs at ho <;> simp [MemoryStore.deleteSession, hs] at ho
  have hrows : (d.state.agent.memoryStore.deleteSession target).2.rowsOf target = [] := by
    rw [MemoryStore.rowsOf_deleteSession hopen]
    exact if_pos rfl
  split_ifs at hc hp ⊢ with ht
  case pos => exact ⟨hrows, hc, hp⟩
  case neg => exact ⟨hrows, hc, hp⟩

-- Once nothing leads back to a session, no request enters it and nothing is done for it.
theorem Forgotten.guarded (hr : (AgentPool.start tools s requests).Run os providers t d)
    (hi : ∀ j, ∀ e ∈ Pool.eventsOf j t, EntersSession sessionId e → ∃ a, d.threads j = .ret a)
    (hf : d.state.Forgotten sessionId)
    (g : d.Guarded (Apart os sessionId) (fun j => agentHandler os (providers j)) u e) :
    e.state.Forgotten sessionId ∧
      ∀ x ∈ u, ¬EntersSession sessionId x.2 ∧ ¬WorksFor sessionId x.2.op := by
  induction g
  case refl => exact ⟨hf, by simp⟩
  case step u e j o k g hj ha hi' =>
    have ⟨hf', hu⟩ := hi'
    have hw : ¬WorksFor sessionId o := by
      intro hw
      have he : Emits ((requests j).serve tools) (Pool.eventsOf j (t ++ u)) (.op o k) := by
        rw [Pool.eventsOf_append]
        exact hj ▸ hr.emits.append g.run.emits
      have ⟨e', hm, hen⟩ := AgentRequest.enters (e := ⟨o, (agentHandler os (providers j) o e.state).1⟩)
        he.snoc hw
      rw [Pool.eventsOf_append] at hm
      cases List.mem_append.mp hm
      case inl hm =>
        have ⟨a, hret⟩ := hi j e' hm hen
        exact Emits.ne_op_of_ret (hret ▸ hj ▸ g.run.emits)
      case inr hm => exact (hu (j, e') (Pool.mem_eventsOf.mp hm)).left hen
    refine (hf'.step hw ha).imp id fun hn => ?_
    simp only [List.forall_mem_append, List.forall_mem_singleton]
    exact ⟨hu, hn, hw⟩

-- Deleting a session is final if no request is at work for it, no call is pending for it, and no
-- later request names it.
theorem staysDeleted {deleted : DeletedSession}
    (hr : (AgentPool.start tools s requests).Run os providers t d)
    (hi : d.threads i = .op (.deleteSession requested) k)
    (he : (d.state.deleteSession os requested).1 = deleted) (ho : deleted.ok)
    (hd : Deletable os deleted.sessionId t d)
    (g : (afterDeletion os d i requested k).Guarded (Apart os deleted.sessionId)
      (fun j => agentHandler os (providers j)) u e) :
    StaysDeleted deleted.sessionId t u e.state := by
  let deletion : Event AgentRes :=
    ⟨.deleteSession requested, (d.state.deleteSession os requested).1⟩
  have hr' : (AgentPool.start tools s requests).Run os providers (t ++ [(i, deletion)])
    (afterDeletion os d i requested k) := hr.step hi
  have hidle : ∀ j, ∀ e ∈ Pool.eventsOf j (t ++ [(i, deletion)]),
      EntersSession deleted.sessionId e →
        ∃ a, (afterDeletion os d i requested k).threads j = .ret a := by
    intro j e hm hen
    rw [Pool.eventsOf_append] at hm
    cases List.mem_append.mp hm
    case inl hm =>
      have ⟨a, ha⟩ := hd.idle j e hm hen
      have hne : j ≠ i := by
        intro hj
        rw [hj, hi] at ha
        cases ha
      exact ⟨a, by simpa [afterDeletion, hne] using ha⟩
    case inr hm =>
      have hm := List.mem_singleton.mp (Pool.mem_eventsOf.mp hm)
      rw [(Prod.mk.inj hm).right] at hen
      cases hen
  have hf := hd.forgotten he ho
  have hf : ((d.state.deleteSession os requested).2.passTime os).Forgotten deleted.sessionId :=
    hf.frame _ rfl hf.pending
  have ⟨hend, hu⟩ := Forgotten.guarded hr' hidle hf g
  refine ⟨fun j other role content hm => (hu _ hm).right, hend.rows, ?_⟩
  intro j toolName argumentsJson result requested pending hx hm
  cases List.mem_append.mp hm
  case inl hm =>
    intro hs
    have ⟨a, ha⟩ := hidle j ⟨.takePending requested, some pending⟩
      (by rw [Pool.eventsOf_append]; exact List.mem_append_left _ (Pool.mem_eventsOf.mpr hm)) hs
    have hn := (ha ▸ g.run.emits).ret_inv (q := e.threads j)
    exact absurd (Pool.mem_eventsOf.mpr hx) (hn ▸ List.not_mem_nil)
  case inr hm => exact (hu _ hm).left

end Runs

section Examples

def deleteBody : Bytes := jsonObject []

def approveBody : Bytes := jsonObject [jsonBoolField "approved" true]

-- A session of one message is deleted; then a new one has a command approved.
def deletionRequests : Nat → AgentRequest
  | 0 => .turn (jsonObject [jsonStringField "message" "hi"])
  | 1 => .deleteSession deleteBody
  | 2 => .turn (jsonObject [jsonStringField "message" "list"])
  | _ => .toolDecision approveBody

def deletionProvider : Nat → Provider
  | 2 => .proposing "run_command" (jsonObject [jsonStringField "command" "dir"])
  | _ => .saying "Hello."

def deletionRun (order : List Nat) : List (Nat × Event AgentRes) × AgentPool Unit :=
  Pool.serially (fun i => agentHandler Os.idle (deletionProvider i)) order
    (AgentPool.start [] AgentWorld.fresh deletionRequests)

theorem deletionRun_run (order : List Nat) :
    (AgentPool.start [] AgentWorld.fresh deletionRequests).Run Os.idle deletionProvider
      (deletionRun order).1 (deletionRun order).2 :=
  Pool.Run.serially .refl

def deletionRest (deleted : DeletedSession) : AgentM (Option AgentResponse) := do
  perform (.log ⟨"chat", "out", str "deleted session " ++ deleted.sessionId, deleted.ok⟩)
  return some (.deleted deleted)

def deletedPool : AgentPool Unit :=
  afterDeletion Os.idle (deletionRun [0]).2 1 [] deletionRest

theorem deletable_deletionRun : Deletable Os.idle "s" (deletionRun [0]).1 (deletionRun [0]).2 where
  idle j e hm hen := by
    have h0 : ∀ x ∈ (deletionRun [0]).1, x.1 = 0 := by decide +kernel
    have hj : j = 0 := h0 (j, e) (Pool.mem_eventsOf.mp hm)
    rw [hj]
    exact ⟨_, rfl⟩
  pending := by decide +kernel
  current := by decide +kernel

def deletedFirst : DeletedSession :=
  ⟨true, "s", some "19700101T000000-0"⟩

theorem staysDeleted_hi : ∃ u, ∃ s : AgentWorld Unit,
    0 < u.length ∧ StaysDeleted "s" (deletionRun [0]).1 u s := by
  have g : deletedPool.Guarded (Apart Os.idle "s")
    (fun j => agentHandler Os.idle (deletionProvider j)) [] deletedPool := .refl
  have g := g.thread (i := 2) rfl (by decide +kernel)
  have g := g.thread (i := 3) rfl (by decide +kernel)
  have he : ((deletionRun [0]).2.state.deleteSession Os.idle []).1 = deletedFirst := by decide +kernel
  have h := staysDeleted (deletionRun_run [0]) rfl he rfl deletable_deletionRun g
  exact ⟨_, _, by decide +kernel, h⟩

-- A call is pending when its session is deleted, and is approved afterwards without naming the
-- session.
def pendingWorld : AgentWorld Unit :=
  handleAll Os.idle [] [listRequest] .fresh

def pendingDeletion : Prog.Outcome AgentRes (Option AgentResponse) (AgentWorld Unit) :=
  (AgentRequest.deleteSession deleteBody).handle Os.idle [] (.saying []) pendingWorld

def lateApproval : Prog.Outcome AgentRes (Option AgentResponse) (AgentWorld Unit) :=
  (AgentRequest.toolDecision approveBody).handle Os.idle [] (.saying "Done.") pendingDeletion.state

theorem not_staysDeleted :
    ⟨.deleteSession [], ⟨true, "s", some "19700101T000000-0"⟩⟩ ∈ pendingDeletion.trace ∧
      pendingDeletion.state.agent.memoryStore.rowsOf "s" = [] ∧
      AgentRequest.sessionField approveBody = [] ∧
      (lateApproval.trace.any fun e => e.op =
        .executeTool "run_command" (jsonObject [jsonStringField "command" "dir"])) ∧
      lateApproval.state.agent.memoryStore.rowsOf "s" ≠ [] := by
  decide +kernel

end Examples
end Droidcli.Cli
