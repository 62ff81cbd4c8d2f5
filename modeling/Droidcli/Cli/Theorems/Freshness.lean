import Droidcli.Cli.Theorems.Deletion

namespace Droidcli.Cli

open Bytes Net Ai Interaction Prog

-- The session that an event makes current and that it has made up an id for.
def newSession : Event AgentRes → Option Bytes
  | ⟨.openSession true _, sessionId⟩ => some sessionId
  | ⟨.deleteSession _, deleted⟩      => deleted.newSessionId
  | _                                => none

-- The session that an event makes current, be it a new one or not.
def openedSession : Event AgentRes → Option Bytes
  | ⟨.openSession _ _, sessionId⟩ => some sessionId
  | ⟨.deleteSession _, deleted⟩   => deleted.newSessionId
  | _                             => none

-- The event has removed the rows of the session.
def Removes (sessionId : Bytes) : Event AgentRes → Prop
  | ⟨.deleteSession _, deleted⟩ => deleted.ok ∧ SameSession deleted.sessionId sessionId
  | _                           => False

instance (sessionId : Bytes) : (e : Event AgentRes) → Decidable (Removes sessionId e)
  | ⟨.deleteSession _, _⟩ => inferInstanceAs (Decidable (_ ∧ _))
  | ⟨.openSession _ _, _⟩ | ⟨.takePending _, _⟩ | ⟨.abandonPending _, _⟩ | ⟨.pause _, _⟩
  | ⟨.record _ _ _, _⟩ | ⟨.log _, _⟩ | ⟨.aiEnabled, _⟩ | ⟨.seedPrompt, _⟩ | ⟨.transcript, _⟩
  | ⟨.makeModelProvider, _⟩ | ⟨.post _, _⟩ | ⟨.elapsedMs, _⟩ | ⟨.executeTool _ _, _⟩
  | ⟨.precheck _, _⟩ => inferInstanceAs (Decidable False)

variable {W : Type} {os : Os W} {s s₀ : AgentWorld W} {provider : Provider} {sessionId : Bytes}
  {o : AgentOp} {t u : List (Nat × Event AgentRes)} {x : Nat × Event AgentRes}

-- The sessions that have been current in this process, which began in the state `s₀`.
def usedSessions (s₀ : AgentWorld W) (t : List (Nat × Event AgentRes)) : List Bytes :=
  s₀.agent.currentSessionId :: t.filterMap (openedSession ·.2)

-- The store takes the session for one of these.
def Used (s₀ : AgentWorld W) (t : List (Nat × Event AgentRes)) (sessionId : Bytes) : Prop :=
  ∃ used ∈ usedSessions s₀ t, SameSession used sessionId

-- What the clock and the stack contribute to the id of a session.
def AgentWorld.seed (os : Os W) (s : AgentWorld W) : Bytes × Nat :=
  (cstr (os.sessionTimestamp s.machine), os.stackAddress s.machine % 2 ^ 16)

theorem generateSessionId_inj {s' : AgentWorld W} :
    s.generateSessionId os = s'.generateSessionId os ↔ s.seed os = s'.seed os := by
  have hm (n : Nat) : minus ∉ hexadecimal n := not_mem_hexadecimal (by decide)
  constructor
  case mp =>
    intro h
    have hd : str "-" = [minus] := by decide
    simp only [AgentWorld.generateSessionId, hd, List.append_assoc, List.singleton_append] at h
    have ha := eq_of_append_cons_eq (hm _) (hm _) h
    rw [ha] at h
    exact Prod.ext (List.append_cancel_right h) (hexadecimal_injective ha)
  case mpr =>
    intro h
    obtain ⟨ht, ha⟩ := Prod.mk.inj h
    simp only [AgentWorld.generateSessionId, ht, ha]

theorem SameSession.trans {a b c : Bytes} (h : SameSession a b) (h' : SameSession b c) :
    SameSession a c :=
  Eq.trans h h'

section Step

-- A new session gets the id that clock and stack spell.
theorem newSession_step (h : newSession ⟨o, (agentHandler os provider o s).1⟩ = some sessionId) :
    sessionId = s.generateSessionId os := by
  cases o
  case openSession clear requested =>
    cases clear
    case false => contradiction
    case true  => exact (Option.some.inj h).symm
  case deleteSession requested =>
    simp only [newSession, agentHandler, AgentWorld.deleteSession] at h
    split_ifs at h <;> exact (Option.some.inj h).symm
  all_goals contradiction

-- A session that is opened without a new id is the one that was asked for, or stays the same.
theorem openedSession_step
    (h : openedSession ⟨o, (agentHandler os provider o s).1⟩ = some sessionId) :
    newSession ⟨o, (agentHandler os provider o s).1⟩ = some sessionId ∨
      sessionId = s.agent.currentSessionId ∨
      sessionId ≠ [] ∧ o = .openSession false sessionId := by
  cases o
  case openSession clear requested =>
    cases clear
    case true => exact .inl h
    case false =>
      have h := Option.some.inj h
      simp only [agentHandler, AgentWorld.openSession] at h
      rw [if_neg (by decide)] at h
      split_ifs at h with hr
      case pos =>
        obtain rfl : requested = sessionId := h
        exact .inr (.inr ⟨hr.left, rfl⟩)
      case neg => exact .inr (.inl h.symm)
  case deleteSession => exact .inl h
  all_goals contradiction

theorem openSession_requested {requested : Bytes} (h : requested ≠ []) :
    (agentHandler os provider (.openSession false requested) s).1 = requested := by
  simp only [agentHandler, AgentWorld.openSession]
  rw [if_neg (by decide)]
  split_ifs with hr
  case pos => rfl
  case neg => exact (not_and_not_right.mp hr h).symm

theorem current_step :
    (agentHandler os provider o s).2.agent.currentSessionId = s.agent.currentSessionId ∨
      openedSession ⟨o, (agentHandler os provider o s).1⟩ =
        some (agentHandler os provider o s).2.agent.currentSessionId := by
  cases o
  case openSession => exact .inr rfl
  case deleteSession requested =>
    simp only [openedSession, agentHandler, AgentWorld.deleteSession]
    split_ifs
    case pos => exact .inr rfl
    case pos => exact .inr rfl
    case neg => exact .inl rfl
    case neg => exact .inl rfl
  case abandonPending other => simp only [agentHandler]; split_ifs <;> exact .inl rfl
  case takePending requested => simp only [agentHandler]; split <;> exact .inl rfl
  all_goals exact .inl rfl

theorem pending_step {pending : PendingAgentToolCall}
    (h : (agentHandler os provider o s).2.agent.pendingToolCall = some pending) :
    s.agent.pendingToolCall = some pending ∨ o = .pause pending := by
  cases o
  case pause other => exact .inr (congrArg _ (Option.some.inj h))
  case openSession clear requested =>
    simp only [agentHandler, AgentWorld.openSession] at h
    split_ifs at h <;> exact .inl h
  case deleteSession requested =>
    simp only [agentHandler, AgentWorld.deleteSession] at h
    split_ifs at h <;> exact .inl h
  case abandonPending other =>
    simp only [agentHandler] at h
    split_ifs at h
    case pos => contradiction
    case neg => exact .inl h
  case takePending requested =>
    simp only [agentHandler] at h
    split at h
    case h_1 => exact .inl h
    case h_2 => contradiction
  all_goals exact .inl h

theorem rowsOf_delete {requested : Bytes} :
    (s.deleteSession os requested).2.agent.memoryStore.rowsOf sessionId =
      if Removes sessionId ⟨.deleteSession requested, (s.deleteSession os requested).1⟩ then []
      else s.agent.memoryStore.rowsOf sessionId := by
  simp only [AgentWorld.deleteSession, Removes]
  generalize (if requested = [] then s.agent.currentSessionId else requested) = target
  have hr : (s.agent.memoryStore.deleteSession target).2.rowsOf sessionId =
      if (s.agent.memoryStore.deleteSession target).1 ∧ SameSession target sessionId then []
      else s.agent.memoryStore.rowsOf sessionId := by
    cases ho : s.agent.memoryStore.isOpen
    case false => simp [MemoryStore.deleteSession, ho]
    case true =>
      rw [MemoryStore.rowsOf_deleteSession ho]
      simp [MemoryStore.deleteSession, ho, SameSession]
  split_ifs at hr ⊢ <;> simp_all [AgentWorld.startSession]

theorem rowsOf_record {other content : Bytes} {role : ChatRole} (h : ¬SameSession other sessionId) :
    (s.recordAgentMessage other role content).agent.memoryStore.rowsOf sessionId =
      s.agent.memoryStore.rowsOf sessionId := by
  simp only [AgentWorld.recordAgentMessage]
  cases ho : s.agent.memoryStore.isOpen
  case false => simp [MemoryStore.append, ho]
  case true  =>
    have hn : ¬cstr other = cstr sessionId := h
    rw [MemoryStore.rowsOf_append ho, if_neg hn, List.append_nil]

-- Only what removes the rows of a session changes them, next to what is done for it.
theorem rowsOf_step (hw : ¬WorksFor sessionId o) :
    (agentHandler os provider o s).2.agent.memoryStore.rowsOf sessionId =
      if Removes sessionId ⟨o, (agentHandler os provider o s).1⟩ then []
      else s.agent.memoryStore.rowsOf sessionId := by
  cases o
  case deleteSession => exact rowsOf_delete
  all_goals refine Eq.trans ?_ (if_neg id).symm
  case record => exact rowsOf_record hw
  case openSession clear requested =>
    simp only [agentHandler, AgentWorld.openSession]
    split_ifs <;> rfl
  case abandonPending =>
    simp only [agentHandler]
    split_ifs <;> rfl
  case takePending =>
    simp only [agentHandler]
    split <;> rfl
  all_goals rfl

theorem enters_step (h : EntersSession sessionId ⟨o, (agentHandler os provider o s).1⟩) :
    (∃ opened, openedSession ⟨o, (agentHandler os provider o s).1⟩ = some opened ∧
      SameSession opened sessionId) ∨
    ∃ pending ∈ s.agent.pendingToolCall, SameSession pending.sessionId sessionId := by
  cases o
  case openSession => exact .inl ⟨_, rfl, h⟩
  case takePending requested =>
    cases hp : s.acceptedPending requested
    case none => simp [agentHandler, hp, EntersSession] at h
    case some pending =>
      simp only [agentHandler, hp] at h
      exact .inr ⟨pending, pendingToolCall_of_accepted hp, h⟩
  all_goals cases h

end Step

section Runs

variable {tools : List ToolDefinition} {providers : Nat → Provider} {requests : Nat → AgentRequest}
  {c d : AgentPool W}

-- A request has asked for the session by its id.
def Named (t : List (Nat × Event AgentRes)) (sessionId : Bytes) : Prop :=
  sessionId ≠ [] ∧ ∃ j current, (j, ⟨.openSession false sessionId, current⟩) ∈ t

theorem usedSessions_concat : usedSessions s₀ (t ++ [x]) =
    usedSessions s₀ t ++ (openedSession x.2).toList := by
  cases h : openedSession x.2 <;> simp [usedSessions, List.filterMap_append, h]

theorem mem_usedSessions_concat {used : Bytes} : used ∈ usedSessions s₀ (t ++ [x]) ↔
    used ∈ usedSessions s₀ t ∨ openedSession x.2 = some used := by
  rw [usedSessions_concat, List.mem_append, Option.mem_toList]

theorem Used.concat (h : Used s₀ t sessionId) : Used s₀ (t ++ [x]) sessionId :=
  have ⟨used, hu, hs⟩ := h
  ⟨used, mem_usedSessions_concat.mpr (.inl hu), hs⟩

-- What the events of a run say about the sessions it has used.
structure Tracked (s₀ : AgentWorld W) (t : List (Nat × Event AgentRes)) (s : AgentWorld W) :
    Prop where
  current : s.agent.currentSessionId ∈ usedSessions s₀ t
  pending : ∀ pending ∈ s.agent.pendingToolCall, Used s₀ t pending.sessionId
  entered : ∀ x ∈ t, ∀ sessionId, EntersSession sessionId x.2 → Used s₀ t sessionId
  sources : ∀ used ∈ usedSessions s₀ t,
    used = s₀.agent.currentSessionId ∨ Named t used ∨ ∃ x ∈ t, newSession x.2 = some used
  rows    : ∀ sessionId, ¬Used s₀ t sessionId → s.agent.memoryStore.rowsOf sessionId =
    if ∃ x ∈ t, Removes sessionId x.2 then [] else s₀.agent.memoryStore.rowsOf sessionId

theorem Tracked.step {i : Nat} (h : Tracked s₀ t s)
    (hw : ∀ sessionId, WorksFor sessionId o → Used s₀ t sessionId) :
    Tracked s₀ (t ++ [(i, ⟨o, (agentHandler os provider o s).1⟩)])
      (agentHandler os provider o s).2 where
  current := by
    rw [mem_usedSessions_concat]
    cases @current_step _ os s provider o
    case inl hc => exact .inl (hc ▸ h.current)
    case inr hc => exact .inr hc
  pending pending hp := by
    cases pending_step hp
    case inl hp => exact (h.pending pending hp).concat
    case inr ho => exact (hw pending.sessionId (ho ▸ rfl)).concat
  entered x hx sessionId he := by
    cases List.mem_append.mp hx
    case inl hx => exact (h.entered x hx sessionId he).concat
    case inr hx =>
      obtain rfl := List.mem_singleton.mp hx
      cases enters_step he
      case inl ho =>
        have ⟨opened, ho, hs⟩ := ho
        exact ⟨opened, mem_usedSessions_concat.mpr (.inr ho), hs⟩
      case inr hp =>
        have ⟨pending, hp, hs⟩ := hp
        have ⟨used, hu, hup⟩ := h.pending pending hp
        exact Used.concat ⟨used, hu, hup.trans hs⟩
  sources used hu := by
    have hold (hu : used ∈ usedSessions s₀ t) : used = s₀.agent.currentSessionId ∨
        Named (t ++ [(i, ⟨o, (agentHandler os provider o s).1⟩)]) used ∨
        ∃ x ∈ t ++ [(i, ⟨o, (agentHandler os provider o s).1⟩)], newSession x.2 = some used := by
      refine (h.sources used hu).imp_right fun hs => hs.imp ?_ ?_
      case refine_1 =>
        intro ⟨hne, j, current, hm⟩
        exact ⟨hne, j, current, List.mem_append_left _ hm⟩
      case refine_2 =>
        intro ⟨x, hx, hn⟩
        exact ⟨x, List.mem_append_left _ hx, hn⟩
    cases mem_usedSessions_concat.mp hu
    case inl hu => exact hold hu
    case inr ho =>
      obtain hn | hc | ⟨hne, ho⟩ := openedSession_step ho
      case inl => exact .inr (.inr ⟨_, List.mem_append_right _ (List.mem_singleton_self _), hn⟩)
      case inr.inl => exact hold (hc ▸ h.current)
      case inr.inr =>
        subst ho
        exact .inr (.inl ⟨hne, i, _, List.mem_append_right _ (List.mem_singleton_self _)⟩)
  rows sessionId hn := by
    have hn' : ¬Used s₀ t sessionId := fun hu => hn hu.concat
    let e : Event AgentRes := ⟨o, (agentHandler os provider o s).1⟩
    have he : (∃ x ∈ t ++ [(i, e)], Removes sessionId x.2) ↔
        (∃ x ∈ t, Removes sessionId x.2) ∨ Removes sessionId e := by
      simp only [List.mem_append, List.mem_singleton, or_and_right, exists_or, exists_eq_left]
    rw [rowsOf_step fun hwo => hn' (hw sessionId hwo), h.rows sessionId hn', if_congr he rfl rfl]
    by_cases hr : Removes sessionId e
    case pos => rw [if_pos hr, if_pos (.inr hr)]
    case neg => simp only [e] at hr; simp only [e, hr, or_false, if_false]

theorem tracked_of_run (hs : s₀.agent.pendingToolCall = none)
    (r : (AgentPool.start tools s₀ requests).Run os providers t d) : Tracked s₀ t d.state := by
  induction r
  case refl =>
    constructor
    case current => simp [usedSessions, AgentPool.start]
    case pending => simp [AgentPool.start, hs]
    case entered => simp
    case sources => simp [usedSessions]
    case rows    => simp [AgentPool.start]
  case step t d j o k r hj hi =>
    refine hi.step fun sessionId hw => ?_
    have he : Emits ((requests j).serve tools) (Pool.eventsOf j t) (.op o k) := hj ▸ r.emits
    have ⟨e, hm, hen⟩ := AgentRequest.enters
      (e := ⟨o, (agentHandler os (providers j) o d.state).1⟩) he.snoc hw
    exact hi.entered (j, e) (Pool.mem_eventsOf.mp hm) sessionId hen

-- Every session that is made differs from all the sessions before it, as far as the store can tell,
-- and begins without a record.
def FreshSessions (os : Os W) (providers : Nat → Provider) (c : AgentPool W)
    (t : List (Nat × Event AgentRes)) : Prop :=
  ∀ n i e sessionId, t[n]? = some (i, e) → newSession e = some sessionId →
    ¬Used c.state (t.take n) sessionId ∧
      ∀ d, c.Run os providers (t.take (n + 1)) d →
        d.state.agent.memoryStore.rowsOf sessionId = []

-- The conditions, on the events so far and the state before it, under which a session is made anew.
structure Anew (os : Os W) (providers : Nat → Provider) (c : AgentPool W)
    (t : List (Nat × Event AgentRes)) (s : AgentWorld W) : Prop where
  -- The second of the clock or the address on the stack is another one than for every session made
  -- before,
  seed  : ∀ m i e, t[m]? = some (i, e) → (newSession e).isSome →
    ∀ d, c.Run os providers (t.take m) d → d.state.seed os ≠ s.seed os
  -- what they spell is not the id with which the process began or which a request has named,
  start : ¬SameSession c.state.agent.currentSessionId (s.generateSessionId os)
  named : ∀ sessionId, Named t sessionId → ¬SameSession sessionId (s.generateSessionId os)
  -- and what an earlier process has left under it, if anything, has been deleted.
  left  : c.state.agent.memoryStore.rowsOf (s.generateSessionId os) = [] ∨
    ∃ x ∈ t, Removes (s.generateSessionId os) x.2

def MadeAnew (os : Os W) (providers : Nat → Provider) (c : AgentPool W)
    (t : List (Nat × Event AgentRes)) : Prop :=
  ∀ n i e, t[n]? = some (i, e) → (newSession e).isSome →
    ∀ d, c.Run os providers (t.take n) d → Anew os providers c (t.take n) d.state

theorem openedSession_of_new {e : Event AgentRes} (h : newSession e = some sessionId) :
    openedSession e = some sessionId := by
  obtain ⟨o, r⟩ := e
  cases o
  case openSession clear requested =>
    cases clear
    case false => contradiction
    case true  => exact h
  case deleteSession => exact h
  all_goals contradiction

theorem used_of_opened {e : Event AgentRes} {i : Nat} (hm : (i, e) ∈ t)
    (h : openedSession e = some sessionId) : sessionId ∈ usedSessions s₀ t :=
  List.mem_cons_of_mem _ (List.mem_filterMap.mpr ⟨(i, e), hm, h⟩)

theorem Named.used (h : Named t sessionId) (r : c.Run os providers t d) :
    sessionId ∈ usedSessions c.state t := by
  have ⟨hne, j, current, hm⟩ := h
  have ⟨n, hn⟩ := List.getElem?_of_mem hm
  have ⟨d', _, hc⟩ := Pool.Run.at r hn
  rw [openSession_requested hne] at hc
  exact used_of_opened hm (congrArg some hc)

theorem unused_iff (hs : s₀.agent.pendingToolCall = none)
    (r : (AgentPool.start tools s₀ requests).Run os providers t d) :
    ¬Used s₀ t (s.generateSessionId os) ↔
      ¬SameSession s₀.agent.currentSessionId (s.generateSessionId os) ∧
      (∀ sessionId, Named t sessionId → ¬SameSession sessionId (s.generateSessionId os)) ∧
      ∀ m i e, t[m]? = some (i, e) → (newSession e).isSome →
        ∀ d, (AgentPool.start tools s₀ requests).Run os providers (t.take m) d →
          d.state.seed os ≠ s.seed os := by
  have made {m i : Nat} {e : Event AgentRes} {used : Bytes} {d' : AgentPool W}
      (hm : t[m]? = some (i, e)) (hn : newSession e = some used)
      (r' : (AgentPool.start tools s₀ requests).Run os providers (t.take m) d') :
      used = d'.state.generateSessionId os := by
    obtain ⟨o, x⟩ := e
    have ⟨d'', r'', he⟩ := Pool.Run.at r hm
    obtain rfl := r'.unique r''
    exact newSession_step (he ▸ hn)
  constructor
  case mp =>
    intro h
    refine ⟨fun hs => h ⟨_, List.mem_cons_self .., hs⟩,
      fun sessionId hn hs => h ⟨sessionId, hn.used r, hs⟩, ?_⟩
    intro m i e hm hn d' r' he
    have ⟨used, hn⟩ := Option.isSome_iff_exists.mp hn
    have hu := (made hm hn r').trans (generateSessionId_inj.mpr he)
    exact h ⟨used, used_of_opened (List.mem_of_getElem? hm) (openedSession_of_new hn),
      congrArg cstr hu⟩
  case mpr =>
    intro ⟨hstart, hnamed, hseed⟩ ⟨used, hu, hs'⟩
    obtain rfl | hn | ⟨⟨i, e⟩, hm, hn⟩ := (tracked_of_run hs r).sources used hu
    case inl => exact hstart hs'
    case inr.inl => exact hnamed used hn hs'
    case inr.inr =>
      have ⟨m, hm⟩ := List.getElem?_of_mem hm
      have ⟨d', r', _⟩ := Pool.Run.at r hm
      have he := made hm hn r'
      have hne := hseed m i e hm (Option.isSome_of_eq_some hn) d' r'
      rw [he] at hs'
      have hc : cstr (d'.state.generateSessionId os) = cstr (s.generateSessionId os) := hs'
      rw [cstr_eq_self nul_not_mem_generateSessionId,
        cstr_eq_self nul_not_mem_generateSessionId] at hc
      exact hne (generateSessionId_inj.mp hc)

-- A session that is made unused begins with what an earlier process has left under its id.
theorem rowsOf_made (hs : s₀.agent.pendingToolCall = none)
    (r : (AgentPool.start tools s₀ requests).Run os providers t d)
    (hn : newSession ⟨o, (agentHandler os provider o d.state).1⟩ = some sessionId)
    (hu : ¬Used s₀ t sessionId) :
    (agentHandler os provider o d.state).2.agent.memoryStore.rowsOf sessionId = [] ↔
      s₀.agent.memoryStore.rowsOf sessionId = [] ∨ ∃ x ∈ t, Removes sessionId x.2 := by
  have hk := tracked_of_run hs r
  have hw : ¬WorksFor sessionId o := by
    cases o <;> first | exact id | contradiction
  have hr : ¬Removes sessionId ⟨o, (agentHandler os provider o d.state).1⟩ := by
    cases o
    case deleteSession requested =>
      intro ⟨_, hs'⟩
      refine hu ⟨_, hk.current, ?_⟩
      simp only [newSession, agentHandler, AgentWorld.deleteSession] at hn hs'
      generalize (if requested = [] then d.state.agent.currentSessionId else requested) = target
        at hn hs'
      by_cases ht : target = d.state.agent.currentSessionId
      case pos =>
        rw [if_pos ht] at hs'
        exact ht ▸ hs'
      case neg => simp [ht] at hn
    all_goals exact id
  rw [rowsOf_step hw, if_neg hr, hk.rows sessionId hu]
  split_ifs with hx
  case pos => simp [hx]
  case neg => simp [hx]

-- The new sessions of a run are fresh exactly if each is made anew.
theorem freshSessions_iff (hs : s₀.agent.pendingToolCall = none)
    (r : (AgentPool.start tools s₀ requests).Run os providers t d) :
    FreshSessions os providers (AgentPool.start tools s₀ requests) t ↔
      MadeAnew os providers (AgentPool.start tools s₀ requests) t := by
  have hat {n i : Nat} {e : Event AgentRes} (ht : t[n]? = some (i, e)) :
      t.take (n + 1) = t.take n ++ [(i, e)] := by
    rw [List.take_add_one, ht, Option.toList_some]
  constructor
  case mp =>
    intro hf n i e ht he d' r'
    obtain ⟨o, x⟩ := e
    have ⟨sessionId, he⟩ := Option.isSome_iff_exists.mp he
    have ⟨hu, hrows⟩ := hf n i _ sessionId ht he
    have ⟨d'', k, r'', hk, hx⟩ := Pool.Run.step_at r ht
    obtain rfl := Pool.Run.unique r' r''
    subst hx
    obtain rfl := newSession_step he
    have ⟨hstart, hnamed, hseed⟩ := (unused_iff hs r').mp hu
    exact ⟨hseed, hstart, hnamed, (rowsOf_made hs r' he hu).mp (hrows _ (hat ht ▸ r'.step hk))⟩
  case mpr =>
    intro hm n i e sessionId ht he
    obtain ⟨o, x⟩ := e
    have ⟨d', r', hx⟩ := Pool.Run.at r ht
    subst hx
    obtain rfl := newSession_step he
    have ha := hm n i _ ht (Option.isSome_of_eq_some he) d' r'
    have hu := (unused_iff hs r').mpr ⟨ha.start, ha.named, ha.seed⟩
    refine ⟨hu, fun d'' r'' => ?_⟩
    rw [hat ht] at r''
    have ⟨d₀, k, r₀, _, _, hd⟩ := r''.snoc_inv
    obtain rfl := Pool.Run.unique r' r₀
    rw [hd]
    exact (rowsOf_made hs r' he hu).mpr ha.left

end Runs

section Examples

-- Two messages, each of which begins a new session.
def clearRequests : Nat → AgentRequest
  | 0 => .turn (jsonObject [jsonBoolField "clear" true, jsonStringField "message" "hi"])
  | _ => .turn (jsonObject [jsonBoolField "clear" true, jsonStringField "message" "again"])

def clearPool : AgentPool Unit :=
  AgentPool.start [] AgentWorld.fresh clearRequests

def clearProvider (_ : Nat) : Provider :=
  .saying "Hello."

def clearRun (order : List Nat) : List (Nat × Event AgentRes) × AgentPool Unit :=
  Pool.serially (fun i => agentHandler Os.idle (clearProvider i)) order clearPool

theorem clearRun_run (order : List Nat) :
    clearPool.Run Os.idle clearProvider (clearRun order).1 (clearRun order).2 :=
  Pool.Run.serially .refl

theorem freshSessions_iff_clear :
    FreshSessions Os.idle clearProvider clearPool (clearRun [0]).1 ↔
      MadeAnew Os.idle clearProvider clearPool (clearRun [0]).1 :=
  freshSessions_iff rfl (clearRun_run [0])

-- Both begin in one second, at one depth of the stack.
theorem not_freshSessions :
    ¬∀ t d, clearPool.Run Os.idle clearProvider t d →
      FreshSessions Os.idle clearProvider clearPool t := by
  intro h
  have he : (clearRun [0, 1]).1[13]? =
      some (1, ⟨.openSession true [], "19700101T000000-0"⟩) := by decide +kernel
  have ⟨hu, _⟩ := h _ _ (clearRun_run [0, 1]) 13 1 _ _ he rfl
  exact hu ⟨"19700101T000000-0", by decide +kernel, rfl⟩

end Examples
end Droidcli.Cli
