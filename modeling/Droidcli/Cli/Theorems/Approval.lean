import Droidcli.Cli.Theorems.AgentTurn
import Droidcli.Lib.Slot

namespace Droidcli.Cli

open Bytes Net Ai Interaction Prog

-- What an event does to `pending_tool_call_`.
def slotAct : Event AgentRes → Slot.Act PendingAgentToolCall
  | ⟨.pause pending, _⟩        => .fill pending
  | ⟨.abandonPending _, true⟩  => .clear
  | ⟨.takePending _, some _⟩   => .clear
  | _                          => .keep

abbrev slotActs (t : List (Nat × Event AgentRes)) : List (Slot.Act PendingAgentToolCall) :=
  t.map fun e => slotAct e.2

section Slot

variable {W : Type} {os : Os W} {provider : Provider} {s : AgentWorld W} {o : AgentOp}

theorem agentHandler_slot :
    (agentHandler os provider o s).2.agent.pendingToolCall =
      (slotAct ⟨o, (agentHandler os provider o s).1⟩).apply s.agent.pendingToolCall := by
  cases o
  case openSession clear requested =>
    simp only [agentHandler, slotAct, Slot.Act.apply, AgentWorld.openSession]
    split_ifs <;> rfl
  case abandonPending sessionId =>
    by_cases hp : s.isPendingIn sessionId <;>
      simp [agentHandler, hp, slotAct, Slot.Act.apply, AgentWorld.setPending]
  case takePending requested =>
    cases hp : s.acceptedPending requested <;>
      simp [agentHandler, hp, slotAct, Slot.Act.apply, AgentWorld.setPending]
  case deleteSession requested =>
    simp only [agentHandler, slotAct, Slot.Act.apply, AgentWorld.deleteSession]
    split_ifs <;> rfl
  all_goals rfl

theorem acceptedPending_eq_some {requested : Bytes} {pending : PendingAgentToolCall}
    (h : (agentHandler os provider (.takePending requested) s).1 = some pending) :
    s.agent.pendingToolCall = some pending ∧ (requested = [] ∨ requested = pending.sessionId) := by
  have ha : s.acceptedPending requested = some pending := by
    cases ha : s.acceptedPending requested <;> simp_all [agentHandler]
  simpa [AgentWorld.acceptedPending, Option.filter_eq_some_iff] using ha

theorem takePending_of_slot {requested : Bytes} {pending : PendingAgentToolCall}
    (h : s.agent.pendingToolCall = some pending)
    (hr : requested = [] ∨ requested = pending.sessionId) :
    (agentHandler os provider (.takePending requested) s).1 = some pending := by
  have ha : s.acceptedPending requested = some pending := by
    simpa [AgentWorld.acceptedPending, Option.filter_eq_some_iff, h] using hr
  simp [agentHandler, ha]

end Slot

variable {W : Type} {os : Os W} {tools : List ToolDefinition} {provider : Nat → Provider}
  {requests : Nat → AgentRequest} {s : AgentWorld W} {t : List (Nat × Event AgentRes)}
  {d : AgentPool W}

theorem AgentPool.Run.slot (hs : s.agent.pendingToolCall = none)
    (r : (AgentPool.start tools s requests).Run os provider t d) :
    d.state.agent.pendingToolCall = Slot.content (slotActs t) := by
  refine Pool.Run.invariant (I := fun t s => s.agent.pendingToolCall = Slot.content (slotActs t))
    r hs fun t s i o hi => ?_
  simp [agentHandler_slot, hi]

-- The request numbered `i` takes its pending call at `n`.
def ConsumedAt (t : List (Nat × Event AgentRes)) (n i : Nat) (pending : PendingAgentToolCall) :
    Prop :=
  ∃ requested, t[n]? = some (i, ⟨.takePending requested, some pending⟩)

-- A call is put into the pending slot at `n`, and shown to whoever made the request.
def PausedAt (t : List (Nat × Event AgentRes)) (n i : Nat) (pending : PendingAgentToolCall) :
    Prop :=
  ∃ view, t[n]? = some (i, ⟨.pause pending, view⟩)

-- A tool is executed at `n` that nobody may execute without a decision.
def GatedAt (t : List (Nat × Event AgentRes)) (n i : Nat) (name argumentsJson : Bytes) : Prop :=
  toolCallRequiresApproval name ∧
    ∃ result, t[n]? = some (i, ⟨.executeTool name argumentsJson, result⟩)

variable {n m i p : Nat} {pending : PendingAgentToolCall}

theorem slotAct_eq_fill {e : Event AgentRes} (h : slotAct e = .fill pending) :
    ∃ view, e = ⟨.pause pending, view⟩ := by
  unfold slotAct at h
  split at h <;> simp_all

theorem paused_of_standing (h : Slot.Standing (slotActs t) p pending) : ∃ i, PausedAt t p i pending := by
  have hf := h.filled
  simp only [List.getElem?_map, Option.map_eq_some_iff, Prod.exists] at hf
  obtain ⟨i, e, ht, he⟩ := hf
  obtain ⟨view, rfl⟩ := slotAct_eq_fill he
  exact ⟨i, view, ht⟩

theorem PausedAt.of_take (h : PausedAt (t.take m) n i pending) : PausedAt t n i pending := by
  obtain ⟨view, h⟩ := h
  rw [List.getElem?_take] at h
  split_ifs at h
  exact ⟨view, h⟩

theorem ConsumedAt.standing (hs : s.agent.pendingToolCall = none)
    (r : (AgentPool.start tools s requests).Run os provider t d) (h : ConsumedAt t n i pending) :
    ∃ p, Slot.Standing ((slotActs t).take n) p pending := by
  have ⟨requested, ht⟩ := h
  have ⟨d', r', ha⟩ := Pool.Run.at r ht
  have hp := (acceptedPending_eq_some ha.symm).1
  rw [AgentPool.Run.slot hs r'] at hp
  simpa [List.map_take] using Slot.content_eq_some_iff.mp hp

theorem ConsumedAt.clear (h : ConsumedAt t n i pending) : (slotActs t)[n]? = some .clear := by
  have ⟨_, ht⟩ := h
  simp [ht, slotAct]

-- Which operation a run performs at `n`, and for which request.
def opAt (t : List (Nat × Event AgentRes)) (n : Nat) : Option (Nat × AgentOp) :=
  t[n]?.map fun e => (e.1, e.2.op)

theorem exists_of_opAt {o : AgentOp} (h : opAt t n = some (i, o)) :
    ∃ result, t[n]? = some (i, ⟨o, result⟩) := by
  obtain ⟨⟨j, o', result⟩, ht, he⟩ := Option.map_eq_some_iff.mp h
  cases he
  exact ⟨result, ht⟩

theorem AgentPool.Run.served (r : (AgentPool.start tools s requests).Run os provider t d) (i : Nat) :
    Served (requests i) (Pool.eventsOf i t) :=
  AgentRequest.served (Pool.Run.emits r)

theorem GatedAt.served {name argumentsJson : Bytes}
    (r : (AgentPool.start tools s requests).Run os provider t d)
    (h : GatedAt t n i name argumentsJson) :
    (requests i).isApproval ∧ (∀ e ∈ Pool.eventsOf i (t.drop (n + 1)), FreeOp e.op) ∧
      ∃ m < n, ∃ pending, ConsumedAt t m i pending ∧ pending.decidedCall.name = name ∧
        pending.decidedCall.argumentsJson = argumentsJson := by
  have ⟨hg, result, ht⟩ := h
  have hs := AgentPool.Run.served r i
  rw [Pool.eventsOf_eq ht] at hs
  have ⟨ha, hf, requested, pending, hu, hn, harg⟩ := hs.gated hg
  refine ⟨ha, hf, ?_⟩
  have hm : (i, ⟨.takePending requested, some pending⟩) ∈ t.take n := by
    simp [← Pool.mem_eventsOf, hu]
  have ⟨m, hlt, hm⟩ := List.mem_take_iff_getElem.mp hm
  have hmn : m < n := by omega
  exact ⟨m, hmn, pending, ⟨requested, List.getElem?_eq_some_iff.mpr ⟨by omega, hm⟩⟩, hn, harg⟩

-- At most one gated tool is executed in a request.
theorem GatedAt.unique {n' : Nat} {name argumentsJson name' argumentsJson' : Bytes}
    (r : (AgentPool.start tools s requests).Run os provider t d)
    (h : GatedAt t n i name argumentsJson) (h' : GatedAt t n' i name' argumentsJson') : n = n' := by
  have key {n n' : Nat} {name argumentsJson name' argumentsJson' : Bytes}
      (h : GatedAt t n i name argumentsJson) (h' : GatedAt t n' i name' argumentsJson') :
      ¬n < n' := by
    intro hlt
    have ⟨hg, result, ht⟩ := h'
    refine (h.served r).2.1 ⟨.executeTool name' argumentsJson', result⟩ ?_ hg
    rw [Pool.mem_eventsOf, List.mem_iff_getElem?]
    exact ⟨n' - (n + 1), by rw [List.getElem?_drop, show n + 1 + (n' - (n + 1)) = n' by omega, ht]⟩
  have := key h h'
  have := key h' h
  omega

-- What the approval gate promises of a run.
structure ApprovalGate (requests : Nat → AgentRequest) (t : List (Nat × Event AgentRes)) :
    Prop where
  -- A gated tool is executed in an approving decision that has taken a call with the tool's name
  -- and arguments,
  approved : ∀ n i name argumentsJson, GatedAt t n i name argumentsJson →
    (requests i).isApproval ∧ ∃ m < n, ∃ pending, ConsumedAt t m i pending ∧
      pending.decidedCall.name = name ∧ pending.decidedCall.argumentsJson = argumentsJson
  -- and no other is executed in the same decision.
  executedOnce : ∀ n n' i name argumentsJson name' argumentsJson',
    GatedAt t n i name argumentsJson → GatedAt t n' i name' argumentsJson' → n = n'
  -- A call that is taken was put into the slot before, and is not taken again.
  consumedOnce : ∃ origin : Nat → Nat, ∀ m i pending, ConsumedAt t m i pending →
    origin m < m ∧ (∃ j, PausedAt t (origin m) j pending) ∧
      ∀ m' i' pending', ConsumedAt t m' i' pending' → origin m' = origin m → m' = m
  -- A refusal executes no tool, and the model decides nothing in it.
  refused : ∀ (n i : Nat) (e : Event AgentRes), (requests i).isRefusal → t[n]? = some (i, e) →
    RefusalOp e.op

theorem ConsumedAt.unique {j : Nat} {pending' : PendingAgentToolCall}
    (h : ConsumedAt t n i pending) (h' : ConsumedAt t n j pending') : pending = pending' := by
  have ⟨_, ht⟩ := h
  have ⟨_, ht'⟩ := h'
  have := ht.symm.trans ht'
  simp_all

-- Where the calls that are taken were put into the slot.
theorem exists_origin (hs : s.agent.pendingToolCall = none)
    (r : (AgentPool.start tools s requests).Run os provider t d) :
    ∃ origin : Nat → Nat, ∀ m i pending,
      ConsumedAt t m i pending → Slot.Standing ((slotActs t).take m) (origin m) pending := by
  have hp (m : Nat) : ∃ p, ∀ i pending,
      ConsumedAt t m i pending → Slot.Standing ((slotActs t).take m) p pending := by
    by_cases h : ∃ i pending, ConsumedAt t m i pending
    case neg => exact ⟨0, fun i pending hm => absurd ⟨i, pending, hm⟩ h⟩
    case pos =>
      have ⟨i, pending, hm⟩ := h
      have ⟨p, hp⟩ := hm.standing hs r
      exact ⟨p, fun j pending' hm' => hm.unique hm' ▸ hp⟩
  exact Classical.skolem.mp hp

theorem approvalGate (hs : s.agent.pendingToolCall = none)
    (r : (AgentPool.start tools s requests).Run os provider t d) : ApprovalGate requests t where
  approved n i name argumentsJson h :=
    have ⟨ha, _, hm⟩ := h.served r
    ⟨ha, hm⟩
  executedOnce n n' i name argumentsJson name' argumentsJson' h h' := h.unique r h'
  consumedOnce := by
    have ⟨origin, ho⟩ := exists_origin hs r
    refine ⟨origin, fun m i pending h => ?_⟩
    have hst := ho m i pending h
    have hlt := hst.lt
    simp only [List.length_take, List.length_map, Nat.lt_min] at hlt
    refine ⟨hlt.1, ?_, fun m' i' pending' h' heq => ?_⟩
    case refine_1 =>
      rw [← List.map_take] at hst
      have ⟨j, hj⟩ := paused_of_standing hst
      exact ⟨j, hj.of_take⟩
    case refine_2 => exact (heq ▸ ho m' i' pending' h').origin_injective hst h'.clear h.clear
  refused n i e hr ht :=
    (AgentPool.Run.served r i).refusal hr
      (Pool.mem_eventsOf.mpr (List.mem_of_getElem? ht))

section Listing

-- One client asks for a listing of the files. Then another has the same session propose to delete
-- them, and then the first one approves.
def listFiles : Bytes := jsonObject [jsonStringField "command" "dir"]
def deleteFiles : Bytes := jsonObject [jsonStringField "command" "del *"]

def approvalRequests : Nat → AgentRequest
  | 0 => .turn (jsonObject [jsonStringField "message" "list"])
  | 1 => .turn (jsonObject [jsonStringField "message" "delete"])
  | _ => .toolDecision (jsonObject [jsonBoolField "approved" true])

def approvalProvider : Nat → Provider
  | 0 => .proposing "run_command" listFiles
  | _ => .proposing "run_command" deleteFiles

def approvalRun (order : List Nat) : List (Nat × Event AgentRes) × AgentPool Unit :=
  Pool.serially (fun i => agentHandler Os.idle (approvalProvider i)) order
    (AgentPool.start [] AgentWorld.fresh approvalRequests)

theorem approvalRun_run (order : List Nat) :
    (AgentPool.start [] AgentWorld.fresh approvalRequests).Run Os.idle approvalProvider
      (approvalRun order).1 (approvalRun order).2 :=
  Pool.Run.serially .refl

theorem approvalGate_listing :
    ApprovalGate approvalRequests (approvalRun [0, 2]).1 ∧
      GatedAt (approvalRun [0, 2]).1 14 2 "run_command" listFiles :=
  ⟨approvalGate rfl (approvalRun_run [0, 2]), by decide +kernel, exists_of_opAt (by decide +kernel)⟩

end Listing
end Droidcli.Cli
