import Droidcli.Cli.Theorems.Approval

namespace Droidcli.Cli

open Bytes Net Ai Interaction Prog

-- Two calls that an approver could not tell apart.
def PendingAgentToolCall.SameCall (a b : PendingAgentToolCall) : Prop :=
  a.decidedCall.name = b.decidedCall.name ∧ a.decidedCall.argumentsJson = b.decidedCall.argumentsJson

-- When a client makes the request numbered `i`, the last call it has been shown is the one put
-- into the slot at `p`.
structure Shown (client : Nat → Bool) (t : List (Nat × Event AgentRes)) (p i : Nat)
    (shown : PendingAgentToolCall) : Prop where
  paused : ∃ j, client j = client i ∧ PausedAt t p j shown
  sent   : ∀ (n : Nat) (e : Event AgentRes), t[n]? = some (i, e) → p < n
  latest : ∀ q j pending, PausedAt t q j pending → client j = client i →
    (∀ (n : Nat) (e : Event AgentRes), t[n]? = some (i, e) → q < n) → q ≤ p

-- The request numbered `i` executes the call it was shown, if it executes a pending call at all.
def ExecutesOnly (t : List (Nat × Event AgentRes)) (i : Nat) (shown : PendingAgentToolCall) :
    Prop :=
  ∀ n name argumentsJson, GatedAt t n i name argumentsJson →
    name = shown.decidedCall.name ∧ argumentsJson = shown.decidedCall.argumentsJson

-- Another call was put into the slot after `p`, and still waits there when the decision numbered
-- `i` comes in without a session id, or with that of the other call.
def Replaced (t : List (Nat × Event AgentRes)) (p i : Nat) (shown : PendingAgentToolCall) : Prop :=
  ∃ m requested result q pending, t[m]? = some (i, ⟨.takePending requested, result⟩) ∧ p < q ∧
    Slot.Standing ((slotActs t).take m) q pending ∧
    (requested = [] ∨ requested = pending.sessionId) ∧ ¬pending.SameCall shown

variable {W : Type} {os : Os W} {tools : List ToolDefinition} {provider : Nat → Provider}
  {requests : Nat → AgentRequest} {s : AgentWorld W} {t : List (Nat × Event AgentRes)}
  {d : AgentPool W} {client : Nat → Bool} {p i : Nat} {shown : PendingAgentToolCall}

theorem executesOnly_of_not_replaced (hs : s.agent.pendingToolCall = none)
    (r : (AgentPool.start tools s requests).Run os provider t d) (hsh : Shown client t p i shown)
    (hr : ¬Replaced t p i shown) : ExecutesOnly t i shown := by
  intro n name argumentsJson hg
  obtain ⟨_, _, m, _, pending, hm, hn, harg⟩ := hg.served r
  obtain ⟨q, hq⟩ := hm.standing hs r
  obtain ⟨requested, ht⟩ := hm
  have hpm := hsh.sent m _ ht
  obtain ⟨j, _, view, hp⟩ := hsh.paused
  have hpf : ((slotActs t).take m)[p]? = some (.fill shown) := by
    simp [List.getElem?_take_of_lt hpm, hp, slotAct]
  suffices h : pending.SameCall shown from ⟨hn ▸ h.1, harg ▸ h.2⟩
  obtain hlt | rfl | hlt := Nat.lt_trichotomy p q
  case inl =>
    obtain ⟨d', _, ha⟩ := Pool.Run.at r ht
    by_contra hne
    exact hr ⟨m, requested, _, q, pending, ht, hlt, hq, (acceptedPending_eq_some ha.symm).2, hne⟩
  case inr.inl =>
    have heq := hq.filled.symm.trans hpf
    cases heq
    exact ⟨rfl, rfl⟩
  case inr.inr => exact absurd (hq.kept p _ hlt hpf) (by simp)

theorem PausedAt.gated {n j : Nat} {pending : PendingAgentToolCall}
    (r : (AgentPool.start tools s requests).Run os provider t d) (h : PausedAt t n j pending) :
    toolCallRequiresApproval pending.decidedCall.name := by
  have ⟨view, ht⟩ := h
  have hm := Pool.mem_eventsOf.mpr (List.mem_of_getElem? ht)
  exact (AgentPool.Run.served r j).paused hm rfl

theorem not_replaced_of_executesOnly {a : Option AgentResponse}
    (hs : s.agent.pendingToolCall = none)
    (r : (AgentPool.start tools s requests).Run os provider t d)
    (ha : (requests i).isApproval) (hd : d.threads i = ret a) (he : ExecutesOnly t i shown) :
    ¬Replaced t p i shown := by
  rintro ⟨m, requested, result, q, pending, ht, _, hq, hreq, hne⟩
  rw [← List.map_take] at hq
  obtain ⟨d', r', hres⟩ := Pool.Run.at r ht
  have hslot : d'.state.agent.pendingToolCall = some pending := by
    rw [AgentPool.Run.slot hs r', Slot.content_eq_some_iff]
    exact ⟨q, hq⟩
  obtain rfl : result = some pending := by
    rw [hres, takePending_of_slot hslot hreq]
  obtain ⟨j, hj⟩ := paused_of_standing hq
  have hem := Pool.Run.emits (i := i) r
  have hm := Pool.mem_eventsOf.mpr (List.mem_of_getElem? ht)
  simp only [AgentPool.start, hd] at hem
  cases hreqs : requests i <;> rw [hreqs] at ha hem
  case turn          => simp [AgentRequest.isApproval] at ha
  case deleteSession => simp [AgentRequest.isApproval] at ha
  case toolDecision body =>
    obtain ⟨result, hx⟩ := agentToolDecision_executes hem ha hm
    obtain ⟨n, hn⟩ := List.getElem?_of_mem (Pool.mem_eventsOf.mp hx)
    obtain ⟨hname, harg⟩ := he n _ _ ⟨hj.of_take.gated r, result, hn⟩
    exact hne ⟨hname, harg⟩

-- An approving decision executes the call that its client was last shown or none, unless that call
-- has been replaced; and if it has been, the decision does execute the other call.
theorem executesOnly_iff_not_replaced (hs : s.agent.pendingToolCall = none)
    (r : (AgentPool.start tools s requests).Run os provider t d) (hsh : Shown client t p i shown)
    (ha : (requests i).isApproval) :
    (¬Replaced t p i shown → ExecutesOnly t i shown) ∧
      ((∃ a, d.threads i = ret a) → (ExecutesOnly t i shown ↔ ¬Replaced t p i shown)) :=
  have safe := executesOnly_of_not_replaced hs r hsh
  ⟨safe, fun ⟨_, hd⟩ => ⟨not_replaced_of_executesOnly hs r ha hd, safe⟩⟩

theorem shown_of_client {j : Nat} (hp : PausedAt t p j shown) (hc : client j = client i)
    (hbefore : ∀ x ∈ t.take (p + 1), x.1 ≠ i)
    (hafter : ∀ x ∈ t.drop (p + 1), x.1 = i ∨ client x.1 ≠ client i) : Shown client t p i shown where
  paused := ⟨j, hc, hp⟩
  sent n e ht := by
    by_contra hn
    refine hbefore (i, e) ?_ rfl
    exact List.mem_of_getElem? (show (t.take (p + 1))[n]? = _ by
      rw [List.getElem?_take_of_lt (by omega), ht])
  latest q j pending hq hcj hsent := by
    have ⟨view, ht⟩ := hq
    by_contra hn
    have hm : (j, ⟨.pause pending, view⟩) ∈ t.drop (p + 1) := List.mem_iff_getElem?.mpr
      ⟨q - (p + 1), by rw [List.getElem?_drop, show p + 1 + (q - (p + 1)) = q by omega, ht]⟩
    obtain rfl | hne := hafter _ hm
    · exact absurd (hsent q _ ht) (Nat.lt_irrefl q)
    · exact hne hcj

section Replacement

def proposedListing : PendingAgentToolCall :=
  ⟨"s", ⟨"classified-0", "run_command", listFiles⟩, []⟩

theorem shown_listing {order : List Nat}
    (hp : opAt (approvalRun order).1 12 = some (0, .pause proposedListing))
    (hb : ∀ x ∈ (approvalRun order).1.take 13, x.1 ≠ 2)
    (ha : ∀ x ∈ (approvalRun order).1.drop 13, x.1 = 2 ∨ (x.1 == 1) ≠ false) :
    Shown (· == 1) (approvalRun order).1 12 2 proposedListing :=
  shown_of_client (exists_of_opAt hp) rfl hb ha

theorem executesOnly_iff_not_replaced_listing :
    ExecutesOnly (approvalRun [0, 2]).1 2 proposedListing ↔
      ¬Replaced (approvalRun [0, 2]).1 12 2 proposedListing :=
  (executesOnly_iff_not_replaced rfl (approvalRun_run [0, 2])
    (shown_listing (by decide +kernel) (by decide +kernel) (by decide +kernel))
    (by decide +kernel)).2 ⟨_, rfl⟩

theorem approved_not_shown :
    ¬∀ (client : Nat → Bool) (t : List (Nat × Event AgentRes)) (d : AgentPool Unit),
      (AgentPool.start [] AgentWorld.fresh approvalRequests).Run Os.idle approvalProvider t d →
      ∀ p i shown, Shown client t p i shown → (approvalRequests i).isApproval →
        ExecutesOnly t i shown := by
  intro h
  have := h (· == 1) _ _ (approvalRun_run [0, 1, 2]) 12 2 proposedListing
    (shown_listing (by decide +kernel) (by decide +kernel) (by decide +kernel)) (by decide +kernel)
    29 "run_command" deleteFiles ⟨by decide +kernel, exists_of_opAt (by decide +kernel)⟩
  exact absurd this (by decide +kernel)

end Replacement
end Droidcli.Cli
