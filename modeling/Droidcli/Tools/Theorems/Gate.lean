import Droidcli.Tools.MiniHttpServer
import Mathlib.Tactic.SplitIfs

namespace Droidcli.Tools

open Bytes Net Cli

theorem hostRoutes_api {route : Route} (h : route ∈ hostRoutes ++ taskRoutes) :
    str "/api/" <+: route.path := by
  revert route
  decide

theorem findRoute_path {routes : List Route} {request : HttpRequest} {call : HostCall}
    (h : findRoute routes request = some call) : ∃ route ∈ routes, route.path = request.path := by
  have ⟨route, hr, _⟩ := Option.map_eq_some_iff.mp h
  have hp := List.find?_some hr
  exact ⟨route, List.mem_of_find?_eq_some hr, by simp_all⟩

theorem splitIdAndRest_prefix {path routePrefix : Bytes} {parts : Bytes × Bytes}
    (h : splitIdAndRest path routePrefix = some parts) : routePrefix <+: path := by
  by_contra hp
  simp [splitIdAndRest, hp] at h

theorem connectorRoute_path {request : HttpRequest} {call : HostCall}
    (h : connectorRoute request = some call) : str "/api/connectors/" <+: request.path := by
  cases hs : splitIdAndRest request.path "/api/connectors/"
  case none => simp [connectorRoute, hs] at h
  case some => exact splitIdAndRest_prefix hs

theorem taskRoute_path {request : HttpRequest} {call : HostCall}
    (h : taskRoute request = some call) : str "/api/tasks/" <+: request.path := by
  cases hs : splitIdAndRest request.path "/api/tasks/"
  case none => simp [taskRoute, hs] at h
  case some => exact splitIdAndRest_prefix hs

-- Every route of the gateway lies under `/api/`, as the gate spells it.
theorem customDispatch_api {request : HttpRequest} {call : HostCall}
    (h : customDispatch request = some call) : str "/api/" <+: request.path := by
  have hp {path : Bytes} (ht : str "/api/" <+: path) (hr : path <+: request.path) :
      str "/api/" <+: request.path := ht.trans hr
  simp only [customDispatch, Option.orElse_eq_orElse, Option.orElse_eq_or,
    Option.or_eq_some_iff] at h
  rcases h with h | ⟨_, h | ⟨_, h | ⟨_, h⟩⟩⟩
  · have ⟨route, hm, he⟩ := findRoute_path h
    exact he ▸ hostRoutes_api (List.mem_append_left _ hm)
  · exact hp (by decide) (connectorRoute_path h)
  · have ⟨route, hm, he⟩ := findRoute_path h
    exact he ▸ hostRoutes_api (List.mem_append_right _ hm)
  · exact hp (by decide) (taskRoute_path h)

theorem dispatch_aiChat_iff {request : HttpRequest} :
    RouteTable.dispatch request = some .aiChat ↔
      request.method = .post ∧ ∃ k, request.path = "/ai/chat" ++ List.replicate k slash := by
  have hs : str "/ai/chat" = str "/ai/cha" ++ [0x74] := by decide
  have hn : normalizePath request.path = str "/ai/chat" ↔
      ∃ k, request.path = "/ai/chat" ++ List.replicate k slash :=
    hs ▸ normalizePath_eq_iff (by decide)
  rw [← hn, RouteTable.dispatch]
  have h₁ : str "/ai/chat" ≠ str "/health" := by decide
  have h₂ : str "/ai/chat" ≠ str "/echo" := by decide
  have h₃ : str "/ai/chat" ≠ str "/notify" := by decide
  constructor
  case mp =>
    intro h
    split_ifs at h <;> simp_all
  case mpr =>
    intro ⟨hm, hp⟩
    simp [hm, hp, h₁, h₂, h₃]

-- The gate covers a request when nothing behind it runs for an unauthorised one, except for the
-- three handlers that are open to everybody.
structure GateCovers (apiToken : Bytes) (request : HttpRequest) : Prop where
  aiChat   : pollOnce apiToken request = .handled .aiChat → isAuthorized request apiToken
  custom   : ∀ call, pollOnce apiToken request = .custom call → isAuthorized request apiToken
  handlers : ¬isAuthorized request apiToken → ∀ handler,
    pollOnce apiToken request = .handled handler → handler ∈ [.health, .echo, .notify]

-- A spelling of `/ai/chat` that the route table normalises and the gate does not.
def UngatedSpelling (request : HttpRequest) : Prop :=
  request.method = .post ∧ ∃ k, request.path = "/ai/chat" ++ List.replicate (k + 1) slash

section PollOnce

variable {apiToken : Bytes} {request : HttpRequest}

theorem pollOnce_refused (hr : requestRequiresAuth request.path)
    (hu : ¬isAuthorized request apiToken) : pollOnce apiToken request = .unauthorized := by
  simp [pollOnce, hr, hu]

theorem pollOnce_handled_iff {handler : Handler} :
    pollOnce apiToken request = .handled handler ↔
      (requestRequiresAuth request.path → isAuthorized request apiToken) ∧
        RouteTable.dispatch request = some handler := by
  cases hr : requestRequiresAuth request.path <;> cases hu : isAuthorized request apiToken <;>
    cases hd : RouteTable.dispatch request <;> simp only [pollOnce, hr, hu, hd] <;>
    cases customDispatch request <;> simp

theorem pollOnce_custom {call : HostCall} (h : pollOnce apiToken request = .custom call) :
    customDispatch request = some call := by
  rw [pollOnce] at h
  split at h
  case isTrue => contradiction
  case isFalse =>
    cases hd : RouteTable.dispatch request <;> cases hc : customDispatch request <;> simp_all

theorem isAuthorized_of_pollOnce_custom {call : HostCall}
    (h : pollOnce apiToken request = .custom call) : isAuthorized request apiToken := by
  by_contra hu
  have hr : requestRequiresAuth request.path := by
    simp [requestRequiresAuth, customDispatch_api (pollOnce_custom h)]
  exact Served.noConfusion <| (pollOnce_refused hr hu).symm.trans h

-- Only the bare spelling of `/ai/chat` is gated.
theorem requestRequiresAuth_aiChat_iff {k : Nat}
    (h : request.path = "/ai/chat" ++ List.replicate k slash) :
    requestRequiresAuth request.path ↔ k = 0 := by
  have hp : ¬str "/api/" <+: "/ai/chat" ++ List.replicate k slash := by
    have ha : str "/api/" = str "/a" ++ [0x70, 0x69, slash] := by decide
    have hc : str "/ai/chat" = str "/a" ++ [0x69, slash, 0x63, 0x68, 0x61, 0x74] := by decide
    simp [ha, hc]
  simp [requestRequiresAuth, h, hp]

theorem pollOnce_aiChat_iff (hu : ¬isAuthorized request apiToken) :
    pollOnce apiToken request = .handled .aiChat ↔ UngatedSpelling request := by
  rw [pollOnce_handled_iff, dispatch_aiChat_iff]
  constructor
  case mp =>
    intro ⟨hr, hm, k, hk⟩
    cases k
    case zero   => exact absurd (hr <| requestRequiresAuth_aiChat_iff hk |>.mpr rfl) hu
    case succ k => exact ⟨hm, k, hk⟩
  case mpr =>
    intro ⟨hm, k, hk⟩
    refine ⟨fun hr => ?_, hm, k + 1, hk⟩
    exact absurd (requestRequiresAuth_aiChat_iff hk |>.mp hr) (Nat.succ_ne_zero k)

end PollOnce

theorem gateCovers_iff (apiToken : Bytes) (request : HttpRequest) :
    GateCovers apiToken request ↔ ¬(UngatedSpelling request ∧ ¬isAuthorized request apiToken) := by
  constructor
  case mp =>
    intro h ⟨hs, hu⟩
    exact hu <| h.aiChat <| pollOnce_aiChat_iff hu |>.mpr hs
  case mpr =>
    intro h
    have hc (hp : pollOnce apiToken request = .handled .aiChat) :
        isAuthorized request apiToken := by
      by_contra hu
      exact h ⟨pollOnce_aiChat_iff hu |>.mp hp, hu⟩
    refine ⟨hc, fun _ => isAuthorized_of_pollOnce_custom, fun hu handler hp => ?_⟩
    cases handler
    case aiChat => exact absurd (hc hp) hu
    all_goals simp

theorem not_gateCovers_trailing_slash :
    ¬GateCovers "secret" ⟨.post, "/ai/chat/", [], [], []⟩ := by
  intro h
  exact absurd (h.aiChat (by rfl)) (by decide)

end Droidcli.Tools
