import Droidcli.Ai.Theorems.Request
import Droidcli.Cli.Gateway
import Droidcli.Net.Theorems.Handlers
import Droidcli.Net.Theorems.RoundTrip
import Droidcli.Tools.Theorems.Gate
import Mathlib.Data.List.DropRight

namespace Droidcli.Cli

open Bytes Net Ai Json

variable {gateway : Gateway} {settings : HostSettings} {systemPrompt systemInfo : Bytes}
  {events : List GatewayEvent} {request : HttpRequest} {answers : Answers}

-- Nothing that happens to the server replaces its options.
theorem Gateway.step_options (event : GatewayEvent) :
    (gateway.step event).options = gateway.options := by
  cases event
  case updateConfig       => rfl
  case updateOllamaConfig => rfl
  case request request answers =>
    simp only [step, pollOnce]
    split <;> rfl

theorem Gateway.after_options : (gateway.after events).options = gateway.options := by
  induction events generalizing gateway
  case nil => rfl
  case cons event events hi => exact hi.trans (step_options event)

section Configuration

-- A call to the provider that goes by the configuration which the host reports.
structure UsesReported (sent : ProviderRequest) (report : Bytes) : Prop where
  model   : extractJsonStringField sent.body "model" = extractJsonStringField report "ollama_model"
  baseUrl : sent.url =
    trimTrailingSlash (extractJsonStringField report "ollama_url") ++ str "/v1/chat/completions"

-- Every call to the provider that is made for `/ai/chat` goes by the configuration which
-- `build_config_json` would report at that moment.
def ReachesChat (gateway : Gateway) (events : List GatewayEvent) : Prop :=
  ∀ before request answers behind sent,
    events = before ++ .request request answers :: behind →
    ((gateway.after before).pollOnce answers request).sent = some sent →
    UsesReported sent (gateway.after before).host.buildConfigJson

-- The server passes a request on to the provider.
structure Sends (gateway : Gateway) (request : HttpRequest) : Prop where
  route   : Tools.pollOnce gateway.options.apiToken request = .handled .aiChat
  prompt  : extractPromptField request.body ≠ []
  idle    : (prepareRuntime request.body gateway.languageAi).awaitingResponse = false
  model   : gateway.options.ollamaConfig.model ≠ []
  baseUrl : gateway.options.ollamaConfig.baseUrl ≠ []

-- The host is configured as the server has been started, up to slashes at the end of the URL.
structure AsStarted (gateway : Gateway) : Prop where
  model   : gateway.host.config.ollamaModel = gateway.options.ollamaConfig.model
  baseUrl : trimTrailingSlash gateway.host.config.ollamaUrl =
    trimTrailingSlash gateway.options.ollamaConfig.baseUrl

-- Whenever a chat is passed on, no update has led away from the configuration of the start.
def KeepsConfiguration (gateway : Gateway) (events : List GatewayEvent) : Prop :=
  ∀ before request answers behind, events = before ++ .request request answers :: behind →
    Sends (gateway.after before) request → AsStarted (gateway.after before)

-- The runtime of the server stays as it has been configured from the options.
structure Configured (gateway : Gateway) : Prop where
  enabled        : gateway.options.enableLanguageAi
  runtimeEnabled : gateway.languageAi.runtimeEnabled
  configEnabled  : gateway.options.ollamaConfig.enabled
  config         : gateway.languageAi.ollamaConfig = gateway.options.ollamaConfig

def Answers.chatCall (answers : Answers) (request : HttpRequest) : ChatCall :=
  ⟨request, ⟨some answers.postJson⟩⟩

theorem Configured.chatted (h : Configured gateway) :
    gateway.chatted answers request =
      let result := (answers.chatCall request).handle gateway.languageAi
      ⟨result.response, result.sent, { gateway with
        languageAi := (answers.chatCall request).after gateway.languageAi }⟩ := by
  simp [Gateway.chatted, Gateway.context, h.enabled, ChatCall.handle, ChatCall.after,
    Answers.chatCall]

theorem Configured.step (h : Configured gateway) (event : GatewayEvent) :
    Configured (gateway.step event) := by
  cases event
  case updateConfig       => exact ⟨h.enabled, h.runtimeEnabled, h.configEnabled, h.config⟩
  case updateOllamaConfig => exact ⟨h.enabled, h.runtimeEnabled, h.configEnabled, h.config⟩
  case request request answers =>
    simp only [Gateway.step, Gateway.pollOnce]
    split
    case h_5 =>
      have ⟨hc, he⟩ := (@after_config gateway.languageAi (answers.chatCall request))
      rw [h.chatted]
      exact ⟨h.enabled, he ▸ h.runtimeEnabled, h.configEnabled, hc.trans h.config⟩
    all_goals exact ⟨h.enabled, h.runtimeEnabled, h.configEnabled, h.config⟩

theorem Configured.after (h : Configured gateway) : Configured (gateway.after events) := by
  induction events generalizing gateway
  case nil => exact h
  case cons event events hi => exact hi (h.step event)

theorem configured_start (h : settings.enableAi) :
    Configured (.start settings systemPrompt systemInfo) := by
  constructor <;> simp [Gateway.start, Tools.configureLanguageAi, h,
    LanguageRuntime.setRuntimeEnabled, LanguageRuntime.setOllamaConfig]

theorem pollOnce_sent {sent : ProviderRequest} (h : Configured gateway)
    (hs : (gateway.pollOnce answers request).sent = some sent) :
    Tools.pollOnce gateway.options.apiToken request = .handled .aiChat ∧
      ((answers.chatCall request).handle gateway.languageAi).sent = some sent := by
  rw [Gateway.pollOnce] at hs
  split at hs
  case h_5 hr =>
    rw [h.chatted] at hs
    exact ⟨hr, hs⟩
  case h_4 =>
    rw [Gateway.notified] at hs
    contradiction
  all_goals contradiction

theorem sends_of_sent {sent : ProviderRequest} (h : Configured gateway)
    (hs : (gateway.pollOnce answers request).sent = some sent) : Sends gateway request := by
  have ⟨hr, hs⟩ := pollOnce_sent h hs
  have ⟨hp, hi, hb⟩ := sent_of_handle hs
  rw [h.config] at hb
  have ⟨hm, hu, _⟩ := config_of_ok hb
  exact ⟨hr, hp, hi, hm, hu⟩

theorem Sends.sent (hs : Sends gateway request) (h : Configured gateway) (answers : Answers) :
    ∃ sent, (gateway.pollOnce answers request).sent = some sent := by
  have hu : Usable gateway.languageAi := {
    runtimeEnabled := h.runtimeEnabled
    configEnabled := h.config ▸ h.configEnabled
    model := h.config ▸ hs.model
    baseUrl := h.config ▸ hs.baseUrl
  }
  have hp : (answers.chatCall request).prompt ≠ [] := hs.prompt
  have := sends_of_idle hu hp hs.idle rfl
  rw [Gateway.pollOnce, hs.route, h.chatted]
  exact Option.isSome_iff_exists.mp this

-- What the configuration reads as.
theorem buildConfigJson_read (host : Host) :
    extractJsonStringField host.buildConfigJson "ollama_url" = host.config.ollamaUrl ∧
      extractJsonStringField host.buildConfigJson "ollama_model" = host.config.ollamaModel := by
  have hk : ∀ key ∈ [str "ai_enabled", str "ollama_url", str "ollama_model"], Word key := by decide
  have hd : [str "ai_enabled", str "ollama_url", str "ollama_model"].Nodup := by decide
  have hr := (@flatObject_readFrom [
      ("ai_enabled", .bool host.config.enableAi),
      ("ollama_url", .string host.config.ollamaUrl),
      ("ollama_model", .string host.config.ollamaModel)
    ]) (by simpa using hk) hd (by simp [Field.InRange])
  exact ⟨hr ("ollama_url", .string _) (by simp), hr ("ollama_model", .string _) (by simp)⟩

theorem usesReported_iff {sent : ProviderRequest} (h : Configured gateway)
    (hs : (gateway.pollOnce answers request).sent = some sent) :
    UsesReported sent gateway.host.buildConfigJson ↔ AsStarted gateway := by
  have ⟨_, _, hb⟩ := sent_of_handle (pollOnce_sent h hs).right
  rw [h.config] at hb
  have hm := model_of_ok hb
  have ⟨_, _, hu⟩ := config_of_ok hb
  have ⟨hru, hrm⟩ := buildConfigJson_read gateway.host
  constructor
  case mp =>
    intro hr
    have he := hr.baseUrl.symm.trans hu
    rw [hru] at he
    exact ⟨hrm.symm.trans (hr.model.symm.trans hm), List.append_cancel_right he⟩
  case mpr =>
    intro ha
    exact ⟨hm.trans (ha.model.symm.trans hrm.symm), by rw [hu, hru, ha.baseUrl]⟩

theorem reachesChat_iff (h : settings.enableAi) :
    ReachesChat (.start settings systemPrompt systemInfo) events ↔
      KeepsConfiguration (.start settings systemPrompt systemInfo) events := by
  have hc (before : List GatewayEvent) := (@Configured.after _ before) (
    (@configured_start settings systemPrompt systemInfo) h)
  constructor
  case mp =>
    intro hr before request answers behind he hs
    have ⟨sent, hsent⟩ := hs.sent (hc before) answers
    exact (usesReported_iff (hc before) hsent).mp (hr before request answers behind sent he hsent)
  case mpr =>
    intro hk before request answers behind sent he hsent
    have hs := sends_of_sent (hc before) hsent
    exact (usesReported_iff (hc before) hsent).mpr (hk before request answers behind he hs)

def startSettings : HostSettings :=
  { HostSettings.initial with apiToken := "secret" }

def authorized (method : HttpMethod) (path body : Bytes) : HttpRequest :=
  ⟨method, path, [], body, [⟨"Authorization", "Bearer secret"⟩]⟩

-- The provider cannot be reached, and the other methods do nothing.
def Answers.none : Answers :=
  ⟨fun _ => ⟨false, 0, []⟩, fun _ host => ([], host.config, host.languageAi)⟩

def helloRequest : HttpRequest :=
  authorized .post "/ai/chat" (jsonObject [jsonStringField "prompt" "hello"])

def switchModel : GatewayEvent :=
  .request (authorized .post "/api/config" (jsonObject [jsonStringField "ollama_model" "qwen"])) .none

theorem reachesChat_iff_hello :
    ReachesChat (.start startSettings [] []) [.request helloRequest .none] ↔
      KeepsConfiguration (.start startSettings [] []) [.request helloRequest .none] :=
  reachesChat_iff rfl

-- The model that the host reports after an update is not the one that the next chat is sent to.
theorem not_reachesChat :
    ¬ReachesChat (.start startSettings [] []) [switchModel, .request helloRequest .none] := by
  intro h
  have := h [switchModel] helloRequest .none [] _ rfl rfl
  exact absurd this.model (by decide +kernel)

end Configuration

section NotifyLog

-- The text of a notify message that the server receives and parses.
def notifyText : GatewayEvent → Option Bytes
  | .request request _ =>
    let parsed := Notify.parseNotifyBody request.body
    if RouteTable.dispatch request = some .notify ∧ parsed.success then some parsed.message.text
    else none
  | _ => none

def notifyTexts (events : List GatewayEvent) : List Bytes :=
  events.filterMap notifyText

-- The request is one for the log, and it is answered with the last texts that came in.
def ListsNotified (gateway : Gateway) (events : List GatewayEvent) (answers : Answers)
    (request : HttpRequest) : Prop :=
  ((gateway.after events).pollOnce answers request).response =
    some ⟨.ok, "application/json", Host.notifyLogJson ((notifyTexts events).rtake 64)⟩

-- No request of the run is one to the notify route.
def Unnotified (events : List GatewayEvent) : Prop :=
  ∀ request answers, .request request answers ∈ events →
    RouteTable.dispatch request ≠ some .notify

-- Every body parses.
theorem parseNotifyBody_success (body : Bytes) : (Notify.parseNotifyBody body).success := by
  unfold Notify.parseNotifyBody
  dsimp only
  split_ifs <;> rfl

theorem notifyTexts_eq_nil_iff : notifyTexts events = [] ↔ Unnotified events := by
  rw [notifyTexts, List.filterMap_eq_nil_iff]
  constructor
  case mp =>
    intro h request answers hm hd
    simpa [notifyText, hd, parseNotifyBody_success] using h _ hm
  case mpr =>
    intro h event hm
    cases event
    case request request answers => simp [notifyText, h request answers hm]
    case updateConfig            => rfl
    case updateOllamaConfig      => rfl

theorem dispatch_notify_path (h : RouteTable.dispatch request = some .notify) :
    ∃ k, request.path = "/notify" ++ List.replicate k slash := by
  have hs : str "/notify" = str "/notif" ++ [0x79] := by decide
  have hp : normalizePath request.path = str "/notify" := by
    rw [RouteTable.dispatch] at h
    split_ifs at h <;> simp_all
  exact (normalizePath_eq_iff (by decide)).mp (hs ▸ hp)

-- The notify route is open to everybody.
theorem pollOnce_notify (apiToken : Bytes) (h : RouteTable.dispatch request = some .notify) :
    Tools.pollOnce apiToken request = .handled .notify := by
  have ⟨k, hk⟩ := dispatch_notify_path h
  have ha : ¬str "/api/" <+: request.path := by
    have hr : str "/api/" = slash :: str "api/" := by decide
    have hn : str "/notify" = slash :: str "notify" := by decide
    have hc : str "api/" = 0x61 :: str "pi/" := by decide
    have hd : str "notify" = 0x6e :: str "otify" := by decide
    simp [hk, hr, hn, hc, hd]
  have hb : request.path ≠ str "/ai/chat" := by
    intro he
    have hd := congrArg (·[1]?) (hk.symm.trans he)
    have hn : str "/notify" = slash :: 0x6e :: str "otify" := by decide
    simp only [hn, List.cons_append, List.getElem?_cons_succ, List.getElem?_cons_zero] at hd
    exact absurd hd (by decide)
  refine Tools.pollOnce_handled_iff.mpr ⟨fun hr => ?_, h⟩
  simp [Tools.requestRequiresAuth, ha, hb] at hr

theorem callMethod_notifyLog (answers : Answers) (call : HostCall) (host : Host) :
    (host.callMethod answers call).2.notifyLog = host.notifyLog := by
  have ha (host : Host) : host.applyConfig.notifyLog = host.notifyLog := by
    unfold Host.applyConfig
    split <;> rfl
  unfold Host.callMethod
  split
  case h_2 => exact ha _
  case h_3 =>
    simp only [Host.updateOllamaConfig]
    split
    case isTrue => rfl
    case isFalse => exact ha _
  all_goals rfl

-- One event, with whatever the callback makes of a message.
theorem step_notifyLog {onNotify : Bytes → Host → Host} (h : gateway.options.onNotify = some onNotify)
    (event : GatewayEvent) : (gateway.step event).host.notifyLog =
      match notifyText event with
      | some text => (onNotify text gateway.host).notifyLog
      | none      => gateway.host.notifyLog := by
  cases event
  case updateConfig body =>
    exact callMethod_notifyLog .none (.updateConfig body) _
  case updateOllamaConfig body =>
    exact callMethod_notifyLog .none (.updateOllamaConfig body) _
  case request request answers =>
    by_cases hd : RouteTable.dispatch request = some .notify
    case pos =>
      simp only [Gateway.step, Gateway.pollOnce, pollOnce_notify _ hd, Gateway.notified, h, notifyText,
        hd, handleNotify, true_and]
      by_cases hs : (Notify.parseNotifyBody request.body).success <;> simp [hs]
    case neg =>
      simp only [Gateway.step, Gateway.pollOnce, notifyText, hd, false_and, if_false]
      split
      case h_4 hp => exact absurd (Tools.pollOnce_handled_iff.mp hp).right hd
      case h_6    => exact callMethod_notifyLog answers _ gateway.host
      all_goals rfl

-- The server hands messages to nothing but the console, and the log of the host stays empty.
theorem notifyLog_start :
    ((Gateway.start settings systemPrompt systemInfo).after events).host.notifyLog = [] := by
  suffices h : ∀ gateway : Gateway, gateway.options.onNotify = some (fun _ host => host) →
      (gateway.after events).host.notifyLog = gateway.host.notifyLog by
    rw [h _ rfl, Gateway.start, Host.initialized]
    simp only
    split <;> rfl
  intro gateway h
  induction events generalizing gateway
  case nil => rfl
  case cons event events hi =>
    have hs := step_notifyLog h event
    have ho := hi (gateway.step event) (gateway.step_options event ▸ h)
    refine ho.trans (hs.trans ?_)
    split <;> rfl

theorem notifyLogJson_eq_iff {notifyLog : List Bytes} :
    Host.notifyLogJson [] = Host.notifyLogJson notifyLog ↔ notifyLog = [] := by
  cases notifyLog
  case nil => simp
  case cons text notifyLog =>
    refine iff_of_false (fun h => ?_) (List.cons_ne_nil _ _)
    have hl := congrArg List.length h
    have hn : joinWith [comma] [] = [] := rfl
    simp [Host.notifyLogJson, jsonObject, jsonArray, joinWith_cons, hn] at hl
    omega

-- A bounded log that drops its oldest entry keeps the last ones.
theorem rtake_concat {α : Type} (n : Nat) (l : List α) (x : α) :
    (if n < (l.rtake n ++ [x]).length then (l.rtake n ++ [x]).tail else l.rtake n ++ [x]) =
      (l ++ [x]).rtake n := by
  have ha : (l ++ [x]).drop (l.length - n) = l.rtake n ++ [x] :=
    List.drop_append_of_le_length (Nat.sub_le ..)
  have hl : (l.rtake n ++ [x]).length = l.length - (l.length - n) + 1 := by simp [List.rtake]
  rw [hl, ← ha, List.tail_drop, List.rtake, List.length_append, List.length_singleton]
  split
  case isTrue  => rw [show l.length + 1 - n = l.length - n + 1 by omega]
  case isFalse => rw [show l.length + 1 - n = l.length - n by omega]

-- Had the callback been the one of the host, the log would hold the last 64 messages.
theorem notifyLog_of_onNotify (h : gateway.options.onNotify = some Host.onNotify) {texts : List Bytes}
    (ht : gateway.host.notifyLog = texts.rtake 64) :
    (gateway.after events).host.notifyLog = (texts ++ notifyTexts events).rtake 64 := by
  induction events generalizing gateway texts
  case nil => simpa [notifyTexts, Gateway.after] using ht
  case cons event events hi =>
    have hs := step_notifyLog h event
    have ho : (gateway.step event).options.onNotify = some Host.onNotify :=
      gateway.step_options event ▸ h
    cases he : notifyText event
    case none =>
      rw [he] at hs
      rw [notifyTexts, List.filterMap_cons_none he]
      exact hi ho (hs.trans ht)
    case some text =>
      rw [he] at hs
      have hn : (gateway.step event).host.notifyLog = (texts ++ [text]).rtake 64 := by
        rw [hs, ← rtake_concat, ← ht]
        rfl
      rw [notifyTexts, List.filterMap_cons_some he, List.append_cons]
      exact hi ho hn

theorem rtake_eq_nil_iff {α : Type} {l : List α} {n : Nat} (h : 0 < n) : l.rtake n = [] ↔ l = [] := by
  rw [List.rtake, List.drop_eq_nil_iff, ← List.length_eq_zero_iff]
  omega

theorem listsNotified_iff
    (h : Tools.pollOnce settings.apiToken request = .custom .buildNotifyLogJson) :
    ListsNotified (.start settings systemPrompt systemInfo) events answers request ↔
      Unnotified events := by
  have ho := (@Gateway.after_options (.start settings systemPrompt systemInfo) events)
  have hr : (((Gateway.start settings systemPrompt systemInfo).after events).pollOnce answers
      request).response = some ⟨.ok, "application/json", Host.notifyLogJson []⟩ := by
    rw [Gateway.pollOnce, ho, show Tools.pollOnce (Gateway.start settings systemPrompt
      systemInfo).options.apiToken request = _ from h, ← @notifyLog_start settings systemPrompt
      systemInfo events]
    rfl
  rw [ListsNotified, hr, Option.some_inj, HttpResponse.mk.injEq]
  simp only [true_and, notifyLogJson_eq_iff]
  rw [rtake_eq_nil_iff (by decide), notifyTexts_eq_nil_iff]

def notifyEvent : GatewayEvent :=
  .request ⟨.post, "/notify", [], "build finished", []⟩ .none

def notifyLogRequest : HttpRequest :=
  authorized .get "/api/notify/log" []

theorem listsNotified_iff_notified :
    ListsNotified (.start startSettings [] []) [notifyEvent] .none notifyLogRequest ↔
      Unnotified [notifyEvent] :=
  listsNotified_iff (by rfl)

theorem not_listsNotified :
    ¬∀ events answers request,
      Tools.pollOnce startSettings.apiToken request = .custom .buildNotifyLogJson →
      ListsNotified (.start startSettings [] []) events answers request := by
  intro h
  have := h [notifyEvent] .none notifyLogRequest (by rfl)
  exact absurd (congrArg (Option.map (·.body)) this) (by decide +kernel)

end NotifyLog
end Droidcli.Cli
