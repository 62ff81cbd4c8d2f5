import Droidcli.Cli.OllamaSetup
import Droidcli.Cli.Theorems.StringArrays

namespace Droidcli.Cli

open Bytes Json Net

section Names

variable {text : Bytes} {names : List Bytes} {rounds : Nat}

theorem ne_nil_of_mem_readModelNames (h : ∀ name ∈ names, name ≠ []) :
    ∀ name ∈ readModelNames rounds text names, name ≠ [] := by
  induction rounds generalizing text names
  case zero => exact h
  case succ rounds hi =>
    rw [readModelNames]
    split
    case h_1 => exact h
    case h_2 text' _ =>
      simp only
      split_ifs with hn hm
      case pos => exact h
      case pos => exact hi h
      case neg =>
        apply hi
        intro name hname
        rcases List.mem_append.mp hname with hname | hname
        case inl => exact h name hname
        case inr => exact List.mem_singleton.mp hname ▸ hn

theorem ne_nil_of_mem_parseOllamaModelNames {tagsJson : Bytes} :
    ∀ name ∈ parseOllamaModelNames tagsJson, name ≠ [] := by
  rw [parseOllamaModelNames]
  cases breakOn (needle "models") tagsJson
  case none   => simp
  case some p => exact ne_nil_of_mem_readModelNames (by simp)

end Names

namespace Tui

section Status

variable (setup : OllamaSetup)

-- Where the setup stands, for what the host has found out.
def setupState : OllamaSetupState :=
  if setup.installed = false then .needsInstall
  else if setup.online = false then .needsStart
  else if setup.configuredModel ∈ setup.models then .ready
  else .needsModel

def setupFlags : List (Bytes × Field) := [
  ("installed", .bool setup.installed),
  ("online", .bool setup.online)
]

def setupTexts : List Bytes :=
  (setupFlags setup).map (fun (k, f) => f.member k) ++
    [needle "models" ++ jsonArray (setup.models.map jsonString)]

theorem passes_setupTexts {key : Bytes} (hk : Word key)
    (hn : key ∉ [str "installed", str "online", str "models"]) :
    ∀ text ∈ setupTexts setup, Passes key [] text := by
  simp only [List.mem_cons, List.not_mem_nil, or_false, not_or] at hn
  obtain ⟨hi, ho, hm⟩ := hn
  intro text ht
  simp only [setupTexts, setupFlags, List.map_cons, List.map_nil, List.cons_append, List.nil_append,
    List.mem_cons, List.not_mem_nil, or_false] at ht
  rcases ht with rfl | rfl | rfl
  case inl           => exact Field.passes hk (by decide) hi _
  case inr.inl       => exact Field.passes hk (by decide) ho _
  case inr.inr       => exact passes_strings hk (Word.plain (by decide)) hm _

-- What the interface makes of the status. Of the names, some characters get lost.
theorem parseOllamaSetupStatus_json : parseOllamaSetupStatus setup.json = {
    installed := setup.installed
    online := setup.online
    models := setup.models.map unnamedText
    configuredModel := setup.configuredModel
    configuredModelPulled := setup.configuredModel ∈ setup.models } := by
  have hi : extractJsonBoolField setup.json "installed" = some setup.installed :=
    (@member_readFrom _ (.bool setup.installed) [] _) (by simp) trivial
  have ho : extractJsonBoolField setup.json "online" = some setup.online := by
    refine (@member_readFrom _ (.bool setup.online)
      [(Field.bool setup.installed).member "installed"] _) ?_ trivial
    intro text ht
    exact List.mem_singleton.mp ht ▸ Field.passes (by decide) (by decide) (by decide) _
  have hm : parseJsonStringArray setup.json "models" = setup.models.map unnamedText := by
    have hs : setup.json = openedObject (setupFlags setup) ++
        (needle "models" ++ (jsonArray (setup.models.map jsonString) ++
          (comma :: jsonStringField "configured_model" setup.configuredModel ++
            comma :: jsonBoolField "configured_model_pulled"
              (setup.configuredModel ∈ setup.models) ++ [rbrace]))) := by
      simp [OllamaSetup.json, jsonObject, joinWith, openedObject, setupFlags, Field.member]
    rw [hs]
    apply parseJsonStringArray_opened (by decide)
    exact others_of_keys ["installed", "online"] rfl (by decide)
  have hc : extractJsonStringField setup.json "configured_model" = setup.configuredModel :=
    (@member_readFrom _ (.string setup.configuredModel) _ _)
      (passes_setupTexts setup (by decide) (by decide)) trivial
  have hp : extractJsonBoolField setup.json "configured_model_pulled" =
      some (decide (setup.configuredModel ∈ setup.models)) := by
    refine (@member_readFrom _ (.bool (setup.configuredModel ∈ setup.models))
      (setupTexts setup ++ [(Field.string setup.configuredModel).member "configured_model"]) [])
      ?_ trivial
    intro text ht
    rcases List.mem_append.mp ht with ht | ht
    case inl => exact passes_setupTexts setup (by decide) (by decide) text ht
    case inr => exact List.mem_singleton.mp ht ▸ Field.passes (by decide) (by decide) (by decide) _
  rw [parseOllamaSetupStatus, hi, ho, hm, hc, hp]
  rfl

theorem computeSetupState_json :
    computeSetupState (parseOllamaSetupStatus setup.json) = setupState setup := by
  rw [parseOllamaSetupStatus_json, computeSetupState, setupState]
  by_cases hm : setup.configuredModel ∈ setup.models
  case pos =>
    have hn : setup.models ≠ [] := List.ne_nil_of_mem hm
    simp [hm, hn]
  case neg => simp [hm]

end Status

section Turn

variable {W : Type} {os : Os W} {platform : Platform} {host : Host} {w : W} {model : Bytes}
variable {entries : List ChatEntry} {logged : List AppLogEntry} {ok : Bool}

-- The command behind a pull, and the host that its model is put into.
def pulls (os : Os W) (model : Bytes) (w : W) : Bool :=
  commandSucceeded (os.runCommandOnce (str "ollama pull " ++ model) [] 600000 w).1

def withModel (host : Host) (model : Bytes) : Host :=
  { host with config := { host.config with ollamaModel := model } }.applyConfig

@[simp]
theorem withModel_ollamaModel (host : Host) (model : Bytes) :
    (withModel host model).config.ollamaModel = model := by
  rw [withModel, Host.applyConfig]
  split_ifs <;> rfl

theorem extract_modelBody (model : Bytes) :
    extractJsonStringField (Host.modelBody model) "model" = model :=
  extractJsonStringField_first

theorem updateOllamaConfig_modelBody (hm : model ≠ []) :
    (host.updateOllamaConfig (Host.modelBody model)).2 = withModel host model := by
  rw [Host.updateOllamaConfig, extract_modelBody, if_neg hm]
  rfl

def Reports (ok : Bool) (logged : List AppLogEntry) : Prop :=
  ∃ summary, logged = [⟨"ollama", "out", summary, ok⟩]

-- The chat tells of an error when, and only when, the app log does.
def Honest (entries : List ChatEntry) (logged : List AppLogEntry) : Prop :=
  (∃ e ∈ entries, e.role = .error) ↔ ∃ entry ∈ logged, entry.success = false

theorem honest_told (text : Bytes) : Honest [.now .info text] [] := by
  simp [Honest, ChatEntry.now]

theorem Reports.honest (hl : Reports ok logged) (he : (∃ e ∈ entries, e.role = .error) ↔ ok = false) :
    Honest entries logged := by
  obtain ⟨summary, rfl⟩ := hl
  simpa [Honest] using he

theorem installOllama_cases (host : Host) (w : W) :
    ∃ ok exitCode out err error, (host.installOllama os platform w).value =
        Host.installResultJson ok exitCode out err error ∧
      (host.installOllama os platform w).host = host ∧
      (ok = false ∧ (host.installOllama os platform w).logged = [] ∨
        Reports ok (host.installOllama os platform w).logged) := by
  cases platform
  case posix => exact ⟨_, _, _, _, _, rfl, rfl, .inl ⟨rfl, rfl⟩⟩
  case windows =>
    rw [Host.installOllama]
    dsimp only
    split
    case isTrue  => exact ⟨_, _, _, _, _, rfl, rfl, .inl ⟨rfl, rfl⟩⟩
    case isFalse => exact ⟨_, _, _, _, _, rfl, rfl, .inr ⟨_, rfl⟩⟩

theorem install_spec : (SetupTurn.install os platform host w).host = host ∧
    ∃ entries, (SetupTurn.install os platform host w).entries = some entries ∧
      ((∃ e ∈ entries, e.role = .error) ∧ (SetupTurn.install os platform host w).logged = [] ∨
        Honest entries (SetupTurn.install os platform host w).logged) := by
  obtain ⟨ok, exitCode, out, err, error, hv, hh, hl⟩ :=
    @installOllama_cases _ os platform host w
  have hok : extractJsonBoolField (Host.installResultJson ok exitCode out err error) "ok" =
      some ok := (@member_readFrom _ (.bool ok) [] _) (by simp) trivial
  refine ⟨hh, _, rfl, ?_⟩
  rw [hv, hok]
  cases ok
  case false =>
    rcases hl with ⟨_, hl⟩ | hl
    case inl => exact .inl ⟨by simp [ChatEntry.now], hl⟩
    case inr => exact .inr (hl.honest (by simp [ChatEntry.now]))
  case true =>
    rcases hl with ⟨hf, _⟩ | hl
    case inl => contradiction
    case inr => exact .inr (hl.honest (by simp [ChatEntry.now]))

theorem startOllama_cases (host : Host) (w : W) :
    (∃ error, (host.startOllama os w).value = jsonObject [jsonBoolField "ok" false,
        jsonBoolField "online" false, jsonStringField "error" error] ∧
      (host.startOllama os w).host = host ∧ Reports false (host.startOllama os w).logged) ∨
    ∃ pid online, (host.startOllama os w).value = jsonObject [jsonBoolField "ok" true,
        jsonIntField "pid" pid, jsonBoolField "online" online] ∧
      (host.startOllama os w).host = host ∧ Reports online (host.startOllama os w).logged := by
  rw [Host.startOllama]
  dsimp only
  split
  case isTrue  => exact .inl ⟨_, rfl, rfl, _, rfl⟩
  case isFalse => exact .inr ⟨_, _, rfl, rfl, _, rfl⟩

theorem start_spec : (SetupTurn.start os host w).host = host ∧
    ∃ entries, (SetupTurn.start os host w).entries = some entries ∧
      Honest entries (SetupTurn.start os host w).logged := by
  rcases @startOllama_cases _ os host w with ⟨error, hv, hh, hl⟩ | ⟨pid, online, hv, hh, hl⟩
  case inl =>
    have hok : extractJsonBoolField (host.startOllama os w).value "ok" = some false :=
      hv ▸ (@member_readFrom _ (.bool false) [] _) (by simp) trivial
    refine ⟨hh, _, rfl, hl.honest ?_⟩
    simp [hok, ChatEntry.now]
  case inr =>
    have hok : extractJsonBoolField (host.startOllama os w).value "ok" = some true :=
      hv ▸ (@member_readFrom _ (.bool true) [] _) (by simp) trivial
    have hon : extractJsonBoolField (host.startOllama os w).value "online" = some online := by
      rw [hv]
      refine (@member_readFrom _ (.bool online)
        [jsonBoolField "ok" true, jsonIntField "pid" pid] []) ?_ trivial
      intro text ht
      simp only [List.mem_cons, List.not_mem_nil, or_false] at ht
      rcases ht with rfl | rfl
      case inl => exact (Field.bool true).passes (by decide) (by decide) (by decide)
      case inr => exact (Field.int pid).passes (by decide) (by decide) (by decide)
    refine ⟨hh, _, rfl, hl.honest ?_⟩
    cases online <;> simp [hok, hon, ChatEntry.now]

-- What the app log has of a model that has been pulled.
def pulledEntry (model : Bytes) : AppLogEntry :=
  ⟨"ollama", "out", str "pulled model: " ++ model, true⟩

theorem pullOllamaModel_spec (hm : model ≠ []) :
    ∃ exitCode error, (host.pullOllamaModel os (Host.modelBody model) w).value =
        Host.pullResultJson (pulls os model w) model exitCode error ∧
      (host.pullOllamaModel os (Host.modelBody model) w).host =
        (if pulls os model w then withModel host model else host) ∧
      (host.pullOllamaModel os (Host.modelBody model) w).logged =
        [if pulls os model w then pulledEntry model
          else ⟨"ollama", "out", str "pull failed: " ++ model, false⟩] := by
  rw [Host.pullOllamaModel, extract_modelBody, if_neg hm]
  dsimp only
  rw [updateOllamaConfig_modelBody hm]
  refine ⟨_, _, rfl, rfl, ?_⟩
  cases h : pulls os model w
  all_goals
    rw [pulls] at h
    simp [h, pulledEntry]

theorem pull_spec (hm : model ≠ []) : (SetupTurn.pull os host model w).host =
      (if pulls os model w then withModel host model else host) ∧
    (pulls os model w → pulledEntry model ∈ (SetupTurn.pull os host model w).logged) ∧
    ∃ entries, (SetupTurn.pull os host model w).entries = some entries ∧
      Honest entries (SetupTurn.pull os host model w).logged := by
  obtain ⟨exitCode, error, hv, hh, hl⟩ := @pullOllamaModel_spec _ os host w model hm
  have hok : extractJsonBoolField (host.pullOllamaModel os (Host.modelBody model) w).value "ok" =
      some (pulls os model w) := hv ▸ (@member_readFrom _ (.bool _) [] _) (by simp) trivial
  have hl : (SetupTurn.pull os host model w).logged = _ := hl
  refine ⟨hh, fun hp => by simp [hl, hp], _, rfl, ?_⟩
  rw [hl]
  cases h : pulls os model w <;> simp [Honest, hok, h, ChatEntry.now, pulledEntry]

theorem mem_of_tryResolve {message : Bytes} {models : List Bytes}
    (h : tryResolveModelSelection message models = some model) : model ∈ models := by
  cases models
  case nil => contradiction
  case cons front models =>
    simp only [tryResolveModelSelection] at h
    split_ifs at h with hn hd hi
    case pos => exact Option.some.inj h ▸ List.mem_cons_self
    case pos => exact List.mem_of_getElem? h
    case neg => exact List.mem_of_find?_eq_some h

theorem unnamedText_ne_nil {s : Bytes} (h : s ≠ []) : unnamedText s ≠ [] := by
  simpa [unnamedText] using h

-- What a turn of the chat is, for what the host has found out in front of it.
inductive Outcome (os : Os W) (platform : Platform) (host : Host) (setup : OllamaSetup)
    (lowerMessage : Bytes) (w : W) : SetupTurn W → Prop
  | agent : setupState setup = .ready →
    Outcome os platform host setup lowerMessage w ⟨none, [], host, w⟩
  | told (text : Bytes) : setupState setup ≠ .ready →
    Outcome os platform host setup lowerMessage w (SetupTurn.told text host w)
  | install : setupState setup = .needsInstall →
    lowerMessage ∈ [str "install ollama", str "install"] →
    Outcome os platform host setup lowerMessage w (SetupTurn.install os platform host w)
  | start : setupState setup = .needsStart →
    lowerMessage ∈ [str "start ollama", str "start"] →
    Outcome os platform host setup lowerMessage w (SetupTurn.start os host w)
  | use {model : Bytes} : setupState setup = .needsModel →
    model ∈ setup.models.map unnamedText →
    Outcome os platform host setup lowerMessage w (SetupTurn.use host model w)
  | pull {model : Bytes} : setupState setup = .needsModel → model ≠ [] →
    Outcome os platform host setup lowerMessage w (SetupTurn.pull os host model w)

theorem chooseModel_outcome {setup : OllamaSetup} {message : Bytes}
    (h : setupState setup = .needsModel) :
    Outcome os platform host setup (lowered message) w
      (SetupTurn.chooseModel os host message (setup.models.map unnamedText) w) := by
  have hr : setupState setup ≠ .ready := by simp [h]
  unfold SetupTurn.chooseModel
  dsimp only
  split
  case isTrue => exact .told _ hr
  case isFalse =>
    split
    case isTrue => exact .told _ hr
    case isFalse =>
      split
      case isTrue =>
        split
        case isTrue     => exact .told _ hr
        case isFalse ht => exact .pull h ht
      case isFalse =>
        split
        case h_1 model hs => exact .use h (mem_of_tryResolve hs)
        case h_2 =>
          split
          case isTrue     => exact .told _ hr
          case isFalse hn => exact .pull h hn

-- The setup that a turn begins with, and the world behind it.
theorem setupTurn_outcome (message : Bytes) :
    Outcome os platform host (host.ollamaSetup os platform w).1 (lowered (trim message))
      (host.ollamaSetup os platform w).2 (setupTurn os platform message host w) := by
  generalize hs : (host.ollamaSetup os platform w).1 = setup
  generalize hw : (host.ollamaSetup os platform w).2 = w'
  have hj : host.ollamaSetupStatusJson os platform w = (setup.json, w') := by
    rw [← hs, ← hw]
    rfl
  rw [setupTurn, hj]
  dsimp only
  rw [computeSetupState_json, parseOllamaSetupStatus_json]
  dsimp only
  cases h : setupState setup
  case ready => exact .agent h
  case needsInstall =>
    dsimp only
    split_ifs with hm
    case pos => exact .install h hm
    case neg => exact .told _ (by simp [h])
  case needsStart =>
    dsimp only
    split_ifs with hm
    case pos => exact .start h hm
    case neg => exact .told _ (by simp [h])
  case needsModel => exact chooseModel_outcome h

theorem ne_nil_of_mem_ollamaSetup :
    ∀ name ∈ (host.ollamaSetup os platform w).1.models, name ≠ [] := by
  intro name hn
  simp only [Host.ollamaSetup] at hn
  split_ifs at hn
  case pos => exact ne_nil_of_mem_parseOllamaModelNames name hn
  case neg => simp at hn

theorem ready_iff {setup : OllamaSetup} : setupState setup = .ready ↔
    setup.installed ∧ setup.online ∧ setup.configuredModel ∈ setup.models := by
  rw [setupState]
  split_ifs <;> simp_all

theorem not_installed_of_needsInstall {setup : OllamaSetup}
    (h : setupState setup = .needsInstall) : ¬setup.installed := by
  intro hi
  rw [setupState, if_neg (by simp [hi])] at h
  split_ifs at h

section Outcome

variable {setup : OllamaSetup} {lowerMessage : Bytes} {turn : SetupTurn W}

theorem Outcome.agent_iff (h : Outcome os platform host setup lowerMessage w turn) :
    turn.entries = none ↔ setupState setup = .ready := by
  cases h
  case agent h      => simp [h]
  case told h       => simp [SetupTurn.told, h]
  case install h hm => simp [SetupTurn.install, h]
  case start h hm   => simp [SetupTurn.start, h]
  case use h hm     => simp [SetupTurn.use, SetupTurn.told, h]
  case pull h hm    => simp [SetupTurn.pull, h]

theorem Outcome.agent_frame (h : Outcome os platform host setup lowerMessage w turn)
    (hn : turn.entries = none) : turn.host = host ∧ turn.logged = [] ∧ turn.world = w := by
  have hr := h.agent_iff.mp hn
  cases h
  case agent => exact ⟨rfl, rfl, rfl⟩
  all_goals simp_all

theorem Outcome.honest (h : Outcome os platform host setup lowerMessage w turn)
    (he : turn.entries = some entries) :
    Honest entries turn.logged ∨ (∃ e ∈ entries, e.role = .error) ∧ turn.logged = [] ∧
      ¬setup.installed ∧ lowerMessage ∈ [str "install ollama", str "install"] := by
  cases h
  case agent => contradiction
  case told text h => exact .inl (Option.some.inj he ▸ honest_told text)
  case use h hm    => exact .inl (Option.some.inj he ▸ honest_told _)
  case install h hm =>
    obtain ⟨_, es, hes, hs⟩ := @install_spec _ os platform host w
    obtain rfl := Option.some.inj (hes.symm.trans he)
    rcases hs with ⟨hs, hl⟩ | hs
    case inl => exact .inr ⟨hs, hl, not_installed_of_needsInstall h, hm⟩
    case inr => exact .inl hs
  case start h hm =>
    obtain ⟨_, es, hes, hs⟩ := @start_spec _ os host w
    exact .inl (Option.some.inj (hes.symm.trans he) ▸ hs)
  case pull h hm =>
    obtain ⟨_, _, es, hes, hs⟩ := @pull_spec _ os host w _ hm
    exact .inl (Option.some.inj (hes.symm.trans he) ▸ hs)

-- The model is taken from the list, or has been pulled.
theorem Outcome.host_cases (h : Outcome os platform host setup lowerMessage w turn)
    (hn : ∀ name ∈ setup.models, name ≠ []) : turn.host = host ∨
      ∃ model, turn.host = withModel host model ∧ setupState setup = .needsModel ∧
        (model ∈ setup.models.map unnamedText ∨ pulledEntry model ∈ turn.logged) := by
  cases h
  case agent        => exact .inl rfl
  case told         => exact .inl rfl
  case install h hm => exact .inl install_spec.left
  case start h hm   => exact .inl start_spec.left
  case use model h hm =>
    obtain ⟨name, hname, rfl⟩ := List.mem_map.mp hm
    have hne := unnamedText_ne_nil (hn name hname)
    exact .inr ⟨_, updateOllamaConfig_modelBody hne, h, .inl hm⟩
  case pull model h hm =>
    obtain ⟨hh, hl, _⟩ := @pull_spec _ os host w model hm
    cases hp : pulls os model w
    case false => exact .inl (by simpa [hp] using hh)
    case true  => exact .inr ⟨model, by simpa [hp] using hh, h, .inr (hl hp)⟩

end Outcome

-- A message gets to the agent when, and only when, the provider answers and lists the configured
-- model, and then nothing else is done. Otherwise the chat tells of an error exactly when the app
-- log does, but for an installation that is not even tried.
theorem setupTurn_gate (os : Os W) (platform : Platform) (message : Bytes) (host : Host) (w : W) :
    let setup := (host.ollamaSetup os platform w).1
    let turn := setupTurn os platform message host w
    (turn.entries = none ↔
      setup.installed ∧ setup.online ∧ setup.configuredModel ∈ setup.models) ∧
    (turn.entries = none → turn.host = host ∧ turn.logged = []) ∧
    ∀ entries, turn.entries = some entries →
      Honest entries turn.logged ∨
        (∃ e ∈ entries, e.role = .error) ∧ turn.logged = [] ∧ ¬setup.installed ∧
          lowered (trim message) ∈ [str "install ollama", str "install"] := by
  intro setup turn
  have h := @setupTurn_outcome _ os platform host w message
  refine ⟨h.agent_iff.trans ready_iff, fun hn => ?_, fun entries he => h.honest he⟩
  obtain ⟨hh, hl, _⟩ := h.agent_frame hn
  exact ⟨hh, hl⟩

end Turn
end Tui
end Droidcli.Cli
