import Droidcli.Cli.RuntimeSettings
import Droidcli.Cli.Theorems.Settings

namespace Droidcli.Cli

open Bytes Net

-- The secret stores of the accounts on all machines, some of which have none. What one account has
-- encrypted is of no use to another one.
structure PerAccount {Account : Type} (store : Account → Option Dpapi) : Prop where
  faithful : ∀ {account}, ∀ d ∈ store account, d.Faithful
  separate : ∀ {account other d d' plaintext bytes}, d ∈ store account → d' ∈ store other →
    account ≠ other → d.cryptProtectData plaintext = some bytes →
    d'.cryptUnprotectData bytes = none

section Secrets

variable {Account : Type} {store : Account → Option Dpapi} {current writer : Account}
variable {dpapi reader : Option Dpapi} {config : SavedConfig} {file : Option Bytes}
variable {settings : HostSettings} {hex : Bytes}

theorem token_nil : decryptSecretField dpapi [] "api_token" = [] := by
  have (key : Bytes) : extractJsonStringField [] key = [] := by
    apply stringField_absent
    simp [needle]
  simp [decryptSecretField, this]

-- The one who loads a file makes a difference for the token only.
theorem loadSettings_cases (file : Option Bytes) :
    (∀ dpapi, loadSettings dpapi file .initial = none) ∨
      ∃ (found : Bool) (settings : HostSettings), ∀ dpapi, loadSettings dpapi file .initial =
        some (found, { settings with apiToken := token dpapi file }) := by
  cases file
  case none => exact .inr ⟨false, .initial, fun dpapi => by simp [loadSettings, token, token_nil]; rfl⟩
  case some json =>
    by_cases hj : json = []
    case pos =>
      subst hj
      exact .inr ⟨false, .initial, fun dpapi => by simp [loadSettings, token, token_nil]; rfl⟩
    case neg =>
      cases hp : loadInt32 json "port" HostSettings.initial.port
      case none => exact .inl fun dpapi => by simp [loadSettings, hj, hp]
      case some port =>
        cases hc : loadInt32 json "ollama_num_ctx" HostSettings.initial.ollamaNumCtx
        case none => exact .inl fun dpapi => by simp [loadSettings, hj, hp, hc]
        case some ctx =>
          let loaded : HostSettings := {
            port := port
            enableAi := (extractJsonBoolField json "enable_ai").getD true
            enableHardwareScan := (extractJsonBoolField json "enable_hardware_scan").getD false
            ollamaUrl := loadString json "ollama_url" HostSettings.initial.ollamaUrl
            ollamaModel := loadString json "ollama_model" HostSettings.initial.ollamaModel
            ollamaNumCtx := ctx
            apiToken := [] }
          refine .inr ⟨true, loaded, fun dpapi => ?_⟩
          simp only [loadSettings, hj, if_false, hp, hc]
          rfl

theorem secrets_saved : secrets reader (some (settingsJson dpapi settings)) =
    some (settings.port, decryptSecretField reader (settingsJson dpapi settings) "api_token") := by
  simp [secrets, loadSettings_stored]

-- Another account finds no token when this one has encrypted it, and else the same.
theorem token_of_other (hs : PerAccount store) (hne : current ≠ writer) :
    decryptSecretField (store writer) (settingsJson (store current) settings) "api_token" =
      if ((store current).bind (·.protect settings.apiToken)).isSome then []
      else settings.apiToken := by
  by_cases ht : settings.apiToken = []
  case pos =>
    rw [decryptSecretField_plain (.inl ht), ht]
    split <;> rfl
  case neg =>
    cases hp : (store current).bind (·.protect settings.apiToken)
    case none     => simp [decryptSecretField_plain (.inr hp)]
    case some hex =>
      have ⟨d, hd, hp'⟩ := Option.bind_eq_some_iff.mp hp
      have ⟨hn, _⟩ := (hs.faithful d hd).unprotect hp'
      have ⟨bytes, hb, he⟩ := Option.map_eq_some_iff.mp hp'
      have hu : (store writer).bind (·.unprotect hex) = none := by
        apply Option.bind_eq_none_iff.mpr
        intro d' hd'
        have hn := (hs.faithful d hd).nonempty hb
        simp [← he, Dpapi.unprotect, hexDecode_hexEncode hn, hn, hs.separate hd hd' hne hb]
      simp [decryptSecretField_encrypted ht hp hn, hu]

def Throws (file : Option Bytes) : Prop :=
  loadSettings none file .initial = none

-- What it takes for the whole of new settings to hold the port and the token that the writer reads.
-- The account that writes them can be this one. Another one has to leave the same token behind: none
-- where it encrypts the one it reads. One that cannot read the file leaves the defaults.
def Carried (store : Account → Option Dpapi) (current writer : Account) (opened : Bool)
    (file : Option Bytes) : Prop :=
  if opened then
    current = writer ∨ token (store writer) file =
      if ((store current).bind (·.protect (token (store current) file))).isSome then []
      else token (store current) file
  else secrets (store writer) file = some (HostSettings.initial.port, [])

-- Nothing is saved without a path or after an exception. Otherwise it depends on the writing: a file
-- that is not opened is kept, and in one that is torn there has to be left what the writer reads.
def KeepsSecrets (store : Account → Option Dpapi) (current writer : Account) (config : SavedConfig)
    (opened : Bool) (written : WriteResult) (file : Option Bytes) : Prop :=
  config.settingsPath = [] ∨ opened ∧ Throws file ∨
    match written with
    | .unopened  => True
    | .torn left => secrets (store writer) (some left) = secrets (store writer) file
    | .whole     => Carried store current writer opened file

theorem loadSettings_unopened :
    loadSettings dpapi none .initial = some (false, HostSettings.initial) :=
  rfl

def SavedConfig.over (config : SavedConfig) (settings : HostSettings) : HostSettings :=
  { settings with
    enableAi := config.enableAi
    enableHardwareScan := config.enableHardwareScan
    ollamaUrl := config.ollamaUrl
    ollamaModel := config.ollamaModel
    ollamaNumCtx := config.ollamaNumCtx }

-- What the writer reads from settings that are written whole over those that are loaded.
theorem secrets_carried_iff (hs : PerAccount store) {opened found : Bool}
    (hl : loadSettings (store current) (if opened then file else none) .initial =
      some (found, settings)) :
    secrets (store writer) (some (settingsJson (store current) (config.over settings))) =
        secrets (store writer) file ↔
      Carried store current writer opened file := by
  rw [secrets_saved, Carried]
  cases opened
  case false =>
    have ⟨_, he⟩ : found = false ∧ settings = .initial := by
      simpa [loadSettings_unopened, eq_comm] using hl
    have ht : (config.over settings).apiToken = [] := he ▸ rfl
    rw [decryptSecretField_plain (.inl ht), ht, he, if_neg Bool.false_ne_true, eq_comm]
    rfl
  case true =>
    cases loadSettings_cases file
    case inl hn => simp [hn] at hl
    case inr hc =>
      obtain ⟨found', settings', hc⟩ := hc
      obtain ⟨rfl, rfl⟩ : found' = found ∧
          { settings' with apiToken := token (store current) file } = settings := by
        simpa [hc] using hl
      have hf : secrets (store writer) file = some (settings'.port, token (store writer) file) := by
        simp [secrets, hc]
      rw [hf, if_pos rfl]
      by_cases hw : current = writer
      case pos =>
        subst hw
        rw [decryptSecretField_saved hs.faithful]
        simp [SavedConfig.over]
      case neg =>
        rw [token_of_other hs hw]
        simp only [hw, false_or, SavedConfig.over, Option.some.injEq, Prod.mk.injEq, true_and]
        exact eq_comm

-- A change of the configuration keeps the port and the token for the account that wrote them exactly
-- then.
theorem keepsSecrets_iff (hs : PerAccount store) (opened : Bool) (written : WriteResult) :
    secrets (store writer)
          (persistCurrentSettingsLocked (store current) config opened written file) =
        secrets (store writer) file ↔
      KeepsSecrets store current writer config opened written file := by
  by_cases hp : config.settingsPath = []
  case pos => simp [persistCurrentSettingsLocked, KeepsSecrets, hp]
  case neg =>
    cases hl : loadSettings (store current) (if opened then file else none) .initial
    case none =>
      have ht : opened ∧ Throws file := by
        cases opened
        case false => exact absurd hl (by simp [loadSettings_unopened])
        case true  =>
          cases loadSettings_cases file
          case inl hn => exact ⟨rfl, hn none⟩
          case inr hc =>
            obtain ⟨found, settings, hc⟩ := hc
            exact absurd hl (by simp [hc])
      have hk : persistCurrentSettingsLocked (store current) config opened written file = file := by
        rw [persistCurrentSettingsLocked, if_neg hp, hl]
      rw [hk]
      exact iff_of_true rfl (.inr (.inl ht))
    case some loaded =>
      obtain ⟨found, settings⟩ := loaded
      have ht : ¬(opened ∧ Throws file) := by
        rintro ⟨rfl, ht⟩
        cases loadSettings_cases file
        case inl hn => simp [hn] at hl
        case inr hc =>
          obtain ⟨found, settings, hc⟩ := hc
          simp [Throws, hc] at ht
      have hk : persistCurrentSettingsLocked (store current) config opened written file =
          (saveSettings (store current) (config.over settings) written file).2 := by
        rw [persistCurrentSettingsLocked, if_neg hp, hl]
        rfl
      simp only [hk, KeepsSecrets, hp, ht, false_or]
      cases written
      case unopened => exact iff_of_true rfl trivial
      case torn     => exact Iff.rfl
      case whole    => exact secrets_carried_iff hs hl

end Secrets

section Examples

-- Two accounts that mark what they encrypt, and a platform without a secret store.
inductive Owner
  | alice
  | service
  | linux
  deriving DecidableEq

def markedBy (mark : UInt8) : Dpapi where
  cryptProtectData plaintext := some (mark :: plaintext)
  cryptUnprotectData bytes := if bytes.head? = some mark then some bytes.tail else none

def ownStore : Owner → Option Dpapi
  | .alice   => some (markedBy 0x01)
  | .service => some (markedBy 0x02)
  | .linux   => none

theorem ownStore_perAccount : PerAccount ownStore where
  faithful {account} d hd := by
    cases account <;> cases hd
    all_goals
      constructor
      case nonempty => exact fun h => Option.some.inj h ▸ List.cons_ne_nil _ _
      case decrypts => exact fun h => Option.some.inj h ▸ rfl
  separate {account other d d' plaintext bytes} hd hd' hne h := by
    cases account <;> cases hd <;> cases other <;> cases hd'
    all_goals first
      | contradiction
      | exact Option.some.inj h ▸ rfl

def chosen : SavedConfig :=
  ⟨true, false, "http://127.0.0.1:11434", "qwen3", 32768, "db/droidcli_settings.json"⟩

-- The settings that Alice has saved.
def savedByAlice : Bytes :=
  settingsJson (ownStore .alice) { HostSettings.initial with apiToken := "secret" }

theorem keepsSecrets_iff_alice :
    secrets (ownStore .alice)
        (persistCurrentSettingsLocked (ownStore .alice) chosen true .whole (some savedByAlice)) =
      secrets (ownStore .alice) (some savedByAlice) :=
  (keepsSecrets_iff ownStore_perAccount true .whole).mpr (.inr (.inr (.inl rfl)))

-- The service cannot decrypt the token of Alice, and saves an empty one in its place.
theorem not_keepsSecrets :
    ¬∀ (store : Owner → Option Dpapi) (writer current : Owner) (config : SavedConfig)
      (opened : Bool) (written : WriteResult) (file : Option Bytes), PerAccount store →
      secrets (store writer)
          (persistCurrentSettingsLocked (store current) config opened written file) =
        secrets (store writer) file := by
  intro h
  have := h ownStore .alice .service chosen true .whole (some savedByAlice) ownStore_perAccount
  revert this
  decide +kernel

end Examples
end Droidcli.Cli
