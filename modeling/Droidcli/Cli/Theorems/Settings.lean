import Droidcli.Ai.Theorems.Members
import Droidcli.Cli.Droidcli
import Droidcli.Net.Theorems.RoundTrip

namespace Droidcli.Cli

open Bytes Json Net

section Hex

variable {data : Bytes}

theorem nibble_kHexDigits : ∀ n < 16, nibble (kHexDigits.getD n nul) = some n.toUInt8 := by
  decide

theorem byte_of_halves (byte : UInt8) :
    (byte.toNat / 16).toUInt8 * 16 + (byte.toNat % 16).toUInt8 = byte := by
  apply UInt8.toNat.inj
  have := byte.toNat_lt
  simp
  omega

theorem hexDecodePairs_hexEncode (data : Bytes) : hexDecodePairs (hexEncode data) = some data := by
  induction data
  case nil => rfl
  case cons byte data hi =>
    have he : hexEncode (byte :: data) = hexEncodeByte byte ++ hexEncode data := rfl
    have := byte.toNat_lt
    have hhigh := nibble_kHexDigits (byte.toNat / 16) (by omega)
    have hlow := nibble_kHexDigits (byte.toNat % 16) (by omega)
    simp only [he, hexEncodeByte, List.cons_append, List.nil_append, hexDecodePairs, hhigh, hlow, hi,
      Option.bind_eq_bind, Option.bind_some, Option.pure_def, byte_of_halves]

theorem hexEncode_ne_nil (h : data ≠ []) : hexEncode data ≠ [] := by
  have ⟨byte, data, he⟩ := List.exists_cons_of_ne_nil h
  rw [he]
  exact List.cons_ne_nil _ _

theorem hexDecode_hexEncode (h : data ≠ []) : hexDecode (hexEncode data) = some data := by
  rw [hexDecode, if_neg (hexEncode_ne_nil h), hexDecodePairs_hexEncode]

end Hex

-- What is encrypted is something, and decrypts to what it was.
structure Dpapi.Faithful (dpapi : Dpapi) : Prop where
  nonempty : ∀ {plaintext bytes}, dpapi.cryptProtectData plaintext = some bytes → bytes ≠ []
  decrypts : ∀ {plaintext bytes}, dpapi.cryptProtectData plaintext = some bytes →
    dpapi.cryptUnprotectData bytes = some plaintext

theorem Dpapi.Faithful.unprotect {dpapi : Dpapi} {plaintext hex : Bytes} (hd : dpapi.Faithful)
    (h : dpapi.protect plaintext = some hex) :
    hex ≠ [] ∧ dpapi.unprotect hex = some plaintext := by
  have ⟨bytes, hb, he⟩ := Option.map_eq_some_iff.mp h
  have hn := hd.nonempty hb
  constructor
  case left  => exact he ▸ hexEncode_ne_nil hn
  case right => simp [← he, Dpapi.unprotect, hexDecode_hexEncode hn, hn, hd.decrypts hb]

section Stored

variable {dpapi reader : Option Dpapi} {settings : HostSettings} {key hex : Bytes}

-- The member that holds the token.
def secretField (dpapi : Option Dpapi) (token : Bytes) : Bytes × Bytes :=
  if token = [] then ("api_token", [])
  else
    match dpapi.bind (·.protect token) with
    | some encryptedHex => ("api_token_dpapi_hex", encryptedHex)
    | none              => ("api_token", token)

def settingsFields (dpapi : Option Dpapi) (settings : HostSettings) : List (Bytes × Field) :=
  let (key, text) := secretField dpapi settings.apiToken
  [
    ("port", .int settings.port.toInt),
    ("enable_ai", .bool settings.enableAi),
    ("enable_hardware_scan", .bool settings.enableHardwareScan),
    ("ollama_url", .string settings.ollamaUrl),
    ("ollama_model", .string settings.ollamaModel),
    ("ollama_num_ctx", .int settings.ollamaNumCtx.toInt),
    (key, .string text)
  ]

theorem secretField_key (dpapi : Option Dpapi) (token : Bytes) :
    (secretField dpapi token).1 = str "api_token_dpapi_hex" ∨
      (secretField dpapi token).1 = str "api_token" := by
  simp only [secretField]
  split_ifs
  case pos => simp
  case neg => split <;> simp

theorem settingsJson_eq :
    settingsJson dpapi settings = flatObject (settingsFields dpapi settings) := by
  have hs : serializeSecretField dpapi "api_token" settings.apiToken =
      jsonStringField (secretField dpapi settings.apiToken).1
        (secretField dpapi settings.apiToken).2 := by
    have hk : str "api_token" ++ str "_dpapi_hex" = str "api_token_dpapi_hex" := by decide
    by_cases ht : settings.apiToken = []
    case pos => simp [serializeSecretField, secretField, ht]
    case neg =>
      cases hp : dpapi.bind (·.protect settings.apiToken)
      case none     => simp [serializeSecretField, secretField, ht, hp]
      case some hex => simp [serializeSecretField, secretField, ht, hp, hk]
  rw [settingsJson, hs]
  rfl

def settingsKeys (secretKey : Bytes) : List Bytes := [
  "port", "enable_ai", "enable_hardware_scan", "ollama_url", "ollama_model", "ollama_num_ctx",
  secretKey
]

theorem map_fst_settingsFields : (settingsFields dpapi settings).map Prod.fst =
    settingsKeys (secretField dpapi settings.apiToken).1 :=
  rfl

theorem settingsFields_word : ∀ f ∈ settingsFields dpapi settings, Word f.1 := by
  have hw : ∀ key ∈ settingsKeys (secretField dpapi settings.apiToken).1, Word key := by
    cases secretField_key dpapi settings.apiToken
    case inl hk => exact hk ▸ by decide
    case inr hk => exact hk ▸ by decide
  exact fun f hf => hw f.1 (map_fst_settingsFields ▸ List.mem_map_of_mem hf)

theorem settingsFields_nodup : ((settingsFields dpapi settings).map Prod.fst).Nodup := by
  rw [map_fst_settingsFields]
  cases secretField_key dpapi settings.apiToken
  case inl hk => exact hk ▸ by decide
  case inr hk => exact hk ▸ by decide

theorem int32_inRange (n : Int32) : Field.InRange (.int n.toInt) := by
  have hl := n.le_toInt
  have hu := n.toInt_lt
  simp only [Field.InRange, int64Min, int64Max]
  omega

theorem settingsFields_inRange : ∀ f ∈ settingsFields dpapi settings, f.2.InRange := by
  have hp := int32_inRange settings.port
  have hc := int32_inRange settings.ollamaNumCtx
  simp [settingsFields, Field.InRange] at hp hc ⊢
  exact ⟨hp, hc⟩

-- Every member of the settings is read as it was written.
theorem settingsFields_readFrom :
    ∀ f ∈ settingsFields dpapi settings,
      f.2.ReadFrom (flatObject (settingsFields dpapi settings)) f.1 :=
  flatObject_readFrom settingsFields_word settingsFields_nodup settingsFields_inRange

theorem secretField_readFrom :
    Field.ReadFrom (settingsJson dpapi settings) (secretField dpapi settings.apiToken).1
      (.string (secretField dpapi settings.apiToken).2) := by
  have hr := (@settingsFields_readFrom dpapi settings)
    ((secretField dpapi settings.apiToken).1, .string (secretField dpapi settings.apiToken).2)
    (by simp [settingsFields])
  rwa [← settingsJson_eq] at hr

-- An encrypted token comes back from the secret store of whoever reads it.
theorem decryptSecretField_encrypted (ht : settings.apiToken ≠ [])
    (hp : dpapi.bind (·.protect settings.apiToken) = some hex) (hn : hex ≠ []) :
    decryptSecretField reader (settingsJson dpapi settings) "api_token" =
      (reader.bind (·.unprotect hex)).getD [] := by
  have hr := @secretField_readFrom dpapi settings
  simp only [secretField, ht, if_false, hp, Field.ReadFrom] at hr
  have hk : str "api_token" ++ str "_dpapi_hex" = str "api_token_dpapi_hex" := by decide
  simp [decryptSecretField, hk, hr, hn]

-- Any other one comes back from the text itself.
theorem decryptSecretField_plain
    (h : settings.apiToken = [] ∨ dpapi.bind (·.protect settings.apiToken) = none) :
    decryptSecretField reader (settingsJson dpapi settings) "api_token" = settings.apiToken := by
  have hs : secretField dpapi settings.apiToken = (str "api_token", settings.apiToken) := by
    by_cases ht : settings.apiToken = []
    case pos => simp [secretField, ht]
    case neg => simp [secretField, ht, h.resolve_left ht]
  have hr := @secretField_readFrom dpapi settings
  simp only [hs, Field.ReadFrom] at hr
  have ha : extractJsonStringField (settingsJson dpapi settings)
      (str "api_token" ++ str "_dpapi_hex") = [] := by
    rw [settingsJson_eq]
    apply stringField_absent
    apply flatObject_absent (by decide)
    intro f hf
    refine ⟨settingsFields_word f hf, ?_⟩
    have hkey : f.1 ∈ settingsKeys "api_token" := by
      have := List.mem_map_of_mem (f := Prod.fst) hf
      rw [map_fst_settingsFields, hs] at this
      exact this
    have hne : ∀ key ∈ settingsKeys "api_token", str "api_token" ++ str "_dpapi_hex" ≠ key := by
      decide
    exact hne f.1 hkey
  simp [decryptSecretField, ha, hr]

theorem decryptSecretField_saved (hd : ∀ d ∈ dpapi, d.Faithful) :
    decryptSecretField dpapi (settingsJson dpapi settings) "api_token" = settings.apiToken := by
  by_cases ht : settings.apiToken = []
  case pos => exact decryptSecretField_plain (.inl ht)
  case neg =>
    cases hp : dpapi.bind (·.protect settings.apiToken)
    case none => exact decryptSecretField_plain (.inr hp)
    case some hex =>
      have ⟨d, hm, hp'⟩ := Option.bind_eq_some_iff.mp hp
      have ⟨hn, hu⟩ := (hd d hm).unprotect hp'
      have hb : dpapi.bind (·.unprotect hex) = some settings.apiToken :=
        Option.bind_eq_some_iff.mpr ⟨d, hm, hu⟩
      simp [decryptSecretField_encrypted ht hp hn, hb]

theorem settingsJson_ne_nil : settingsJson dpapi settings ≠ [] :=
  List.cons_ne_nil _ _

theorem loadInt32_saved {json : Bytes} {out n : Int32}
    (h : Field.ReadFrom json key (.int n.toInt)) : loadInt32 json key out = some n := by
  simp only [Field.ReadFrom] at h
  simp [loadInt32, h, IntField.getD]

theorem loadString_saved {json out value : Bytes} (h : Field.ReadFrom json key (.string value)) :
    loadString json key out = if value = [] then out else value := by
  simp only [Field.ReadFrom] at h
  by_cases hv : value = [] <;> simp [loadString, h, hv]

-- A URL or a model that is empty is not loaded.
theorem loadSettings_stored (out : HostSettings) :
    loadSettings reader (some (settingsJson dpapi settings)) out = some (true, { settings with
      ollamaUrl := if settings.ollamaUrl = [] then out.ollamaUrl else settings.ollamaUrl
      ollamaModel := if settings.ollamaModel = [] then out.ollamaModel else settings.ollamaModel
      apiToken := decryptSecretField reader (settingsJson dpapi settings) "api_token" }) := by
  have hr := (@settingsFields_readFrom dpapi settings)
  rw [← settingsJson_eq] at hr
  simp only [settingsFields, List.forall_mem_cons] at hr
  obtain ⟨hport, hai, hscan, hurl, hmodel, hctx, _⟩ := hr
  simp only [Field.ReadFrom] at hai hscan
  simp [loadSettings, settingsJson_ne_nil, loadInt32_saved hport, hai, hscan, loadString_saved hurl,
    loadString_saved hmodel, loadInt32_saved hctx]

theorem loadSettings_saved (hd : ∀ d ∈ dpapi, d.Faithful) (out : HostSettings) :
    loadSettings dpapi (some (settingsJson dpapi settings)) out = some (true, { settings with
      ollamaUrl := if settings.ollamaUrl = [] then out.ollamaUrl else settings.ollamaUrl
      ollamaModel := if settings.ollamaModel = [] then out.ollamaModel else settings.ollamaModel }) := by
  rw [loadSettings_stored, decryptSecretField_saved hd]

-- The settings come back as they were saved, whatever the token is and however it is stored, as long
-- as the file is written whole.
theorem settings_roundTrip {file : Option Bytes} (hd : ∀ d ∈ dpapi, d.Faithful)
    (hu : settings.ollamaUrl ≠ []) (hm : settings.ollamaModel ≠ []) (out : HostSettings) :
    loadSettings dpapi (saveSettings dpapi settings .whole file).2 out = some (true, settings) ∧
      ∀ data ≠ [], hexDecode (hexEncode data) = some data := by
  constructor
  case left  => rw [saveSettings, loadSettings_saved hd, if_neg hu, if_neg hm]
  case right => exact fun data => hexDecode_hexEncode

end Stored

section Flags

variable {argv args : List Bytes} {flag value path : Bytes}

theorem mem_of_flagValue (h : flagValue flag args = some value) : value ∈ args := by
  induction args using flagValue.induct flag
  case case1 value' args =>
    simp only [flagValue, if_true, Option.some.injEq] at h
    simp [h]
  case case2 arg value' args hne hi =>
    simp only [flagValue, if_neg hne] at h
    exact List.mem_cons_of_mem _ (hi h)
  case case3 => simp_all [flagValue]

-- A command line that names the settings and has no other flags, save for those of a service.
def OnlySettings (path : Bytes) (argv : List Bytes) : Prop :=
  ∃ executable : Bytes,
    argv = [executable, str "--settings", path] ∨ argv = serviceArgs executable path

namespace OnlySettings

theorem settingsPath (h : OnlySettings path argv) : settingsPath argv = path := by
  have ⟨executable, h⟩ := h
  cases h
  case inl h => simp [h, Cli.settingsPath, parseStringArg, flagValue]
  case inr h =>
    have hs : str "--service" ≠ str "--settings" ∧ str "--headless" ≠ str "--settings" := by decide
    simp [h, Cli.settingsPath, parseStringArg, flagValue, serviceArgs, hs]

def valuedFlags : List Bytes :=
  ["--port", "--ollama-url", "--ollama-model", "--ollama-num-ctx", "--token"]

theorem flagValue (h : OnlySettings path argv) : ∀ flag ∈ valuedFlags,
    flagValue flag argv.tail = none := by
  have ⟨executable, h⟩ := h
  have hn : ∀ flag ∈ valuedFlags,
      str "--settings" ≠ flag ∧ str "--service" ≠ flag ∧ str "--headless" ≠ flag := by decide
  intro flag hf
  have ⟨hs, hv, hh⟩ := hn flag hf
  cases h
  case inl h => simp [h, Cli.flagValue, hs]
  case inr h => simp [h, Cli.flagValue, serviceArgs, hs, hv, hh]

def bareFlags : List Bytes :=
  ["--help", "-h", "--version", "-v", "--no-ai", "--enable-hardware-scan"]

-- Only the path itself can be mistaken for a flag.
theorem hasFlag (h : OnlySettings path argv) : ∀ flag ∈ bareFlags,
    hasFlag argv flag = decide (path = flag) := by
  have ⟨executable, h⟩ := h
  have hn : ∀ flag ∈ bareFlags,
      flag ≠ str "--settings" ∧ flag ≠ str "--service" ∧ flag ≠ str "--headless" := by decide
  intro flag hf
  have ⟨hs, hv, hh⟩ := hn flag hf
  cases h
  case inl h => simp [h, Cli.hasFlag, hs, eq_comm]
  case inr h => simp [h, Cli.hasFlag, serviceArgs, hs, hv, hh, eq_comm]

end OnlySettings
end Flags

section Restart

variable {argv argv' : List Bytes} {around : Surroundings} {settings : HostSettings}
  {entropy : Vector UInt8 32}

-- A later start on the same machine, where no variable holds a token.
def restarted (argv : List Bytes) (around : Surroundings) (settings : HostSettings)
    (entropy : Vector UInt8 32) : Surroundings :=
  { around with files := savedFiles argv around settings, envValue := none, entropy := entropy }

-- Nothing is given that is not saved, or not loaded again: AI is not turned off, what is given for
-- the provider is not empty, and its context window is positive.
structure Storable (overflow : Bytes → Int32) (argv : List Bytes) : Prop where
  enableAi     : hasFlag argv "--no-ai" → settingsPath argv = "--no-ai"
  ollamaUrl    : flagValue "--ollama-url" argv.tail ≠ some []
  ollamaModel  : flagValue "--ollama-model" argv.tail ≠ some []
  ollamaNumCtx : ∀ value, flagValue "--ollama-num-ctx" argv.tail = some value →
    atoiArgument overflow value > 0

def orElse (value default : Bytes) : Bytes :=
  if value ≠ [] then value else default

-- What is given says nothing else than the settings that are there already, with the defaults in
-- their gaps. For a token that is not there, it takes the one that the later start generates.
structure Redundant (argv : List Bytes) (around : Surroundings) (entropy : Vector UInt8 32)
    (prior : HostSettings) : Prop where
  port         : ∀ value, flagValue "--port" argv.tail = some value →
    max 1 (atoiArgument around.overflow value) = prior.port
  enableAi     : hasFlag argv "--no-ai" → settingsPath argv = "--no-ai"
  scan         : hasFlag argv "--enable-hardware-scan" →
    settingsPath argv = "--enable-hardware-scan" ∨ prior.enableHardwareScan
  ollamaUrl    : ∀ value, flagValue "--ollama-url" argv.tail = some value →
    value = orElse prior.ollamaUrl "http://127.0.0.1:11434"
  ollamaModel  : ∀ value, flagValue "--ollama-model" argv.tail = some value →
    value = orElse prior.ollamaModel "llama3.2"
  ollamaNumCtx : ∀ value, flagValue "--ollama-num-ctx" argv.tail = some value →
    atoiArgument around.overflow value = if prior.ollamaNumCtx > 0 then prior.ollamaNumCtx else 32768
  apiToken     : resolveApiToken argv around prior.apiToken =
    orElse prior.apiToken (generateRandomToken entropy)

-- What a start that is given the path alone makes of what it loads from there.
def bareSettings (path : Bytes) (entropy : Vector UInt8 32) (loaded : HostSettings) :
    HostSettings where
  port := loaded.port
  enableAi := !decide (path = "--no-ai")
  enableHardwareScan := decide (path = "--enable-hardware-scan") || loaded.enableHardwareScan
  ollamaUrl := orElse loaded.ollamaUrl "http://127.0.0.1:11434"
  ollamaModel := orElse loaded.ollamaModel "llama3.2"
  ollamaNumCtx := if loaded.ollamaNumCtx > 0 then loaded.ollamaNumCtx else 32768
  apiToken := orElse loaded.apiToken (generateRandomToken entropy)

-- What it takes for the settings to survive the way in which they are written. A file that is not
-- opened is found as it was, and from one that is torn the right settings have to be read by luck.
def Survives (argv : List Bytes) (around : Surroundings) (entropy : Vector UInt8 32) : Prop :=
  match around.written with
  | .whole     => Storable around.overflow argv
  | .unopened  => ∃ found prior,
    loadSettings around.dpapi (around.files (settingsPath argv)) .initial = some (found, prior) ∧
      Redundant argv around entropy prior
  | .torn left => ∃ found loaded,
    loadSettings around.dpapi (some left) .initial = some (found, loaded) ∧
      resolvedSettings argv around = some (bareSettings (settingsPath argv) entropy loaded)

theorem hasFlag_settingsPath {flag : Bytes} (h : settingsPath argv = flag)
    (hd : flag ≠ str "db/droidcli_settings.json") : hasFlag argv flag := by
  rw [settingsPath, parseStringArg] at h
  cases hf : flagValue "--settings" argv.tail
  case none       => simp [hf, hd.symm] at h
  case some value =>
    have : value = flag := by simpa [hf] using h
    simpa [hasFlag, this] using mem_of_flagValue hf

theorem resolveSettingString_eq_nil {flag value default : Bytes} (hd : default ≠ []) :
    resolveSettingString argv flag value default = [] ↔ flagValue flag argv.tail = some [] := by
  rw [resolveSettingString]
  cases flagValue flag argv.tail
  case some given => simp
  case none       => by_cases hv : value = [] <;> simp [hv, hd]

theorem resolveSettingString_eq_iff {flag value default : Bytes} :
    resolveSettingString argv flag value default = orElse value default ↔
      ∀ given, flagValue flag argv.tail = some given → given = orElse value default := by
  rw [resolveSettingString]
  cases flagValue flag argv.tail <;> simp [orElse]

theorem resolveSettingInt_pos {overflow : Bytes → Int32} {flag : Bytes} {value default : Int32}
    (hd : default > 0) : resolveSettingInt overflow argv flag value default > 0 ↔
      ∀ given, flagValue flag argv.tail = some given → atoiArgument overflow given > 0 := by
  rw [resolveSettingInt]
  cases flagValue flag argv.tail
  case some given => simp
  case none       => by_cases hv : value > 0 <;> simp [hv, hd]

theorem resolveSettingInt_eq_iff {overflow : Bytes → Int32} {flag : Bytes}
    {value default : Int32} : resolveSettingInt overflow argv flag value default =
        (if value > 0 then value else default) ↔
      ∀ given, flagValue flag argv.tail = some given →
        atoiArgument overflow given = if value > 0 then value else default := by
  rw [resolveSettingInt]
  cases flagValue flag argv.tail <;> simp

theorem parsePort_eq_iff {overflow : Bytes → Int32} {port : Int32} :
    parsePort overflow argv port = port ↔
      ∀ given, flagValue "--port" argv.tail = some given → max 1 (atoiArgument overflow given) = port := by
  rw [parsePort]
  cases flagValue "--port" argv.tail <;> simp

theorem resolveApiToken_ne_nil {token : Bytes} : resolveApiToken argv around token ≠ [] := by
  have hg : generateRandomToken around.entropy ≠ [] := by
    apply hexEncode_ne_nil
    simp
  rw [resolveApiToken]
  split_ifs <;> assumption

-- Where the file is where the flag would be, the later start has the flag as well.
theorem hasFlag_iff {flag : Bytes} (hd : flag ≠ str "db/droidcli_settings.json") :
    hasFlag argv flag = decide (settingsPath argv = flag) ↔
      (hasFlag argv flag → settingsPath argv = flag) := by
  rw [Bool.eq_iff_iff, decide_eq_true_iff]
  exact ⟨Iff.mp, fun h => ⟨h, fun he => hasFlag_settingsPath he hd⟩⟩

-- What the settings of a start are resolved from.
def resolvedFrom (argv : List Bytes) (around : Surroundings) (loaded : HostSettings) :
    HostSettings where
  port := parsePort around.overflow argv loaded.port
  enableAi := !hasFlag argv "--no-ai"
  enableHardwareScan := hasFlag argv "--enable-hardware-scan" || loaded.enableHardwareScan
  ollamaUrl := resolveSettingString argv "--ollama-url" loaded.ollamaUrl "http://127.0.0.1:11434"
  ollamaModel := resolveSettingString argv "--ollama-model" loaded.ollamaModel "llama3.2"
  ollamaNumCtx :=
    resolveSettingInt around.overflow argv "--ollama-num-ctx" loaded.ollamaNumCtx 32768
  apiToken := resolveApiToken argv around loaded.apiToken

def stopFlags : List Bytes :=
  ["--help", "-h", "--version", "-v"]

theorem resolvedSettings_eq (hs : ∀ flag ∈ stopFlags, hasFlag argv flag = false) :
    resolvedSettings argv around =
      (loadSettings around.dpapi (around.files (settingsPath argv)) .initial).map fun loaded =>
        resolvedFrom argv around loaded.2 := by
  simp only [stopFlags, List.forall_mem_cons] at hs
  obtain ⟨hhelp, hh, hversion, hv, _⟩ := hs
  simp only [resolvedSettings, hhelp, hh, hversion, hv]
  cases loadSettings around.dpapi (around.files (settingsPath argv)) .initial <;> rfl

theorem resolved (h : resolvedSettings argv around = some settings) :
    (∀ flag ∈ stopFlags, hasFlag argv flag = false) ∧ ∃ found prior,
      loadSettings around.dpapi (around.files (settingsPath argv)) .initial = some (found, prior) ∧
        settings = resolvedFrom argv around prior := by
  have hs : ∀ flag ∈ stopFlags, hasFlag argv flag = false := by
    rw [resolvedSettings] at h
    split_ifs at h with hh hv
    simp_all [stopFlags]
  rw [resolvedSettings_eq hs] at h
  have ⟨(found, prior), hl, he⟩ := Option.map_eq_some_iff.mp h
  exact ⟨hs, found, prior, hl, he.symm⟩

-- What the later start makes of what it finds.
theorem resolvedSettings_restarted (hs : ∀ flag ∈ stopFlags, hasFlag argv flag = false)
    (hr : OnlySettings (settingsPath argv) argv') :
    resolvedSettings argv' (restarted argv around settings entropy) =
      (loadSettings around.dpapi (savedFiles argv around settings (settingsPath argv)) .initial).map
        fun loaded => bareSettings (settingsPath argv) entropy loaded.2 := by
  have hs' : ∀ flag ∈ stopFlags, hasFlag argv' flag = false := by
    have hsub : ∀ flag ∈ stopFlags,
        flag ∈ OnlySettings.bareFlags ∧ flag ≠ str "db/droidcli_settings.json" := by decide
    intro flag hf
    obtain ⟨hb, hne⟩ := hsub flag hf
    rw [hr.hasFlag flag hb, decide_eq_false_iff_not]
    exact fun he => Bool.false_ne_true ((hs flag hf).symm.trans (hasFlag_settingsPath he hne))
  have hai := hr.hasFlag (str "--no-ai") (by decide)
  have hscan := hr.hasFlag (str "--enable-hardware-scan") (by decide)
  have hn := hr.flagValue
  simp only [OnlySettings.valuedFlags, List.forall_mem_cons] at hn
  obtain ⟨hport, hurl, hmodel, hctx, htoken, _⟩ := hn
  rw [resolvedSettings_eq hs', hr.settingsPath]
  refine congrArg (Option.map · _) (funext fun loaded => ?_)
  simp [resolvedFrom, bareSettings, restarted, hai, hscan, parsePort, hport, resolveSettingString,
    hurl, hmodel, resolveSettingInt, hctx, resolveApiToken, parseStringArg, htoken, orElse]

-- What is given is redundant exactly when the settings are those that the file gives by itself.
theorem resolvedFrom_eq_bareSettings_iff {prior : HostSettings} :
    resolvedFrom argv around prior = bareSettings (settingsPath argv) entropy prior ↔
      Redundant argv around entropy prior := by
  have hai : (!hasFlag argv "--no-ai") = (!decide (settingsPath argv = "--no-ai")) ↔
      (hasFlag argv "--no-ai" → settingsPath argv = "--no-ai") := by
    rw [Bool.not_inj_iff]
    exact hasFlag_iff (by decide)
  have hscan : (hasFlag argv "--enable-hardware-scan" || prior.enableHardwareScan) =
      (decide (settingsPath argv = "--enable-hardware-scan") || prior.enableHardwareScan) ↔
        (hasFlag argv "--enable-hardware-scan" →
          settingsPath argv = "--enable-hardware-scan" ∨ prior.enableHardwareScan) := by
    have := @hasFlag_settingsPath argv (str "--enable-hardware-scan")
    cases prior.enableHardwareScan
    case true  => simp
    case false => simpa using hasFlag_iff (by decide)
  simp only [resolvedFrom, bareSettings, HostSettings.mk.injEq, parsePort_eq_iff, hai, hscan,
    resolveSettingString_eq_iff, resolveSettingInt_eq_iff]
  constructor
  case mp =>
    intro ⟨hport, hai, hscan, hurl, hmodel, hctx, htoken⟩
    exact ⟨hport, hai, hscan, hurl, hmodel, hctx, htoken⟩
  case mpr =>
    intro ⟨hport, hai, hscan, hurl, hmodel, hctx, htoken⟩
    exact ⟨hport, hai, hscan, hurl, hmodel, hctx, htoken⟩

-- Written whole, the settings come back exactly when they can be stored.
theorem bareSettings_stored_iff {prior : HostSettings}
    (h : settings = resolvedFrom argv around prior) :
    bareSettings (settingsPath argv) entropy { settings with
        ollamaUrl := if settings.ollamaUrl = [] then HostSettings.initial.ollamaUrl
          else settings.ollamaUrl
        ollamaModel := if settings.ollamaModel = [] then HostSettings.initial.ollamaModel
          else settings.ollamaModel } = settings ↔
      Storable around.overflow argv := by
  have hai : (!decide (settingsPath argv = "--no-ai")) = settings.enableAi ↔
      (hasFlag argv "--no-ai" → settingsPath argv = "--no-ai") := by
    rw [h, resolvedFrom, Bool.not_inj_iff, eq_comm]
    exact hasFlag_iff (by decide)
  have hscan : (decide (settingsPath argv = "--enable-hardware-scan") ||
      settings.enableHardwareScan) = settings.enableHardwareScan := by
    by_cases hp : settingsPath argv = "--enable-hardware-scan"
    case pos => simp [h, resolvedFrom, hasFlag_settingsPath hp (by decide)]
    case neg => simp [hp]
  have hurl : settings.ollamaUrl = [] ↔ flagValue "--ollama-url" argv.tail = some [] := by
    rw [h]
    exact resolveSettingString_eq_nil (by decide)
  have hmodel : settings.ollamaModel = [] ↔ flagValue "--ollama-model" argv.tail = some [] := by
    rw [h]
    exact resolveSettingString_eq_nil (by decide)
  have hctx : settings.ollamaNumCtx > 0 ↔ ∀ given,
      flagValue "--ollama-num-ctx" argv.tail = some given →
        atoiArgument around.overflow given > 0 := by
    rw [h]
    exact resolveSettingInt_pos (by decide)
  have htoken : settings.apiToken ≠ [] := h ▸ resolveApiToken_ne_nil
  constructor
  case mp =>
    intro he
    have heai := congrArg HostSettings.enableAi he
    have heurl := congrArg HostSettings.ollamaUrl he
    have hemodel := congrArg HostSettings.ollamaModel he
    have hectx := congrArg HostSettings.ollamaNumCtx he
    simp only [bareSettings] at heai heurl hemodel hectx
    exact {
      enableAi := hai.mp heai
      ollamaUrl := fun hf => by
        have hn := hurl.mpr hf
        simp only [hn, if_true, orElse] at heurl
        exact absurd heurl (by decide)
      ollamaModel := fun hf => by
        have hn := hmodel.mpr hf
        simp only [hn, if_true, orElse] at hemodel
        exact absurd hemodel (by decide)
      ollamaNumCtx := by
        apply hctx.mp
        by_cases hp : settings.ollamaNumCtx > 0
        case pos => exact hp
        case neg =>
          simp only [hp, if_false] at hectx
          exact hectx ▸ by decide
    }
  case mpr =>
    intro hv
    have hurl := mt hurl.mp hv.ollamaUrl
    have hmodel := mt hmodel.mp hv.ollamaModel
    simp [bareSettings, orElse, hai.mpr hv.enableAi, hscan, hurl, hmodel, hctx.mpr hv.ollamaNumCtx,
      htoken]

-- The settings that are saved are resolved again exactly when they survive.
theorem resolvedAgain_iff (hd : ∀ d ∈ around.dpapi, d.Faithful)
    (h : resolvedSettings argv around = some settings)
    (hr : OnlySettings (settingsPath argv) argv') :
    resolvedSettings argv' (restarted argv around settings entropy) = some settings ↔
      Survives argv around entropy := by
  have ⟨hs, found, prior, hl, he⟩ := resolved h
  rw [resolvedSettings_restarted hs hr, savedFiles]
  dsimp only
  rw [Function.update_self]
  cases hw : around.written
  case whole =>
    simp only [saveSettings, loadSettings_saved hd, Survives, hw, Option.map_some, Option.some_inj]
    exact bareSettings_stored_iff he
  case unopened =>
    simp only [saveSettings, hl, Survives, hw, Option.map_some, Option.some_inj, Prod.mk.injEq,
      exists_eq_left', exists_and_left, and_assoc]
    rw [he, eq_comm]
    exact resolvedFrom_eq_bareSettings_iff
  case torn left =>
    simp only [saveSettings, Survives, hw, h, Option.map_eq_some_iff, Option.some_inj, Prod.exists]
    exact ⟨fun ⟨found, loaded, hl, he⟩ => ⟨found, loaded, hl, he.symm⟩,
      fun ⟨found, loaded, hl, he⟩ => ⟨found, loaded, hl, he.symm⟩⟩

end Restart

section Examples

def markingDpapi : Dpapi where
  cryptProtectData plaintext := some (0x01 :: plaintext)
  cryptUnprotectData bytes := bytes.tail

def firstStart : Surroundings where
  dpapi := some markingDpapi
  overflow _ := -1
  files _ := none
  written := .whole
  envValue := some "secret"
  entropy := .replicate 32 0x2a

def resolvedTo (enableAi : Bool) (port : Int32) (model : Bytes) : HostSettings :=
  { HostSettings.initial with
    port := port
    enableAi := enableAi
    ollamaModel := model
    apiToken := "secret" }

theorem markingDpapi_faithful : ∀ d ∈ firstStart.dpapi, d.Faithful := by
  intro d hd
  cases hd
  exact {
    nonempty := fun h => Option.some.inj h ▸ List.cons_ne_nil _ _
    decrypts := fun h => Option.some.inj h ▸ rfl
  }

theorem settings_roundTrip_marked :
    loadSettings firstStart.dpapi
        (saveSettings firstStart.dpapi (resolvedTo true 8080 "qwen3") .whole none).2 .initial =
      some (true, resolvedTo true 8080 "qwen3") ∧
      ∀ data ≠ [], hexDecode (hexEncode data) = some data :=
  settings_roundTrip markingDpapi_faithful (by decide) (by decide) .initial

theorem resolvedAgain_iff_service :
    resolvedSettings (serviceArgs "droidcli.exe" "db/droidcli_settings.json")
        (restarted ["droidcli.exe", "--port", "8080", "--ollama-model", "qwen3"] firstStart
          (resolvedTo true 8080 "qwen3") (.replicate 32 0)) =
      some (resolvedTo true 8080 "qwen3") := by
  have hf : resolvedSettings ["droidcli.exe", "--port", "8080", "--ollama-model", "qwen3"]
      firstStart = some (resolvedTo true 8080 "qwen3") := by decide +kernel
  apply (resolvedAgain_iff markingDpapi_faithful hf ⟨"droidcli.exe", .inr (by decide +kernel)⟩).mpr
  exact {
    enableAi := by decide +kernel
    ollamaUrl := by decide +kernel
    ollamaModel := by decide +kernel
    ollamaNumCtx := fun value h => by
      have hn : flagValue "--ollama-num-ctx" [str "--port", str "8080", str "--ollama-model",
        str "qwen3"] = none := by decide +kernel
      exact absurd (hn.symm.trans h) nofun
  }

theorem not_resolvedAgain :
    ¬∀ argv argv' around settings entropy, (∀ d ∈ around.dpapi, d.Faithful) →
      resolvedSettings argv around = some settings → OnlySettings (settingsPath argv) argv' →
      resolvedSettings argv' (restarted argv around settings entropy) = some settings := by
  intro h
  have := h ["droidcli.exe", "--no-ai"] (serviceArgs "droidcli.exe" "db/droidcli_settings.json")
    firstStart (resolvedTo false 30080 "llama3.2") (.replicate 32 0) markingDpapi_faithful
    (by decide +kernel) ⟨"droidcli.exe", .inr rfl⟩
  exact absurd this (by decide +kernel)

end Examples
end Droidcli.Cli
