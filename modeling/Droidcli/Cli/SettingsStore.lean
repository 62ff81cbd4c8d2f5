import Droidcli.Net.Json

namespace Droidcli.Cli

open Bytes Net

structure HostSettings where
  port : Int32
  enableAi : Bool
  enableHardwareScan : Bool
  ollamaUrl : Bytes
  ollamaModel : Bytes
  ollamaNumCtx : Int32
  apiToken : Bytes
  deriving DecidableEq

def HostSettings.initial : HostSettings where
  port := 30080
  enableAi := true
  enableHardwareScan := false
  ollamaUrl := "http://127.0.0.1:11434"
  ollamaModel := "llama3.2"
  ollamaNumCtx := 32768
  apiToken := []

def kHexDigits : Bytes := "0123456789abcdef"

def hexEncodeByte (byte : UInt8) : Bytes :=
  [kHexDigits.getD (byte.toNat / 16) nul, kHexDigits.getD (byte.toNat % 16) nul]

def hexEncode (data : Bytes) : Bytes :=
  data.flatMap hexEncodeByte

def nibble (c : UInt8) : Option UInt8 :=
  if      0x30 ≤ c ∧ c ≤ 0x39 then some (c - 0x30)
  else if 0x61 ≤ c ∧ c ≤ 0x66 then some (c - 0x61 + 10)
  else if 0x41 ≤ c ∧ c ≤ 0x46 then some (c - 0x41 + 10)
  else none

-- An odd number of digits does not decode.
def hexDecodePairs : Bytes → Option Bytes
  | []                 => some []
  | [_]                => none
  | high :: low :: hex => do
    return ((← nibble high) * 16 + (← nibble low)) :: (← hexDecodePairs hex)

def hexDecode (hex : Bytes) : Option Bytes :=
  if hex = [] then none else hexDecodePairs hex

-- The two calls into the operating system, which only Windows has. Either may fail.
structure Dpapi where
  cryptProtectData : Bytes → Option Bytes
  cryptUnprotectData : Bytes → Option Bytes

def Dpapi.protect (dpapi : Dpapi) (plaintext : Bytes) : Option Bytes :=
  (dpapi.cryptProtectData plaintext).map hexEncode

def Dpapi.unprotect (dpapi : Dpapi) (hex : Bytes) : Option Bytes := do
  let bytes ← hexDecode hex
  if bytes = [] then none else dpapi.cryptUnprotectData bytes

def serializeSecretField (dpapi : Option Dpapi) (fieldName value : Bytes) : Bytes :=
  if value = [] then jsonStringField fieldName []
  else
    match dpapi.bind (·.protect value) with
    | some encryptedHex => jsonStringField (fieldName ++ str "_dpapi_hex") encryptedHex
    | none              => jsonStringField fieldName value

def decryptSecretField (dpapi : Option Dpapi) (json fieldName : Bytes) : Bytes :=
  let encryptedHex := extractJsonStringField json (fieldName ++ str "_dpapi_hex")
  if encryptedHex ≠ [] then (dpapi.bind (·.unprotect encryptedHex)).getD []
  else extractJsonStringField json fieldName

-- A number is cut down to the 32 bits of its field.
def loadInt32 (json fieldName : Bytes) (out : Int32) : Option Int32 :=
  (extractJsonIntField json fieldName).getD out.toInt |>.map Int32.ofInt

def loadString (json fieldName out : Bytes) : Bytes :=
  let value := extractJsonStringField json fieldName
  if value ≠ [] then value else out

-- What is loaded from the content of the file, over what `out` holds already, and whether there is
-- anything to load. The result is absent when the exception of `std::stoll` escapes.
def loadSettings (dpapi : Option Dpapi) (file : Option Bytes) (out : HostSettings) :
    Option (Bool × HostSettings) :=
  match file with
  | none      => some (false, out)
  | some json =>
    if json = [] then some (false, out)
    else do
      return (true, {
        port := ← loadInt32 json "port" out.port
        enableAi := (extractJsonBoolField json "enable_ai").getD out.enableAi
        enableHardwareScan :=
          (extractJsonBoolField json "enable_hardware_scan").getD out.enableHardwareScan
        ollamaUrl := loadString json "ollama_url" out.ollamaUrl
        ollamaModel := loadString json "ollama_model" out.ollamaModel
        ollamaNumCtx := ← loadInt32 json "ollama_num_ctx" out.ollamaNumCtx
        apiToken := decryptSecretField dpapi json "api_token"
      })

-- The content that `save_settings` gives the file.
def settingsJson (dpapi : Option Dpapi) (settings : HostSettings) : Bytes :=
  jsonObject [
    jsonIntField "port" settings.port.toInt,
    jsonBoolField "enable_ai" settings.enableAi,
    jsonBoolField "enable_hardware_scan" settings.enableHardwareScan,
    jsonStringField "ollama_url" settings.ollamaUrl,
    jsonStringField "ollama_model" settings.ollamaModel,
    jsonIntField "ollama_num_ctx" settings.ollamaNumCtx.toInt,
    serializeSecretField dpapi "api_token" settings.apiToken
  ]

-- How it goes when a file is written: it is not opened, as when its directory is missing or its path
-- is empty, or it is opened and emptied, and then something else than the text is left in it, or the
-- whole text.
inductive WriteResult
  | unopened
  | torn (left : Bytes)
  | whole

-- What `save_settings` returns, and what the file holds then. Whether the writing fails is not
-- looked at.
def saveSettings (dpapi : Option Dpapi) (settings : HostSettings) (written : WriteResult)
    (file : Option Bytes) : Bool × Option Bytes :=
  match written with
  | .unopened  => (false, file)
  | .torn left => (true, some left)
  | .whole     => (true, some (settingsJson dpapi settings))

end Droidcli.Cli
