import Droidcli.Cli.HttpMount
import Droidcli.Net.Handlers
import Droidcli.Net.Router
import Droidcli.Tools.SyncHttpClient

namespace Droidcli.Tools

open Bytes Net Cli Stream

def isTrimmed (c : UInt8) : Bool :=
  c = space || c = tab || c = cr

def trimAscii (value : Bytes) : Bytes :=
  ((value.dropWhile isTrimmed).reverse.dropWhile isTrimmed).reverse

def parseMethod (method : Bytes) : HttpMethod :=
  if lowered method = str "get" then .get
  else if lowered method = str "post" then .post
  else .unknown

-- The method, the path and the query string. Words are what `>>` reads off a stream; those behind
-- the path do not matter.
def parseRequestLine (line : Bytes) : Option (HttpMethod × Bytes × Bytes) :=
  match (line.splitOnP isSpace).filter (· ≠ []) with
  | method :: target :: _ =>
    match breakOn [0x3f] target with
    | some (path, queryString) => some (parseMethod method, path, queryString)
    | none                     => some (parseMethod method, target, [])
  | _ => none

def parseHeader (line : Bytes) : Option HttpHeader :=
  (breakOn [colon] line).map fun (name, value) => ⟨trimAscii name, trimAscii value⟩

-- What `read_request` makes of a block of headers: the request without its body, and the length of
-- that.
def parseHeaderBlock (overflow : Bytes → Int32) (headerBlock : Bytes) :
    Option (HttpRequest × Int32) :=
  match (getLines headerBlock).map dropCr with
  | []            => none
  | line :: lines =>
    (parseRequestLine line).map fun (method, path, queryString) =>
      (⟨method, path, queryString, [], lines.filterMap parseHeader⟩,
        scanContentLength overflow trimAscii 0 lines)

def readRequest (overflow : Bytes → Int32) (closed : Bool) (chunks : List Bytes) :
    Outcome HttpRequest :=
  (gather headerEnd 65536 closed [] chunks).bind fun (buffer, chunks) =>
    match breakOn headerEnd buffer with
    | none                           => .refused
    | some (headerBlock, bodyPrefix) =>
      match parseHeaderBlock overflow headerBlock with
      | none                          => .refused
      | some (request, contentLength) =>
        let enough (size : Nat) := ¬Int32.ofNat size < contentLength
        (fill (fun size => enough size) closed bodyPrefix chunks).bind fun body =>
          .done { request with
            body := if 0 < contentLength then body.take contentLength.toInt.toNat else body }

def writeResponse (response : HttpResponse) : Bytes :=
  "HTTP/1.1 " ++ decimal response.status.code ++ " OK\r\n" ++
    "Content-Type: " ++ response.contentType ++ crlf ++
    "Content-Length: " ++ decimal response.body.length ++ crlf ++
    "Connection: close\r\n\r\n" ++
    response.body

-- Header lookup is case-insensitive, and the first match decides.
def findHeaderValue (request : HttpRequest) (lowerName : Bytes) : Bytes :=
  match request.headers.find? (lowered ·.name = lowerName) with
  | some header => header.value
  | none        => []

def requestRequiresAuth (path : Bytes) : Bool :=
  str "/api/" <+: path ∨ path = str "/ai/chat"

def isAuthorized (request : HttpRequest) (apiToken : Bytes) : Bool :=
  if apiToken = [] then false
  else
    let headerValue := findHeaderValue request "authorization"
    if str "Bearer " <+: headerValue then headerValue.drop (str "Bearer ").length = apiToken
    else false

-- What becomes of a request.
inductive Served
  | unauthorized
  | handled (handler : Handler)
  | custom (call : HostCall)
  | notFound

-- The part of `MiniHttpServer::poll_once` behind `read_request`, for the server that `main` starts:
-- its `custom_dispatch` is the gateway's.
def pollOnce (apiToken : Bytes) (request : HttpRequest) : Served :=
  if requestRequiresAuth request.path && !isAuthorized request apiToken then .unauthorized
  else
    match RouteTable.dispatch request with
    | some handler => .handled handler
    | none =>
      match customDispatch request with
      | some call => .custom call
      | none      => .notFound

section LanguageAi

open Ai

-- The callback acts on what it has captured.
structure MiniHttpServerOptions (σ : Type) where
  session : RuntimeSession
  onNotify : Option (Bytes → σ → σ)
  enableLanguageAi : Bool
  ollamaConfig : OpenAICompatConfig
  systemPrompt : Bytes
  apiToken : Bytes

def configureLanguageAi {σ : Type} (options : MiniHttpServerOptions σ) (languageAi : LanguageRuntime) :
    LanguageRuntime :=
  if options.enableLanguageAi then
    let languageAi := (languageAi.setRuntimeEnabled true).setOllamaConfig options.ollamaConfig
    if options.systemPrompt ≠ [] then languageAi.setSystemPrompt options.systemPrompt else languageAi
  else languageAi.setRuntimeEnabled false

end LanguageAi
end Droidcli.Tools
