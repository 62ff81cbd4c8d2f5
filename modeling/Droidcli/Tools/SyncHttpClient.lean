import Droidcli.Cli.Droidcli
import Droidcli.Lib.Stream

namespace Droidcli.Tools

open Bytes Cli Stream

def crlf : Bytes := [cr, lf]

-- The end of a block of headers.
def headerEnd : Bytes := [cr, lf, cr, lf]

-- What `std::getline` returns, one line after the other.
def getLines : Bytes → List Bytes
  | []     => []
  | c :: s =>
    if c = lf then [] :: getLines s
    else
      match getLines s with
      | []            => [[c]]
      | line :: lines => (c :: line) :: lines

def dropCr (line : Bytes) : Bytes :=
  if line.getLast? = some cr then line.dropLast else line

-- The last header that says so decides. Client and server each have this loop: they differ in
-- whether the value is trimmed, and in what holds without such a header.
def scanContentLength (overflow : Bytes → Int32) (trim : Bytes → Bytes) (default : Int32)
    (lines : List Bytes) : Int32 :=
  lines.foldl (fun contentLength line =>
    if str "content-length:" <+: lowered line then atoiArgument overflow (trim (line.drop 15))
    else contentLength) default

structure ParsedHttpUrl where
  host : Bytes
  path : Bytes
  port : Int32
  isHttps : Bool
  valid : Bool

def parseHttpUrl (overflow : Bytes → Int32) (url : Bytes) : ParsedHttpUrl :=
  let isHttps := str "https://" <+: url
  if ¬isHttps ∧ ¬str "http://" <+: url then ⟨[], "/", 80, false, false⟩
  else
    let remainder := url.drop (if isHttps then str "https://" else str "http://").length
    let (authority, path) :=
      match breakOn [slash] remainder with
      | some (authority, path) => (authority, slash :: path)
      | none                   => (remainder, str "/")
    let (host, port) :=
      match breakOn [colon] authority with
      | some (host, port) => (host, max 1 (atoiArgument overflow port))
      | none              => (authority, if isHttps then 443 else 80)
    ⟨host, path, port, isHttps, host ≠ []⟩

def requestText (method host path body : Bytes) (extraHeaders : List Bytes) : Bytes :=
  let post := method = str "POST"
  method ++ space :: path ++ " HTTP/1.1\r\n" ++
    "Host: " ++ host ++ crlf ++
    "Connection: close\r\n" ++
    (if post then "Content-Type: application/json\r\n" ++
      "Content-Length: " ++ decimal body.length ++ crlf else []) ++
    extraHeaders.flatMap (· ++ crlf) ++
    crlf ++
    (if post then body else [])

-- What `sync_http_request` sends over a socket of its own, once it is connected. Requests to
-- `https` go another way, or nowhere.
def syncHttpRequest (overflow : Bytes → Int32) (method url body : Bytes)
    (extraHeaders : List Bytes) : Option Bytes :=
  let parsed := parseHttpUrl overflow url
  if parsed.valid ∧ ¬parsed.isHttps then
    some (requestText method parsed.host parsed.path body extraHeaders)
  else
    none

-- The text behind the first blank is left to `std::atoi`, which ignores all but the digits.
def readHttpResponse (overflow : Bytes → Int32) (closed : Bool) (chunks : List Bytes) :
    Outcome (Int32 × Bytes) :=
  (gather headerEnd (1024 * 1024) closed [] chunks).bind fun (buffer, chunks) =>
    match breakOn headerEnd buffer with
    | none                           => .refused
    | some (headerBlock, bodyPrefix) =>
      let statusCode :=
        match after [space] headerBlock with
        | some text => atoiArgument overflow text
        | none      => 0
      let contentLength := scanContentLength overflow id (-1) ((getLines headerBlock).map dropCr)
      let enough (size : Nat) := ¬(0 ≤ contentLength ∧ Int32.ofNat size < contentLength)
      (fill (fun size => enough size) closed bodyPrefix chunks).bind fun body =>
        .done (statusCode,
          if 0 ≤ contentLength then body.take contentLength.toInt.toNat else body)

end Droidcli.Tools
