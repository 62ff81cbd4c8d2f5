import Droidcli.Tools.MiniHttpServer

namespace Droidcli.Tools

open Bytes Net

structure IsLine (line : Bytes) : Prop where
  cr : cr ∉ line
  lf : lf ∉ line

-- A header as it is sent, with whatever blanks there are around its value.
structure HeaderLine where
  name : Bytes
  value : Bytes
  named : name ≠ [] ∧ colon ∉ name
  nameLine : IsLine name
  valueLine : IsLine value

namespace HeaderLine

def text (header : HeaderLine) : Bytes :=
  header.name ++ colon :: header.value

-- One of the headers that say nothing about the length of a body.
def IsOther (header : HeaderLine) : Prop :=
  lowered header.name ≠ str "content-length"

end HeaderLine

-- The lines of a block of headers, the first of which is no header.
def blockText (first : Bytes) (headers : List HeaderLine) : Bytes :=
  first ++ headers.flatMap (crlf ++ ·.text)

def hexDigitsValue (digits : Bytes) : Option Nat :=
  if digits ≠ [] ∧ ∀ c ∈ digits, c ∈ str "0123456789abcdefABCDEF" then
    some <| digits.foldl (fun n c => 16 * n + (str "0123456789abcdef").idxOf (toLower c)) 0
  else none

-- The pieces of a chunked body, with their sizes in front.
structure Chunk where
  size : Bytes
  extension : Bytes
  data : Bytes
  sized : hexDigitsValue size = some data.length
  extensionLine : IsLine extension

def Chunk.text (chunk : Chunk) : Bytes :=
  chunk.size ++ chunk.extension ++ crlf ++ chunk.data ++ crlf

-- The three ways to tell how long a body is.
inductive Transfer : Bytes → Type
  | contentLength (header : HeaderLine) (body before digits behind : Bytes) :
    lowered header.name = str "content-length" → header.value = before ++ digits ++ behind →
    (∀ c ∈ before ++ behind, c ∈ [space, tab]) →
    digits ≠ [] → (∀ c ∈ digits, isDigit c) → digitsValue digits = body.length →
    Transfer body
  | chunked (header : HeaderLine) (chunks : List Chunk) (last : Chunk)
      (trailers : List HeaderLine) :
    lowered header.name = str "transfer-encoding" →
    lowered (trimAscii header.value) = str "chunked" →
    (∀ chunk ∈ chunks, chunk.data ≠ []) → last.data = [] →
    Transfer (chunks.flatMap Chunk.data)
  | untilClose (body : Bytes) : Transfer body

namespace Transfer

variable {body : Bytes}

def headers : Transfer body → List HeaderLine
  | contentLength header .. => [header]
  | chunked header ..       => [header]
  | untilClose _            => []

-- What is sent for the body.
def payload : Transfer body → Bytes
  | contentLength _ body ..           => body
  | chunked _ chunks last trailers .. =>
    chunks.flatMap Chunk.text ++ last.size ++ last.extension ++ crlf ++
      trailers.flatMap (·.text ++ crlf) ++ crlf
  | untilClose body                   => body

end Transfer

-- A response as HTTP/1.1 has it.
structure Message where
  status : Nat
  reason : Bytes
  before : List HeaderLine
  behind : List HeaderLine
  body : Bytes
  transfer : Transfer body
  statusCode : 100 ≤ status ∧ status ≤ 999
  reasonLine : IsLine reason
  others : ∀ header ∈ before ++ behind, header.IsOther

namespace Message

def statusLine (m : Message) : Bytes :=
  "HTTP/1.1 " ++ decimal m.status ++ space :: m.reason

def head (m : Message) : Bytes :=
  blockText m.statusLine (m.before ++ m.transfer.headers ++ m.behind)

def text (m : Message) : Bytes :=
  m.head ++ headerEnd ++ m.transfer.payload

end Message

end Droidcli.Tools
