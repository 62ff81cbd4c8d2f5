import Droidcli.Net.Json

namespace Droidcli.Notify

open Bytes Net

structure NotifyMessage where
  text : Bytes
  rawBody : Bytes
  parsedFromJson : Bool

structure NotifyParseResult where
  success : Bool
  message : NotifyMessage

def isTrimmed (c : UInt8) : Bool :=
  c = space || c = tab || c = cr || c = lf

def trimAscii (input : Bytes) : Bytes :=
  ((input.dropWhile isTrimmed).reverse.dropWhile isTrimmed).reverse

-- The reader of `parse.cpp` is a copy of the one in `net/json.cpp`.
def parseNotifyBody (body : Bytes) : NotifyParseResult :=
  let trimmed := trimAscii body
  let messageField := extractJsonStringField trimmed "message"
  if trimmed = [] then ⟨true, ⟨"(no message)", body, false⟩⟩
  else if trimmed.head? = some lbrace ∧ messageField ≠ [] then ⟨true, ⟨messageField, body, true⟩⟩
  else ⟨true, ⟨trimmed, body, false⟩⟩

end Droidcli.Notify
