import Droidcli.Lib.Bytes

namespace Droidcli.Net

open Bytes

def escapeJsonChar (character : UInt8) : Bytes :=
  if      character = backslash then [backslash, backslash]
  else if character = quote     then [backslash, quote]
  else if character = lf        then [backslash, 0x6e] -- \n
  else if character = cr        then [backslash, 0x72] -- \r
  else if character = tab       then [backslash, 0x74] -- \t
  else                               [character]

def escapeJsonString (input : Bytes) : Bytes :=
  input.flatMap escapeJsonChar

-- `"key":`, with which a member starts and for which every reader below searches.
def needle (key : Bytes) : Bytes :=
  quote :: key ++ [quote, colon]

def jsonString (value : Bytes) : Bytes :=
  quote :: escapeJsonString value ++ [quote]

def jsonStringField (key value : Bytes) : Bytes :=
  needle key ++ jsonString value

def jsonBoolField (key : Bytes) (value : Bool) : Bytes :=
  needle key ++ if value then str "true" else str "false"

def jsonIntField (key : Bytes) (value : Int) : Bytes :=
  needle key ++ decimalInt value

-- The host glues its objects and arrays together from fragments: `{` or `[`, the parts with a
-- comma between any two of them, `}` or `]`.
def jsonObject (members : List Bytes) : Bytes :=
  lbrace :: joinWith [comma] members ++ [rbrace]

def jsonArray (elements : List Bytes) : Bytes :=
  lbracket :: joinWith [comma] elements ++ [rbracket]

def isBlank (c : UInt8) : Bool :=
  c = space || c = tab

-- What follows the first `"field_name":` at or after `searchFrom` and the blanks behind it.
def afterField (json fieldName : Bytes) (searchFrom : Nat) : Option Bytes :=
  (after (needle fieldName) (json.drop searchFrom)).map (·.dropWhile isBlank)

def unescapeJsonChar (escaped : UInt8) : UInt8 :=
  if      escaped = 0x6e then lf
  else if escaped = 0x72 then cr
  else if escaped = 0x74 then tab
  else                        escaped

-- Decodes up to the next unescaped quote, or to the end of the text when there is none.
def readJsonString : Bytes → Bytes
  | []  => []
  | [c] => if c = quote then [] else [c]
  | c :: e :: text =>
    if      c = backslash then unescapeJsonChar e :: readJsonString text
    else if c = quote     then []
    else                       c :: readJsonString (e :: text)

def extractJsonStringFieldFrom (json fieldName : Bytes) (searchFrom : Nat) : Bytes :=
  match afterField json fieldName searchFrom with
  | some (c :: text) => if c = quote then readJsonString text else []
  | _                => []

def extractJsonStringField (json fieldName : Bytes) : Bytes :=
  extractJsonStringFieldFrom json fieldName 0

-- The value read, or `none` when the C++ function returns false and leaves its output alone.
def extractJsonBoolField (json fieldName : Bytes) : Option Bool :=
  match afterField json fieldName 0 with
  | none      => none
  | some text =>
    if str "true" <+: text then some true
    else if str "false" <+: text then some false
    else none

def digitsValue (digits : Bytes) : Nat :=
  digits.foldl (fun n d => 10 * n + (d.toNat - 0x30)) 0

inductive IntField
  | absent
  | value (n : Int)
  | outOfRange -- `std::stoll` throws
  deriving DecidableEq

-- A field with a default; `none` when the exception of `std::stoll` escapes.
def IntField.getD : IntField → Int → Option Int
  | absent, n     => some n
  | value n, _    => some n
  | outOfRange, _ => none

def int64Min : Int := -2 ^ 63
def int64Max : Int := 2 ^ 63 - 1

def stoll (n : Int) : IntField :=
  if int64Min ≤ n ∧ n ≤ int64Max then .value n else .outOfRange

def extractJsonIntField (json fieldName : Bytes) : IntField :=
  match afterField json fieldName 0 with
  | none      => .absent
  | some text =>
    let negative := text.head? = some minus
    let digits := (if negative then text.tail else text).takeWhile isDigit
    if digits = [] then .absent
    else stoll (if negative then -(digitsValue digits : Int) else digitsValue digits)

end Droidcli.Net
