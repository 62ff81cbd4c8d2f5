import Droidcli.Lib.Bytes

namespace Droidcli.Media

open Bytes

-- What a pointer and a size stand for. No object is larger than `ptrdiff_t` counts.
structure Buffer where
  bytes : Bytes
  fits : bytes.length < 2 ^ 63

structure MemoryInput where
  data : Option Bytes
  size : UInt64
  offset : UInt64
  deriving DecidableEq

def Buffer.input (buffer : Buffer) : MemoryInput :=
  ⟨some buffer.bytes, .ofNat buffer.bytes.length, 0⟩

def averrorEof : Int32 := -541478725
def averrorEinval : Int64 := -22

def seekSet    : Int32 := 0
def seekCur    : Int32 := 1
def seekEnd    : Int32 := 2
def avseekSize : Int32 := 0x10000

-- What the call has returned, the bytes it has copied and what it has left of the input. A `memcpy`
-- that runs past the data is undefined, which is `none` here and below.
def readMemoryPacket (opaqueInput : Option MemoryInput) (bufferSize : Int32) :
    Option (Int32 × Bytes × Option MemoryInput) :=
  match opaqueInput with
  | none       => some (averrorEof, [], none)
  | some input =>
    match input.data with
    | none      => some (averrorEof, [], some input)
    | some data =>
      if bufferSize ≤ 0 then some (averrorEof, [], some input)
      else if input.size ≤ input.offset then some (averrorEof, [], some input)
      else
        let remaining := input.size - input.offset
        let wanted := bufferSize.toInt64.toUInt64
        let toRead := if wanted < remaining then wanted else remaining
        if input.offset.toNat + toRead.toNat ≤ data.length then
          some (.ofNat toRead.toNat, (data.drop input.offset.toNat).take toRead.toNat,
            some { input with offset := input.offset + toRead })
        else none

-- The sum of two `int64_t`, which is undefined where it is not one.
def checkedAdd (a b : Int64) : Option Int64 :=
  let sum := a.toInt + b.toInt
  if Int64.minValue.toInt ≤ sum ∧ sum ≤ Int64.maxValue.toInt then some (.ofInt sum) else none

-- What follows the `switch`.
def MemoryInput.moveTo (input : MemoryInput) (offset : UInt64) : Int64 × Option MemoryInput :=
  let offset := if input.size < offset then input.size else offset
  (offset.toInt64, some { input with offset })

def seekMemoryPacket (opaqueInput : Option MemoryInput) (offset : Int64) (whence : Int32) :
    Option (Int64 × Option MemoryInput) :=
  match opaqueInput with
  | none       => some (averrorEinval, none)
  | some input =>
    if whence = seekSet then
      some <| input.moveTo (if offset < 0 then 0 else offset.toUInt64)
    else if whence = seekCur then
      (checkedAdd input.offset.toInt64 offset).map fun sum => input.moveTo sum.toUInt64
    else if whence = seekEnd then
      (checkedAdd input.size.toInt64 offset).map fun sum => input.moveTo sum.toUInt64
    else if whence = avseekSize then some (input.size.toInt64, some input)
    else some (averrorEinval, some input)

-- The calls that an input gets.
inductive Call
  | read (bufferSize : Int32)
  | seek (offset : Int64) (whence : Int32)
  deriving DecidableEq

def Call.apply (input : MemoryInput) : Call → Option (Option MemoryInput)
  | read bufferSize    => (readMemoryPacket (some input) bufferSize).map fun result => result.2.2
  | seek offset whence => (seekMemoryPacket (some input) offset whence).map Prod.snd

def CallStep (input : MemoryInput) (call : Call) (input' : MemoryInput) : Prop :=
  call.apply input = some (some input')

-- What consecutive reads give their caller, which takes as many bytes as it is told to have got.
def readPackets (input : MemoryInput) : List Int32 → Option (Bytes × MemoryInput)
  | []                  => some ([], input)
  | bufferSize :: sizes =>
    match readMemoryPacket (some input) bufferSize with
    | some (returned, copied, some input') =>
      (readPackets input' sizes).map fun (bytes, input'') =>
        (copied.take returned.toNatClampNeg ++ bytes, input'')
    | _ => none

end Droidcli.Media
