import Droidcli.Lib.Interaction
import Droidcli.Media.MemoryInput
import Droidcli.Media.Store

namespace Droidcli.Media

open Bytes Interaction

abbrev Pointer := Nat

-- What the decoder says of a frame. FFmpeg has no frames of more pixels than an `int` counts.
structure Frame where
  width : Int
  height : Int
  format : Int
  fits : width * height < 2 ^ 31

structure ReadFrame where
  code : Int
  streamIndex : Int

structure ReceivedFrame where
  code : Int
  frame : Frame

-- The parameters of a stream and its times, as a probe reads them.
structure StreamInfo where
  width : Int
  height : Int
  hasCodecId : Bool -- other than `AV_CODEC_ID_NONE`
  duration : Int
  timeBaseNum : Int
  timeBaseDen : Int

-- The calls into `std::filesystem`, the clocks and FFmpeg. A pointer that is `none` is null.
inductive MediaCall
  | pathExists (path : Bytes)
  | fileSize (path : Bytes)
  | lastWriteTime (path : Bytes)
  | fileClockNow
  | systemClockNow
  | avMalloc (size : Nat)
  | avFree (buffer : Pointer)
  | avioAllocContext (buffer : Pointer) (bufferSize : Nat)
  | avioContextFree (avio : Pointer)
  | avformatAllocContext
  | setPb (context avio : Pointer)
  | avformatOpenInput (context : Option Pointer) (url : Bytes)
  | avformatFreeContext (context : Option Pointer)
  | avformatCloseInput (context : Pointer)
  | avformatFindStreamInfo (context : Pointer)
  | formatName (context : Pointer)
  | formatDuration (context : Pointer)
  | streamInfo (context : Pointer) (streamIndex : Int)
  | codecName (codec : Pointer)
  | avFindBestStream (context : Pointer)
  | avcodecFindDecoder (context : Pointer) (streamIndex : Int)
  | avcodecAllocContext3 (codec : Pointer)
  | avcodecParametersToContext (codecContext context : Pointer) (streamIndex : Int)
  | avcodecOpen2 (codecContext codec : Pointer)
  | avcodecFreeContext (codecContext : Pointer)
  | avPacketAlloc
  | avFrameAlloc
  | avReadFrame (context : Pointer) (packet : Option Pointer)
  | avPacketUnref (packet : Option Pointer)
  | avcodecSendPacket (codecContext : Pointer) (packet : Option Pointer)
  | avcodecReceiveFrame (codecContext : Pointer) (frame : Option Pointer)
  | swsGetContext (frame : Pointer)
  | swsScale (scaler frame : Pointer)
  | swsFreeContext (scaler : Pointer)
  | avFrameFree (frame : Option Pointer)
  | avPacketFree (packet : Option Pointer)

-- A context that could not be opened is null afterwards. The pixels that `sws_scale` writes come in
-- the order of the rows.
@[reducible]
def MediaRes : MediaCall → Type
  | .pathExists _                     => Bool
  | .fileSize _                       => Option Int
  | .lastWriteTime _                  => Option Int
  | .fileClockNow                     => Int
  | .systemClockNow                   => Int
  | .avMalloc _                       => Option Pointer
  | .avFree _                         => Unit
  | .avioAllocContext _ _             => Option Pointer
  | .avioContextFree _                => Unit
  | .avformatAllocContext             => Option Pointer
  | .setPb _ _                        => Unit
  | .avformatOpenInput _ _            => Option Pointer
  | .avformatFreeContext _            => Unit
  | .avformatCloseInput _             => Unit
  | .avformatFindStreamInfo _         => Int
  | .formatName _                     => Bytes
  | .formatDuration _                 => Int
  | .streamInfo _ _                   => StreamInfo
  | .codecName _                      => Bytes
  | .avFindBestStream _               => Int
  | .avcodecFindDecoder _ _           => Option Pointer
  | .avcodecAllocContext3 _           => Option Pointer
  | .avcodecParametersToContext _ _ _ => Int
  | .avcodecOpen2 _ _                 => Int
  | .avcodecFreeContext _             => Unit
  | .avPacketAlloc                    => Option Pointer
  | .avFrameAlloc                     => Option Pointer
  | .avReadFrame _ _                  => ReadFrame
  | .avPacketUnref _                  => Unit
  | .avcodecSendPacket _ _            => Int
  | .avcodecReceiveFrame _ _          => ReceivedFrame
  | .swsGetContext _                  => Option Pointer
  | .swsScale _ _                     => Nat → ColorRGBA
  | .swsFreeContext _                 => Unit
  | .avFrameFree _                    => Unit
  | .avPacketFree _                   => Unit

abbrev MediaM := Prog MediaRes

def call (o : MediaCall) : MediaM (MediaRes o) :=
  Prog.perform o

def RgbaImage.empty : RgbaImage :=
  ⟨0, 0, [], ⟨[], 0, 0, 0, 0, 0⟩⟩

section Metadata

def nanosecondsPerSecond : Int := 1000000000

-- The time of the file is moved from its own clock to that of the system, and cut off to seconds.
def modifiedUnix (modifiedTime fileClockNow systemNow : Int) : Int :=
  (systemNow + (modifiedTime - fileClockNow)).tdiv nanosecondsPerSecond

def fillMetadata (path : Bytes) (image : RgbaImage) : MediaM (Bool × RgbaImage) := do
  if ← call (.pathExists path) then
    let fileSize ← call (.fileSize path)
    let metadata := { image.metadata with sourcePath := path, fileSize := fileSize.getD 0 }
    match ← call (.lastWriteTime path) with
    | none              =>
      return (true, { image with metadata := { metadata with fileModifiedUnix := 0 } })
    | some modifiedTime =>
      let fileClockNow ← call .fileClockNow
      let systemNow ← call .systemClockNow
      return (true, { image with
        metadata := { metadata with
          fileModifiedUnix := modifiedUnix modifiedTime fileClockNow systemNow } })
  else return (false, image)

end Metadata

section Decode

def frameToRgba (framePointer : Option Pointer) (frame : Frame) (image : RgbaImage) :
    MediaM (Bool × RgbaImage) :=
  match framePointer with
  | none         => return (false, image)
  | some pointer => do
    if frame.width ≤ 0 ∨ frame.height ≤ 0 then return (false, image)
    else
      match ← call (.swsGetContext pointer) with
      | none        => return (false, image)
      | some scaler =>
        let colors ← call (.swsScale scaler pointer)
        call (.swsFreeContext scaler)
        return (true, {
          width := frame.width
          height := frame.height
          pixels := (List.range (frame.width * frame.height).toNat).map colors
          metadata := { image.metadata with
            width := frame.width
            height := frame.height
            channelCount := 4 } })

-- What becomes of a packet of the stream: of the frames that it gives, only the first is looked at.
def decodePacket (codecContext : Pointer) (packet frame : Option Pointer) (image : RgbaImage) :
    MediaM (Bool × RgbaImage) := do
  if (← call (.avcodecSendPacket codecContext packet)) < 0 then return (false, image)
  else
    let received ← call (.avcodecReceiveFrame codecContext frame)
    if received.code < 0 then return (false, image)
    else frameToRgba frame received.frame image

-- The outer loop of `decode_first_frame`. `none` if the fuel does not last to its end.
def decodePackets (context codecContext : Pointer) (packet frame : Option Pointer)
    (streamIndex : Int) (image : RgbaImage) : Nat → MediaM (Option (Bool × RgbaImage))
  | 0        => return none
  | fuel + 1 => do
    let read ← call (.avReadFrame context packet)
    if read.code < 0 then return some (false, image)
    else if read.streamIndex ≠ streamIndex then
      call (.avPacketUnref packet)
      decodePackets context codecContext packet frame streamIndex image fuel
    else
      let (decoded, image) ← decodePacket codecContext packet frame image
      call (.avPacketUnref packet)
      if decoded then return some (true, image)
      else decodePackets context codecContext packet frame streamIndex image fuel

-- `decode_first_frame` with an open decoder.
def decodeOpened (fuel : Nat) (context codecContext : Pointer) (streamIndex : Int)
    (image : RgbaImage) (sourceLabel : Bytes) : MediaM (Option (Bool × RgbaImage)) := do
  let packet ← call .avPacketAlloc
  let frame ← call .avFrameAlloc
  match ← decodePackets context codecContext packet frame streamIndex image fuel with
  | none                  => return none
  | some (decoded, image) =>
    call (.avFrameFree frame)
    call (.avPacketFree packet)
    call (.avcodecFreeContext codecContext)
    return some (decoded, { image with metadata.sourcePath := sourceLabel })

def decodeFirstFrame (fuel : Nat) (context : Pointer) (image : RgbaImage) (sourceLabel : Bytes) :
    MediaM (Option (Bool × RgbaImage)) := do
  let streamIndex ← call (.avFindBestStream context)
  if streamIndex < 0 then return some (false, image)
  else
    match ← call (.avcodecFindDecoder context streamIndex) with
    | none       => return some (false, image)
    | some codec =>
      match ← call (.avcodecAllocContext3 codec) with
      | none              => return some (false, image)
      | some codecContext =>
        if (← call (.avcodecParametersToContext codecContext context streamIndex)) < 0 then
          call (.avcodecFreeContext codecContext)
          return some (false, image)
        else if (← call (.avcodecOpen2 codecContext codec)) < 0 then
          call (.avcodecFreeContext codecContext)
          return some (false, image)
        else decodeOpened fuel context codecContext streamIndex image sourceLabel

def decodeFromFormatContext (fuel : Nat) (context : Pointer) (image : RgbaImage)
    (sourceLabel : Bytes) : MediaM (Option (Bool × RgbaImage)) := do
  if (← call (.avformatFindStreamInfo context)) < 0 then return some (false, image)
  else decodeFirstFrame fuel context image sourceLabel

def decodeImageFromFile (fuel : Nat) (path : Bytes) : MediaM (Option (Bool × RgbaImage)) := do
  let (filled, image) ← fillMetadata path .empty
  if ¬filled then return some (false, image)
  else
    match ← call (.avformatOpenInput none path) with
    | none         => return some (false, .empty)
    | some context =>
      match ← decodeFromFormatContext fuel context image path with
      | none        => return none
      | some result =>
        call (.avformatCloseInput context)
        return some result

def avioBufferSize : Nat := 4096

def decodeImageFromMemory (fuel : Nat) (data : Option Buffer) (sourceLabel : Bytes) :
    MediaM (Option (Bool × RgbaImage)) := do
  if data.all (·.bytes = []) then return some (false, .empty)
  else
    match ← call (.avMalloc avioBufferSize) with
    | none        => return some (false, .empty)
    | some buffer =>
      match ← call (.avioAllocContext buffer avioBufferSize) with
      | none      =>
        call (.avFree buffer)
        return some (false, .empty)
      | some avio =>
        match ← call .avformatAllocContext with
        | none         =>
          call (.avioContextFree avio)
          return some (false, .empty)
        | some context =>
          call (.setPb context avio)
          match ← call (.avformatOpenInput (some context) []) with
          | none         =>
            call (.avformatFreeContext none)
            return some (false, .empty)
          | some context =>
            match ← decodeFromFormatContext fuel context .empty sourceLabel with
            | none        => return none
            | some result =>
              call (.avformatCloseInput context)
              return some result

end Decode

section Probe

-- Everything but the frame rate. A duration whose computation is undefined is `none`.
structure MediaProbeInfo where
  valid : Bool
  path : Bytes
  formatName : Bytes
  codecName : Bytes
  width : Int
  height : Int
  durationMs : Option Int

def MediaProbeInfo.ofPath (path : Bytes) : MediaProbeInfo :=
  ⟨false, path, [], [], 0, 0, some 0⟩

def inInt64 (n : Int) : Option Int :=
  if -2 ^ 63 ≤ n ∧ n < 2 ^ 63 then some n else none

def StreamInfo.durationMs (stream : StreamInfo) : Option Int :=
  if stream.duration ≤ 0 then some 0
  else do
    let product ← inInt64 (stream.duration * 1000)
    let product ← inInt64 (product * stream.timeBaseNum)
    if stream.timeBaseDen = 0 then none else some (product.tdiv stream.timeBaseDen)

def avTimeBase : Int := 1000000

def probeStream (context : Pointer) (info : MediaProbeInfo) : MediaM MediaProbeInfo := do
  let streamIndex ← call (.avFindBestStream context)
  if streamIndex < 0 then return info
  else
    let stream ← call (.streamInfo context streamIndex)
    let info := { info with
      width := stream.width, height := stream.height, durationMs := stream.durationMs }
    if stream.hasCodecId then
      match ← call (.avcodecFindDecoder context streamIndex) with
      | none       => return info
      | some codec =>
        let codecName ← call (.codecName codec)
        return { info with codecName }
    else return info

-- Only a duration that is known not to be positive is taken from the format.
def totalDurationMs (durationMs : Option Int) (formatDuration : Int) : Option Int :=
  durationMs.bind fun durationMs =>
    if durationMs ≤ 0 ∧ 0 < formatDuration then
      (inInt64 (formatDuration * 1000)).map (·.tdiv avTimeBase)
    else some durationMs

def probeMediaFile (path : Bytes) : MediaM (Bool × MediaProbeInfo) := do
  let info := MediaProbeInfo.ofPath path
  match ← call (.avformatOpenInput none path) with
  | none         => return (false, info)
  | some context =>
    if (← call (.avformatFindStreamInfo context)) < 0 then
      call (.avformatCloseInput context)
      return (false, info)
    else
      let formatName ← call (.formatName context)
      let info ← probeStream context { info with formatName }
      let formatDuration ← call (.formatDuration context)
      call (.avformatCloseInput context)
      return (true, { info with
        valid := true
        durationMs := totalDurationMs info.durationMs formatDuration })

end Probe
end Droidcli.Media
