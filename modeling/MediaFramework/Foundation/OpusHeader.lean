import MediaFramework.Lib.Buffer
import MediaFramework.Lib.CounterMode

/-!
# Opus headers

Opus codec specific data (`media/libstagefright/foundation/OpusHeader.cpp`): an `OpusHead`, alone or
in the unified format with the codec delay and the seek pre-roll. A read or a write outside of its
buffer is undefined, `none`; an error is the result `-1` or `false`.
-/

namespace MediaFramework.Foundation

open LittleEndian Buffer

/-- `streamMap` is an array of eight bytes. -/
structure OpusHeader where
  channels : Int := 0
  channelMapping : Int := 0
  numStreams : Int := 0
  numCoupled : Int := 0
  gainDb : BitVec 16 := 0
  skipSamples : Int := 0
  streamMap : Vector (BitVec 8) 8 := .replicate 8 0

def kMaxChannels : Nat := 8

/-- A row for each number of channels, without the zeros at its end. -/
def kOpusChannelMap : List (List (BitVec 8)) :=
  [[0], [0, 1], [0, 2, 1], [0, 1, 2, 3], [0, 4, 1, 2, 3], [0, 4, 1, 2, 3, 5], [0, 4, 1, 2, 3, 5, 6],
    [0, 6, 1, 2, 3, 4, 5, 7]]

def kOpusHeaderSize : Nat := 19
def kOpusHeaderLabelOffset : Nat := 0
def kOpusHeaderVersionOffset : Nat := 8
def kOpusHeaderChannelsOffset : Nat := 9
def kOpusHeaderSkipSamplesOffset : Nat := 10
def kOpusHeaderSampleRateOffset : Nat := 12
def kOpusHeaderGainOffset : Nat := 16
def kOpusHeaderChannelMappingOffset : Nat := 18
def kOpusHeaderNumStreamsOffset : Nat := 19
def kOpusHeaderNumCoupledStreamsOffset : Nat := 20
def kOpusHeaderStreamMapOffset : Nat := 21
def kMaxChannelsWithDefaultLayout : Nat := 2

/-- The bytes of "OpusHead". -/
def opusHeadLabel : List (BitVec 8) := [0x4f, 0x70, 0x75, 0x73, 0x48, 0x65, 0x61, 0x64]

/-! ### Parsing -/

def readLE16 (data : List (BitVec 8)) (readOffset : Nat) : BitVec 16 :=
  if data.length ≤ readOffset + 1 then 0
  else (data.getD readOffset 0).setWidth 16 ||| (data.getD (readOffset + 1) 0).setWidth 16 <<< 8

/-- Whether the header is valid, and what has been stored. -/
def parseOpusHeader (data : Option (List (BitVec 8))) (header : OpusHeader) :
    Option (Bool × OpusHeader) :=
  match data with
  | none => some (false, header)
  | some data =>
    if data.length < kOpusHeaderSize then some (false, header)
    else do
      let channels ← data[kOpusHeaderChannelsOffset]?
      let header := { header with channels := channels.toNat }
      if header.channels < 1 ∨ (kMaxChannels : Int) < header.channels then return (false, header)
      else
        let channelMapping ← data[kOpusHeaderChannelMappingOffset]?
        let header := { header with
          skipSamples := (readLE16 data kOpusHeaderSkipSamplesOffset).toNat
          gainDb := readLE16 data kOpusHeaderGainOffset
          channelMapping := channelMapping.toNat }
        if header.channelMapping = 0 then
          if (kMaxChannelsWithDefaultLayout : Int) < header.channels then return (false, header)
          else return (true, { header with
            numStreams := 1
            numCoupled := if 1 < header.channels then 1 else 0
            streamMap := (header.streamMap.setIfInBounds 0 0).setIfInBounds 1 1 })
        else if (data.length : Int) < kOpusHeaderStreamMapOffset + header.channels then
          return (false, header)
        else
          let numStreams ← data[kOpusHeaderNumStreamsOffset]?
          let numCoupled ← data[kOpusHeaderNumCoupledStreamsOffset]?
          let header := { header with
            numStreams := numStreams.toNat
            numCoupled := numCoupled.toNat }
          if header.numStreams + header.numCoupled ≠ header.channels then return (false, header)
          else
            let streamMap ← (List.range header.channels.toNat).foldlM (fun streamMap i =>
              data[kOpusHeaderStreamMapOffset + i]?.map (streamMap.setIfInBounds i)) header.streamMap
            return (true, { header with streamMap })

/-! ### Writing -/

/-- The fields before the channel mapping. -/
def writeFields (header : OpusHeader) (inputSampleRate : Int) (output : List (BitVec 8)) :
    Option (List (BitVec 8)) := do
  let output ← store output kOpusHeaderLabelOffset opusHeadLabel
  let output ← store output kOpusHeaderVersionOffset [1]
  let output ← store output kOpusHeaderChannelsOffset [BitVec.ofInt 8 header.channels]
  let output ← store output kOpusHeaderSkipSamplesOffset
    (digits 2 (header.skipSamples % 2 ^ 32).toNat)
  let output ← store output kOpusHeaderSampleRateOffset
    (digits 4 (inputSampleRate % 2 ^ 32).toNat)
  store output kOpusHeaderGainOffset (digits 2 header.gainDb.toNat)

/-- The numbers of streams, none of them coupled, and the stream of each channel. -/
def writeStreamMap (header : OpusHeader) (output : List (BitVec 8)) :
    Option (List (BitVec 8)) := do
  let output ← store output kOpusHeaderNumStreamsOffset [BitVec.ofInt 8 header.channels]
  let output ← store output kOpusHeaderNumCoupledStreamsOffset [0]
  let row ← kOpusChannelMap[(header.channels - 1).toNat]?
  (List.range header.channels.toNat).foldlM (fun output i =>
    row[i]?.bind fun stream => store output (kOpusHeaderStreamMapOffset + i) [stream]) output

/-- The size of the header that has been written, and the buffer. -/
def writeOpusHeader (header : OpusHeader) (inputSampleRate : Int) (output : List (BitVec 8)) :
    Option (Int × List (BitVec 8)) :=
  -- the sum is unsigned
  let totalSize := ((kOpusHeaderStreamMapOffset + header.channels) % 2 ^ 64).toNat
  if output.length < totalSize then some (-1, output)
  else do
    let output ← writeFields header inputSampleRate (List.replicate output.length 0)
    if 2 < header.channels then
      let output ← store output kOpusHeaderChannelMappingOffset [1]
      let output ← writeStreamMap header output
      return (kOpusHeaderStreamMapOffset + header.channels + 1, output)
    else
      let output ← store output kOpusHeaderChannelMappingOffset [0]
      return (kOpusHeaderChannelMappingOffset + 1, output)

/-! ### The unified format -/

/-- The bytes of "AOPUS". -/
def aopusCsdMarkerPrefix : List (BitVec 8) := [0x41, 0x4f, 0x50, 0x55, 0x53]

/-- The prefix and "HDR". -/
def aopusCsdOpusHeaderMarker : List (BitVec 8) := aopusCsdMarkerPrefix ++ [0x48, 0x44, 0x52]

/-- The prefix and "DLY". -/
def aopusCsdCodecDelayMarker : List (BitVec 8) := aopusCsdMarkerPrefix ++ [0x44, 0x4c, 0x59]

/-- The prefix and "PRL". -/
def aopusCsdSeekPrerollMarker : List (BitVec 8) := aopusCsdMarkerPrefix ++ [0x50, 0x52, 0x4c]

def aopusMarkerSize : Nat := 8
def aopusLengthSize : Nat := 8
def aopusOpusheadMinsize : Nat := 19
def aopusOpusheadMaxsize : Nat := aopusOpusheadMinsize + 2 + 255

/-- With a codec delay and a seek pre-roll of eight bytes each. -/
def aopusUnifiedCsdMinsize : Nat :=
  aopusMarkerSize + aopusLengthSize + aopusOpusheadMinsize +
    (aopusMarkerSize + aopusLengthSize + 8) + (aopusMarkerSize + aopusLengthSize + 8)

/-- A marker, the length, and a number of 64 bits. -/
def writeNumber (marker : List (BitVec 8)) (value : BitVec 64) (headerLen : Nat)
    (output : List (BitVec 8)) : Option (List (BitVec 8)) := do
  let output ← store output headerLen marker
  let output ← store output (headerLen + aopusMarkerSize) (digits 8 8)
  store output (headerLen + aopusMarkerSize + aopusLengthSize) (digits 8 value.toNat)

/-- The codec delay and the seek pre-roll, behind the header. -/
def writeNumbers (codecDelay seekPreRoll : BitVec 64) (headerLen : Nat) (output : List (BitVec 8)) :
    Option (Int × List (BitVec 8)) :=
  if output.length - aopusMarkerSize - aopusLengthSize - 8 < headerLen then some (-1, output)
  else do
    let output ← writeNumber aopusCsdCodecDelayMarker codecDelay headerLen output
    let headerLen := headerLen + aopusMarkerSize + aopusLengthSize + 8
    if output.length - aopusMarkerSize - aopusLengthSize - 8 < headerLen then return (-1, output)
    else
      let output ← writeNumber aopusCsdSeekPrerollMarker seekPreRoll headerLen output
      return ((headerLen + aopusMarkerSize + aopusLengthSize + 8 : Nat), output)

def writeOpusHeaders (header : OpusHeader) (inputSampleRate : Int) (output : List (BitVec 8))
    (codecDelay seekPreRoll : BitVec 64) : Option (Int × List (BitVec 8)) :=
  if output.length < aopusUnifiedCsdMinsize then some (-1, output)
  else do
    let output ← store output 0 aopusCsdOpusHeaderMarker
    let (headerSize, rest) ← writeOpusHeader header inputSampleRate
      (output.drop (aopusMarkerSize + aopusLengthSize))
    let output := output.take (aopusMarkerSize + aopusLengthSize) ++ rest
    if headerSize < 0 then return (-1, output)
    else
      let output ← store output aopusMarkerSize (digits 8 headerSize.toNat)
      writeNumbers codecDelay seekPreRoll (aopusMarkerSize + aopusLengthSize + headerSize.toNat)
        output

/-- Where the parts have been found, as offsets with sizes. -/
structure OpusHeaderBuffers where
  opusHead : Option (Nat × Nat) := none
  codecDelay : Option (Nat × Nat) := none
  seekPreRoll : Option (Nat × Nat) := none
  deriving DecidableEq

def readLength (data : List (BitVec 8)) (i : Nat) : Option Nat := (load data i 8).map value

/-- The loop of `getOpusHeaderBuffers`. The bound of `i` is a difference without a sign. -/
def scanMarkers (data : List (BitVec 8)) (i : Nat) (found : Bool) (buffers : OpusHeaderBuffers) :
    Option (Bool × OpusHeaderBuffers) :=
  if (data.length + (2 ^ 64 - aopusMarkerSize - aopusLengthSize)) % 2 ^ 64 < i then
    some (found, buffers)
  else if _h : data.length < i + aopusMarkerSize then none
  else
    let marker := (data.drop i).take aopusMarkerSize
    let start := i + aopusMarkerSize + aopusLengthSize
    if marker = aopusCsdOpusHeaderMarker then do
      let value ← readLength data (i + aopusMarkerSize)
      if value < aopusOpusheadMinsize ∨ aopusOpusheadMaxsize < value then return (false, buffers)
      else if data.length < start + value then return (false, buffers)
      else scanMarkers data (start + value) true { buffers with opusHead := some (start, value) }
    else if marker = aopusCsdCodecDelayMarker then do
      let value ← readLength data (i + aopusMarkerSize)
      if value ≠ 8 then return (false, buffers)
      else if data.length < start + value then return (false, buffers)
      else scanMarkers data (start + value) found { buffers with codecDelay := some (start, value) }
    else if marker = aopusCsdSeekPrerollMarker then do
      let value ← readLength data (i + aopusMarkerSize)
      if value ≠ 8 then return (false, buffers)
      else if data.length < start + value then return (false, buffers)
      else scanMarkers data (start + value) found { buffers with seekPreRoll := some (start, value) }
    else scanMarkers data (i + 1) found buffers
termination_by data.length - i
decreasing_by all_goals simp only [aopusMarkerSize, aopusLengthSize] at *; omega

def getOpusHeaderBuffers (data : List (BitVec 8)) : Option (Bool × OpusHeaderBuffers) :=
  if data.length < 8 then some (false, {})
  else if data.take 8 = opusHeadLabel then
    if data.length < aopusOpusheadMinsize ∨ aopusOpusheadMaxsize < data.length then some (false, {})
    else some (true, { opusHead := some (0, data.length) })
  else if data.take 5 = aopusCsdMarkerPrefix then scanMarkers data 0 false {}
  else some (false, {})

end MediaFramework.Foundation
