import MediaFramework.Lib.KeyedVector

/-!
# Camera buffer manager

`Camera3BufferManager` (`services/camera/libcameraservice/device3`) with its gralloc version, which
is hardcoded to 0.1. `σ` stands for the weak pointers to output streams and `β` for graphic buffers.
Identifiers and counts are unbounded here: no count gets above `kMaxBufferCount`. `none` is a count
that would be decremented below zero or an entry that a map does not have.
-/

namespace MediaFramework.Camera

/-- `NUM_BUFFER_SLOTS`. -/
def kMaxBufferCount : Nat := 64

def BUFFER_WATERMARK_DEC_THRESHOLD : Nat := 3

def BUFFER_FREE_THRESHOLD : Nat := 3

def CAMERA3_STREAM_ID_INVALID : Int := -1

def CAMERA3_STREAM_SET_ID_INVALID : Int := -1

inductive Status
  | OK
  | BAD_VALUE
  | INVALID_OPERATION
  | ALREADY_EXISTS
  /-- An error of the allocator. -/
  | failed (res : Int)
  deriving DecidableEq, Repr

structure StreamInfo where
  streamId : Int
  streamSetId : Int
  width : Nat := 0
  height : Nat := 0
  format : Nat := 0
  combinedUsage : Nat := 0
  totalBufferCount : Nat
  isConfigured : Bool

structure StreamSet where
  allocatedBufferWaterMark : Nat := 0
  maxAllowedBufferCount : Nat := 0
  streamInfoMap : KeyedVector Int StreamInfo := .empty
  handoutBufferCountMap : KeyedVector Int Nat := .empty
  attachedBufferCountMap : KeyedVector Int Nat := .empty

structure BufferManager (σ : Type) where
  mStreamSetMap : KeyedVector Int StreamSet := .empty
  mStreamMap : KeyedVector Int σ := .empty

namespace StreamSet

variable (set : StreamSet)

def totalAllocatedBufferCount : Nat := set.attachedBufferCountMap.values.sum

def totalHandOutBufferCount : Nat := set.handoutBufferCountMap.values.sum

def addStream (info : StreamInfo) : StreamSet :=
  { set with
    streamInfoMap := set.streamInfoMap.set info.streamId info
    handoutBufferCountMap := set.handoutBufferCountMap.set info.streamId 0
    attachedBufferCountMap := set.attachedBufferCountMap.set info.streamId 0
    maxAllowedBufferCount :=
      if info.totalBufferCount > set.maxAllowedBufferCount then info.totalBufferCount
      else set.maxAllowedBufferCount }

def removeStream (streamId : Int) : StreamSet :=
  let infoMap := set.streamInfoMap.remove streamId
  { allocatedBufferWaterMark := 0
    maxAllowedBufferCount :=
      infoMap.values.foldl
        (fun count info => if info.totalBufferCount > count then info.totalBufferCount else count) 0
    streamInfoMap := infoMap
    handoutBufferCountMap := set.handoutBufferCountMap.remove streamId
    attachedBufferCountMap := set.attachedBufferCountMap.remove streamId }

/-- Whether a stream has a free buffer attached. -/
def hasFreeBuffer (streamId : Int) : Option Bool := do
  let bufferCount ← set.handoutBufferCountMap.find? streamId
  let attachedBufferCount ← set.attachedBufferCountMap.find? streamId
  return attachedBufferCount > bufferCount

/-- The first other stream with a free buffer. -/
def firstOtherStream (set : StreamSet) (streamId : Int) :
    List StreamInfo → Option (Option Int)
  | [] => some none
  | info :: infos =>
    if info.streamId ≠ streamId then do
      if ← set.hasFreeBuffer info.streamId then return some info.streamId
      else firstOtherStream set streamId infos
    else firstOtherStream set streamId infos

def setHandout (streamId : Int) (count : Nat) : StreamSet :=
  { set with handoutBufferCountMap := set.handoutBufferCountMap.set streamId count }

def setAttached (streamId : Int) (count : Nat) : StreamSet :=
  { set with attachedBufferCountMap := set.attachedBufferCountMap.set streamId count }

/-- `checkAndFreeBufferOnOtherStreamsLocked`. A stream that `detach` has no answer for cannot be
promoted; else the answer is whether `detachBuffer` has given a buffer. -/
def checkAndFreeBufferOnOtherStreams {σ : Type} (mStreamMap : KeyedVector Int σ)
    (detach : σ → Option Bool) (streamId : Int) : Option (StreamSet × Status) := do
  if set.streamInfoMap.values.length = 1 then return (set, .OK)
  match ← firstOtherStream set streamId set.streamInfoMap.values with
  | none => return (set, .OK)
  | some firstOtherStreamId =>
    if set.totalAllocatedBufferCount > set.allocatedBufferWaterMark then
      match detach (← mStreamMap.find? firstOtherStreamId) with
      | none => return (set, .INVALID_OPERATION)
      | some false => return (set, .OK)
      | some true =>
        let otherAttachedBufferCount ← set.attachedBufferCountMap.find? firstOtherStreamId
        if otherAttachedBufferCount = 0 then none
        else return (set.setAttached firstOtherStreamId (otherAttachedBufferCount - 1), .OK)
    else return (set, .OK)

/-- The part of `getBufferForStream` on the stream set. The stream is there. -/
def getBuffer {σ β : Type} (mStreamMap : KeyedVector Int σ) (allocate : StreamInfo → Except Int β)
    (detach₁ detach₂ : σ → Option Bool) (streamId : Int) (noFreeBufferAtConsumer : Bool) :
    Option (StreamSet × Status × Option β) := do
  let bufferCount ← set.handoutBufferCountMap.find? streamId
  let attachedBufferCount ← set.attachedBufferCountMap.find? streamId
  let (set, attachedBufferCount) :=
    if noFreeBufferAtConsumer then (set.setAttached streamId bufferCount, bufferCount)
    else (set, attachedBufferCount)
  if bufferCount ≥ set.maxAllowedBufferCount then return (set, .INVALID_OPERATION, none)
  if attachedBufferCount > bufferCount then
    return (set.setHandout streamId (bufferCount + 1), .ALREADY_EXISTS, none)
  match allocate (← set.streamInfoMap.find? streamId) with
  | .error res => return (set, .failed res, none)
  | .ok buffer =>
    let set := (set.setHandout streamId (bufferCount + 1)).setAttached streamId
      (attachedBufferCount + 1)
    let set :=
      if bufferCount + 2 > set.allocatedBufferWaterMark then
        { set with allocatedBufferWaterMark := bufferCount + 2 }
      else set
    let (set, res) ← set.checkAndFreeBufferOnOtherStreams mStreamMap detach₁ streamId
    if res ≠ .OK then return (set, res, some buffer)
    let (set, res) ← set.checkAndFreeBufferOnOtherStreams mStreamMap detach₂ streamId
    if res ≠ .OK then return (set, res, some buffer)
    return (set, .OK, some buffer)

/-- The part of `onBufferReleased` on the stream set, with `shouldFreeBuffer`. -/
def bufferReleased (streamId : Int) : Option (StreamSet × Bool) := do
  let bufferCount ← set.handoutBufferCountMap.find? streamId
  if bufferCount = 0 then none
  let bufferCount := bufferCount - 1
  let set := set.setHandout streamId bufferCount
  let newWaterMark := set.totalHandOutBufferCount + BUFFER_WATERMARK_DEC_THRESHOLD
  let set :=
    if set.totalAllocatedBufferCount > newWaterMark ∧ set.allocatedBufferWaterMark > newWaterMark then
      { set with allocatedBufferWaterMark := newWaterMark }
    else set
  let attachedBufferCount ← set.attachedBufferCountMap.find? streamId
  let freeBufferIsAttached := attachedBufferCount > bufferCount
  return (set, freeBufferIsAttached ∧
    set.totalAllocatedBufferCount > set.allocatedBufferWaterMark ∧
    attachedBufferCount > bufferCount + BUFFER_FREE_THRESHOLD)

/-- The part of `onBuffersRemoved` on the stream set. -/
def buffersRemoved (streamId : Int) (count : Nat) : Option (StreamSet × Status) := do
  let totalHandoutCount ← set.handoutBufferCountMap.find? streamId
  let totalAttachedCount ← set.attachedBufferCountMap.find? streamId
  if count > totalHandoutCount then return (set, .BAD_VALUE)
  if count > totalAttachedCount then return (set, .BAD_VALUE)
  return ((set.setHandout streamId (totalHandoutCount - count)).setAttached streamId
    (totalAttachedCount - count), .OK)

/-- The part of `notifyBufferRemoved` on the stream set. -/
def bufferRemoved (streamId : Int) : Option StreamSet := do
  let attachedBufferCount ← set.attachedBufferCountMap.find? streamId
  if attachedBufferCount = 0 then none
  else return set.setAttached streamId (attachedBufferCount - 1)

end StreamSet

namespace BufferManager

variable {σ β : Type} (m : BufferManager σ)

def setStreamSet (streamSetId : Int) (set : StreamSet) : BufferManager σ :=
  { m with mStreamSetMap := m.mStreamSetMap.set streamSetId set }

/-- `checkIfStreamRegisteredLocked`, with the stream set. -/
def registeredSet (streamId streamSetId : Int) : Option StreamSet := do
  let set ← m.mStreamSetMap.find? streamSetId
  let _ ← set.streamInfoMap.find? streamId
  if set.maxAllowedBufferCount = 0 ∨ set.maxAllowedBufferCount > kMaxBufferCount then none
  else return set

/-- Whether the stream is in a set other than `streamSetId`. -/
def registeredElsewhere (streamId streamSetId : Int) : Bool :=
  m.mStreamSetMap.values.any fun set =>
    (set.streamInfoMap.find? streamId).any fun info => info.streamSetId ≠ streamSetId

def registerStream (stream : σ) (streamInfo : StreamInfo) : BufferManager σ × Status :=
  let streamId := streamInfo.streamId
  let streamSetId := streamInfo.streamSetId
  if streamId = CAMERA3_STREAM_ID_INVALID ∨ streamSetId = CAMERA3_STREAM_SET_ID_INVALID then
    (m, .BAD_VALUE)
  else if streamInfo.totalBufferCount > kMaxBufferCount ∨ streamInfo.totalBufferCount = 0 then
    (m, .BAD_VALUE)
  else if ¬streamInfo.isConfigured then (m, .BAD_VALUE)
  else if m.registeredElsewhere streamId streamSetId then (m, .BAD_VALUE)
  else
    let currentStreamSet := (m.mStreamSetMap.find? streamSetId).getD {}
    if (currentStreamSet.streamInfoMap.find? streamId).isSome then
      (m.setStreamSet streamSetId currentStreamSet, .OK)
    else
      ({ mStreamSetMap := m.mStreamSetMap.set streamSetId (currentStreamSet.addStream streamInfo)
         mStreamMap := m.mStreamMap.set streamId stream },
        .OK)

def unregisterStream (streamId streamSetId : Int) : BufferManager σ × Status :=
  match m.registeredSet streamId streamSetId with
  | none => (m, .BAD_VALUE)
  | some set =>
    let currentSet := set.removeStream streamId
    let sets :=
      if currentSet.handoutBufferCountMap.values.length = 0 ∧
          currentSet.streamInfoMap.values.length = 0 then
        m.mStreamSetMap.remove streamSetId
      else m.mStreamSetMap.set streamSetId currentSet
    ({ mStreamSetMap := sets, mStreamMap := m.mStreamMap.remove streamId }, .OK)

def notifyBufferRemoved (streamId streamSetId : Int) : Option (BufferManager σ) := do
  let set ← m.mStreamSetMap.find? streamSetId
  return m.setStreamSet streamSetId (← set.bufferRemoved streamId)

/-- The buffer is written to `gb` also where the call fails after it. -/
def getBufferForStream (allocate : StreamInfo → Except Int β) (detach₁ detach₂ : σ → Option Bool)
    (streamId streamSetId : Int) (noFreeBufferAtConsumer : Bool) :
    Option (BufferManager σ × Status × Option β) :=
  match m.registeredSet streamId streamSetId with
  | none => some (m, .BAD_VALUE, none)
  | some set => do
    let (set, res, gb) ←
      set.getBuffer m.mStreamMap allocate detach₁ detach₂ streamId noFreeBufferAtConsumer
    return (m.setStreamSet streamSetId set, res, gb)

/-- Without a place for it, there is no answer whether to free a buffer. -/
def onBufferReleased (streamId streamSetId : Int) (hasPlace : Bool) :
    Option (BufferManager σ × Status × Option Bool) :=
  if ¬hasPlace then some (m, .BAD_VALUE, none)
  else
    match m.registeredSet streamId streamSetId with
    | none => some (m, .OK, some false)
    | some set => do
      let (set, shouldFreeBuffer) ← set.bufferReleased streamId
      return (m.setStreamSet streamSetId set, .OK, some shouldFreeBuffer)

def onBuffersRemoved (streamId streamSetId : Int) (count : Nat) :
    Option (BufferManager σ × Status) :=
  match m.registeredSet streamId streamSetId with
  | none => some (m, .OK)
  | some set => do
    let (set, res) ← set.buffersRemoved streamId count
    return (m.setStreamSet streamSetId set, res)

end BufferManager

end MediaFramework.Camera
