import MediaFramework.Lib.Machine
import MediaFramework.Lib.Word

/-!
# Streaming AudioTrack control block

The client and server proxies of a streaming AudioTrack
(`media/libaudioclient/AudioTrackShared.cpp`) over one shared control block. Shared
`int32_t` words are `BitVec 32`; `size_t` and the 64-bit counters are `Nat`, and a
`ssize_t` difference is an `Int`. Every proxy call is one atomic step, and a call that
trips a `LOG_ALWAYS_FATAL_IF` has no successor state.
-/

namespace MediaFramework.Audio

inductive Status
  | NO_ERROR
  | WOULD_BLOCK
  | NO_INIT
  | DEAD_OBJECT
  | NOT_ENOUGH_DATA
  deriving DecidableEq, Repr

def CBLK_INVALID : BitVec 32 := 0x04
def CBLK_DISABLED : BitVec 32 := 0x08
def CBLK_INTERRUPT : BitVec 32 := 0x200
def CBLK_FUTEX_WAKE : BitVec 32 := 1

/-- `Proxy::Buffer`; `mRaw` is the index of the first frame in `mBuffers`. -/
structure Buffer where
  mFrameCount : Nat
  mRaw : Option Nat
  mNonContig : Nat
  deriving DecidableEq, Repr

def Buffer.empty : Buffer := ⟨0, none, 0⟩

/-- The constants both proxies are built with. `mFrameCountP2` is what `roundup` returns:
a power of two, not below the frame count. -/
structure Geometry where
  mFrameCount : Nat
  log2P2 : Nat
  one_le_frameCount : 1 ≤ mFrameCount
  frameCount_le : mFrameCount ≤ 2^log2P2
  log2P2_le : log2P2 ≤ 30

namespace Geometry

def mFrameCountP2 (g : Geometry) : Nat := 2^g.log2P2

/-- `mFrameCountP2 << 1`, called `increment` by the client and `overflowBit` by the server. -/
def overflowBit (g : Geometry) : Nat := 2 * g.mFrameCountP2

def mask (g : Geometry) : BitVec 32 := BitVec.ofNat 32 (g.overflowBit - 1)

/-- `x & (mFrameCountP2 - 1)`, the index of a position in the ring. -/
def ringIndex (g : Geometry) (x : BitVec 32) : Nat :=
  (x &&& BitVec.ofNat 32 (g.mFrameCountP2 - 1)).toNat

end Geometry

/-- `audio_track_cblk_t`, with the streaming member of its union. -/
structure Cblk where
  mServer : BitVec 32 := 0
  mFutex : BitVec 32 := 0
  mMinimum : BitVec 32 := 0
  mBufferSizeInFrames : BitVec 32 := 0
  mFlags : BitVec 32 := 0
  mFront : BitVec 32 := 0
  mRear : BitVec 32 := 0
  mFlush : BitVec 32 := 0
  mStop : BitVec 32 := 0

structure ClientProxy where
  mBufferSizeInFrames : Nat := 0
  mUnreleased : Nat := 0
  mIsShutdown : Bool := false

structure ServerProxy where
  mUnreleased : Nat := 0
  mIsShutdown : Bool := false
  mAvailToClient : Nat := 0
  mFlush : BitVec 32 := 0
  mReleased : Nat := 0
  mFlushed : Nat := 0
  mStopLast : BitVec 32 := 0

/-- The shared memory (control block and frames) and the two proxies. -/
structure Track (α : Type*) where
  cblk : Cblk
  client : ClientProxy
  server : ServerProxy
  mBuffers : Nat → α

namespace Track

variable {α : Type*} (g : Geometry) (t : Track α)

/-! ### Client -/

/-- The size a request is clipped to; 16 is `AudioMixer::BLOCKSIZE`. -/
def clippedSize (size : Nat) : Nat :=
  let minimum := 16
  let maximum := g.mFrameCount
  if maximum < minimum then maximum
  else if size < minimum then minimum
  else if maximum < size then maximum
  else size

def setBufferSizeInFrames (size : Nat) : Track α :=
  { t with
    cblk.mBufferSizeInFrames := BitVec.ofNat 32 (clippedSize g size)
    client.mBufferSizeInFrames := clippedSize g size }

/-- The `end:` label of `ClientProxy::obtainBuffer` with an error status. -/
def clientObtainFailed (status : Status) : Status × Buffer × Track α :=
  (status, .empty, { t with client.mUnreleased := 0 })

/-- `ClientProxy::obtainBuffer` of an output track with a zero timeout. -/
def clientObtainBuffer (frameCount : Nat) : Status × Buffer × Track α :=
  if t.client.mIsShutdown then t.clientObtainFailed .NO_INIT
  else
    let flags := t.cblk.mFlags
    let t := { t with cblk.mFlags := flags &&& ~~~CBLK_INTERRUPT }
    if flags &&& CBLK_INVALID ≠ 0 then t.clientObtainFailed .DEAD_OBJECT
    else if flags &&& CBLK_DISABLED ≠ 0 then t.clientObtainFailed .NOT_ENOUGH_DATA
    else
      let front := t.cblk.mFront
      let rear := t.cblk.mRear
      let filled : Int := (rear - front).toInt
      -- pipe should not be overfull
      if ¬(0 ≤ filled ∧ filled ≤ g.mFrameCount) then
        { t with client.mIsShutdown := true }.clientObtainFailed .NO_INIT
      else
        let avail : Int := (t.client.mBufferSizeInFrames : Int) - filled
        if 0 < avail then
          let rear := g.ringIndex rear
          let part1 := min (min (g.mFrameCountP2 - rear) avail.toNat) frameCount
          (.NO_ERROR, ⟨part1, if 0 < part1 then some rear else none, avail.toNat - part1⟩,
            { t with client.mUnreleased := part1 })
        else t.clientObtainFailed .WOULD_BLOCK

/-- The client stores a frame in the buffer it has obtained. -/
def clientWrite (i : Nat) (frame : α) : Track α :=
  { t with mBuffers := Function.update t.mBuffers (g.ringIndex t.cblk.mRear + i) frame }

def clientReleaseBuffer (stepCount : Nat) : Option (Track α) :=
  if stepCount = 0 ∨ t.client.mIsShutdown then some t
  else if ¬(stepCount ≤ t.client.mUnreleased ∧ t.client.mUnreleased ≤ g.mFrameCount) then none
  else some { t with
    client.mUnreleased := t.client.mUnreleased - stepCount
    cblk.mRear := BitVec.ofNat 32 stepCount + t.cblk.mRear }

/-- The next `mStop` or `mFlush` word: the low bits of `mRear` under the word's counter
advanced by `increment`. -/
def nextRequest (word rear : BitVec 32) : BitVec 32 :=
  let rearMasked := rear &&& g.mask
  let bits := (word &&& ~~~g.mask) + BitVec.ofNat 32 g.overflowBit
  rearMasked ||| bits

def sendStreamingFlushStop (flush : Bool) : Track α :=
  let t' := { t with cblk.mStop := nextRequest g t.cblk.mStop t.cblk.mRear }
  if flush then { t' with cblk.mFlush := nextRequest g t.cblk.mFlush t.cblk.mRear } else t'

/-! ### Server -/

/-- The front position a pending flush leads to. -/
def flushedFront (flush rear front : BitVec 32) : BitVec 32 :=
  let newFront := (front &&& ~~~g.mask) ||| (flush &&& g.mask)
  let filled : Int := (rear - newFront).toInt
  let wrapped := (g.overflowBit : Int) ≤ filled
  let newFront := if wrapped then newFront + BitVec.ofNat 32 g.overflowBit else newFront
  let filled := if wrapped then filled - g.overflowBit else filled
  -- a corrupt flush is treated as a full flush
  if 0 ≤ filled ∧ filled ≤ g.mFrameCount then newFront else rear

def flushBufferIfNeeded : Track α :=
  let flush := t.cblk.mFlush
  if flush = t.server.mFlush then t
  else
    let front := t.cblk.mFront
    let newFront := flushedFront g flush t.cblk.mRear front
    { t with
      server.mFlush := flush
      cblk.mFront := newFront
      cblk.mFutex := t.cblk.mFutex ||| CBLK_FUTEX_WAKE
      server.mFlushed := t.server.mFlushed + ((newFront - front) &&& g.mask).toNat }

/-- The position a stop request limits the server to, `none` if it looks corrupt. -/
def stopLevel (stop rear front : BitVec 32) : Option (BitVec 32) :=
  let newRear := (rear &&& ~~~g.mask) ||| (stop &&& g.mask)
  let filled : Int := (newRear - front).toInt
  let wrapped := (g.overflowBit : Int) ≤ filled
  let newRear := if wrapped then newRear - BitVec.ofNat 32 g.overflowBit else newRear
  let filled := if wrapped then filled - g.overflowBit else filled
  if 0 ≤ filled ∧ filled ≤ g.mFrameCount then some newRear else none

def getRear : BitVec 32 :=
  let stop := t.cblk.mStop
  let rear := t.cblk.mRear
  if stop = t.server.mStopLast then rear
  else (stopLevel g stop rear t.cblk.mFront).getD rear

def start : Track α := { t with server.mStopLast := t.cblk.mStop }

/-- The `no_init:` label of `ServerProxy::obtainBuffer`. -/
def serverObtainFailed : Status × Buffer × Track α :=
  (.NO_INIT, .empty, { t with server.mUnreleased := 0 })

/-- `ServerProxy::obtainBuffer` of an output track. -/
def serverObtainBuffer (ask : Nat) (ackFlush : Bool) : Status × Buffer × Track α :=
  if t.server.mIsShutdown then t.serverObtainFailed
  else
    let t := t.flushBufferIfNeeded g
    let rear := t.getRear g
    let front := t.cblk.mFront
    let filled : Int := (rear - front).toInt
    -- pipe should not already be overfull
    if ¬(0 ≤ filled ∧ filled ≤ g.mFrameCount) then
      { t with server.mIsShutdown := true }.serverObtainFailed
    else
      let availToServer := filled.toNat
      let front := g.ringIndex front
      let part1 := min (min (g.mFrameCountP2 - front) availToServer) ask
      let t := { t with server.mAvailToClient := g.mFrameCount - filled.toNat }
      (if 0 < part1 then .NO_ERROR else .WOULD_BLOCK,
        ⟨part1, if 0 < part1 then some front else none, availToServer - part1⟩,
        if ackFlush then t else { t with server.mUnreleased := part1 })

/-- The space at which the server wakes the client. -/
def wakeMinimum : Nat :=
  let half := if g.mFrameCount / 2 = 0 then 1 else g.mFrameCount / 2
  let minimum := t.cblk.mMinimum.toNat
  if minimum = 0 then half else if half < minimum then half else minimum

def serverReleaseBuffer (stepCount : Nat) : Option (Track α) :=
  if stepCount = 0 ∨ t.server.mIsShutdown then some t
  else if ¬(stepCount ≤ t.server.mUnreleased ∧ t.server.mUnreleased ≤ g.mFrameCount) then none
  else some { t with
    server.mUnreleased := t.server.mUnreleased - stepCount
    server.mReleased := t.server.mReleased + stepCount
    cblk.mFront := BitVec.ofNat 32 stepCount + t.cblk.mFront
    cblk.mServer := t.cblk.mServer + BitVec.ofNat 32 stepCount
    cblk.mFutex :=
      if t.wakeMinimum g ≤ t.server.mAvailToClient + stepCount then
        t.cblk.mFutex ||| CBLK_FUTEX_WAKE
      else t.cblk.mFutex }

def framesReady : Nat × Track α :=
  if t.server.mIsShutdown then (0, t)
  else if t.cblk.mFlush ≠ t.server.mFlush then (g.mFrameCount, t)
  else
    let filled : Int := (t.getRear g - t.cblk.mFront).toInt
    if ¬(0 ≤ filled ∧ filled ≤ g.mFrameCount) then
      (0, { t with server.mIsShutdown := true })
    else (filled.toNat, t)

end Track

/-! ### The step system -/

/-- One atomic call of either proxy, or a store of the client into its obtained buffer. -/
inductive Call (α : Type*)
  | clientObtainBuffer (frameCount : Nat)
  | clientWrite (i : Nat) (frame : α)
  | clientReleaseBuffer (frameCount : Nat)
  | setBufferSizeInFrames (size : BitVec 32)
  | flush
  | stop
  | start
  | serverObtainBuffer (frameCount : Nat)
  | serverReleaseBuffer (frameCount : Nat)
  | framesReady
  | flushBufferIfNeeded

namespace Track

variable {α : Type*} (g : Geometry)

def step (t : Track α) : Call α → Option (Track α)
  | .clientObtainBuffer n => if n = 0 then none else some (t.clientObtainBuffer g n).2.2
  | .clientWrite i frame => some (t.clientWrite g i frame)
  | .clientReleaseBuffer n => t.clientReleaseBuffer g n
  | .setBufferSizeInFrames size => some (t.setBufferSizeInFrames g size.toNat)
  | .flush => some (t.sendStreamingFlushStop g true)
  | .stop => some (t.sendStreamingFlushStop g false)
  | .start => some t.start
  | .serverObtainBuffer n => if n = 0 then none else some (t.serverObtainBuffer g n false).2.2
  | .serverReleaseBuffer n => t.serverReleaseBuffer g n
  | .framesReady => some (t.framesReady g).2
  | .flushBufferIfNeeded => some (t.flushBufferIfNeeded g)

/-- What the proxies ask of their callers: a positive request, and never more frames
written or released than the last obtained buffer still holds. -/
def Permitted (t : Track α) : Call α → Prop
  | .clientObtainBuffer n => 0 < n
  | .clientWrite i _ => i < t.client.mUnreleased
  | .clientReleaseBuffer n => n ≤ t.client.mUnreleased
  | .serverObtainBuffer n => 0 < n
  | .serverReleaseBuffer n => n ≤ t.server.mUnreleased
  | _ => True

instance (t : Track α) : (c : Call α) → Decidable (t.Permitted c)
  | .clientObtainBuffer n => inferInstanceAs (Decidable (0 < n))
  | .clientWrite i _ => inferInstanceAs (Decidable (i < t.client.mUnreleased))
  | .clientReleaseBuffer n => inferInstanceAs (Decidable (n ≤ t.client.mUnreleased))
  | .serverObtainBuffer n => inferInstanceAs (Decidable (0 < n))
  | .serverReleaseBuffer n => inferInstanceAs (Decidable (n ≤ t.server.mUnreleased))
  | .setBufferSizeInFrames _ | .flush | .stop | .start | .framesReady
  | .flushBufferIfNeeded => inferInstanceAs (Decidable True)

/-- A fresh control block with newly constructed proxies over it. -/
def fresh (mBuffers : Nat → α) : Track α :=
  let t : Track α := ⟨{}, {}, {}, mBuffers⟩
  let t := { t with cblk.mBufferSizeInFrames := BitVec.ofNat 32 g.mFrameCount }
  t.setBufferSizeInFrames g g.mFrameCount

/-- The client and the server of a streaming track taking turns in any order. -/
def machine (mBuffers : Nat → α) : Machine (Track α) (Call α) := ⟨fresh g mBuffers, step g⟩

end Track

end MediaFramework.Audio
