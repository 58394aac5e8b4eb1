import MediaFramework.Lib.Machine
import MediaFramework.Audio.SingleStateQueue
import MediaFramework.Audio.StreamingTrack

/-!
# Static AudioTrack proxies

The client and server proxies of a static AudioTrack
(`media/libaudioclient/AudioTrackShared.cpp`). The `uint32_t` and `int32_t` fields of the
shared state are `BitVec 32`, `mFramesReady` is a `BitVec 64` read as signed, and
`size_t` is a `Nat` below `2^64`. Every proxy call is one atomic step.
-/

namespace MediaFramework.Audio

def CBLK_LOOP_CYCLE : BitVec 32 := 0x20
def CBLK_LOOP_FINAL : BitVec 32 := 0x40
def CBLK_BUFFER_END : BitVec 32 := 0x80

def MIN_LOOP : Nat := 16
def UINT32_MAX : Nat := 2^32 - 1
def INT32_MAX : Nat := 2^31 - 1
def SIZE_MAX : Nat := 2^64 - 1
def INT64_MAX : BitVec 64 := 0x7FFFFFFFFFFFFFFF

structure StaticAudioTrackState where
  mLoopStart : BitVec 32 := 0
  mLoopEnd : BitVec 32 := 0
  mLoopCount : BitVec 32 := 0
  mLoopSequence : BitVec 32 := 0
  mPosition : BitVec 32 := 0
  mPositionSequence : BitVec 32 := 0
  deriving DecidableEq, Repr

structure StaticAudioTrackPosLoop where
  mBufferPosition : BitVec 32 := 0
  mLoopCount : BitVec 32 := 0
  deriving DecidableEq, Repr

/-- `audio_track_cblk_t`, with the static member of its union. -/
structure StaticCblk where
  mServer : BitVec 32 := 0
  mFlags : BitVec 32 := 0
  mSingleStateQueue : SingleStateQueue.Shared StaticAudioTrackState := ⟨0, 0, {}⟩
  mPosLoopQueue : SingleStateQueue.Shared StaticAudioTrackPosLoop := ⟨0, 0, {}⟩

structure StaticClientProxy where
  mMutator : SingleStateQueue.Mutator := {}
  mPosLoopObserver : SingleStateQueue.Observer := {}
  mState : StaticAudioTrackState := {}
  mPosLoop : StaticAudioTrackPosLoop := {}

structure StaticServerProxy where
  mObserver : SingleStateQueue.Observer := {}
  mPosLoopMutator : SingleStateQueue.Mutator := {}
  mFramesReadySafe : Nat
  mFramesReady : BitVec 64
  mFramesReadyIsCalledByMultipleThreads : Bool := false
  mState : StaticAudioTrackState := {}
  mUnreleased : Nat := 0
  mReleased : Nat := 0
  mIsShutdown : Bool := false

structure StaticTrack where
  cblk : StaticCblk
  client : StaticClientProxy
  server : StaticServerProxy

/-- The next sequence value: one ahead of `self` or, if `self` is behind, of `other`. -/
def incrementSequence (self other : BitVec 32) : BitVec 32 :=
  let diff : Int := (self - other).toInt
  if 0 ≤ diff ∧ diff < INT32_MAX then self + 1 else other + 1

/-- `clampToSize` of an `int64_t`, with a 64-bit `size_t`. -/
def clampToSize (x : BitVec 64) : Nat := x.toInt.toNat

namespace StaticTrack

variable (mFrameCount : Nat) (t : StaticTrack)

/-! ### Client -/

def getBufferPositionAndLoopCount : StaticTrack :=
  if SingleStateQueue.ack t.client.mMutator t.cblk.mSingleStateQueue = .SSQ_DONE then
    match SingleStateQueue.poll t.client.mPosLoopObserver t.cblk.mPosLoopQueue with
    | some (posLoop, observer, shared) =>
      { t with
        client.mPosLoop := posLoop
        client.mPosLoopObserver := observer
        cblk.mPosLoopQueue := shared }
    | none => t
  else t

/-- `mMutator.push(mState)`. -/
def pushState : StaticTrack :=
  let (mutator, shared) := SingleStateQueue.push t.client.mMutator t.cblk.mSingleStateQueue t.client.mState
  { t with client.mMutator := mutator, cblk.mSingleStateQueue := shared }

def setLoop (loopStart loopEnd : Nat) (loopCount : BitVec 32) : StaticTrack :=
  if UINT32_MAX < loopStart ∨ UINT32_MAX < loopEnd then t
  else
    let s := t.client.mState
    let t := { t with client.mState := { s with
      mLoopStart := BitVec.ofNat 32 loopStart
      mLoopEnd := BitVec.ofNat 32 loopEnd
      mLoopCount := loopCount
      mLoopSequence := incrementSequence s.mLoopSequence s.mPositionSequence } }
    let t := t.getBufferPositionAndLoopCount
    let s := t.client.mState
    let position :=
      if s.mLoopCount ≠ 0 ∧ s.mLoopEnd.toNat ≤ t.client.mPosLoop.mBufferPosition.toNat then s.mLoopStart
      else t.client.mPosLoop.mBufferPosition
    { t with client.mPosLoop := ⟨position, s.mLoopCount⟩ }.pushState

def setBufferPosition (position : Nat) : StaticTrack :=
  if UINT32_MAX < position then t
  else
    let s := t.client.mState
    let t := { t with client.mState := { s with
      mPosition := BitVec.ofNat 32 position
      mPositionSequence := incrementSequence s.mPositionSequence s.mLoopSequence } }
    let t := if 0 < t.client.mState.mLoopCount.toInt then t.getBufferPositionAndLoopCount else t
    let loopCount :=
      if t.client.mState.mLoopEnd.toNat ≤ position then 0 else t.client.mPosLoop.mLoopCount
    { t with client.mPosLoop := ⟨BitVec.ofNat 32 position, loopCount⟩ }.pushState

def setBufferPositionAndLoop (position loopStart loopEnd : Nat) (loopCount : BitVec 32) :
    StaticTrack :=
  (t.setLoop loopStart loopEnd loopCount).setBufferPosition position

/-! ### Server -/

/-- The new local state, `none` for `NO_INIT`. -/
def updateStateWithLoop (localState update : StaticAudioTrackState) :
    Option StaticAudioTrackState :=
  if localState.mLoopSequence = update.mLoopSequence then some localState
  else
    let loopStart := update.mLoopStart.toNat
    let loopEnd := update.mLoopEnd.toNat
    let position := localState.mPosition.toNat
    let looping := loopStart < loopEnd ∧ loopEnd ≤ mFrameCount ∧ MIN_LOOP ≤ loopEnd - loopStart
    let valid := update.mLoopCount = 0 ∨ (-1 ≤ update.mLoopCount.toInt ∧ looping)
    -- a position beyond the loop wraps to the loop start
    let position :=
      if update.mLoopCount ≠ 0 ∧ valid ∧ loopEnd ≤ position then loopStart else position
    if ¬valid ∨ mFrameCount < position then none
    else some { localState with
      mPosition := BitVec.ofNat 32 position
      mLoopCount := update.mLoopCount
      mLoopEnd := update.mLoopEnd
      mLoopStart := update.mLoopStart
      mLoopSequence := update.mLoopSequence }

/-- The new local state, `none` for `NO_INIT`. -/
def updateStateWithPosition (localState update : StaticAudioTrackState) :
    Option StaticAudioTrackState :=
  if localState.mPositionSequence = update.mPositionSequence then some localState
  else if mFrameCount < update.mPosition.toNat then none
  else
    let beyond := localState.mLoopCount ≠ 0 ∧ localState.mLoopEnd.toNat ≤ update.mPosition.toNat
    some { localState with
      mLoopCount := if beyond then 0 else localState.mLoopCount
      mPosition := update.mPosition
      mPositionSequence := update.mPositionSequence }

/-- Both updates, in the order the sequence counters give. -/
def tryUpdate (localState update : StaticAudioTrackState) : Option StaticAudioTrackState :=
  if (update.mLoopSequence - update.mPositionSequence).toInt < 0 then
    (updateStateWithLoop mFrameCount localState update).bind
      (updateStateWithPosition mFrameCount · update)
  else
    (updateStateWithPosition mFrameCount localState update).bind
      (updateStateWithLoop mFrameCount · update)

/-- The frames left to play from a state, infinitely many as `INT64_MAX`. -/
def framesLeft (s : StaticAudioTrackState) (mFramesReady : BitVec 64) : BitVec 64 :=
  if s.mLoopCount.toInt = -1 then INT64_MAX
  else if s.mLoopCount = 0 then BitVec.ofNat 64 mFrameCount - s.mPosition.setWidth 64
  else if 0 < s.mLoopCount.toInt then
    s.mLoopCount.signExtend 64 * (s.mLoopEnd - s.mLoopStart).setWidth 64 +
      BitVec.ofNat 64 mFrameCount - s.mPosition.setWidth 64
  else mFramesReady

/-- `mPosLoopMutator.push(posLoop)`. -/
def pushPosLoop : StaticTrack :=
  let posLoop := ⟨t.server.mState.mPosition, t.server.mState.mLoopCount⟩
  let (mutator, shared) := SingleStateQueue.push t.server.mPosLoopMutator t.cblk.mPosLoopQueue posLoop
  { t with server.mPosLoopMutator := mutator, cblk.mPosLoopQueue := shared }

/-- The status and the track after polling for a state of the client. -/
def pollPosition : Status × StaticTrack :=
  match SingleStateQueue.poll t.server.mObserver t.cblk.mSingleStateQueue with
  | none => (.NO_ERROR, t)
  | some (state, observer, shared) =>
    let t := { t with server.mObserver := observer, cblk.mSingleStateQueue := shared }
    match tryUpdate mFrameCount t.server.mState state with
    | none =>
      (.NO_INIT, { t with
        cblk.mSingleStateQueue := SingleStateQueue.done t.cblk.mSingleStateQueue
        server.mIsShutdown := true })
    | some trystate =>
      let framesReady := framesLeft mFrameCount trystate t.server.mFramesReady
      let t := { t with
        server.mState := trystate
        server.mFramesReady := framesReady
        server.mFramesReadySafe := clampToSize framesReady }
      let t := t.pushPosLoop
      (.NO_ERROR, { t with
        cblk.mSingleStateQueue := SingleStateQueue.done t.cblk.mSingleStateQueue })

def framesReady : Nat × StaticTrack :=
  let t := if t.server.mFramesReadyIsCalledByMultipleThreads then t
    else (t.pollPosition mFrameCount).2
  (t.server.mFramesReadySafe, t)

/-- The position playback cannot pass without wrapping. -/
def playEnd (s : StaticAudioTrackState) : Nat :=
  if s.mLoopCount ≠ 0 then s.mLoopEnd.toNat else mFrameCount

/-- `StaticAudioTrackServerProxy::obtainBuffer`; `none` if its `LOG_ALWAYS_FATAL_IF` fires. -/
def obtainBuffer (wanted : Nat) (ackFlush : Bool) : Option (Status × Buffer × StaticTrack) :=
  if t.server.mIsShutdown then
    some (.NO_INIT, .empty, { t with server.mUnreleased := 0 })
  else
    match t.pollPosition mFrameCount with
    | (.NO_ERROR, t) =>
      let position := t.server.mState.mPosition.toNat
      let last := playEnd mFrameCount t.server.mState
      let avail := min (last - position) wanted
      let ready := t.server.mFramesReady
      if ready.toInt < (BitVec.ofNat 64 avail).toInt then none
      else
        let nonContig :=
          if ready = INT64_MAX then SIZE_MAX else clampToSize (ready - BitVec.ofNat 64 avail)
        some (.NO_ERROR, ⟨avail, if position < last then some position else none, nonContig⟩,
          if ackFlush then t else { t with server.mUnreleased := avail })
    | (status, t) => some (status, .empty, { t with server.mUnreleased := 0 })

/-- `StaticAudioTrackServerProxy::releaseBuffer`; `none` if a `LOG_ALWAYS_FATAL_IF` fires. -/
def releaseBuffer (stepCount : Nat) : Option StaticTrack :=
  if ¬(BitVec.ofNat 64 stepCount).toInt ≤ t.server.mFramesReady.toInt then none
  else if ¬stepCount ≤ t.server.mUnreleased then none
  else if stepCount = 0 then some t
  else
    let s := t.server.mState
    let position := s.mPosition.toNat
    let newPosition := (position + stepCount) % 2^64
    let inside := position ≤ newPosition ∧ newPosition ≤ mFrameCount
    let wraps := inside ∧ s.mLoopCount ≠ 0 ∧ newPosition = s.mLoopEnd.toNat
    let newPosition :=
      if ¬inside then mFrameCount else if wraps then s.mLoopStart.toNat else newPosition
    let loopCount :=
      if wraps ∧ s.mLoopCount.toInt ≠ -1 then s.mLoopCount - 1 else s.mLoopCount
    let setFlags :=
      if wraps then
        if s.mLoopCount.toInt = -1 ∨ loopCount ≠ 0 then CBLK_LOOP_CYCLE else CBLK_LOOP_FINAL
      else 0
    let setFlags := if newPosition = mFrameCount then setFlags ||| CBLK_BUFFER_END else setFlags
    let ready := t.server.mFramesReady
    let ready := if ready = INT64_MAX then ready else ready - BitVec.ofNat 64 stepCount
    let t := { t with
      server.mUnreleased := t.server.mUnreleased - stepCount
      server.mState := { s with
        mPosition := BitVec.ofNat 32 newPosition
        mLoopCount := loopCount }
      server.mFramesReady := ready
      server.mFramesReadySafe := clampToSize ready
      server.mReleased := t.server.mReleased + stepCount
      cblk.mServer := t.cblk.mServer + BitVec.ofNat 32 stepCount }
    let t := t.pushPosLoop
    some { t with cblk.mFlags := t.cblk.mFlags ||| setFlags }

/-! ### The step system -/

inductive Call
  | setLoop (loopStart loopEnd : Nat) (loopCount : BitVec 32)
  | setBufferPosition (position : Nat)
  | setBufferPositionAndLoop (position loopStart loopEnd : Nat) (loopCount : BitVec 32)
  | getBufferPositionAndLoopCount
  | framesReadyIsCalledByMultipleThreads
  | framesReady
  | obtainBuffer (frameCount : Nat) (ackFlush : Bool)
  | releaseBuffer (frameCount : Nat)

def step (t : StaticTrack) : Call → Option StaticTrack
  | .setLoop loopStart loopEnd loopCount => some (t.setLoop loopStart loopEnd loopCount)
  | .setBufferPosition position => some (t.setBufferPosition position)
  | .setBufferPositionAndLoop position loopStart loopEnd loopCount =>
    some (t.setBufferPositionAndLoop position loopStart loopEnd loopCount)
  | .getBufferPositionAndLoopCount => some t.getBufferPositionAndLoopCount
  | .framesReadyIsCalledByMultipleThreads =>
    some { t with server.mFramesReadyIsCalledByMultipleThreads := true }
  | .framesReady => some (t.framesReady mFrameCount).2
  | .obtainBuffer n ackFlush => (t.obtainBuffer mFrameCount n ackFlush).map (·.2.2)
  | .releaseBuffer n => t.releaseBuffer mFrameCount n

/-- Newly constructed proxies over a fresh control block. -/
def fresh : StaticTrack :=
  ⟨{}, {}, { mFramesReadySafe := mFrameCount, mFramesReady := BitVec.ofNat 64 mFrameCount }⟩

/-- Whether a buffer is out: obtained, with no other call of the server since. -/
def outstanding (_ : StaticTrack) (out : Bool) : Call → Bool
  | .obtainBuffer _ ackFlush => !ackFlush
  | .framesReady => false
  | _ => out

/-- The two proxies of a static track taking turns in any order. -/
def machine : Machine (StaticTrack × Bool) Call :=
  Machine.observe ⟨fresh mFrameCount, step mFrameCount⟩ false outstanding

/-- A release is of at most what is left of the outstanding buffer. -/
def Permitted (x : StaticTrack × Bool) : Call → Prop
  | .releaseBuffer n => x.2 = true ∧ n ≤ x.1.server.mUnreleased
  | _ => True

instance (x : StaticTrack × Bool) : (c : Call) → Decidable (Permitted x c)
  | .releaseBuffer _ => inferInstanceAs (Decidable (_ ∧ _))
  | .setLoop .. | .setBufferPosition _ | .setBufferPositionAndLoop ..
  | .getBufferPositionAndLoopCount | .framesReadyIsCalledByMultipleThreads | .framesReady
  | .obtainBuffer .. => inferInstanceAs (Decidable True)

end StaticTrack

end MediaFramework.Audio
