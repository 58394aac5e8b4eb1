import MediaFramework.Codec2.ReorderOrder
import MediaFramework.Lib.Machine

/-!
# Output side of the Codec2 buffer channel

`handleWork`, `sendOutputBuffers` and `flush` of `CCodecBufferChannel`
(`media/codec2/sfplugin/CCodecBufferChannel.cpp`), as far as they decide which output buffers go
to the client and in what order. Whether `registerBuffer` finds a slot for a buffer is up to the
client: `register n` is the outcome of the `n`-th attempt of a call.
-/

namespace MediaFramework.Codec2

variable {β : Type*}

/-- The updates that concern the stash. A parameter that could not be read is `other`. -/
inductive C2Param
  | reorderDepth (value : Nat)
  | reorderKey (value : OrdinalKey)
  | other
  deriving DecidableEq

/-- A worklet with the output it reports. `syncFrame` says that the buffer is marked as a sync
frame. -/
structure C2Worklet (β : Type*) where
  buffers : List (Option β)
  configUpdate : List C2Param := []
  endOfStream : Bool := false
  ordinal : C2WorkOrdinalStruct
  syncFrame : Bool := false

inductive C2Status
  | C2_OK
  | C2_NOT_FOUND
  | failed
  deriving DecidableEq

structure C2Work (β : Type*) where
  input : C2WorkOrdinalStruct
  result : C2Status := .C2_OK
  worklets : List (C2Worklet β)

/-- `mInputSurface` tells whether there is one. -/
structure CCodecBufferChannel (β : Type*) where
  mReorderStash : ReorderStash β
  mFirstValidFrameIndex : BitVec 64 := 0
  mInputSurface : Bool := false

/-- The update loop of `handleWork`, over the updates from the last to the first. -/
def configure (reorder : ReorderStash β) : List C2Param → ReorderStash β
  | [] => reorder
  | .reorderDepth value :: params => configure (reorder.setDepth value) params
  | .reorderKey value :: params => configure (reorder.setKey value) params
  | .other :: params => configure reorder params

/-- The loop of `sendOutputBuffers`, with the entries handed to the client. An entry that finds
no slot is deferred. -/
def sendOutputBuffers (register : Nat → Bool) (reorder : ReorderStash β) (n : Nat) :
    ReorderStash β × List (Entry β) :=
  match _h : reorder.mPending with
  | [] => (reorder, [])
  | entry :: pending =>
    let popped := { reorder with mPending := pending }
    if register n then
      let (reorder, sent) := sendOutputBuffers register popped (n + 1)
      (reorder, entry :: sent)
    else (popped.defer entry, [])
termination_by reorder.mPending.length
decreasing_by
  rw [_h]
  exact Nat.lt_succ_self _

namespace CCodecBufferChannel

/-- The checks at the head of `handleWork`: frames of an earlier generation, flushed and failed
work, and more than one worklet or output buffer are not handled. -/
def worklet (c : CCodecBufferChannel β) (work : C2Work β) : Option (C2Worklet β) :=
  if (work.input.frameIndex - c.mFirstValidFrameIndex).toInt < 0 then none
  else if work.result ≠ .C2_OK then none
  else
    match work.worklets with
    | [w] => if 1 < w.buffers.length then none else some w
    | _ => none

/-- What `handleWork` emplaces, if anything. `initData` are codec specific data, with the outcome
of their registration. -/
def output (c : CCodecBufferChannel β) (work : C2Work β) (w : C2Worklet β)
    (initData : Option Bool) : Option (Entry β) :=
  let buffer := w.buffers.head?.join
  let flags : BitVec 32 := if w.endOfStream then BUFFER_FLAG_EOS else 0
  let timestamp :=
    if c.mInputSurface then work.input.customOrdinal
    else w.ordinal.timestamp + work.input.customOrdinal - work.input.timestamp
  if initData = some false then none
  else if buffer.isNone ∧ flags = 0 then none
  else
    let flags := if buffer.isSome ∧ w.syncFrame then flags ||| BUFFER_FLAG_SYNCFRAME else flags
    some ⟨buffer, timestamp, flags, w.ordinal⟩

/-- The end of stream empties the stash through its depth. -/
def handleWork (c : CCodecBufferChannel β) (work : C2Work β) (initData : Option Bool)
    (register : Nat → Bool) : CCodecBufferChannel β × List (Entry β) :=
  match c.worklet work with
  | none => (c, [])
  | some w =>
    let reorder := configure c.mReorderStash w.configUpdate.reverse
    match c.output work w initData with
    | none => ({ c with mReorderStash := reorder }, [])
    | some e =>
      let reorder := reorder.emplace e
      let reorder := if e.isEos then reorder.setDepth 0 else reorder
      let (reorder, sent) := Codec2.sendOutputBuffers register reorder 0
      ({ c with mReorderStash := reorder }, sent)

def flush (c : CCodecBufferChannel β) : CCodecBufferChannel β :=
  { c with mReorderStash := c.mReorderStash.flush }

end CCodecBufferChannel

/-! ### Playback -/

/-- A channel with what the component has put out and what `sendOutputBuffers` has delivered
since the last flush. -/
structure Playback (β : Type*) where
  channel : CCodecBufferChannel β
  outputs : List (Entry β) := []
  delivered : List (Entry β) := []

namespace Playback

/-- The client gives buffers back, and then what is pending is sent. -/
inductive Call (β : Type*)
  | handleWork (work : C2Work β) (initData : Option Bool) (register : Nat → Bool)
  | sendOutputBuffers (register : Nat → Bool)
  | flush

/-- The output of a call. -/
def outputOf (p : Playback β) (work : C2Work β) (initData : Option Bool) : Option (Entry β) :=
  (p.channel.worklet work).bind fun w => p.channel.output work w initData

def step (p : Playback β) : Call β → Playback β
  | .handleWork work initData register =>
    let (channel, sent) := p.channel.handleWork work initData register
    { channel := channel
      outputs := p.outputs ++ (p.outputOf work initData).toList
      delivered := p.delivered ++ sent }
  | .sendOutputBuffers register =>
    let (reorder, sent) := Codec2.sendOutputBuffers register p.channel.mReorderStash 0
    { p with
      channel := { p.channel with mReorderStash := reorder }
      delivered := p.delivered ++ sent }
  | .flush => { channel := p.channel.flush }

/-- A channel that was started with the depth and key of the component. -/
def machine (D : Nat) (key : OrdinalKey) : Machine (Playback β) (Call β) where
  init := { channel := { mReorderStash := { mDepth := D, mKey := key } } }
  step p call := some (p.step call)

end Playback

end MediaFramework.Codec2
