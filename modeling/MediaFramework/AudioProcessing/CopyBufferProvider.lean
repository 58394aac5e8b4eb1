import MediaFramework.Lib.Buffer
import MediaFramework.Lib.Machine
import MediaFramework.Lib.Blocks
import Mathlib.Algebra.BigOperators.Group.List.Basic

/-!
# CopyBufferProvider

A provider that converts the frames of the one upstream. It takes a buffer from there, hands its
frames out through a local buffer, in parts where the local buffer or the request is smaller, and
gives the buffer back once all of it has been released downstream.
-/

namespace MediaFramework.AudioProcessing

variable {α β : Type*}

def OK : Int := 0

/-- The frames at the address of a buffer, and how many of them belong to it. -/
structure AudioBuffer (α : Type*) where
  raw : List α := []
  frameCount : Nat := 0

/-! ### Upstream -/

/-- The frames of a track, what each call for a number of frames is answered, and what has been
obtained and released so far. -/
structure TrackBufferProvider (α : Type*) where
  frames : Nat → α
  answer : Nat → Nat → Int × Nat
  position : Nat := 0
  calls : Nat := 0
  obtained : List Nat := []
  released : List Nat := []

namespace TrackBufferProvider

/-- At most the frames requested, and none where there is an error. -/
def getNextBuffer (t : TrackBufferProvider α) (frameCount : Nat) :
    Int × AudioBuffer α × TrackBufferProvider α :=
  let (res, available) := t.answer t.calls frameCount
  let n := if res = OK then min available frameCount else 0
  (res, { raw := Blocks.segment t.frames t.position n, frameCount := n },
    { t with calls := t.calls + 1, obtained := t.obtained ++ [n] })

/-- The frames are gone, and the buffer is empty. -/
def releaseBuffer (t : TrackBufferProvider α) (buffer : AudioBuffer α) :
    AudioBuffer α × TrackBufferProvider α :=
  ({}, { t with
    position := t.position + buffer.frameCount, released := t.released ++ [buffer.frameCount] })

end TrackBufferProvider

/-! ### The provider -/

structure CopyBufferProvider (α β : Type*) where
  mTrackBufferProvider : TrackBufferProvider α
  mBuffer : AudioBuffer α := {}
  mLocalBufferFrameCount : Nat
  mLocalBufferData : List β
  mConsumed : Nat := 0

/-- Undefined where frames outside of the source are read, or frames outside of the destination are
written. -/
def copyFrames (convert : α → β) (dst : List β) (src : List α) (first frames : Nat) :
    Option (List β) :=
  (Buffer.load src first frames).bind fun data => Buffer.store dst 0 (data.map convert)

namespace CopyBufferProvider

variable (convert : α → β)

/-- As many of the frames that are left as there is room for. -/
def copyNext (c : CopyBufferProvider α β) (frameCount : Nat) :
    Option (Int × AudioBuffer β × CopyBufferProvider α β) :=
  if c.mConsumed < c.mBuffer.frameCount then
    let count := min (min c.mLocalBufferFrameCount (c.mBuffer.frameCount - c.mConsumed)) frameCount
    (copyFrames convert c.mLocalBufferData c.mBuffer.raw c.mConsumed count).map fun data =>
      (OK, { raw := data, frameCount := count }, { c with mLocalBufferData := data })
  else none

/-- Undefined where an assertion fails. -/
def getNextBuffer (c : CopyBufferProvider α β) (frameCount : Nat) :
    Option (Int × AudioBuffer β × CopyBufferProvider α β) :=
  if c.mLocalBufferFrameCount = 0 then
    -- The conversion is done in place.
    let (res, buffer, t) := c.mTrackBufferProvider.getNextBuffer frameCount
    some (res, { raw := buffer.raw.map convert, frameCount := buffer.frameCount },
      { c with mTrackBufferProvider := t })
  else if c.mBuffer.frameCount = 0 then
    let (res, mBuffer, t) := c.mTrackBufferProvider.getNextBuffer frameCount
    let c := { c with mBuffer, mTrackBufferProvider := t }
    if ¬ (res = OK ∨ mBuffer.frameCount = 0) then none
    else if res ≠ OK ∨ mBuffer.frameCount = 0 then some (res, {}, c)
    else copyNext convert { c with mConsumed := 0 } frameCount
  else copyNext convert c frameCount

def releaseBuffer (c : CopyBufferProvider α β) (frameCount : Nat) : CopyBufferProvider α β :=
  if c.mLocalBufferFrameCount = 0 then
    { c with
      mTrackBufferProvider :=
        (c.mTrackBufferProvider.releaseBuffer { raw := [], frameCount : AudioBuffer α }).2 }
  else
    let c := { c with mConsumed := c.mConsumed + frameCount }
    if c.mConsumed ≠ 0 ∧ c.mBuffer.frameCount ≤ c.mConsumed then
      let (mBuffer, t) := c.mTrackBufferProvider.releaseBuffer c.mBuffer
      { c with mBuffer, mTrackBufferProvider := t }
    else c

end CopyBufferProvider

/-! ### Consumers -/

inductive Call
  | getNextBuffer (frameCount : Nat)
  | releaseBuffer (frameCount : Nat)

/-- A provider and its consumer: the frames that the consumer has got and not released, and those
that it has released. -/
structure Session (α β : Type*) where
  provider : CopyBufferProvider α β
  held : List β := []
  released : List β := []

namespace Session

/-- A consumer requests frames, and releases no more than it has got. -/
def Permitted (s : Session α β) : Call → Prop
  | .getNextBuffer frameCount => 0 < frameCount
  | .releaseBuffer frameCount => frameCount ≤ s.held.length

def step (convert : α → β) (s : Session α β) : Call → Option (Session α β)
  | .getNextBuffer frameCount =>
    (s.provider.getNextBuffer convert frameCount).map fun r =>
      { s with provider := r.2.2, held := r.2.1.raw.take r.2.1.frameCount }
  | .releaseBuffer frameCount =>
    some
      { provider := s.provider.releaseBuffer frameCount
        held := s.held.drop frameCount
        released := s.released ++ s.held.take frameCount }

/-- A session with a local buffer of these contents. -/
def machine (convert : α → β) (frames : Nat → α) (answer : Nat → Nat → Int × Nat)
    (localData : List β) : Machine (Session α β) Call where
  init := { provider :=
    { mTrackBufferProvider := { frames, answer }
      mLocalBufferFrameCount := localData.length
      mLocalBufferData := localData } }
  step := step convert

end Session

end MediaFramework.AudioProcessing
