import MediaFramework.Lib.Ring
import MediaFramework.Lib.Word

/-!
# Cutting the start and the end off a stream

`SkipCutBuffer` (`media/codec2/sfplugin/SkipCutBuffer.cpp`) with an `ABuffer`. A failed `CHECK` and
a copy from or to places outside of memory have no result. `junk` is what new memory holds.
-/

namespace MediaFramework.Codec2

open Word

def INT32_MAX : Nat := 2 ^ 31 - 1

def toSize (x : Int) : Nat := (BitVec.ofInt 64 x).toNat

/-- The range of a buffer lies within its memory. -/
structure ABuffer (α : Type*) where
  base : List α
  rangeOffset : Nat
  rangeLength : Nat
  inside : rangeOffset + rangeLength ≤ base.length
  deriving DecidableEq

namespace ABuffer

variable {α : Type*} (b : ABuffer α)

/-- The bytes from the start of the range on. -/
def data : List α := b.base.drop b.rangeOffset

def range : List α := b.data.take b.rangeLength

theorem length_range : b.range.length = b.rangeLength := by
  have hinside := b.inside
  rw [range, data, List.length_take, List.length_drop]
  omega

def setRange (offset size : Nat) : Option (ABuffer α) :=
  if h : offset ≤ b.base.length ∧ offset + size ≤ b.base.length then
    some ⟨b.base, offset, size, h.2⟩
  else none

theorem length_fill {n : Nat} {base bytes : List α} (hn : n ≤ base.length)
    (hfits : bytes.length ≤ base.length) :
    n ≤ (bytes ++ base.drop bytes.length).length := by
  rw [List.length_append, List.length_drop]
  omega

/-- Bytes that are copied to the start of the memory. -/
def fill (bytes : List α) : Option (ABuffer α) :=
  if h : bytes.length ≤ b.base.length then
    some ⟨bytes ++ b.base.drop bytes.length, b.rangeOffset, b.rangeLength, length_fill b.inside h⟩
  else none

/-- Bytes at the start of the memory, as the range. -/
def refill (bytes : List α) (copied : Nat) : Option (ABuffer α) :=
  match b.fill bytes with
  | none => none
  | some b => b.setRange 0 copied

theorem refill_eq {bytes : List α} (h : bytes.length ≤ b.base.length) :
    ∃ b', b.refill bytes bytes.length = some b' ∧ b'.base.length = b.base.length ∧
      b'.range = bytes := by
  have hlength : (bytes ++ b.base.drop bytes.length).length = b.base.length := by
    rw [List.length_append, List.length_drop]
    omega
  have hfits : 0 ≤ (bytes ++ b.base.drop bytes.length).length ∧
      0 + bytes.length ≤ (bytes ++ b.base.drop bytes.length).length := by
    rw [hlength]
    omega
  refine ⟨⟨bytes ++ b.base.drop bytes.length, 0, bytes.length, hfits.2⟩, ?_, hlength, ?_⟩
  · rw [refill, fill, dif_pos h]
    exact dif_pos hfits
  · exact List.take_left

end ABuffer

structure SkipCutBuffer (α : Type*) where
  mSkip : Int := 0
  mFrontPadding : Int := 0
  mBackPadding : Int := 0
  mWriteHead : Int := 0
  mReadHead : Int := 0
  mCapacity : Int := 0
  mCutBuffer : Option (List α) := none
  deriving DecidableEq

namespace SkipCutBuffer

variable {α : Type*} (junk : Nat → α)

def newMemory (size : Nat) : List α := (List.range size).map junk

theorem length_newMemory (size : Nat) : (newMemory junk size).length = size := by
  rw [newMemory, List.length_map, List.length_range]

/-- The constructor. Without a cut buffer, buffers are passed through. -/
def new (skip cut num16BitChannels : Nat) : SkipCutBuffer α :=
  if num16BitChannels = 0 ∨ num16BitChannels > INT32_MAX / 2 then {}
  else
    let frameSize := num16BitChannels * 2
    if skip > INT32_MAX / frameSize ∨ cut > INT32_MAX / frameSize ∨
        cut * frameSize > INT32_MAX - 4096 then {}
    else
      { mSkip := toInt32 (skip * frameSize : Nat)
        mFrontPadding := toInt32 (skip * frameSize : Nat)
        mBackPadding := toInt32 (cut * frameSize : Nat)
        mCapacity := toInt32 (cut * frameSize + 4096 : Nat)
        mCutBuffer := some (newMemory junk (cut * frameSize + 4096)) }

variable (s : SkipCutBuffer α)

/-- The bytes between the heads. -/
def sizeused : Int :=
  let sizeused := s.mWriteHead - s.mReadHead
  if sizeused < 0 then sizeused + s.mCapacity else sizeused

/-- A cut buffer with room for `num` bytes. The old one is copied to the start of a new one. -/
def grow (cutBuffer : List α) (num : Nat) : Option (SkipCutBuffer α × List α) :=
  let available := toSize (s.mCapacity - s.sizeused - 32)
  if available < num then
    let newcapacity := toInt32 (s.mCapacity + (num - available : Nat))
    if newcapacity < s.mCapacity then none
    else
      let newbuffer := Ring.poke (newMemory junk newcapacity.toNat) 0 cutBuffer
      some ({ s with mCapacity := newcapacity, mCutBuffer := some newbuffer }, newbuffer)
  else some (s, cutBuffer)

/-- The copies of `write`, up to the end of the cut buffer and at its start. -/
def put (cutBuffer : List α) (src : List α) (num : Nat) : Option (SkipCutBuffer α) :=
  let copyfirst := min (toSize (s.mCapacity - s.mWriteHead)) num
  if copyfirst = 0 then some s
  else
    let first := Ring.poke cutBuffer s.mWriteHead.toNat (src.take copyfirst)
    let writeHead := s.mWriteHead + copyfirst
    if writeHead > s.mCapacity ∨ num > src.length ∨ num - copyfirst > cutBuffer.length then none
    else
      let writeHead := if writeHead = s.mCapacity then 0 else writeHead
      some
        { s with
          mWriteHead := writeHead + (num - copyfirst : Nat)
          mCutBuffer := some (Ring.poke first 0 ((src.drop copyfirst).take (num - copyfirst))) }

def write (src : List α) (num : Nat) : Option (SkipCutBuffer α) :=
  match s.mCutBuffer with
  | none => none
  | some cutBuffer =>
    match s.grow junk cutBuffer num with
    | none => none
    | some (s, cutBuffer) => s.put cutBuffer src num

/-- The bytes that are copied to `dst`, and the result. -/
def read (num : Nat) : Option (SkipCutBuffer α × List α × Nat) :=
  match s.mCutBuffer with
  | none => none
  | some cutBuffer =>
    let available := s.sizeused - s.mBackPadding
    if available ≤ 0 then some (s, [], 0)
    else
      let num := if available < toInt32 num then available.toNat else num
      let copyfirst := min (toSize (s.mCapacity - s.mReadHead)) num
      if copyfirst = 0 then some (s, [], available.toNat)
      else
        let readHead := s.mReadHead + copyfirst
        if readHead > s.mCapacity ∨ num - copyfirst > cutBuffer.length then none
        else
          let readHead := if readHead = s.mCapacity then 0 else readHead
          some
            ({ s with mReadHead := readHead + (num - copyfirst : Nat) },
              Ring.slice cutBuffer s.mReadHead.toNat copyfirst ++
                Ring.slice cutBuffer 0 (num - copyfirst), available.toNat)

/-- The start of `submitInternal`, where bytes are left that are to be dropped. -/
def dropFront (buffer : ABuffer α) : Option (SkipCutBuffer α × ABuffer α × Int) :=
  let offset := toInt32 buffer.rangeOffset
  let buflen := toInt32 buffer.rangeLength
  if s.mFrontPadding > 0 then
    let to_drop := if buflen < s.mFrontPadding then buflen else s.mFrontPadding
    match buffer.setRange (toSize (offset + to_drop)) (toSize (buflen - to_drop)) with
    | none => none
    | some buffer =>
      some ({ s with mFrontPadding := s.mFrontPadding - to_drop }, buffer, buflen - to_drop)
  else some (s, buffer, buflen)

/-- `submitInternal` for an `ABuffer`. -/
def submit (buffer : ABuffer α) : Option (SkipCutBuffer α × ABuffer α) :=
  match s.mCutBuffer with
  | none => some (s, buffer)
  | some _ =>
    match s.dropFront buffer with
    | none => none
    | some (s, buffer, buflen) =>
      match s.write junk buffer.data (toSize buflen) with
      | none => none
      | some s =>
        match s.read buffer.base.length with
        | none => none
        | some (s, bytes, copied) =>
          match buffer.refill bytes copied with
          | none => none
          | some buffer => some (s, buffer)

end SkipCutBuffer

end MediaFramework.Codec2
