import MediaFramework.Lib.Ebml
import MediaFramework.Lib.Ring

/-!
# ID3v2 tags

`media/libstagefright/id3/ID3.cpp`, without version 1. Memory is a list of bytes; a byte that is not
there is 0 here, and no access is to one.
-/

namespace MediaFramework.Id3

open Ebml (bigEndian number)

abbrev Byte := BitVec 8

def kMaxMetadataSize : Nat := 3 * 1024 * 1024

/-- `size_t` has 64 bits. -/
def SIZE_MAX : Nat := 2 ^ 64 - 1

inductive Version
  | ID3_V2_2
  | ID3_V2_3
  | ID3_V2_4
  deriving DecidableEq

def U16_AT (mData : List Byte) (i : Nat) : BitVec 16 := BitVec.ofNat 16 (number (Ring.slice mData i 2))

def U32_AT (mData : List Byte) (i : Nat) : Nat := number (Ring.slice mData i 4)

def ParseSyncsafeInteger (encoded : List Byte) : Option Nat :=
  encoded.foldlM (fun (x : Nat) (byte : Byte) => if byte &&& 0x80 ≠ 0 then none else some (x <<< 7 ||| byte.toNat)) 0

/-- The bytes that `WriteSyncsafeInteger` stores. -/
def syncsafe (x : Nat) : List Byte :=
  [BitVec.ofNat 8 (x >>> 21 &&& 0x7F), BitVec.ofNat 8 (x >>> 14 &&& 0x7F),
    BitVec.ofNat 8 (x >>> 7 &&& 0x7F), BitVec.ofNat 8 (x &&& 0x7F)]

def memmove (mData : List Byte) (dst src n : Nat) : List Byte :=
  Ring.poke mData dst (Ring.slice mData src n)

/-! ### Unsynchronization -/

/-- The loop of `removeUnsynchronization`, which returns `mData` and `writeOffset`. -/
def removeUnsynchronizationFrom : Nat → Nat → Nat → List Byte → List Byte × Nat
  | 0, _, writeOffset, mData => (mData, writeOffset)
  | passes + 1, readOffset, writeOffset, mData =>
    if mData.getD (readOffset - 1) 0 = 0xFF ∧ mData.getD readOffset 0 = 0 then
      removeUnsynchronizationFrom passes (readOffset + 1) writeOffset mData
    else
      removeUnsynchronizationFrom passes (readOffset + 1) (writeOffset + 1)
        (mData.set writeOffset (mData.getD readOffset 0))

/-- Returns `mData` and `mSize`. -/
def removeUnsynchronization (mData : List Byte) (mSize : Nat) : List Byte × Nat :=
  let (mData, writeOffset) := removeUnsynchronizationFrom (mSize - 1) 1 1 mData
  (mData, if writeOffset < mSize then writeOffset else mSize)

/-- What the loop over the bytes of a frame changes. -/
structure FrameLoop where
  mData : List Byte
  mSize : Nat
  dataSize : Nat
  readOffset : Nat
  writeOffset : Nat

/-- The loop over the bytes of a frame. -/
def removeFrameUnsynchronizationFrom : Nat → Nat → FrameLoop → FrameLoop
  | 0, _, s => s
  | passes + 1, i, s =>
    if i + 1 < s.dataSize then
      let s :=
        if s.mData.getD (s.readOffset - 1) 0 = 0xFF ∧ s.mData.getD s.readOffset 0 = 0 then
          { s with
            readOffset := s.readOffset + 1
            mSize := s.mSize - 1
            dataSize := s.dataSize - 1 }
        else s
      let s :=
        if i + 1 < s.dataSize then
          { s with
            mData := s.mData.set s.writeOffset (s.mData.getD s.readOffset 0)
            writeOffset := s.writeOffset + 1
            readOffset := s.readOffset + 1 }
        else s
      removeFrameUnsynchronizationFrom passes (i + 1) s
    else s

/-- Returns `mData`, `mSize` and `dataSize`. -/
def removeFrameUnsynchronization (mData : List Byte) (mSize oldSize offset dataSize : Nat) :
    List Byte × Nat × Nat :=
  let s := removeFrameUnsynchronizationFrom dataSize 0
    { mData, mSize, dataSize, readOffset := offset + 11, writeOffset := offset + 11 }
  let mData :=
    if s.readOffset ≤ oldSize then memmove s.mData s.writeOffset s.readOffset (oldSize - s.readOffset)
    else s.mData
  (mData, s.mSize, s.dataSize)

/-- The data length indicator is stripped, if there is one. Returns `mData`, `mSize` and
`dataSize`. -/
def stripIndicator (flags : BitVec 16) (mData : List Byte) (mSize offset dataSize : Nat) :
    Option (List Byte × Nat × Nat) :=
  if flags &&& 1 ≠ 0 then
    if mSize < 14 ∨ mSize - 14 < offset ∨ dataSize < 4 then none
    else
      some (memmove mData (offset + 10) (offset + 14) (mSize - offset - 14), mSize - 4, dataSize - 4)
  else some (mData, mSize, dataSize)

/-- The data of a frame that is unsynchronised. Returns `mData`, `mSize` and `dataSize`. -/
def resynchronizeFrame (flags : BitVec 16) (mData : List Byte) (mSize oldSize offset dataSize : Nat) :
    List Byte × Nat × Nat :=
  if flags &&& 2 ≠ 0 ∧ dataSize ≥ 2 then
    removeFrameUnsynchronization mData mSize oldSize offset dataSize
  else (mData, mSize, dataSize)

/-- The new size and flags of a frame. -/
def storeHeader (iTunesHack : Bool) (prevFlags flags : BitVec 16) (mData : List Byte)
    (offset dataSize : Nat) : List Byte :=
  if flags ≠ prevFlags ∨ iTunesHack then
    Ring.poke (Ring.poke mData (offset + 4) (syncsafe dataSize)) (offset + 8)
      [(flags >>> 8).setWidth 8, flags.setWidth 8]
  else mData

def frameSize (iTunesHack : Bool) (mData : List Byte) (offset : Nat) : Option Nat :=
  if iTunesHack then some (U32_AT mData (offset + 4))
  else ParseSyncsafeInteger (Ring.slice mData (offset + 4) 4)

/-- One pass of the loop over the frames. Returns `mData`, `mSize` and `offset`. -/
def removeUnsynchronizationAt (iTunesHack : Bool) (oldSize : Nat) (mData : List Byte)
    (mSize offset : Nat) : Option (List Byte × Nat × Nat) :=
  match frameSize iTunesHack mData offset with
  | none => none
  | some dataSize =>
    if dataSize > mSize - 10 - offset then none
    else
      let prevFlags := U16_AT mData (offset + 8)
      match stripIndicator prevFlags mData mSize offset dataSize with
      | none => none
      | some (mData, mSize, dataSize) =>
        let flags := prevFlags &&& ~~~1
        let (mData, mSize, dataSize) := resynchronizeFrame flags mData mSize oldSize offset dataSize
        let flags := flags &&& ~~~2
        some (storeHeader iTunesHack prevFlags flags mData offset dataSize, mSize,
          offset + 10 + dataSize)

/-- The loop of `removeUnsynchronizationV2_4`, which returns `mData` and `mSize`. The offset grows in
each pass. -/
def removeUnsynchronizationV2_4From (iTunesHack : Bool) (oldSize : Nat) :
    Nat → List Byte → Nat → Nat → Option (List Byte × Nat)
  | 0, mData, mSize, _ => some (mData, mSize)
  | passes + 1, mData, mSize, offset =>
    if ¬(mSize ≥ 10 ∧ offset ≤ mSize - 10) then some (mData, mSize)
    else if Ring.slice mData offset 4 = [0, 0, 0, 0] then some (mData, mSize)
    else
      match removeUnsynchronizationAt iTunesHack oldSize mData mSize offset with
      | none => none
      | some (mData, mSize, offset) =>
        removeUnsynchronizationV2_4From iTunesHack oldSize passes mData mSize offset

def removeUnsynchronizationV2_4 (iTunesHack : Bool) (mData : List Byte) (mSize : Nat) :
    Option (List Byte × Nat) := do
  let oldSize := mSize
  let (mData, mSize) ← removeUnsynchronizationV2_4From iTunesHack oldSize (oldSize + 1) mData mSize 0
  return (Ring.poke mData mSize (List.replicate (oldSize - mSize) 0), mSize)

/-! ### Parsing -/

structure ID3 where
  mData : List Byte
  mSize : Nat
  mFirstFrameOffset : Nat
  mVersion : Version
  deriving DecidableEq

/-- Returns the offset of the first frame and `mSize`. -/
def parseExtendedHeaderV2_3 (mData : List Byte) (mSize : Nat) : Option (Nat × Nat) :=
  if mSize < 4 then none
  else
    let extendedHeaderSize := U32_AT mData 0
    if extendedHeaderSize > SIZE_MAX - 4 then none
    else
      let extendedHeaderSize := extendedHeaderSize + 4
      if extendedHeaderSize > mSize then none
      else if extendedHeaderSize ≥ 10 then
        let paddingSize := U32_AT mData 6
        if paddingSize > mSize - extendedHeaderSize then none
        else some (extendedHeaderSize, mSize - paddingSize)
      else some (extendedHeaderSize, mSize)

def parseExtendedHeaderV2_4 (mData : List Byte) (mSize : Nat) : Option Nat :=
  if mSize < 4 then none
  else do
    let ext_size ← ParseSyncsafeInteger (Ring.slice mData 0 4)
    if ext_size < 6 ∨ ext_size > mSize then none
    else some ext_size

/-- The version of a header whose flags are all known. -/
def headerVersion (version_major version_minor flags : Byte) : Option Version :=
  if version_major = 0xFF ∨ version_minor = 0xFF then none
  else if version_major = 2 then
    if flags &&& 0x3F ≠ 0 then none else if flags &&& 0x40 ≠ 0 then none else some .ID3_V2_2
  else if version_major = 3 then
    if flags &&& 0x1F ≠ 0 then none else some .ID3_V2_3
  else if version_major = 4 then
    if flags &&& 0x0F ≠ 0 then none else some .ID3_V2_4
  else none

/-- The tag without unsynchronization. -/
def resynchronize (mVersion : Version) (flags : Byte) (mData : List Byte) (mSize : Nat) :
    Option (List Byte × Nat) :=
  if mVersion = .ID3_V2_4 then
    (removeUnsynchronizationV2_4 false mData mSize).or (removeUnsynchronizationV2_4 true mData mSize)
  else if flags &&& 0x80 ≠ 0 then some (removeUnsynchronization mData mSize)
  else some (mData, mSize)

/-- Returns the offset of the first frame and `mSize`. -/
def parseExtendedHeader (mVersion : Version) (flags : Byte) (mData : List Byte) (mSize : Nat) :
    Option (Nat × Nat) :=
  if mVersion = .ID3_V2_3 ∧ flags &&& 0x40 ≠ 0 then parseExtendedHeaderV2_3 mData mSize
  else if mVersion = .ID3_V2_4 ∧ flags &&& 0x40 ≠ 0 then
    (parseExtendedHeaderV2_4 mData mSize).map (·, mSize)
  else some (0, mSize)

def readAt (source : List Byte) (offset size : Nat) : Option (List Byte) :=
  if (Ring.slice source offset size).length = size then some (Ring.slice source offset size) else none

def parseV2 (source : List Byte) (offset : Nat) : Option ID3 := do
  let header ← readAt source offset 10
  if header.take 3 ≠ [0x49, 0x44, 0x33] then none
  else
    let flags := header.getD 5 0
    let mVersion ← headerVersion (header.getD 3 0) (header.getD 4 0) flags
    let size ← ParseSyncsafeInteger (header.drop 6)
    if size > kMaxMetadataSize then none
    else
      let mData ← readAt source (offset + 10) size
      let (mData, mSize) ← resynchronize mVersion flags mData size
      let (mFirstFrameOffset, mSize) ← parseExtendedHeader mVersion flags mData mSize
      return { mData, mSize, mFirstFrameOffset, mVersion }

/-! ### Frames -/

structure Iterator where
  mOffset : Nat
  mFrameData : Option Nat
  mFrameSize : Nat
  deriving DecidableEq

/-- What stands at an offset: no frame, a frame that is not supported, or a frame. -/
inductive Found
  | nothing
  | unsupported (mFrameSize : Nat)
  | frame (mFrameSize : Nat)
  deriving DecidableEq

namespace ID3

variable (mParent : ID3)

def getHeaderLength : Nat := if mParent.mVersion = .ID3_V2_2 then 6 else 10

def idLength : Nat := if mParent.mVersion = .ID3_V2_2 then 3 else 4

def lookV2_2 (mOffset : Nat) : Found :=
  if mOffset + 6 > mParent.mSize then .nothing
  else if Ring.slice mParent.mData mOffset 3 = [0, 0, 0] then .nothing
  else
    let mFrameSize := number (Ring.slice mParent.mData (mOffset + 3) 3)
    if mFrameSize = 0 then .nothing
    else
      let mFrameSize := mFrameSize + 6
      if SIZE_MAX - mOffset ≤ mFrameSize then .nothing
      else if mOffset + mFrameSize > mParent.mSize then .nothing
      else .frame mFrameSize

def lookV2_3 (mOffset : Nat) : Found :=
  if mOffset + 10 > mParent.mSize then .nothing
  else if Ring.slice mParent.mData mOffset 4 = [0, 0, 0, 0] then .nothing
  else
    let baseSize :=
      if mParent.mVersion = .ID3_V2_4 then
        ParseSyncsafeInteger (Ring.slice mParent.mData (mOffset + 4) 4)
      else some (U32_AT mParent.mData (mOffset + 4))
    match baseSize with
    | none => .nothing
    | some baseSize =>
      if baseSize = 0 then .nothing
      else if SIZE_MAX - 10 ≤ baseSize then .nothing
      else
        let mFrameSize := 10 + baseSize
        if SIZE_MAX - mOffset ≤ mFrameSize then .nothing
        else if mOffset + mFrameSize > mParent.mSize then .nothing
        else
          let flags := U16_AT mParent.mData (mOffset + 8)
          if (mParent.mVersion = .ID3_V2_4 ∧ flags &&& 0x000C ≠ 0) ∨
              (mParent.mVersion = .ID3_V2_3 ∧ flags &&& 0x00C0 ≠ 0) then
            .unsupported mFrameSize
          else .frame mFrameSize

def look (mOffset : Nat) : Found :=
  if mParent.mVersion = .ID3_V2_2 then mParent.lookV2_2 mOffset else mParent.lookV2_3 mOffset

/-- The id of a frame is the one that is looked for, as a string that ends at a zero. -/
def matchesId (mID : Option (List Byte)) (mOffset : Nat) : Bool :=
  match mID with
  | none => true
  | some mID => (Ring.slice mParent.mData mOffset mParent.idLength).takeWhile (· ≠ 0) = mID

/-- The loop of `findFrame`. The offset grows in each pass. -/
def findFrameFrom (mID : Option (List Byte)) : Nat → Nat → Iterator
  | 0, mOffset => ⟨mOffset, none, 0⟩
  | passes + 1, mOffset =>
    match mParent.look mOffset with
    | .nothing => ⟨mOffset, none, 0⟩
    | .unsupported mFrameSize => findFrameFrom mID passes (mOffset + mFrameSize)
    | .frame mFrameSize =>
      if mParent.matchesId mID mOffset then
        ⟨mOffset, some (mOffset + mParent.getHeaderLength), mFrameSize⟩
      else findFrameFrom mID passes (mOffset + mFrameSize)

def findFrame (mID : Option (List Byte)) (mOffset : Nat) : Iterator :=
  mParent.findFrameFrom mID (mParent.mSize + 1) mOffset

def begin (mID : Option (List Byte)) : Iterator := mParent.findFrame mID mParent.mFirstFrameOffset

def next (mID : Option (List Byte)) (it : Iterator) : Iterator :=
  match it.mFrameData with
  | none => it
  | some _ => mParent.findFrame mID (it.mOffset + it.mFrameSize)

def getID (it : Iterator) : List Byte := Ring.slice mParent.mData it.mOffset mParent.idLength

def getData (it : Iterator) (mFrameData : Nat) : List Byte :=
  Ring.slice mParent.mData mFrameData (it.mFrameSize - mParent.getHeaderLength)

/-- The ids and the data of the frames from an iterator on, until it is done. -/
def framesFrom : Nat → Iterator → List (List Byte × List Byte)
  | 0, _ => []
  | calls + 1, it =>
    match it.mFrameData with
    | none => []
    | some mFrameData =>
      (mParent.getID it, mParent.getData it mFrameData) :: framesFrom calls (mParent.next none it)

def frames : List (List Byte × List Byte) := mParent.framesFrom (mParent.mSize + 1) (mParent.begin none)

end ID3

end MediaFramework.Id3
