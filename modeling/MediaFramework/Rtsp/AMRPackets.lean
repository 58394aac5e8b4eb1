import MediaFramework.Rtsp.AVCPackets
import MediaFramework.Rtsp.AVCReads

/-!
# AMR over RTP

`ARTPWriter::sendAMRData` (`media/libstagefright/rtsp/ARTPWriter.cpp`) and `AAMRAssembler`
(`media/libstagefright/rtsp/AAMRAssembler.cpp`), each with its own tables of frame sizes. A packet
has one byte for the mode request, the headers of its frames and then their contents. `none` is a
failed `CHECK` or a read outside the buffer.
-/

namespace MediaFramework.Rtsp

/-- The frame type in a frame header. -/
def frameType (toc : BitVec 8) : Nat := ((toc >>> 3) &&& 0x0f).toNat

/-- The bytes for a number of bits, with one more for the header. -/
def bytesForBits (bits : Nat) : Nat := (bits + 7) / 8 + 1

/-- `isWide` is the mode `AMR_WB`. -/
structure AMRWriter extends ARTPWriter where
  isWide : Bool
  mNumRTPSent : BitVec 32

namespace AMRWriter

def kFrameSizeNB : List Nat := [95, 103, 118, 134, 148, 159, 204, 244]

def kFrameSizeWB : List Nat := [132, 177, 253, 285, 317, 365, 397, 461, 477]

def getFrameSize (isWide : Bool) (FT : Nat) : Option Nat :=
  (if isWide then kFrameSizeWB else kFrameSizeNB)[FT]?.map bytesForBits

theorem getFrameSize_pos {isWide : Bool} {FT size : Nat} (h : getFrameSize isWide FT = some size) :
    0 < size := by
  obtain ⟨bits, -, rfl⟩ := Option.map_eq_some_iff.mp h
  exact Nat.succ_pos _

/-- The loop that goes from frame header to frame header, with the offset where it ends. -/
def tableOfContents (isWide : Bool) (mediaData : List (BitVec 8)) (srcOffset : Nat) :
    Option (List (BitVec 8) × Nat) :=
  if _h : srcOffset < mediaData.length then
    -- the types that fail the `CHECK` are those behind the end of the table
    match _hsize : getFrameSize isWide (frameType mediaData[srcOffset]) with
    | none => none
    | some size =>
      (tableOfContents isWide mediaData (srcOffset + size)).map fun (tocs, srcOffset') =>
        (mediaData[srcOffset] :: tocs, srcOffset')
  else some ([], srcOffset)
termination_by mediaData.length - srcOffset
decreasing_by
  have hpos := getFrameSize_pos _hsize
  omega

theorem tableOfContents_of_lt {isWide : Bool} {mediaData : List (BitVec 8)} {srcOffset : Nat}
    (h : srcOffset < mediaData.length) :
    tableOfContents isWide mediaData srcOffset =
      (getFrameSize isWide (frameType mediaData[srcOffset])).bind fun size =>
        (tableOfContents isWide mediaData (srcOffset + size)).map fun (tocs, srcOffset') =>
          (mediaData[srcOffset] :: tocs, srcOffset') := by
  rw [tableOfContents, dif_pos h]
  split
  next hnone => rw [hnone, Option.bind_none]
  next size hsize => rw [hsize, Option.bind_some]

/-- Every header but the last one says that another one follows. -/
def continued : List (BitVec 8) → List (BitVec 8)
  | [] => []
  | [toc] => [toc &&& ~~~0x80]
  | toc :: tocs => (toc ||| 0x80) :: continued tocs

/-- The contents of the frames. -/
def contents (isWide : Bool) (mediaData : List (BitVec 8)) :
    List (BitVec 8) → Nat → Option (List (BitVec 8))
  | [], _ => some []
  | toc :: tocs, srcOffset => do
    let frameSize ← getFrameSize isWide (frameType toc)
    let piece ← Buffer.load mediaData (srcOffset + 1) (frameSize - 1)
    let rest ← contents isWide mediaData tocs (srcOffset + frameSize)
    some (piece ++ rest)

def amrTime (w : AMRWriter) (timeUs : BitVec 64) : BitVec 32 :=
  w.mRTPTimeBase + (timeUs.sdiv (if w.isWide then 250 else 125)).setWidth 32

/-- The first packet of all has the M-bit. -/
def sendAMRData (w : AMRWriter) (mediaData : List (BitVec 8)) (timeUs : BitVec 64) :
    Option (AMRWriter × List (BitVec 8)) := do
  if kMaxPacketSize < 12 + 1 + mediaData.length then none
  else
    let (tocs, srcOffset) ← tableOfContents w.isWide mediaData 0
    if srcOffset ≠ mediaData.length then none
    else
      let data ← contents w.isWide mediaData tocs 0
      some ({ w with mSeqNo := w.mSeqNo + 1, mNumRTPSent := w.mNumRTPSent + 1 },
        w.header (w.amrTime timeUs) (w.mNumRTPSent = 0) ++ 0xf0 :: continued tocs ++ data)

end AMRWriter

structure AAMRAssembler where
  mIsWide : Bool
  mNextExpectedSeqNoValid : Bool := false
  mNextExpectedSeqNo : BitVec 32 := 0
  posted : List ABuffer := []
  deriving DecidableEq

namespace AAMRAssembler

def kFrameSizeNB : List Nat := [95, 103, 118, 134, 148, 159, 204, 244, 39]

def kFrameSizeWB : List Nat := [132, 177, 253, 285, 317, 365, 397, 461, 477, 40]

def getFrameSize (isWide : Bool) (FT : Nat) : Option Nat :=
  if FT = 15 then some 1
  else (if isWide then kFrameSizeWB else kFrameSizeNB)[FT]?.map bytesForBits

/-- The result of a loop over the packet. -/
inductive Parsed (α : Type)
  | malformed
  | parsed (value : α)
  deriving DecidableEq

/-- The frame headers from `offset` on, with the offset behind them. -/
def tableOfContents (isWide : Bool) (data : List (BitVec 8)) (offset : Nat) :
    Option (Parsed (List (BitVec 8) × Nat)) :=
  if _h : data.length ≤ offset then some .malformed
  else do
    let toc ← data[offset]?
    let FT := frameType toc
    if toc &&& 3 ≠ 0 ∨ (isWide ∧ 9 < FT ∧ FT ≠ 15) ∨ (¬isWide ∧ 8 < FT ∧ FT ≠ 15) then
      some .malformed
    else
      -- a type that is not in the table has been refused
      let _size ← getFrameSize isWide FT
      if toc &&& 0x80 = 0 then some (.parsed ([toc], offset + 1))
      else
        match ← tableOfContents isWide data (offset + 1) with
        | .malformed => some .malformed
        | .parsed (tocs, offset) => some (.parsed (toc :: tocs, offset))
termination_by data.length - offset

/-- The frames, each with its header in front. -/
def accessUnit (isWide : Bool) (data : List (BitVec 8)) :
    List (BitVec 8) → Nat → Option (Parsed (List (BitVec 8)))
  | [], _ => some (.parsed [])
  | toc :: tocs, offset => do
    let frameSize ← getFrameSize isWide (frameType toc)
    if data.length < offset + frameSize - 1 then some .malformed
    else
      let piece ← Buffer.load data offset (frameSize - 1)
      match ← accessUnit isWide data tocs (offset + frameSize - 1) with
      | .malformed => some .malformed
      | .parsed rest => some (.parsed (toc :: piece ++ rest))

/-- `addPacket` from the point where the head of the queue has the expected number. -/
def addBuffer (a : AAMRAssembler) (buffer : ABuffer) (rest : List ABuffer) :
    Option (AAMRAssembler × List ABuffer × AssemblyStatus) :=
  let a := { a with mNextExpectedSeqNo := a.mNextExpectedSeqNo + 1 }
  if buffer.data.length < 1 then some (a, rest, .MALFORMED_PACKET)
  else do
    match ← tableOfContents a.mIsWide buffer.data 1 with
    | .malformed => some (a, rest, .MALFORMED_PACKET)
    | .parsed (tocs, offset) =>
      match ← accessUnit a.mIsWide buffer.data tocs offset with
      | .malformed => some (a, rest, .MALFORMED_PACKET)
      | .parsed unit =>
        some ({ a with posted := a.posted ++ [{ buffer with data := unit }] }, rest, .OK)

def addPacket (a : AAMRAssembler) (queue : List ABuffer) :
    Option (AAMRAssembler × List ABuffer × AssemblyStatus) :=
  let queue :=
    if a.mNextExpectedSeqNoValid then
      queue.dropWhile fun b => b.seqNo.toNat < a.mNextExpectedSeqNo.toNat
    else queue
  match queue with
  | [] => some (a, [], .NOT_ENOUGH_DATA)
  | buffer :: rest =>
    if a.mNextExpectedSeqNoValid then
      if buffer.seqNo ≠ a.mNextExpectedSeqNo then
        some (a, buffer :: rest, .WRONG_SEQUENCE_NUMBER)
      else a.addBuffer buffer rest
    else
      { a with
        mNextExpectedSeqNoValid := true
        mNextExpectedSeqNo := buffer.seqNo }.addBuffer buffer rest

end AAMRAssembler

end MediaFramework.Rtsp
