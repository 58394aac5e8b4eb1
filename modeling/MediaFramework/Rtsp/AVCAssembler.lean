import Mathlib.Data.List.Basic
import Mathlib.Algebra.Ring.Nat

/-!
# Reassembling access units

`AAVCAssembler` (`media/libstagefright/rtsp/AAVCAssembler.cpp`) with the loop of `ARTPAssembler`
and the packet queue of `ARTPSource`. A packet comes without its RTP header, with its extended
sequence number and its RTP time.
-/

namespace MediaFramework.Rtsp

/-!
### Sending NAL units over RTP

`ARTPWriter::sendAVCData` (`media/libstagefright/rtsp/ARTPWriter.cpp`): a NAL unit goes out in a
single packet if it fits, and else in fragments (FU-A). The counters for sender reports are left
out.
-/

def kMaxPacketSize : Nat := 1500

/-- The payload type. -/
def PT : BitVec 8 := 97

structure ARTPWriter where
  mSeqNo : BitVec 32
  mRTPTimeBase : BitVec 32
  mSourceID : BitVec 32

namespace ARTPWriter

/-- Byte `n` of a 32-bit word, counted from the lowest. -/
def byte (x : BitVec 32) (n : Nat) : BitVec 8 := (x >>> (8 * n)).setWidth 8

/-- The RTP header, with the M-bit on the last packet of a NAL unit. -/
def header (w : ARTPWriter) (rtpTime : BitVec 32) (lastPacket : Bool) : List (BitVec 8) :=
  [0x80, (if lastPacket then 0x80 else 0x00) ||| PT, byte w.mSeqNo 1, byte w.mSeqNo 0,
    byte rtpTime 3, byte rtpTime 2, byte rtpTime 1, byte rtpTime 0,
    byte w.mSourceID 3, byte w.mSourceID 2, byte w.mSourceID 1, byte w.mSourceID 0]

/-- Time in units of 1/90000 s. -/
def rtpTime (w : ARTPWriter) (timeUs : BitVec 64) : BitVec 32 :=
  w.mRTPTimeBase + ((timeUs * 9).sdiv 100).setWidth 32

/-- `lastPacket`, with `remaining` bytes to send. -/
def isLast (remaining : Nat) : Bool := remaining + 12 + 2 ≤ kMaxPacketSize

def fragmentSize (remaining : Nat) : Nat :=
  if isLast remaining then remaining else kMaxPacketSize - 12 - 2

theorem fragmentSize_pos {remaining : Nat} (h : 0 < remaining) : 0 < fragmentSize remaining := by
  rw [fragmentSize]
  split
  · exact h
  · decide

/-- The FU indicator and the FU header. -/
def fuHeader (nalType : BitVec 8) (firstPacket lastPacket : Bool) : List (BitVec 8) :=
  [28 ||| (nalType &&& 0xe0),
    (if firstPacket then 0x80 else 0x00) ||| (if lastPacket then 0x40 else 0x00) |||
      (nalType &&& 0x1f)]

/-- The loop over the data that is not sent yet. A fragment that is both first and last fails a
`CHECK`. -/
def sendFragments (w : ARTPWriter) (rtpTime : BitVec 32) (nalType : BitVec 8)
    (data : List (BitVec 8)) (firstPacket : Bool) : Option (ARTPWriter × List (List (BitVec 8))) :=
  if _h : data = [] then some (w, [])
  else if firstPacket ∧ isLast data.length then none
  else
    let packet := w.header rtpTime (isLast data.length) ++
      fuHeader nalType firstPacket (isLast data.length) ++ data.take (fragmentSize data.length)
    (sendFragments { w with mSeqNo := w.mSeqNo + 1 } rtpTime nalType
      (data.drop (fragmentSize data.length)) false).map fun (w, packets) => (w, packet :: packets)
termination_by data.length
decreasing_by
  have hpos := List.length_pos_iff.mpr _h
  have hsize := fragmentSize_pos hpos
  rw [List.length_drop]
  omega

def sendAVCData (w : ARTPWriter) (mediaData : List (BitVec 8)) (timeUs : BitVec 64) :
    Option (ARTPWriter × List (List (BitVec 8))) :=
  let rtpTime := w.rtpTime timeUs
  if mediaData.length + 12 ≤ kMaxPacketSize then
    some ({ w with mSeqNo := w.mSeqNo + 1 }, [w.header rtpTime true ++ mediaData])
  else w.sendFragments rtpTime (mediaData.getD 0 0) (mediaData.drop 1) true

/-- The packets for a list of NAL units with their times. -/
def sendAll (w : ARTPWriter) : List (List (BitVec 8) × BitVec 64) →
    Option (ARTPWriter × List (List (BitVec 8)))
  | [] => some (w, [])
  | (nal, timeUs) :: nals => do
    let (w, packets) ← w.sendAVCData nal timeUs
    let (w, rest) ← w.sendAll nals
    some (w, packets ++ rest)

end ARTPWriter

/-! ### Receiving -/

/-- `int32Data` of a buffer is its sequence number. -/
structure ABuffer where
  seqNo : BitVec 32
  rtpTime : BitVec 32
  data : List (BitVec 8)
  deriving DecidableEq

inductive AssemblyStatus
  | MALFORMED_PACKET
  | WRONG_SEQUENCE_NUMBER
  | NOT_ENOUGH_DATA
  | OK
  deriving DecidableEq

structure AccessUnit where
  buffer : ABuffer
  damaged : Bool
  deriving DecidableEq

/-- `mFirstFailure` tells whether `mFirstFailureTimeUs` is set. `posted` are the access units that
were handed on. -/
structure AAVCAssembler where
  mFirstFailure : Bool := false
  mAccessUnitRTPTime : BitVec 32 := 0
  mNextExpectedSeqNoValid : Bool := false
  mNextExpectedSeqNo : BitVec 32 := 0
  mAccessUnitDamaged : Bool := false
  mNALUnits : List ABuffer := []
  posted : List AccessUnit := []
  deriving DecidableEq

/-- `queuePacket`, for a packet whose number is extended already. -/
def queuePacket (queue : List ABuffer) (buffer : ABuffer) : List ABuffer × Bool :=
  match queue with
  | [] => ([buffer], true)
  | b :: rest =>
    if b.seqNo.toNat < buffer.seqNo.toNat then
      let (rest, queued) := queuePacket rest buffer
      (b :: rest, queued)
    else if b.seqNo = buffer.seqNo then (b :: rest, false)
    else (buffer :: b :: rest, true)

namespace AAVCAssembler

/-- Every NAL unit goes behind a start code. The times are those of the first one. -/
def accessUnit (first : ABuffer) (units : List ABuffer) : ABuffer :=
  { first with data := units.flatMap fun nal => [0, 0, 0, 1] ++ nal.data }

def submitAccessUnit (a : AAVCAssembler) : AAVCAssembler :=
  match a.mNALUnits with
  | [] => a
  | first :: _ =>
    { a with
      posted := a.posted ++ [⟨accessUnit first a.mNALUnits, a.mAccessUnitDamaged⟩]
      mNALUnits := []
      mAccessUnitDamaged := false }

def addSingleNALUnit (a : AAVCAssembler) (buffer : ABuffer) : AAVCAssembler :=
  let a :=
    if a.mNALUnits ≠ [] ∧ buffer.rtpTime ≠ a.mAccessUnitRTPTime then a.submitAccessUnit else a
  { a with mAccessUnitRTPTime := buffer.rtpTime, mNALUnits := a.mNALUnits ++ [buffer] }

/-- The loop of `addSingleTimeAggregationPacket`, over units with their sizes in front. -/
def addAggregated (a : AAVCAssembler) (buffer : ABuffer) (data : List (BitVec 8)) :
    AAVCAssembler × Bool :=
  if _h : data.length < 2 then (a, true)
  else
    let nalSize := (data.getD 0 0).toNat * 256 + (data.getD 1 0).toNat
    if data.length < nalSize + 2 then (a, false)
    else
      (a.addSingleNALUnit { buffer with data := (data.drop 2).take nalSize }).addAggregated buffer
        (data.drop (2 + nalSize))
termination_by data.length
decreasing_by
  rw [List.length_drop]
  omega

def addSingleTimeAggregationPacket (a : AAVCAssembler) (buffer : ABuffer) : AAVCAssembler × Bool :=
  if buffer.data.length < 3 then (a, false)
  else a.addAggregated buffer (buffer.data.drop 1)

/-- What the loop over the fragments behind the first one finds. `complete` gives the number of
fragments and the number of the packet after them. -/
inductive Fragments
  | incomplete
  | wrongSequence
  | malformed (totalCount : Nat) (expectedSeqNo : BitVec 32)
  | complete (totalCount : Nat) (expectedSeqNo : BitVec 32)

def scanFragments (indicator nalType : BitVec 8) :
    List ABuffer → Nat → BitVec 32 → Fragments
  | [], _, _ => .incomplete
  | b :: queue, totalCount, expectedSeqNo =>
    if b.seqNo ≠ expectedSeqNo then .wrongSequence
    else if b.data.length < 2 ∨ b.data.getD 0 0 ≠ indicator ∨
        b.data.getD 1 0 &&& 0x1f ≠ nalType ∨ b.data.getD 1 0 &&& 0x80 ≠ 0 then
      .malformed totalCount expectedSeqNo
    else if b.data.getD 1 0 &&& 0x40 ≠ 0 then .complete (totalCount + 1) (expectedSeqNo + 1)
    else scanFragments indicator nalType queue (totalCount + 1) (expectedSeqNo + 1)

/-- `addFragmentedNALUnit`, with `buffer` at the head of the queue. -/
def addFragmentedNALUnit (a : AAVCAssembler) (buffer : ABuffer) (rest : List ABuffer) :
    AAVCAssembler × List ABuffer × AssemblyStatus :=
  let indicator := buffer.data.getD 0 0
  let fuHeader := buffer.data.getD 1 0
  let skipped := { a with mNextExpectedSeqNo := a.mNextExpectedSeqNo + 1 }
  if buffer.data.length < 2 then (skipped, rest, .MALFORMED_PACKET)
  else if fuHeader &&& 0x80 = 0 then (skipped, rest, .MALFORMED_PACKET)
  else
    let nalType := fuHeader &&& 0x1f
    let nri := (indicator >>> 5) &&& 3
    let fragments :=
      if fuHeader &&& 0x40 ≠ 0 then Fragments.complete 1 (buffer.seqNo + 1)
      else scanFragments indicator nalType rest 1 (buffer.seqNo + 1)
    let queue := buffer :: rest
    match fragments with
    | .incomplete => (a, queue, .NOT_ENOUGH_DATA)
    | .wrongSequence => (a, queue, .WRONG_SEQUENCE_NUMBER)
    | .malformed totalCount expectedSeqNo =>
      ({ a with mNextExpectedSeqNo := expectedSeqNo + 1 }, queue.drop (totalCount + 1),
        .MALFORMED_PACKET)
    | .complete totalCount expectedSeqNo =>
      let unit := { buffer with
        data := ((nri <<< 5) ||| nalType) :: (queue.take totalCount).flatMap fun b => b.data.drop 2 }
      (({ a with mNextExpectedSeqNo := expectedSeqNo }).addSingleNALUnit unit,
        queue.drop totalCount, .OK)

/-- `addNALUnit` from the point where the head of the queue has the expected number. -/
def addBuffer (a : AAVCAssembler) (buffer : ABuffer) (rest : List ABuffer) :
    AAVCAssembler × List ABuffer × AssemblyStatus :=
  let advance (a : AAVCAssembler) := { a with mNextExpectedSeqNo := a.mNextExpectedSeqNo + 1 }
  if buffer.data.length < 1 ∨ buffer.data.getD 0 0 &&& 0x80 ≠ 0 then
    (advance a, rest, .MALFORMED_PACKET)
  else
    let nalType := (buffer.data.getD 0 0 &&& 0x1f).toNat
    if 1 ≤ nalType ∧ nalType ≤ 23 then (advance (a.addSingleNALUnit buffer), rest, .OK)
    else if nalType = 28 then a.addFragmentedNALUnit buffer rest
    else if nalType = 24 then
      let (a, success) := a.addSingleTimeAggregationPacket buffer
      (advance a, rest, if success then .OK else .MALFORMED_PACKET)
    else if nalType = 0 then (advance a, rest, .OK)
    else (advance a, rest, .MALFORMED_PACKET)

def addNALUnit (a : AAVCAssembler) (queue : List ABuffer) :
    AAVCAssembler × List ABuffer × AssemblyStatus :=
  let queue :=
    if a.mNextExpectedSeqNoValid then
      queue.dropWhile fun b => b.seqNo.toNat < a.mNextExpectedSeqNo.toNat
    else queue
  match queue with
  | [] => (a, [], .NOT_ENOUGH_DATA)
  | buffer :: rest =>
    if a.mNextExpectedSeqNoValid then
      if buffer.seqNo ≠ a.mNextExpectedSeqNo then (a, buffer :: rest, .WRONG_SEQUENCE_NUMBER)
      else a.addBuffer buffer rest
    else
      ({ a with
        mNextExpectedSeqNoValid := true
        mNextExpectedSeqNo := buffer.seqNo }).addBuffer buffer rest

def assembleMore (a : AAVCAssembler) (queue : List ABuffer) :
    AAVCAssembler × List ABuffer × AssemblyStatus :=
  let (a, queue, status) := a.addNALUnit queue
  if status = .MALFORMED_PACKET then ({ a with mAccessUnitDamaged := true }, queue, status)
  else (a, queue, status)

def packetLost (a : AAVCAssembler) : AAVCAssembler :=
  { a with mNextExpectedSeqNo := a.mNextExpectedSeqNo + 1, mAccessUnitDamaged := true }

/-! The loop of `onPacketReceived` ends because every unit and every malformed packet takes
buffers off the queue, and the timer is set anew after it has run out. -/

@[simp]
theorem addSingleNALUnit_firstFailure (a : AAVCAssembler) (buffer : ABuffer) :
    (a.addSingleNALUnit buffer).mFirstFailure = a.mFirstFailure := by
  rw [addSingleNALUnit]
  split
  · rw [submitAccessUnit]
    split <;> rfl
  · rfl

theorem addAggregated_firstFailure (a : AAVCAssembler) (buffer : ABuffer) (data : List (BitVec 8)) :
    (a.addAggregated buffer data).1.mFirstFailure = a.mFirstFailure := by
  induction a, data using addAggregated.induct buffer with
  | case1 a data h => rw [addAggregated, dif_pos h]
  | case2 a data h nalSize hshort => rw [addAggregated, dif_neg h, if_pos hshort]
  | case3 a data h nalSize hlong ih =>
    rw [addAggregated, dif_neg h, if_neg hlong, ih, addSingleNALUnit_firstFailure]

/-- A unit or a malformed packet takes something off the queue. The timer stays as it is. -/
def Consumes (a : AAVCAssembler) (queue : List ABuffer)
    (res : AAVCAssembler × List ABuffer × AssemblyStatus) : Prop :=
  res.1.mFirstFailure = a.mFirstFailure ∧ res.2.1.length ≤ queue.length ∧
    (res.2.2 = .OK ∨ res.2.2 = .MALFORMED_PACKET → res.2.1.length < queue.length)

theorem scanFragments_complete {indicator nalType : BitVec 8} {queue : List ABuffer}
    {totalCount count : Nat} {expectedSeqNo next : BitVec 32}
    (h : scanFragments indicator nalType queue totalCount expectedSeqNo = .complete count next) :
    totalCount < count := by
  induction queue generalizing totalCount expectedSeqNo with
  | nil => cases h
  | cons b queue ih =>
    rw [scanFragments] at h
    split at h
    · cases h
    · split at h
      · cases h
      · split at h
        · cases h
          exact Nat.lt_succ_self _
        · exact Nat.lt_of_succ_lt (ih h)

theorem addFragmentedNALUnit_consumes (a : AAVCAssembler) (buffer : ABuffer) (rest : List ABuffer) :
    Consumes a (buffer :: rest) (a.addFragmentedNALUnit buffer rest) := by
  rw [addFragmentedNALUnit]
  dsimp only
  split
  · exact ⟨rfl, Nat.le_succ _, fun _ => Nat.lt_succ_self _⟩
  · split
    · exact ⟨rfl, Nat.le_succ _, fun _ => Nat.lt_succ_self _⟩
    · generalize hfragments : (if buffer.data.getD 1 0 &&& 0x40 ≠ 0 then
        Fragments.complete 1 (buffer.seqNo + 1) else _) = fragments
      cases fragments with
      | incomplete => exact ⟨rfl, Nat.le_refl _, by rintro (h | h) <;> cases h⟩
      | wrongSequence => exact ⟨rfl, Nat.le_refl _, by rintro (h | h) <;> cases h⟩
      | malformed totalCount expectedSeqNo =>
        have hlt : ((buffer :: rest).drop (totalCount + 1)).length < (buffer :: rest).length := by
          rw [List.length_drop, List.length_cons]
          omega
        exact ⟨rfl, Nat.le_of_lt hlt, fun _ => hlt⟩
      | complete totalCount expectedSeqNo =>
        have hpos : 0 < totalCount := by
          split at hfragments
          · cases hfragments
            decide
          · exact Nat.zero_lt_of_lt (scanFragments_complete hfragments)
        have hlt : ((buffer :: rest).drop totalCount).length < (buffer :: rest).length := by
          rw [List.length_drop, List.length_cons]
          omega
        exact ⟨addSingleNALUnit_firstFailure _ _, Nat.le_of_lt hlt, fun _ => hlt⟩

theorem addBuffer_consumes (a : AAVCAssembler) (buffer : ABuffer) (rest : List ABuffer) :
    Consumes a (buffer :: rest) (a.addBuffer buffer rest) := by
  have hpop {a' : AAVCAssembler} {status : AssemblyStatus}
      (h : a'.mFirstFailure = a.mFirstFailure) :
      Consumes a (buffer :: rest) ({ a' with mNextExpectedSeqNo := a'.mNextExpectedSeqNo + 1 },
        rest, status) :=
    ⟨h, Nat.le_succ _, fun _ => Nat.lt_succ_self _⟩
  rw [addBuffer]
  dsimp only
  split
  · exact hpop rfl
  · split
    · exact hpop (addSingleNALUnit_firstFailure a buffer)
    · split
      · exact addFragmentedNALUnit_consumes a buffer rest
      · split
        · apply hpop
          rw [addSingleTimeAggregationPacket]
          split
          · rfl
          · exact addAggregated_firstFailure _ _ _
        · split
          · exact hpop rfl
          · exact hpop rfl

theorem addNALUnit_consumes (a : AAVCAssembler) (queue : List ABuffer) :
    Consumes a queue (a.addNALUnit queue) := by
  have hstart : ∀ left : List ABuffer, left.length ≤ queue.length →
      Consumes a queue
        (match left with
        | [] => (a, [], .NOT_ENOUGH_DATA)
        | buffer :: rest =>
          if a.mNextExpectedSeqNoValid then
            if buffer.seqNo ≠ a.mNextExpectedSeqNo then (a, buffer :: rest, .WRONG_SEQUENCE_NUMBER)
            else a.addBuffer buffer rest
          else
            ({ a with
              mNextExpectedSeqNoValid := true
              mNextExpectedSeqNo := buffer.seqNo }).addBuffer buffer rest) := by
    intro left hle
    cases left with
    | nil => exact ⟨rfl, Nat.zero_le _, by rintro (h | h) <;> cases h⟩
    | cons buffer rest =>
      dsimp only
      split
      · split
        · exact ⟨rfl, hle, by rintro (h | h) <;> cases h⟩
        · obtain ⟨hflag, hlength, hless⟩ := addBuffer_consumes a buffer rest
          exact ⟨hflag, Nat.le_trans hlength hle, fun h => Nat.lt_of_lt_of_le (hless h) hle⟩
      · obtain ⟨hflag, hlength, hless⟩ := addBuffer_consumes
          { a with mNextExpectedSeqNoValid := true, mNextExpectedSeqNo := buffer.seqNo } buffer rest
        exact ⟨hflag, Nat.le_trans hlength hle, fun h => Nat.lt_of_lt_of_le (hless h) hle⟩
  rw [addNALUnit]
  apply hstart
  split
  · exact (List.dropWhile_sublist _).length_le
  · exact Nat.le_refl _

theorem assembleMore_consumes (a : AAVCAssembler) (queue : List ABuffer) :
    Consumes a queue (a.assembleMore queue) := by
  have hadd := addNALUnit_consumes a queue
  rw [assembleMore]
  dsimp only
  split
  · exact hadd
  · exact hadd

/-- Steps and a timer that has run out make the loop shorter. -/
theorem assembleMore_decreases {a a' : AAVCAssembler} {queue queue' : List ABuffer}
    {status : AssemblyStatus} (h : a.assembleMore queue = (a', queue', status)) :
    (status = .WRONG_SEQUENCE_NUMBER → a'.mFirstFailure →
      2 * queue'.length < 2 * queue.length + if a.mFirstFailure then 1 else 0) ∧
    (status = .OK ∨ status = .MALFORMED_PACKET →
      2 * queue'.length < 2 * queue.length + if a.mFirstFailure then 1 else 0) := by
  obtain ⟨hflag, hlength, hless⟩ := assembleMore_consumes a queue
  rw [h] at hflag hlength hless
  dsimp only at hflag hlength hless
  constructor
  · intro _ hset
    rw [hflag] at hset
    rw [if_pos hset]
    omega
  · intro hstatus
    have hlt := hless hstatus
    omega

/-- `expired` tells whether the timer has run out at this call. -/
def onPacketReceived (a : AAVCAssembler) (queue : List ABuffer) (expired : Bool) :
    AAVCAssembler × List ABuffer :=
  match _h : a.assembleMore queue with
  | (a, queue, .WRONG_SEQUENCE_NUMBER) =>
    if _hset : a.mFirstFailure then
      if expired then onPacketReceived (packetLost { a with mFirstFailure := false }) queue expired
      else (a, queue)
    else ({ a with mFirstFailure := true }, queue)
  | (a, queue, .NOT_ENOUGH_DATA) => ({ a with mFirstFailure := false }, queue)
  | (a, queue, .MALFORMED_PACKET) => onPacketReceived { a with mFirstFailure := false } queue expired
  | (a, queue, .OK) => onPacketReceived { a with mFirstFailure := false } queue expired
termination_by 2 * queue.length + if a.mFirstFailure then 1 else 0
decreasing_by
  · exact (assembleMore_decreases _h).1 rfl _hset
  · exact (assembleMore_decreases _h).2 (.inr rfl)
  · exact (assembleMore_decreases _h).2 (.inl rfl)

/-- `processRTPPacket`. A duplicate is discarded. -/
def processRTPPacket (a : AAVCAssembler) (queue : List ABuffer) (buffer : ABuffer)
    (expired : Bool) : AAVCAssembler × List ABuffer :=
  match queuePacket queue buffer with
  | (queue, true) => a.onPacketReceived queue expired
  | (queue, false) => (a, queue)

end AAVCAssembler

end MediaFramework.Rtsp
