import MediaFramework.Lib.Word
import Mathlib.Data.List.Infix

/-!
# Extended sequence numbers

`ARTPSource::queuePacket` (`media/libstagefright/rtsp/ARTPSource.cpp`). A packet comes with the low
16 bits of its number at the sender, and the source guesses the others.
-/

namespace MediaFramework.Rtsp.SequenceNumbers

/-- `int32Data` is the sequence number. The code does not look at the data. -/
structure Buffer (β : Type*) where
  int32Data : BitVec 32
  data : β
  deriving DecidableEq

structure ARTPSource (β : Type*) where
  mHighestSeqNumber : BitVec 32 := 0
  mBaseSeqNumber : BitVec 32 := 0
  mNumBuffersReceived : BitVec 32 := 0
  mQueue : List (Buffer β) := []
  deriving DecidableEq

def AbsDiff (seq1 seq2 : BitVec 32) : BitVec 32 :=
  if seq1.toNat > seq2.toNat then seq1 - seq2 else seq2 - seq1

/-- The closest one of three candidates. -/
def extendSeqNum (mHighestSeqNumber seqNum : BitVec 32) : BitVec 32 :=
  let seq1 := seqNum ||| (mHighestSeqNumber &&& 0xffff0000)
  let seq2 := seqNum ||| (((mHighestSeqNumber >>> 16) + 1) <<< 16)
  let seq3 := seqNum ||| ((((mHighestSeqNumber >>> 16) ||| 0x10000) - 1) <<< 16)
  let diff1 := AbsDiff seq1 mHighestSeqNumber
  let diff2 := AbsDiff seq2 mHighestSeqNumber
  let diff3 := AbsDiff seq3 mHighestSeqNumber
  if diff1.toNat < diff2.toNat then
    if diff1.toNat < diff3.toNat then seq1 else seq3
  else if diff2.toNat < diff3.toNat then seq2
  else seq3

variable {β : Type*}

/-- The new queue, and whether the buffer has been queued. -/
def insertBuffer (buffer : Buffer β) : List (Buffer β) → List (Buffer β) × Bool
  | [] => ([buffer], true)
  | b :: queue =>
    if b.int32Data.toNat < buffer.int32Data.toNat then
      let (queue, queued) := insertBuffer buffer queue
      (b :: queue, queued)
    else if b.int32Data = buffer.int32Data then (b :: queue, false)
    else (buffer :: b :: queue, true)

/-- The source, the buffer with the number it has been given, and whether it has been queued. -/
def ARTPSource.queuePacket (s : ARTPSource β) (buffer : Buffer β) :
    ARTPSource β × Buffer β × Bool :=
  let seqNum := buffer.int32Data
  let s' := { s with mNumBuffersReceived := s.mNumBuffersReceived + 1 }
  if s.mNumBuffersReceived = 0 then
    ({ s' with
      mHighestSeqNumber := seqNum
      mBaseSeqNumber := seqNum
      mQueue := s.mQueue ++ [buffer] }, buffer, true)
  else
    let seqNum := extendSeqNum s.mHighestSeqNumber seqNum
    let buffer := { buffer with int32Data := seqNum }
    let (queue, queued) := insertBuffer buffer s.mQueue
    ({ s' with
      mHighestSeqNumber :=
        if seqNum.toNat > s.mHighestSeqNumber.toNat then seqNum else s.mHighestSeqNumber
      mQueue := queue }, buffer, queued)

/-! ### The closest candidate -/

theorem AbsDiff_toNat (a b : BitVec 32) :
    (AbsDiff a b).toNat = (a.toNat - b.toNat) + (b.toNat - a.toNat) := by
  rw [AbsDiff]
  split
  · rw [BitVec.toNat_sub_of_le (BitVec.le_def.mpr (by omega))]
    omega
  · rw [BitVec.toNat_sub_of_le (BitVec.le_def.mpr (by omega))]
    omega

/-- A number in a block of 2 ^ 16. -/
theorem or_block_toNat {low block : BitVec 32} (hlow : low.toNat < 65536) :
    (low ||| (block <<< 16)).toNat = 65536 * (block.toNat % 65536) + low.toNat := by
  have hshift : (block <<< 16).toNat = 2 ^ 16 * (block.toNat % 65536) := by
    rw [BitVec.toNat_shiftLeft, Nat.shiftLeft_eq]
    omega
  have hbits := Nat.two_pow_add_eq_or_of_lt (i := 16) hlow (block.toNat % 65536)
  rw [BitVec.toNat_or, hshift, Nat.or_comm, ← hbits]

theorem and_block (h : BitVec 32) : h &&& (0xffff0000 : BitVec 32) = (h >>> 16) <<< 16 := by
  have hmask : (0xffff0000 : BitVec 32) = ~~~Word.lowMask 32 16 := by decide
  apply BitVec.eq_of_toNat_eq
  rw [hmask, Word.and_not_lowMask_toNat (by decide), BitVec.toNat_shiftLeft,
    BitVec.toNat_ushiftRight, Nat.shiftLeft_eq, Nat.shiftRight_eq_div_pow]
  have hlt := h.isLt
  omega

theorem or_one_sub_one_toNat {block : BitVec 32} (hblock : block.toNat < 65536) :
    ((block ||| 0x10000) - 1).toNat = block.toNat + 65535 := by
  have hor : (block ||| 0x10000).toNat = block.toNat + 65536 := by
    rw [BitVec.toNat_or, Nat.or_comm]
    have hbits := Nat.two_pow_add_eq_or_of_lt (i := 16) hblock 1
    exact hbits.symm.trans (Nat.add_comm _ _)
  rw [BitVec.toNat_sub_of_le (BitVec.le_def.mpr (by rw [hor]; show 1 ≤ _; omega)), hor]
  rfl

/-- The three candidates, of which the choice is made by plain distances. -/
theorem extendSeqNum_toNat (h : BitVec 32) {low : BitVec 32} (hlow : low.toNat < 65536) :
    let block := h.toNat / 65536
    let seq1 := 65536 * block + low.toNat
    let seq2 := 65536 * ((block + 1) % 65536) + low.toNat
    let seq3 := 65536 * ((block + 65535) % 65536) + low.toNat
    let diff := fun seq => (seq - h.toNat) + (h.toNat - seq)
    (extendSeqNum h low).toNat =
      if diff seq1 < diff seq2 then if diff seq1 < diff seq3 then seq1 else seq3
      else if diff seq2 < diff seq3 then seq2 else seq3 := by
  have hh := h.isLt
  have hblock : (h >>> 16).toNat = h.toNat / 65536 := by
    rw [BitVec.toNat_ushiftRight, Nat.shiftRight_eq_div_pow]
  have hlt : (h >>> 16).toNat < 65536 := by omega
  have h1 : (low ||| (h &&& 0xffff0000)).toNat = 65536 * (h.toNat / 65536) + low.toNat := by
    rw [and_block, or_block_toNat hlow, hblock, Nat.mod_eq_of_lt (by omega)]
  have h2 : (low ||| (((h >>> 16) + 1) <<< 16)).toNat =
      65536 * ((h.toNat / 65536 + 1) % 65536) + low.toNat := by
    have hsucc : ((h >>> 16) + 1).toNat = (h.toNat / 65536 + 1) % 2 ^ 32 := by
      rw [BitVec.toNat_add, hblock]
      rfl
    rw [or_block_toNat hlow, hsucc]
    omega
  have h3 : (low ||| ((((h >>> 16) ||| 0x10000) - 1) <<< 16)).toNat =
      65536 * ((h.toNat / 65536 + 65535) % 65536) + low.toNat := by
    rw [or_block_toNat hlow, or_one_sub_one_toNat hlt, hblock]
  rw [extendSeqNum]
  simp only [AbsDiff_toNat, apply_ite BitVec.toNat, h1, h2, h3]

/-- A number near the highest one is found, if it is there. -/
theorem extendSeqNum_eq {h low : BitVec 32} {e : Nat} (hlow : low.toNat = e % 65536)
    (he : e < 2 ^ 32) (hnear : e < h.toNat + 2 ^ 15 ∧ h.toNat < e + 2 ^ 15) :
    (extendSeqNum h low).toNat = e := by
  have hh := h.isLt
  rw [extendSeqNum_toNat h (by omega), hlow]
  dsimp only
  obtain hblock | hblock | hblock : e / 65536 = h.toNat / 65536 ∨
      e / 65536 = h.toNat / 65536 + 1 ∨ e / 65536 + 1 = h.toNat / 65536 := by omega
  · rw [if_pos (by omega), if_pos (by omega)]
    omega
  · rw [if_neg (by omega), if_pos (by omega)]
    omega
  · by_cases hbelow : 65536 * (h.toNat / 65536) + e % 65536 <
        65536 * ((h.toNat / 65536 + 1) % 65536) + e % 65536
    · rw [if_pos (by omega), if_neg (by omega)]
      omega
    · rw [if_pos (by omega), if_neg (by omega)]
      omega

/-- A number from before the first block comes out in the first block. -/
theorem extendSeqNum_below {h low : BitVec 32} (hlow : low.toNat < 65536)
    (hbelow : h.toNat + 2 ^ 15 < low.toNat) : (extendSeqNum h low).toNat = low.toNat := by
  rw [extendSeqNum_toNat h hlow]
  dsimp only
  rw [if_pos (by omega), if_pos (by omega)]
  omega

/-- A number from behind the last block comes out in the last block. -/
theorem extendSeqNum_above {h low : BitVec 32} (hlow : low.toNat < 65536)
    (habove : low.toNat + 2 ^ 32 < h.toNat + 2 ^ 15) :
    (extendSeqNum h low).toNat = 2 ^ 32 - 2 ^ 16 + low.toNat := by
  have hh := h.isLt
  rw [extendSeqNum_toNat h hlow]
  dsimp only
  rw [if_pos (by omega), if_pos (by omega)]
  omega

end MediaFramework.Rtsp.SequenceNumbers
