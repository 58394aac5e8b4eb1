import MediaFramework.Lib.Ring
import MediaFramework.Lib.Word

/-!
# The FIFO buffer of AAudio

`FifoBuffer` and `FifoControllerBase` (`media/libaaudio/src/fifo`). Counters have 64 bits and other
numbers 32 bits, which a result that does not fit is cut to. The storage consists of bytes.
-/

namespace MediaFramework.AAudio

open Word

structure FifoController where
  mCapacity : Int
  mThreshold : Int
  readCounter : BitVec 64 := 0
  writeCounter : BitVec 64 := 0
  deriving DecidableEq

namespace FifoController

variable (c : FifoController)

def getFullFramesAvailable : Int := ((c.writeCounter - c.readCounter).setWidth 32).toInt

def getReadIndex : Int := toInt32 (c.readCounter.toNat % c.mCapacity.toNat : Nat)

def getWriteIndex : Int := toInt32 (c.writeCounter.toNat % c.mCapacity.toNat : Nat)

def getEmptyFramesAvailable : Int := toInt32 (c.mThreshold - c.getFullFramesAvailable)

def advanceReadIndex (numFrames : Int) : FifoController :=
  { c with readCounter := c.readCounter + BitVec.ofInt 64 numFrames }

def advanceWriteIndex (numFrames : Int) : FifoController :=
  { c with writeCounter := c.writeCounter + BitVec.ofInt 64 numFrames }

def setThreshold (threshold : Int) : FifoController :=
  { c with
    mThreshold :=
      if threshold > c.mCapacity then c.mCapacity else if threshold < 0 then 0 else threshold }

end FifoController

/-- One of the two parts of a `WrappingBuffer`: where it begins in the storage, if anywhere, and its
length. -/
structure Part where
  data : Option Int
  numFrames : Int
  deriving DecidableEq

structure FifoBuffer (α : Type*) where
  mBytesPerFrame : Int
  mStorage : List α
  mFifo : FifoController
  deriving DecidableEq

namespace FifoBuffer

variable {α : Type*} (f : FifoBuffer α)

def convertFramesToBytes (frames : Int) : Int := toInt32 (frames * f.mBytesPerFrame)

def fillWrappingBuffer (framesAvailable startIndex : Int) : List Part :=
  if framesAvailable > 0 then
    let source := f.convertFramesToBytes startIndex
    if toInt32 (startIndex + framesAvailable) > f.mFifo.mCapacity then
      let firstFrames := toInt32 (f.mFifo.mCapacity - startIndex)
      [⟨some source, firstFrames⟩, ⟨some 0, toInt32 (framesAvailable - firstFrames)⟩]
    else [⟨some source, framesAvailable⟩, ⟨none, 0⟩]
  else [⟨none, 0⟩, ⟨none, 0⟩]

def getFullDataAvailable : Int × List Part :=
  let framesAvailable := min f.mFifo.getFullFramesAvailable f.mFifo.mCapacity
  (framesAvailable, f.fillWrappingBuffer framesAvailable f.mFifo.getReadIndex)

def getEmptyRoomAvailable : Int × List Part :=
  let framesAvailable := min f.mFifo.getEmptyFramesAvailable f.mFifo.mCapacity
  (framesAvailable, f.fillWrappingBuffer framesAvailable f.mFifo.getWriteIndex)

/-- The loop of `read`: the bytes of the parts, and `framesLeft`. -/
def readParts : List Part → Int → List α × Int
  | [], framesLeft => ([], framesLeft)
  | part :: parts, framesLeft =>
    if framesLeft > 0 ∧ part.numFrames > 0 then
      let framesToRead := if framesLeft > part.numFrames then part.numFrames else framesLeft
      let bytes := Ring.slice f.mStorage (part.data.getD 0).toNat
        (f.convertFramesToBytes framesToRead).toNat
      let (rest, framesLeft) := readParts parts (framesLeft - framesToRead)
      (bytes ++ rest, framesLeft)
    else ([], framesLeft)

/-- The bytes that have been read, and their number of frames. -/
def read (numFrames : Int) : FifoBuffer α × List α × Int :=
  let (bytes, framesLeft) := f.readParts f.getFullDataAvailable.2 numFrames
  let framesRead := numFrames - framesLeft
  ({ f with mFifo := f.mFifo.advanceReadIndex framesRead }, bytes, framesRead)

/-- The loop of `write`: the storage with the bytes from `source` on, and `framesLeft`. -/
def writeParts : List Part → Int → List α → List α → List α × Int
  | [], framesLeft, _, storage => (storage, framesLeft)
  | part :: parts, framesLeft, source, storage =>
    if framesLeft > 0 ∧ part.numFrames > 0 then
      let framesToWrite := if framesLeft > part.numFrames then part.numFrames else framesLeft
      let numBytes := (f.convertFramesToBytes framesToWrite).toNat
      writeParts parts (framesLeft - framesToWrite) (source.drop numBytes)
        (Ring.poke storage (part.data.getD 0).toNat (source.take numBytes))
    else (storage, framesLeft)

/-- The number of frames that have been written. -/
def write (source : List α) (numFrames : Int) : FifoBuffer α × Int :=
  let (storage, framesLeft) := f.writeParts f.getEmptyRoomAvailable.2 numFrames source f.mStorage
  let framesWritten := numFrames - framesLeft
  ({ f with mStorage := storage, mFifo := f.mFifo.advanceWriteIndex framesWritten }, framesWritten)

def setThreshold (threshold : Int) : FifoBuffer α :=
  { f with mFifo := f.mFifo.setThreshold threshold }

end FifoBuffer

/-! ### The parts -/

/-- The frames of a buffer and what goes with them: `r` frames have been taken out, of `w` that
have been put in. -/
structure FifoBuffer.Holds {α : Type*} (capacity bytesPerFrame : Nat) (f : FifoBuffer α)
    (r w : Nat) : Prop where
  bytesPerFrame_eq : f.mBytesPerFrame = bytesPerFrame
  capacity_eq : f.mFifo.mCapacity = capacity
  storage : f.mStorage.length = capacity * bytesPerFrame
  threshold : 0 ≤ f.mFifo.mThreshold ∧ f.mFifo.mThreshold ≤ capacity
  readCounter : f.mFifo.readCounter = BitVec.ofNat 64 r
  writeCounter : f.mFifo.writeCounter = BitVec.ofNat 64 w
  le : r ≤ w
  full : w ≤ r + capacity
  fits : w < 2 ^ 64
  positive : 0 < capacity
  small : capacity ≤ 2 ^ 30
  bytes : capacity * bytesPerFrame < 2 ^ 31

namespace FifoBuffer.Holds

variable {α : Type*} {capacity bytesPerFrame : Nat} {f : FifoBuffer α} {r w : Nat}

theorem fill (h : Holds capacity bytesPerFrame f r w) :
    f.mFifo.getFullFramesAvailable = (w - r : Nat) := by
  have hle := h.le
  have hfull := h.full
  have hsmall := h.small
  have hfits := h.fits
  have hsub : (BitVec.ofNat 64 w - BitVec.ofNat 64 r).toNat = w - r := by
    rw [BitVec.toNat_sub, BitVec.toNat_ofNat, BitVec.toNat_ofNat]
    omega
  rw [FifoController.getFullFramesAvailable, h.readCounter, h.writeCounter, BitVec.toInt_setWidth,
    hsub]
  apply Int.bmod_eq_of_le <;> omega

theorem room (h : Holds capacity bytesPerFrame f r w) :
    f.mFifo.getEmptyFramesAvailable = f.mFifo.mThreshold - (w - r : Nat) := by
  have hfull := h.full
  have hsmall := h.small
  have hthreshold := h.threshold
  rw [FifoController.getEmptyFramesAvailable, h.fill, toInt32_of_fits (by omega)]

theorem readIndex (h : Holds capacity bytesPerFrame f r w) :
    f.mFifo.getReadIndex = (r % capacity : Nat) := by
  have hsmall := h.small
  have hlt := Nat.mod_lt r h.positive
  have hle := h.le
  have hfits := h.fits
  rw [FifoController.getReadIndex, h.readCounter, h.capacity_eq, BitVec.toNat_ofNat,
    Nat.mod_eq_of_lt (by omega : r < 2 ^ 64), Int.toNat_natCast, toInt32_of_fits (by omega)]

theorem writeIndex (h : Holds capacity bytesPerFrame f r w) :
    f.mFifo.getWriteIndex = (w % capacity : Nat) := by
  have hsmall := h.small
  have hlt := Nat.mod_lt w h.positive
  rw [FifoController.getWriteIndex, h.writeCounter, h.capacity_eq, BitVec.toNat_ofNat,
    Nat.mod_eq_of_lt h.fits, Int.toNat_natCast, toInt32_of_fits (by omega)]

theorem convertFramesToBytes (h : Holds capacity bytesPerFrame f r w) {n : Nat} (hn : n ≤ capacity) :
    f.convertFramesToBytes n = (n * bytesPerFrame : Nat) := by
  have hle := Nat.mul_le_mul_right bytesPerFrame hn
  have hbytes := h.bytes
  rw [FifoBuffer.convertFramesToBytes, h.bytesPerFrame_eq, ← Int.natCast_mul,
    toInt32_of_fits (by omega)]

end FifoBuffer.Holds

/-- The parts that `n` frames from index `i` on lie in. -/
def parts (capacity bytesPerFrame n i : Nat) : List Part :=
  if n = 0 then [⟨none, 0⟩, ⟨none, 0⟩]
  else if i + n > capacity then
    [⟨some (i * bytesPerFrame : Nat), (capacity - i : Nat)⟩, ⟨some 0, (n - (capacity - i) : Nat)⟩]
  else [⟨some (i * bytesPerFrame : Nat), n⟩, ⟨none, 0⟩]

theorem FifoBuffer.Holds.fillWrappingBuffer {α : Type*} {capacity bytesPerFrame : Nat}
    {f : FifoBuffer α} {r w : Nat} (h : Holds capacity bytesPerFrame f r w) {n i : Nat}
    (hn : n ≤ capacity) (hi : i < capacity) :
    f.fillWrappingBuffer n i = parts capacity bytesPerFrame n i := by
  have hsmall := h.small
  rw [FifoBuffer.fillWrappingBuffer, parts, h.convertFramesToBytes (Nat.le_of_lt hi), h.capacity_eq]
  by_cases hzero : n = 0
  · rw [if_neg (by omega), if_pos hzero]
  · rw [if_pos (by omega), if_neg hzero]
    dsimp only
    rw [toInt32_of_fits (by omega)]
    by_cases hwrap : i + n > capacity
    · rw [if_pos (by omega), if_pos hwrap, toInt32_of_fits (by omega), toInt32_of_fits (by omega)]
      congr 3
      · omega
      · omega
    · rw [if_neg (by omega), if_neg hwrap]

/-- The parts are `n` frames from position `p` on, none of them across the end of the storage. -/
inductive Covers (capacity bytesPerFrame : Nat) : List Part → Nat → Nat → Prop
  | done (p : Nat) (data : Option Int) (rest : List Part) :
    Covers capacity bytesPerFrame (⟨data, 0⟩ :: rest) p 0
  | last (p : Nat) : Covers capacity bytesPerFrame [] p 0
  | part (p m n : Nat) (rest : List Part) : 0 < m → p % capacity + m ≤ capacity →
    Covers capacity bytesPerFrame rest (p + m) n →
    Covers capacity bytesPerFrame
      (⟨some (p % capacity * bytesPerFrame : Nat), m⟩ :: rest) p (m + n)

theorem covers_parts {capacity bytesPerFrame n : Nat} (p : Nat) (hpos : 0 < capacity)
    (hn : n ≤ capacity) :
    Covers capacity bytesPerFrame (parts capacity bytesPerFrame n (p % capacity)) p n := by
  have hi := Nat.mod_lt p hpos
  rw [parts]
  split
  · next hzero =>
    rw [hzero]
    exact .done p none _
  · split
    · next hwrap =>
      -- the second part begins at the start of the storage
      have hstart := Ring.add_rest_mod p hpos
      have hsecond : Covers capacity bytesPerFrame _ (p + (capacity - p % capacity))
          (n - (capacity - p % capacity) + 0) :=
        .part _ _ 0 [] (by omega) (by rw [hstart]; omega) (.last _)
      rw [hstart, Nat.zero_mul] at hsecond
      have hall := Covers.part p (capacity - p % capacity) (n - (capacity - p % capacity) + 0) _
        (by omega) (by omega) hsecond
      rw [Nat.add_zero, Nat.add_sub_cancel' (by omega)] at hall
      exact hall
    · exact .part p n 0 _ (by omega) (by omega) (.done _ none [])

end MediaFramework.AAudio
