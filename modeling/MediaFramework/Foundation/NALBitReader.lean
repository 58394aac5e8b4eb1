import MediaFramework.Lib.Bits

/-!
# Bit reader for NAL units

`NALBitReader` with what it inherits from `ABitReader`
(`media/libstagefright/foundation/ABitReader.cpp`). The reader skips emulation prevention
bytes. `size_t` is unbounded here: the process is one in which eight times the size of a buffer
is no overflow. `putBits` and `getBits`, which aborts, are left out.
-/

namespace MediaFramework.Foundation

/-- `mData` is the part of the buffer that is not read yet, `mSize` its length. `shifts` are
the amounts by which the reservoir was shifted so far: the language says nothing of a shift by
32 or more, which gives 0 here. -/
structure NALBitReader where
  mData : List (BitVec 8)
  mReservoir : BitVec 32 := 0
  mNumBitsLeft : Nat := 0
  mOverRead : Bool := false
  mNumZeros : BitVec 32 := 0
  shifts : List Nat := []
  deriving DecidableEq

namespace NALBitReader

/-- The counter is an `int32_t`. -/
def isEmulationPreventionByte (numZeros : BitVec 32) (byte : BitVec 8) : Bool :=
  2 ≤ numZeros.toInt ∧ byte = 3

def countZeros (numZeros : BitVec 32) (byte : BitVec 8) : BitVec 32 :=
  if byte = 0 then numZeros + 1 else 0

/-- The loop of `fillReservoir`. Returns the number of bytes in the reservoir. -/
def fillLoop (r : NALBitReader) : List (BitVec 8) → Nat → NALBitReader × Nat
  | [], i => ({ r with mData := [] }, i)
  | byte :: data, i =>
    if i < 4 then
      let numZeros := countZeros r.mNumZeros byte
      if isEmulationPreventionByte r.mNumZeros byte then
        fillLoop { r with mNumZeros := numZeros } data i
      else
        fillLoop { r with
          mNumZeros := numZeros
          mReservoir := (r.mReservoir <<< 8) ||| byte.setWidth 32
          shifts := r.shifts ++ [8] } data (i + 1)
    else ({ r with mData := byte :: data }, i)

def fillReservoir (r : NALBitReader) : NALBitReader × Bool :=
  if r.mData = [] then ({ r with mOverRead := true }, false)
  else
    let (r, i) := fillLoop { r with mReservoir := 0 } r.mData 0
    ({ r with
      mNumBitsLeft := 8 * i
      mReservoir := r.mReservoir <<< (32 - 8 * i)
      shifts := r.shifts ++ [32 - 8 * i] }, true)

/-- The refill at the head of the loop of `getBitsGraceful`. -/
def refill (r : NALBitReader) : NALBitReader × Bool :=
  if r.mNumBitsLeft = 0 then r.fillReservoir else (r, true)

/-- Take `m` bits out of the reservoir: it is shifted to the right for the result and to the left
for what remains. -/
def take (r : NALBitReader) (m : Nat) : NALBitReader :=
  { r with
    mReservoir := r.mReservoir <<< m
    mNumBitsLeft := r.mNumBitsLeft - m
    shifts := r.shifts ++ [32 - m, m] }

theorem fillLoop_length (r : NALBitReader) (data : List (BitVec 8)) (i : Nat) :
    (r.fillLoop data i).1.mData.length ≤ data.length := by
  induction data generalizing r i with
  | nil => exact Nat.le_refl _
  | cons byte data ih =>
    rw [fillLoop]
    split
    · dsimp only
      split
      · exact Nat.le_succ_of_le (ih _ _)
      · exact Nat.le_succ_of_le (ih _ _)
    · exact Nat.le_refl _

theorem fillLoop_consumes (r : NALBitReader) (byte : BitVec 8) (data : List (BitVec 8)) :
    (r.fillLoop (byte :: data) 0).1.mData.length < (byte :: data).length := by
  rw [fillLoop, if_pos (by decide)]
  dsimp only
  split
  · exact Nat.lt_succ_of_le (fillLoop_length _ _ _)
  · exact Nat.lt_succ_of_le (fillLoop_length _ _ _)

/-- A refill leaves bits to take or has used up data. -/
theorem refill_data {r r' : NALBitReader} (h : r.refill = (r', true)) :
    r'.mData.length < r.mData.length ∨
      r'.mNumBitsLeft ≠ 0 ∧ r'.mData.length = r.mData.length := by
  rw [refill] at h
  split at h
  · rw [fillReservoir] at h
    split at h
    · cases h
    · next hdata =>
      cases h
      obtain ⟨byte, data, hcons⟩ := List.exists_cons_of_ne_nil hdata
      left
      show (fillLoop _ r.mData 0).1.mData.length < r.mData.length
      rw [hcons]
      exact fillLoop_consumes _ byte data
  · next hbits =>
    cases h
    exact .inr ⟨hbits, rfl⟩

theorem refill_decreases {r r' : NALBitReader} {n : Nat} (hn : n ≠ 0) (h : r.refill = (r', true)) :
    n - min n r'.mNumBitsLeft + (r'.take (min n r'.mNumBitsLeft)).mData.length <
      n + r.mData.length := by
  show n - min n r'.mNumBitsLeft + r'.mData.length < n + r.mData.length
  obtain hlt | ⟨hbits, heq⟩ := refill_data h
  · omega
  · omega

/-- The loop of `getBitsGraceful`. -/
def getBitsLoop (r : NALBitReader) (n : Nat) (result : BitVec 32) :
    NALBitReader × Option (BitVec 32) :=
  if _hn : n = 0 then (r, some result)
  else
    match _h : r.refill with
    | (r', false) => (r', none)
    | (r', true) =>
      let m := min n r'.mNumBitsLeft
      getBitsLoop (r'.take m) (n - m) ((result <<< m) ||| (r'.mReservoir >>> (32 - m)))
termination_by n + r.mData.length
decreasing_by exact refill_decreases _hn _h

/-- The result, if the bits could be read. -/
def getBitsGraceful (r : NALBitReader) (n : Nat) : NALBitReader × Option (BitVec 32) :=
  if 32 < n then (r, none) else r.getBitsLoop n 0

def getBitsWithFallback (r : NALBitReader) (n : Nat) (fallback : BitVec 32) :
    NALBitReader × BitVec 32 :=
  let (r, ret) := r.getBitsGraceful n
  (r, ret.getD fallback)

def skipBits (r : NALBitReader) (n : Nat) : NALBitReader × Bool :=
  if 32 < n then
    match r.getBitsGraceful 32 with
    | (r, none) => (r, false)
    | (r, some _) => r.skipBits (n - 32)
  else if 0 < n then
    let (r, dummy) := r.getBitsGraceful n
    (r, dummy.isSome)
  else (r, true)
termination_by n

def numBitsLeft (r : NALBitReader) : Nat := r.mData.length * 8 + r.mNumBitsLeft

/-- The loop of `atLeastNumBitsLeft`. -/
def atLeastLoop : List (BitVec 8) → BitVec 32 → Int → Int
  | [], _, numBitsRemaining => numBitsRemaining
  | byte :: data, numZeros, numBitsRemaining =>
    if 0 < numBitsRemaining then
      atLeastLoop data (countZeros numZeros byte)
        (if isEmulationPreventionByte numZeros byte then numBitsRemaining
        else numBitsRemaining - 8)
    else numBitsRemaining

def atLeastNumBitsLeft (r : NALBitReader) (n : Nat) : Bool :=
  if r.numBitsLeft < n then false
  else atLeastLoop r.mData r.mNumZeros ((n : Int) - r.mNumBitsLeft) ≤ 0

/-! ### Calls -/

inductive Call
  | getBitsGraceful (n : Nat)
  | getBitsWithFallback (n : Nat) (fallback : BitVec 32)
  | skipBits (n : Nat)
  | atLeastNumBitsLeft (n : Nat)

inductive Reply
  | bits (out : Option (BitVec 32))
  | value (ret : BitVec 32)
  | flag (ok : Bool)
  deriving DecidableEq

def step (r : NALBitReader) : Call → NALBitReader × Reply
  | .getBitsGraceful n => let (r, out) := r.getBitsGraceful n; (r, .bits out)
  | .getBitsWithFallback n fallback =>
    let (r, ret) := r.getBitsWithFallback n fallback; (r, .value ret)
  | .skipBits n => let (r, ok) := r.skipBits n; (r, .flag ok)
  | .atLeastNumBitsLeft n => (r, .flag (r.atLeastNumBitsLeft n))

/-- A sequence of calls, with the replies. -/
def run (r : NALBitReader) : List Call → NALBitReader × List Reply
  | [] => (r, [])
  | call :: calls =>
    let (r, reply) := r.step call
    let (r, replies) := r.run calls
    (r, reply :: replies)

end NALBitReader

end MediaFramework.Foundation
