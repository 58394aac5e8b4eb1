import Mathlib.Algebra.Ring.Int.Defs
import Mathlib.Algebra.Ring.Nat

/-!
# MP4 sample tables

The tables behind `SampleTable` (`media/extractors/mp4/SampleTable.cpp`) as far as sample
lookup reads them. Values from the file are words; indices computed from them are `Nat`
with explicit wrap-around, and a file offset is an `Int`. `size_t` has 64 bits.
-/

namespace MediaFramework.Mp4

inductive Status
  | OK
  | ERROR_END_OF_STREAM
  | ERROR_MALFORMED
  | ERROR_OUT_OF_RANGE
  | ERROR_IO
  deriving DecidableEq, Repr

open Status

def UINT32_MAX : Nat := 2^32 - 1
def UINT64_MAX : Nat := 2^64 - 1
def INT32_MAX : Nat := 2^31 - 1
def INT64_MAX : Nat := 2^63 - 1
def INT32_MIN : Int := -2^31

/-- `stco` or `co64`. -/
inductive ChunkOffsetType
  | kChunkOffsetType32
  | kChunkOffsetType64
  deriving DecidableEq, Repr

/-- The widths in bits that `setSampleSizeParams` accepts for a sample size. -/
inductive SampleSizeFieldSize
  | bits32
  | bits16
  | bits8
  | bits4
  deriving DecidableEq, Repr

structure SampleToChunkEntry where
  startChunk : BitVec 32
  samplesPerChunk : BitVec 32
  chunkDesc : BitVec 32
  deriving DecidableEq, Repr

/-- A run of `stts` samples with one duration. -/
structure TimeToSampleEntry where
  count : BitVec 32
  duration : BitVec 32
  deriving DecidableEq, Repr

/-- A run of `ctts` samples with one (signed) composition offset. -/
structure CompositionDeltaEntry where
  count : BitVec 32
  delta : BitVec 32
  deriving DecidableEq, Repr

structure SampleTable where
  /-- The bytes a read at an offset of the data source returns, fewer than asked for on a
  short read or an error. -/
  readAt : Int → Nat → List (BitVec 8)
  mChunkOffsetOffset : Int
  mChunkOffsetType : ChunkOffsetType
  mNumChunkOffsets : BitVec 32
  mSampleToChunkOffset : Int
  mSampleToChunkEntries : List SampleToChunkEntry
  mSampleSizeOffset : Int
  mSampleSizeFieldSize : SampleSizeFieldSize
  mDefaultSampleSize : BitVec 32
  mNumSampleSizes : BitVec 32
  mTimeToSample : List TimeToSampleEntry
  mCompositionTimeDeltaEntries : List CompositionDeltaEntry

namespace SampleTable

variable (T : SampleTable)

/-- The big-endian number in the first `size` bytes at an offset. -/
def readNumber (offset : Int) (size : Nat) : Option Nat :=
  let bytes := T.readAt offset size
  if bytes.length < size then none
  else some ((bytes.take size).foldl (fun acc b => 256 * acc + b.toNat) 0)

/-- `SampleIterator::getChunkOffset`; the caller's offset is zeroed if it fails. -/
def getChunkOffset (chunk : Nat) : Except Status (BitVec 64) :=
  if T.mNumChunkOffsets.toNat ≤ chunk then .error .ERROR_OUT_OF_RANGE
  else
    let number := match T.mChunkOffsetType with
      | .kChunkOffsetType32 => T.readNumber (T.mChunkOffsetOffset + 8 + (4 * chunk % 2^32 : Nat)) 4
      | .kChunkOffsetType64 => T.readNumber (T.mChunkOffsetOffset + 8 + (8 * chunk % 2^32 : Nat)) 8
    match number with
    | none => .error ERROR_IO
    | some offset => .ok (BitVec.ofNat 64 offset)

/-- `SampleIterator::getSampleSizeDirect`. -/
def getSampleSizeDirect (sampleIndex : Nat) : Except Status Nat :=
  if T.mNumSampleSizes.toNat ≤ sampleIndex then .error .ERROR_OUT_OF_RANGE
  else if 0 < T.mDefaultSampleSize.toNat then .ok T.mDefaultSampleSize.toNat
  else
    let number := match T.mSampleSizeFieldSize with
      | .bits32 => T.readNumber (T.mSampleSizeOffset + 12 + (4 * sampleIndex % 2^32 : Nat)) 4
      | .bits16 => T.readNumber (T.mSampleSizeOffset + 12 + (2 * sampleIndex % 2^32 : Nat)) 2
      | .bits8 => T.readNumber (T.mSampleSizeOffset + 12 + sampleIndex) 1
      | .bits4 =>
        (T.readNumber (T.mSampleSizeOffset + 12 + (sampleIndex / 2 : Nat)) 1).map fun x =>
          if sampleIndex % 2 = 1 then x % 16 else x / 16
    match number with
    | none => .error ERROR_IO
    | some size => .ok size

end SampleTable

/-! ### Composition offsets -/

/-- The cursor of `SampleTable::CompositionDeltaLookup`. -/
structure CompositionDeltaLookup where
  mCurrentDeltaEntry : Nat := 0
  mCurrentEntrySampleIndex : Nat := 0
  deriving DecidableEq, Repr

/-- The `while` loop of `getCompositionTimeOffset` over the entries from the current one on. -/
def CompositionDeltaLookup.find (sampleIndex : Nat) :
    List CompositionDeltaEntry → CompositionDeltaLookup → BitVec 32 × CompositionDeltaLookup
  | [], l => (0, l)
  | entry :: rest, l =>
    if sampleIndex < l.mCurrentEntrySampleIndex + entry.count.toNat then (entry.delta, l)
    else find sampleIndex rest
      ⟨l.mCurrentDeltaEntry + 1, l.mCurrentEntrySampleIndex + entry.count.toNat⟩

def SampleTable.getCompositionTimeOffset (T : SampleTable) (l : CompositionDeltaLookup)
    (sampleIndex : Nat) : BitVec 32 × CompositionDeltaLookup :=
  let l := if sampleIndex < l.mCurrentEntrySampleIndex then {} else l
  l.find sampleIndex (T.mCompositionTimeDeltaEntries.drop l.mCurrentDeltaEntry)

end MediaFramework.Mp4

/-!
## MP4 sample iterator

`SampleIterator` (`media/extractors/mp4/SampleIterator.cpp`). The iterator caches the
current `stsc` range, the current chunk with its offset and sample sizes, the current
`stts` run, and the last sample found.
-/

namespace MediaFramework.Mp4

/-- The current range of chunks with one number of samples per chunk. -/
structure ChunkRange where
  mSampleToChunkIndex : Nat := 0
  mFirstChunk : Nat := 0
  mFirstChunkSampleIndex : Nat := 0
  mStopChunk : Nat := 0
  mStopChunkSampleIndex : Nat := 0
  mSamplesPerChunk : Nat := 0
  mChunkDesc : Nat := 0
  deriving DecidableEq, Repr

/-- The current run of samples with one duration. -/
structure TimeRun where
  mTimeToSampleIndex : Nat := 0
  mTTSSampleIndex : Nat := 0
  mTTSSampleTime : Nat := 0
  mTTSCount : Nat := 0
  mTTSDuration : Nat := 0
  deriving DecidableEq, Repr

/-- The fields that the constructor leaves uninitialised start at zero here; they are read
only once `mInitialized` is set. -/
structure SampleIterator extends ChunkRange, TimeRun where
  mInitialized : Bool := false
  mCurrentChunkIndex : Nat := 0
  mCurrentChunkOffset : BitVec 64 := 0
  mCurrentChunkSampleSizes : List Nat := []
  mCurrentSampleIndex : Nat := 0
  mCurrentSampleOffset : BitVec 64 := 0
  mCurrentSampleSize : Nat := 0
  mCurrentSampleTime : Nat := 0
  mCurrentSampleDuration : Nat := 0
  deriving DecidableEq, Repr

/-! ### Chunk ranges -/

namespace ChunkRange

/-- Make the range of `entry` the current one. Where it ends is known from the entry after
it; the last range is open. `error` if the range has no chunks to count or does not fit. -/
def load (entry : SampleToChunkEntry) (rest : List SampleToChunkEntry) (c : ChunkRange) :
    Except ChunkRange ChunkRange :=
  let c := { c with
    mFirstChunkSampleIndex := c.mStopChunkSampleIndex
    mFirstChunk := entry.startChunk.toNat
    mSamplesPerChunk := entry.samplesPerChunk.toNat
    mChunkDesc := entry.chunkDesc.toNat }
  match rest.head? with
  | some next =>
    let c := { c with mStopChunk := next.startChunk.toNat }
    if c.mSamplesPerChunk = 0 ∨ c.mStopChunk < c.mFirstChunk ∨
        UINT32_MAX / c.mSamplesPerChunk < c.mStopChunk - c.mFirstChunk ∨
        UINT32_MAX - c.mFirstChunkSampleIndex <
          (c.mStopChunk - c.mFirstChunk) * c.mSamplesPerChunk then
      .error c
    else .ok { c with
      mStopChunkSampleIndex :=
        c.mFirstChunkSampleIndex + (c.mStopChunk - c.mFirstChunk) * c.mSamplesPerChunk
      mSampleToChunkIndex := c.mSampleToChunkIndex + 1 }
  | none => .ok { c with
    mStopChunk := 0xffffffff
    mStopChunkSampleIndex := 0xffffffff
    mSampleToChunkIndex := c.mSampleToChunkIndex + 1 }

/-- The loop of `findChunkRange` over the entries from the current one on. -/
def find (sampleIndex : Nat) : List SampleToChunkEntry → ChunkRange → Status × ChunkRange
  | [], c => (if sampleIndex < c.mStopChunkSampleIndex then .OK else .ERROR_OUT_OF_RANGE, c)
  | entry :: rest, c =>
    if sampleIndex < c.mStopChunkSampleIndex then (.OK, c)
    else
      match c.load entry rest with
      | .error c => (.ERROR_OUT_OF_RANGE, c)
      | .ok c => find sampleIndex rest c

end ChunkRange

/-! ### Times -/

namespace TimeRun

/-- The loop of `findSampleTimeAndDuration` over the runs after the current one; `false` for
`ERROR_OUT_OF_RANGE`. -/
def find (sampleIndex : Nat) : List TimeToSampleEntry → TimeRun → Bool × TimeRun
  | [], c =>
    if UINT32_MAX - c.mTTSCount < c.mTTSSampleIndex then (false, c)
    else (sampleIndex < c.mTTSSampleIndex + c.mTTSCount, c)
  | entry :: rest, c =>
    if UINT32_MAX - c.mTTSCount < c.mTTSSampleIndex then (false, c)
    else if sampleIndex < c.mTTSSampleIndex + c.mTTSCount then (true, c)
    else if (c.mTTSDuration ≠ 0 ∧ UINT64_MAX / c.mTTSDuration < c.mTTSCount) ∨
        UINT64_MAX - c.mTTSCount * c.mTTSDuration % 2^64 < c.mTTSSampleTime then (false, c)
    else find sampleIndex rest {
      mTimeToSampleIndex := c.mTimeToSampleIndex + 1
      mTTSSampleIndex := c.mTTSSampleIndex + c.mTTSCount
      mTTSSampleTime := c.mTTSSampleTime + c.mTTSCount * c.mTTSDuration
      mTTSCount := entry.count.toNat
      mTTSDuration := entry.duration.toNat }

/-- `mTTSSampleTime + mTTSDuration * (sampleIndex - mTTSSampleIndex)`, if nothing overflows. -/
def decodeTime (c : TimeRun) (sampleIndex : Nat) : Option Nat :=
  if sampleIndex < c.mTTSSampleIndex then none
  else
    let tmp := c.mTTSDuration * (sampleIndex - c.mTTSSampleIndex)
    if UINT64_MAX < tmp ∨ UINT64_MAX < c.mTTSSampleTime + tmp then none
    else some (c.mTTSSampleTime + tmp)

end TimeRun

/-- `time` shifted by a composition offset, `none` if the code sees an overflow. The negation
of `INT32_MIN` wraps to itself. -/
def compositionTime (time : Nat) (offset : BitVec 32) : Option Nat :=
  let delta := offset.toInt
  if (delta < 0 ∧ time < if delta = INT32_MIN then INT64_MAX else (-delta).toNat) ∨
      (0 < delta ∧ UINT64_MAX - delta.toNat < time) then none
  else if 0 < delta then some (time + delta.toNat)
  else some ((time + 2^64 - ((-offset).signExtend 64).toNat) % 2^64)

/-! ### Seeking -/

/-- One of the tables a seek needs is missing. -/
def SampleTable.Incomplete (T : SampleTable) : Prop :=
  T.mSampleToChunkOffset < 0 ∨ T.mChunkOffsetOffset < 0 ∨ T.mSampleSizeOffset < 0 ∨
    T.mTimeToSample.length = 0

instance (T : SampleTable) : Decidable T.Incomplete := inferInstanceAs (Decidable (_ ∨ _ ∨ _ ∨ _))

/-- The iterator with the part of the table that lookups change. -/
structure Seeker where
  it : SampleIterator := {}
  lookup : CompositionDeltaLookup := {}

namespace Seeker

variable (T : SampleTable)

/-- `SampleIterator::findSampleTimeAndDuration`. The time is stored before the composition
offset is checked. -/
def findSampleTimeAndDuration (s : Seeker) (sampleIndex : Nat) : Status × Seeker :=
  if T.mNumSampleSizes.toNat ≤ sampleIndex then (.ERROR_OUT_OF_RANGE, s)
  else
    let (found, run) := s.it.toTimeRun.find sampleIndex (T.mTimeToSample.drop s.it.mTimeToSampleIndex)
    let s := { s with it.toTimeRun := run }
    if ¬found then (.ERROR_OUT_OF_RANGE, s)
    else
      match run.decodeTime sampleIndex with
      | none => (.ERROR_OUT_OF_RANGE, s)
      | some time =>
        -- `*time` is `mCurrentSampleTime`, also when the offset is rejected below
        let s := { s with it.mCurrentSampleTime := time }
        let (offset, lookup) := T.getCompositionTimeOffset s.lookup sampleIndex
        let s := { s with lookup := lookup }
        match compositionTime time offset with
        | none => (.ERROR_OUT_OF_RANGE, s)
        | some time =>
          (.OK, { s with
            it.mCurrentSampleTime := time
            it.mCurrentSampleDuration := run.mTTSDuration })

/-- Reads sample sizes from an index on until there are `n` or, if the index leaves the
`stsz` table, fewer. -/
def readSampleSizes (first : Nat) : Nat → Except Status (List Nat)
  | 0 => .ok []
  | n + 1 =>
    match T.getSampleSizeDirect (first % 2^32) with
    | .error .ERROR_OUT_OF_RANGE => .ok []
    | .error err => .error err
    | .ok size => (readSampleSizes (first + 1) n).map (size :: ·)

/-- The chunk of a sample in the current range. -/
def chunkOf (c : ChunkRange) (sampleIndex : Nat) : Nat :=
  ((sampleIndex - c.mFirstChunkSampleIndex) / c.mSamplesPerChunk + c.mFirstChunk) % 2^32

/-- The first sample of a chunk in the current range. -/
def firstSampleOf (c : ChunkRange) (chunk : Nat) : Nat :=
  (c.mFirstChunkSampleIndex + c.mSamplesPerChunk * ((chunk + 2^32 - c.mFirstChunk) % 2^32)) % 2^32

/-- Make `chunk` the current chunk. If `stsz` ends within it, `mSamplesPerChunk` is cut to
the number of sizes read. -/
def loadChunk (it : SampleIterator) (chunk : Nat) : Status × SampleIterator :=
  match T.getChunkOffset chunk with
  | .error err => (err, { it with mCurrentChunkOffset := 0 })
  | .ok offset =>
    let it := { it with mCurrentChunkOffset := offset }
    match readSampleSizes T (firstSampleOf it.toChunkRange chunk) it.mSamplesPerChunk with
    | .error err => (err, { it with mCurrentChunkSampleSizes := [] })
    | .ok sizes =>
      (.OK, { it with
        mCurrentChunkSampleSizes := sizes
        mSamplesPerChunk := sizes.length
        mCurrentChunkIndex := chunk })

/-- The range part of `seekTo`. -/
def seekRange (it : SampleIterator) (sampleIndex : Nat) : Status × SampleIterator :=
  let it := if ¬it.mInitialized ∨ sampleIndex < it.mFirstChunkSampleIndex then
    { it with toChunkRange := {} } else it
  let (status, range) :=
    it.toChunkRange.find sampleIndex (T.mSampleToChunkEntries.drop it.mSampleToChunkIndex)
  (status, { it with toChunkRange := range })

/-- The part of `seekTo` after the chunk is current; `none` if a size beyond the cached ones
is read. -/
def seekSample (s : Seeker) (sampleIndex : Nat) : Option (Status × Seeker) :=
  let it := s.it
  let relative := (sampleIndex - it.mFirstChunkSampleIndex) % it.mSamplesPerChunk
  match it.mCurrentChunkSampleSizes[relative]? with
  | none => none
  | some size =>
    let it := { it with
      mCurrentSampleOffset := (it.mCurrentChunkSampleSizes.take relative).foldl
        (fun offset size => offset + BitVec.ofNat 64 size) it.mCurrentChunkOffset
      mCurrentSampleSize := size }
    let it := if sampleIndex < it.mTTSSampleIndex then { it with toTimeRun := {} } else it
    match findSampleTimeAndDuration T { s with it := it } sampleIndex with
    | (.OK, s) =>
      some (.OK, { s with it.mCurrentSampleIndex := sampleIndex, it.mInitialized := true })
    | (err, s) => some (err, s)

def seekTo (s : Seeker) (sampleIndex : Nat) : Option (Status × Seeker) :=
  if T.mNumSampleSizes.toNat ≤ sampleIndex then some (.ERROR_END_OF_STREAM, s)
  else if T.Incomplete then some (.ERROR_MALFORMED, s)
  else if s.it.mInitialized ∧ s.it.mCurrentSampleIndex = sampleIndex then some (.OK, s)
  else
    match seekRange T s.it sampleIndex with
    | (.OK, it) =>
      if it.mSamplesPerChunk = 0 then some (.ERROR_MALFORMED, { s with it := it })
      else
        let chunk := chunkOf it.toChunkRange sampleIndex
        if ¬it.mInitialized ∨ chunk ≠ it.mCurrentChunkIndex then
          match loadChunk T it chunk with
          | (.OK, it) => seekSample T { s with it := it } sampleIndex
          | (err, it) => some (err, { s with it := it })
        else seekSample T { s with it := it } sampleIndex
    | (err, it) => some (err, { s with it := it })

end Seeker

end MediaFramework.Mp4
