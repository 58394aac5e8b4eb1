import Mathlib.Data.List.Basic
import Mathlib.Algebra.Ring.Int.Defs

/-!
# The callback source and its cache

`CallbackDataSource` and `TinyCacheSource` (`media/libstagefright`). Offsets are those at zero or
more, and buffers are in memory, so that the sums are in range.
-/

namespace MediaFramework.DataSource

/-! ### Bytes and the errors of `MediaErrors.h` that data sources return and look for -/

abbrev Byte := BitVec 8

def OK : Int := 0

def ERROR_OUT_OF_RANGE : Int := -1008

def ERROR_UNSUPPORTED : Int := -1010

def ERROR_END_OF_STREAM : Int := -1011

def EAGAIN : Int := 11

def EPIPE : Int := 32

/-! ### The callback source -/

/-- The source across the binder, which reads into the shared memory, and the size of that. -/
structure CallbackDataSource where
  mIDataSource : Nat → Nat → Int × List Byte
  bufferSize : Nat

namespace CallbackDataSource

variable (c : CallbackDataSource) (offset : Nat)

/-- The loop of `readAt`, with the bytes that have been read. -/
def readLoop (totalNumRead numLeft : Nat) (data : List Byte) : Int × List Byte :=
  if numLeft > 0 then
    let numToRead := min numLeft c.bufferSize
    let (numRead, memory) := c.mIDataSource (offset + totalNumRead) numToRead
    if numRead < 0 then
      (if numRead = ERROR_END_OF_STREAM ∧ totalNumRead > 0 then totalNumRead else numRead, data)
    else if numRead = 0 then (totalNumRead, data)
    else if numRead.toNat > numToRead then (ERROR_OUT_OF_RANGE, data)
    else
      readLoop (totalNumRead + numRead.toNat) (numLeft - numRead.toNat)
        (data ++ memory.take numRead.toNat)
  else (totalNumRead, data)
termination_by numLeft
decreasing_by omega

def readAt (size : Nat) : Int × List Byte := c.readLoop offset 0 size []

end CallbackDataSource

/-- The bytes in the cache are the first `mCachedSize` of `mCache`. -/
structure TinyCacheSource where
  mCache : List Byte := []
  mCachedOffset : Nat := 0
  mCachedSize : Nat := 0

namespace TinyCacheSource

def kCacheSize : Nat := 2048

variable (mSource : Nat → Nat → Int × List Byte) (t : TinyCacheSource)

/-- An offset in the cache. -/
def Holds (offset : Nat) : Prop :=
  t.mCachedOffset ≤ offset ∧ offset < t.mCachedOffset + t.mCachedSize

instance (offset : Nat) : Decidable (t.Holds offset) := inferInstanceAs (Decidable (_ ∧ _))

/-- The end of `readAt`, of an offset that is not in the cache. -/
def fill (offset size : Nat) : TinyCacheSource × Int × List Byte :=
  if size ≥ kCacheSize then (t, mSource offset size)
  else
    let (numRead, mCache) := mSource offset kCacheSize
    if numRead ≤ 0 then ({ mCache, mCachedSize := 0, mCachedOffset := 0 }, numRead, [])
    else if numRead.toNat > kCacheSize then
      ({ mCache, mCachedSize := 0, mCachedOffset := 0 }, ERROR_OUT_OF_RANGE, [])
    else
      let numToReturn := min size numRead.toNat
      ({ mCache, mCachedSize := numRead.toNat, mCachedOffset := offset }, numToReturn,
        mCache.take numToReturn)

/-- The offset of the recursive call is not in the cache. -/
def readAt (offset size : Nat) : TinyCacheSource × Int × List Byte :=
  if t.Holds offset then
    let cached := t.mCache.drop (offset - t.mCachedOffset)
    if offset + size ≤ t.mCachedOffset + t.mCachedSize then (t, size, cached.take size)
    else
      let remaining := t.mCachedOffset + t.mCachedSize - offset
      let (t, readMore, data) := readAt (offset + remaining) (size - remaining)
      if readMore < 0 then (t, readMore, cached.take remaining ++ data)
      else (t, remaining + readMore, cached.take remaining ++ data)
  else t.fill mSource offset size
termination_by if t.Holds offset then 1 else 0
decreasing_by
  all_goals rename_i hholds _
  all_goals rw [if_pos hholds, if_neg]
  all_goals first | decide | (rw [Holds] at hholds ⊢; omega)

end TinyCacheSource

end MediaFramework.DataSource
