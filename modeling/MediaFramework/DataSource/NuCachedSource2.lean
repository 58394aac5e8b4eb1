import MediaFramework.DataSource.PageCache
import MediaFramework.Lib.Machine
import MediaFramework.Lib.Blocks
import MediaFramework.Lib.Word

/-!
# The caching source, step by step

`NuCachedSource2` (`media/libstagefright`): the thread of its looper, which fetches and reads, and
clients that read. A step is what is done with `mLock` held or a call of the source. Positions in the
content stay in the range of `off64_t`, so sums of them are not cut; differences are.
-/

namespace MediaFramework.DataSource

open Word

/-- A call of `readAt`. -/
structure Request where
  offset : Int
  size : Nat
  deriving DecidableEq

/-- What `readAt` gives: its result and the bytes in the buffer of the caller. -/
structure Returned where
  request : Request
  result : Int
  data : List Byte
  deriving DecidableEq

/-- What the source answers. -/
inductive Answer
  | bytes (data : List Byte)
  | status (n : Int)

/-- Where the thread of the looper is. -/
inductive Looper
  | idle
  | reconnecting
  | fetching
  | reading (offset : Int)
  | fetched
  | delivering (returned : Returned)

/-- The cache parameters, and whether the source is one to disconnect at the high-water mark. -/
structure CacheParams where
  mHighwaterThresholdBytes : Nat
  mLowwaterThresholdBytes : Nat
  mDisconnectAtHighwatermark : Bool

def kPageSize : Nat := 65536

def kMaxNumRetries : Nat := 10

def kGrayArea : Nat := 1024 * 1024

def kPadding : Int := 256 * 1024

/-- The source, with the client that waits for a read, the message posted for it, where the looper is
and what a call of `readAt` has just returned. -/
structure NuCachedSource2 where
  mCache : PageCache := {}
  mCacheOffset : Int := 0
  mFinalStatus : Int := OK
  mLastAccessPos : Int := 0
  mAsyncResult : Option Returned := none
  mFetching : Bool := true
  mDisconnecting : Bool := false
  mNumRetriesLeft : Nat := kMaxNumRetries
  waiting : Option Request := none
  message : Option Request := none
  looper : Looper := .idle
  returned : Option Returned := none

namespace NuCachedSource2

variable (params : CacheParams) (s : NuCachedSource2)

/-- The position behind the bytes in the cache. -/
def cacheEnd : Int := s.mCacheOffset + s.mCache.mTotalSize

/-- No more bytes will be fetched. -/
def Final : Prop := s.mFinalStatus ≠ OK ∧ s.mNumRetriesLeft = 0

instance : Decidable s.Final := inferInstanceAs (Decidable (_ ∧ _))

def restartPrefetcherIfNecessary_l (ignoreLowWaterThreshold force : Bool) : NuCachedSource2 :=
  if s.mFetching ∨ s.Final then s
  else if ¬ignoreLowWaterThreshold ∧ ¬force ∧
      toSize (s.cacheEnd - s.mLastAccessPos) ≥ params.mLowwaterThresholdBytes then s
  else
    let maxBytes := toSize (s.mLastAccessPos - s.mCacheOffset)
    if ¬force ∧ maxBytes < kGrayArea then s
    else
      let maxBytes := if force then maxBytes else maxBytes - kGrayArea
      let (mCache, actualBytes) := s.mCache.releaseFromStart maxBytes
      { s with mCache, mCacheOffset := s.mCacheOffset + actualBytes, mFetching := true }

/-- The `CHECK` may fail. -/
def seekInternal_l (offset : Int) : Option NuCachedSource2 :=
  let s := { s with mLastAccessPos := offset }
  if offset ≥ s.mCacheOffset ∧ offset ≤ s.cacheEnd then some s
  else
    let totalSize := s.mCache.mTotalSize
    let (mCache, actualBytes) := s.mCache.releaseFromStart totalSize
    if actualBytes = totalSize then
      some { s with
        mCacheOffset := offset, mCache, mNumRetriesLeft := kMaxNumRetries, mFetching := true }
    else none

/-- The end of `readInternal`, after it may have sought: the result and the bytes. -/
def readCached (offset : Int) (size : Nat) : Option (Int × List Byte) :=
  let delta := toSize (offset - s.mCacheOffset)
  if s.Final then
    if delta ≥ s.mCache.mTotalSize then some (s.mFinalStatus, [])
    else
      let avail := s.mCache.mTotalSize - delta
      let avail := if avail > size then size else avail
      (s.mCache.copy delta avail).map fun data => ((avail : Int), data)
  else if toSize (offset + size) ≤ s.cacheEnd then
    (s.mCache.copy delta size).map fun data => ((size : Int), data)
  else some (-EAGAIN, [])

def readInternal (offset : Int) (size : Nat) : Option (NuCachedSource2 × Int × List Byte) :=
  if size > params.mHighwaterThresholdBytes then none
  else if s.mDisconnecting then some (s, ERROR_END_OF_STREAM, [])
  else
    let s :=
      if ¬s.mFetching then
        { s with mLastAccessPos := offset }.restartPrefetcherIfNecessary_l params false true
      else s
    let sought :=
      if offset < s.mCacheOffset ∨ offset ≥ s.cacheEnd then
        let seekOffset := if offset > kPadding then offset - kPadding else 0
        s.seekInternal_l seekOffset
      else some s
    sought.bind fun s => (s.readCached offset size).map fun read => (s, read)

/-- `onRead` up to the result. -/
def onRead (request : Request) : Option NuCachedSource2 :=
  (s.readInternal params request.offset request.size).map fun (s, result, data) =>
    if result = -EAGAIN then s
    else { s with message := none, looper := .delivering ⟨request, result, data⟩ }

/-- The rest of `onRead`. The result is made a number of 32 bits. -/
def deliver (returned : Returned) : Option NuCachedSource2 :=
  if s.mDisconnecting then some { s with looper := .idle }
  else if s.mAsyncResult.isSome then none
  else some { s with
    mAsyncResult := some { returned with result := toInt32 returned.result }, looper := .idle }

/-- `readAt` up to its wait. -/
def readAt (request : Request) : Option NuCachedSource2 :=
  if s.mDisconnecting then some { s with returned := some ⟨request, ERROR_END_OF_STREAM, []⟩ }
  else if request.offset ≥ s.mCacheOffset ∧ toSize (request.offset + request.size) ≤ s.cacheEnd then
    let delta := toSize (request.offset - s.mCacheOffset)
    (s.mCache.copy delta request.size).map fun data =>
      { s with
        mLastAccessPos := request.offset + request.size
        returned := some ⟨request, request.size, data⟩ }
  else if s.mAsyncResult.isSome then none
  else some { s with waiting := some request, message := some request }

/-- The rest of `readAt`, when the condition is signalled. -/
def wake (request : Request) : NuCachedSource2 :=
  if s.mDisconnecting then
    { s with
      mAsyncResult := none, waiting := none
      returned := some ⟨request, ERROR_END_OF_STREAM, []⟩ }
  else
    match s.mAsyncResult with
    | none => s
    | some r =>
      { s with
        mAsyncResult := none, waiting := none
        mLastAccessPos := if r.result > 0 then request.offset + r.result else s.mLastAccessPos
        returned := some { r with request } }

/-- `onFetch` up to the first call of the source; `due` says that a keep-alive is due. -/
def onFetch (due : Bool) : Option NuCachedSource2 :=
  let s := if s.Final then { s with mFetching := false } else s
  let keepAlive := ¬s.mFetching ∧ s.mFinalStatus = OK ∧ due
  if s.mFetching ∨ keepAlive then
    if ¬(s.mFinalStatus = OK ∨ s.mNumRetriesLeft > 0) then none
    else if s.mFinalStatus ≠ OK then
      some { s with mNumRetriesLeft := s.mNumRetriesLeft - 1, looper := .reconnecting }
    else some { s with looper := .fetching }
  else some (s.restartPrefetcherIfNecessary_l params false false)

/-- `fetchInternal` after a reconnection. -/
def reconnected (err : Int) : NuCachedSource2 :=
  if s.mDisconnecting then
    { s with mNumRetriesLeft := 0, mFinalStatus := ERROR_END_OF_STREAM, looper := .fetched }
  else if err = ERROR_UNSUPPORTED ∨ err = -EPIPE then
    { s with mNumRetriesLeft := 0, looper := .fetched }
  else if err ≠ OK then { s with looper := .fetched }
  else { s with looper := .fetching }

/-- `fetchInternal` after the source has been read. -/
def append (answer : Answer) : NuCachedSource2 :=
  let eos :=
    { s with mNumRetriesLeft := 0, mFinalStatus := ERROR_END_OF_STREAM, looper := .fetched }
  if s.mDisconnecting then eos
  else
    match answer with
    | .status n =>
      if n = 0 then eos
      else
        let mNumRetriesLeft := if n = ERROR_UNSUPPORTED ∨ n = -EPIPE then 0 else s.mNumRetriesLeft
        { s with mFinalStatus := n, mNumRetriesLeft, looper := .fetched }
    | .bytes data =>
      { s with
        mNumRetriesLeft := kMaxNumRetries, mFinalStatus := OK
        mCache := s.mCache.appendPage data, looper := .fetched }

/-- `onFetch` after `fetchInternal`. -/
def afterFetch : NuCachedSource2 :=
  if s.mFetching ∧ s.mCache.mTotalSize ≥ params.mHighwaterThresholdBytes then
    { s with
      mFetching := false
      mFinalStatus := if params.mDisconnectAtHighwatermark then -EAGAIN else s.mFinalStatus
      looper := .idle }
  else { s with looper := .idle }

def resumeFetchingIfNecessary : NuCachedSource2 :=
  s.restartPrefetcherIfNecessary_l params true false

end NuCachedSource2

/-! ### Steps -/

inductive SourceStep
  | readAt (request : Request)
  | wake
  | resumeFetchingIfNecessary
  | disconnect
  | onFetch (due : Bool)
  | reconnected (err : Int)
  | readSource
  | append (answer : Answer)
  | afterFetch
  | onRead
  | deliver

namespace SourceStep

variable (params : CacheParams)

/-- A `CHECK` that fails, a read behind the pages and a step that is not due give nothing. -/
def step (s : NuCachedSource2) (a : SourceStep) : Option NuCachedSource2 :=
  let s := { s with returned := none }
  match a with
  | .readAt request => s.readAt request
  | .wake => s.waiting.map s.wake
  | .resumeFetchingIfNecessary => some (s.resumeFetchingIfNecessary params)
  | .disconnect => some { s with mDisconnecting := true }
  | .onFetch due => s.onFetch params due
  | .reconnected err => some (s.reconnected err)
  | .readSource => some { s with looper := .reading s.cacheEnd }
  | .append answer => some (s.append answer)
  | .afterFetch => some (s.afterFetch params)
  | .onRead => s.message.bind (s.onRead params)
  | .deliver =>
    match s.looper with
    | .delivering returned => s.deliver returned
    | _ => none

/-- A source with the content answers a read of a page from `offset` on with some bytes, at the end
with 0, or with an error. -/
def Answers (content : List Byte) (offset : Int) : Answer → Prop
  | .bytes data => data ≠ [] ∧ data.length ≤ kPageSize ∧ Window content offset.toNat data
  | .status n => -2 ^ 31 ≤ n ∧ n ≤ 0 ∧ (n = 0 → content.length ≤ offset)

/-- The steps that are due, with the calls that clients may make. -/
def Due (content : List Byte) (s : NuCachedSource2) : SourceStep → Prop
  | .readAt request => s.waiting = none ∧ (-2 ^ 63 ≤ request.offset ∧ request.offset < 2 ^ 63) ∧
      request.size < 2 ^ 63 ∧ request.size ≤ params.mHighwaterThresholdBytes
  | .wake => s.waiting.isSome ∧ (s.mAsyncResult.isSome ∨ s.mDisconnecting)
  | .resumeFetchingIfNecessary | .disconnect => True
  | .onFetch _ => s.looper = .idle
  | .reconnected _ => s.looper = .reconnecting
  | .readSource => s.looper = .fetching
  | .append answer => ∃ offset, s.looper = .reading offset ∧ Answers content offset answer
  | .afterFetch => s.looper = .fetched
  | .onRead => s.looper = .idle ∧ s.message.isSome
  | .deliver => ∃ returned, s.looper = .delivering returned

end SourceStep

/-- The source that has been created, with its first fetch posted. -/
def cachedSource (params : CacheParams) : Machine NuCachedSource2 SourceStep where
  init := {}
  step := SourceStep.step params

end MediaFramework.DataSource
