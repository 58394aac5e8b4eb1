import MediaFramework.Lib.KeyedVector
import MediaFramework.Lib.Machine
import Mathlib.Data.Finset.Sort
import Mathlib.Data.Int.Order.Basic

/-!
# The buffer pool

`Accessor::Impl::BufferPool` (`media/bufferpool/2.0/AccessorImpl.cpp`) with the queues of
`BufferStatusObserver`. A map of sets is the set of its pairs. Counts are integers: what a `size_t`
would wrap to below zero is negative here. `none` is a null pointer or an end iterator that would be
dereferenced. Allocations, their handles, logging and the thread of the invalidator are left out.
-/

namespace MediaFramework.Bufferpool

abbrev ConnectionId := Int

abbrev TransactionId := Nat

abbrev BufferId := Nat

inductive BufferStatus
  | NOT_USED
  | USED
  | TRANSFER_TO
  | TRANSFER_FROM
  | TRANSFER_TIMEOUT
  | TRANSFER_LOST
  | TRANSFER_FETCH
  | TRANSFER_OK
  | TRANSFER_ERROR
  | INVALIDATION_ACK
  deriving DecidableEq

inductive ResultStatus
  | OK
  | NO_MEMORY
  | CRITICAL_ERROR
  deriving DecidableEq

structure BufferStatusMessage where
  transactionId : TransactionId := 0
  bufferId : BufferId
  newStatus : BufferStatus
  connectionId : ConnectionId
  targetConnectionId : ConnectionId := 0
  deriving DecidableEq

def kCleanUpDurationUs : Int := 500000

def kMinAllocBytesForEviction : Int := 1024 * 1024 * 15

def kMinBufferCountForEviction : Nat := 40

def SYNC_BUFFERID : BufferId := 4294967295

structure InternalBuffer where
  mOwnerCount : Int := 0
  mTransactionCount : Int := 0
  mAllocSize : Nat
  mConfig : List (BitVec 8)
  mInvalidated : Bool := false
  deriving DecidableEq

/-- Nobody has the buffer, and it is in no transaction. -/
def InternalBuffer.Idle (buffer : InternalBuffer) : Prop :=
  buffer.mOwnerCount = 0 ∧ buffer.mTransactionCount = 0

instance (buffer : InternalBuffer) : Decidable buffer.Idle :=
  inferInstanceAs (Decidable (buffer.mOwnerCount = 0 ∧ buffer.mTransactionCount = 0))

structure TransactionStatus where
  mBufferId : BufferId
  mSender : ConnectionId
  mReceiver : ConnectionId
  mStatus : BufferStatus
  mSenderValidated : Bool
  deriving DecidableEq

/-- The constructor of `TransactionStatus`. -/
def TransactionStatus.ofMessage (message : BufferStatusMessage) : TransactionStatus :=
  if message.newStatus = .TRANSFER_TO then
    { mBufferId := message.bufferId
      mSender := message.connectionId
      mReceiver := message.targetConnectionId
      mStatus := message.newStatus
      mSenderValidated := true }
  else
    { mBufferId := message.bufferId
      mSender := -1
      mReceiver := message.connectionId
      mStatus := message.newStatus
      mSenderValidated := false }

/-! ### Invalidations -/

/-- `isMessageLater`, on `uint32_t`. -/
def isMessageLater (curMsgId prevMsgId : Nat) : Bool :=
  curMsgId ≠ prevMsgId &&
    (curMsgId + 2 ^ 32 - prevMsgId) % 2 ^ 32 < (prevMsgId + 2 ^ 32 - curMsgId) % 2 ^ 32

def isBufferInRange (fromId toId bufferId : BufferId) : Bool :=
  if fromId < toId then fromId ≤ bufferId && bufferId < toId else fromId ≤ bufferId || bufferId < toId

/-- A buffer of the range is invalidated. -/
def invalidateIn (fromId toId bufferId : BufferId) (buffer : InternalBuffer) : InternalBuffer :=
  if isBufferInRange fromId toId bufferId then { buffer with mInvalidated := true } else buffer

structure Pending where
  mNeedsAck : Bool
  mFrom : BufferId
  mTo : BufferId
  mLeft : Int
  deriving DecidableEq

/-- What is posted on the invalidation channel. -/
structure InvalidationMessage where
  messageId : Nat
  fromBufferId : BufferId
  toBufferId : BufferId
  deriving DecidableEq

/-- An observer is whether it is still there. -/
structure Invalidation where
  mPendings : List Pending := []
  mAcks : KeyedVector ConnectionId Nat := .empty
  mObservers : KeyedVector ConnectionId Bool := .empty
  mInvalidationId : Nat := 0
  channel : List InvalidationMessage := []

namespace Invalidation

variable (inv : Invalidation)

def onConnect (conId : ConnectionId) (observer : Bool) : Invalidation :=
  { inv with
    mAcks := inv.mAcks.set conId inv.mInvalidationId
    mObservers :=
      if (inv.mObservers.find? conId).isSome then inv.mObservers else inv.mObservers.set conId observer }

def onClose (conId : ConnectionId) : Invalidation :=
  { inv with mAcks := inv.mAcks.remove conId, mObservers := inv.mObservers.remove conId }

def onAck (conId : ConnectionId) (msgId : Nat) : Invalidation :=
  match inv.mAcks.find? conId with
  | none => inv
  | some prevMsgId =>
    if isMessageLater msgId prevMsgId then { inv with mAcks := inv.mAcks.set conId msgId } else inv

/-- The id of the next message. Zero is left out when the ids wrap. -/
def nextId (mInvalidationId : Nat) : Nat :=
  if (mInvalidationId + 1) % 2 ^ 32 = 0 then 1 else (mInvalidationId + 1) % 2 ^ 32

/-- The loop of `onBufferInvalidated`, with the next message id. -/
def invalidatePendings (bufferId : BufferId) :
    Nat → List Pending → List Pending × Nat × List InvalidationMessage
  | mInvalidationId, [] => ([], mInvalidationId, [])
  | mInvalidationId, pending :: pendings =>
    if isBufferInRange pending.mFrom pending.mTo bufferId then
      if pending.mLeft - 1 = 0 then
        let (mInvalidationId, msgId) :=
          if pending.mNeedsAck then (nextId mInvalidationId, nextId mInvalidationId)
          else (mInvalidationId, 0)
        let (pendings, mInvalidationId, messages) := invalidatePendings bufferId mInvalidationId pendings
        (pendings, mInvalidationId, ⟨msgId, pending.mFrom, pending.mTo⟩ :: messages)
      else
        let (pendings, mInvalidationId, messages) := invalidatePendings bufferId mInvalidationId pendings
        ({ pending with mLeft := pending.mLeft - 1 } :: pendings, mInvalidationId, messages)
    else
      let (pendings, mInvalidationId, messages) := invalidatePendings bufferId mInvalidationId pendings
      (pending :: pendings, mInvalidationId, messages)

def onBufferInvalidated (bufferId : BufferId) : Invalidation :=
  let (pendings, mInvalidationId, messages) :=
    invalidatePendings bufferId inv.mInvalidationId inv.mPendings
  { inv with
    mPendings := pendings
    mInvalidationId := mInvalidationId
    channel := inv.channel ++ messages }

def onInvalidationRequest (needsAck : Bool) (fromId toId : BufferId) (left : Nat) : Invalidation :=
  let (mInvalidationId, msgId) :=
    if needsAck then (nextId inv.mInvalidationId, nextId inv.mInvalidationId)
    else (inv.mInvalidationId, 0)
  if left = 0 then
    { inv with
      mInvalidationId := mInvalidationId
      channel := inv.channel ++ [⟨msgId, fromId, toId⟩] }
  else
    { inv with
      mInvalidationId := mInvalidationId
      mPendings := inv.mPendings ++ [⟨needsAck, fromId, toId, left⟩] }

/-- An `int64_t` as an `int`. -/
def narrow (conId : ConnectionId) : Int := conId.bmod (2 ^ 32)

/-- `mObservers[conId]` makes an entry if there is none. -/
def lookUp (mObservers : KeyedVector ConnectionId Bool) (conId : ConnectionId) :
    KeyedVector ConnectionId Bool :=
  if (mObservers.find? conId).isSome then mObservers else mObservers.set conId false

/-- `onHandleAck`, with the connections whose observers are to be called and the id for them. -/
def onHandleAck : Invalidation × List ConnectionId × Nat :=
  if inv.mInvalidationId ≠ 0 then
    let late := (inv.mAcks.entries.filter fun e => e.2 ≠ inv.mInvalidationId).map Prod.fst
    let (called, deads) := late.partition fun conId => (inv.mObservers.find? conId).getD false
    let inv := called.foldl
      (fun inv conId => { inv with mAcks := inv.mAcks.set conId inv.mInvalidationId })
      { inv with mObservers := late.foldl lookUp inv.mObservers }
    -- the connections whose observers have gone are collected as `int`
    (deads.foldl (fun inv conId => inv.onClose (narrow conId)) inv, called, inv.mInvalidationId)
  else (inv, [], 0)

end Invalidation

/-! ### Statistics -/

structure Stats where
  mSizeCached : Int := 0
  mBuffersCached : Int := 0
  mSizeInUse : Int := 0
  mBuffersInUse : Int := 0
  mTotalAllocations : Nat := 0
  mTotalRecycles : Nat := 0
  mTotalTransfers : Nat := 0
  mTotalFetches : Nat := 0
  deriving DecidableEq

namespace Stats

variable (stats : Stats) (allocSize : Nat)

def onBufferAllocated : Stats :=
  { stats with
    mSizeCached := stats.mSizeCached + allocSize
    mBuffersCached := stats.mBuffersCached + 1
    mSizeInUse := stats.mSizeInUse + allocSize
    mBuffersInUse := stats.mBuffersInUse + 1
    mTotalAllocations := stats.mTotalAllocations + 1 }

def onBufferEvicted : Stats :=
  { stats with
    mSizeCached := stats.mSizeCached - allocSize
    mBuffersCached := stats.mBuffersCached - 1 }

def onBufferRecycled : Stats :=
  { stats with
    mSizeInUse := stats.mSizeInUse + allocSize
    mBuffersInUse := stats.mBuffersInUse + 1
    mTotalAllocations := stats.mTotalAllocations + 1
    mTotalRecycles := stats.mTotalRecycles + 1 }

def onBufferUnused : Stats :=
  { stats with
    mSizeInUse := stats.mSizeInUse - allocSize
    mBuffersInUse := stats.mBuffersInUse - 1 }

def onBufferSent : Stats := { stats with mTotalTransfers := stats.mTotalTransfers + 1 }

def onBufferFetched : Stats := { stats with mTotalFetches := stats.mTotalFetches + 1 }

end Stats

/-! ### The pool -/

/-- `mBufferStatusQueues` are those of the observer, which the clients write to. -/
structure BufferPool where
  mTimestampUs : Int := 0
  mLastCleanUpUs : Int := 0
  mSeq : BufferId := 0
  mStartSeq : BufferId := 0
  mBufferStatusQueues : KeyedVector ConnectionId (List BufferStatusMessage) := .empty
  mUsingBuffers : Finset (ConnectionId × BufferId) := ∅
  mUsingConnections : Finset (BufferId × ConnectionId) := ∅
  mPendingTransactions : Finset (ConnectionId × TransactionId) := ∅
  mCompletedTransactions : Finset TransactionId := ∅
  mTransactions : KeyedVector TransactionId TransactionStatus := .empty
  mBuffers : KeyedVector BufferId InternalBuffer := .empty
  mFreeBuffers : Finset BufferId := ∅
  mConnectionIds : Finset ConnectionId := ∅
  mInvalidation : Invalidation := {}
  mStats : Stats := {}

/-- The values of a key, in the order of the set. -/
def valuesOf {α β : Type} [DecidableEq α] [LinearOrder β] (mapOfSet : Finset (α × β)) (key : α) :
    List β :=
  ((mapOfSet.filter fun e => e.1 = key).image Prod.snd).sort (· ≤ ·)

namespace BufferPool

variable (pool : BufferPool)

/-- A buffer that nobody has any more goes to the free ones, or goes away if it is invalidated. -/
def retire (bufferId : BufferId) (buffer : InternalBuffer) : BufferPool :=
  if buffer.Idle then
    if ¬buffer.mInvalidated then
      { pool with
        mStats := pool.mStats.onBufferUnused buffer.mAllocSize
        mFreeBuffers := insert bufferId pool.mFreeBuffers }
    else
      { pool with
        mStats := (pool.mStats.onBufferUnused buffer.mAllocSize).onBufferEvicted buffer.mAllocSize
        mBuffers := pool.mBuffers.remove bufferId
        mInvalidation := pool.mInvalidation.onBufferInvalidated bufferId }
  else pool

/-- An owner of a buffer has gone. -/
def dropOwner (bufferId : BufferId) : Option BufferPool := do
  let buffer ← pool.mBuffers.find? bufferId
  let buffer := { buffer with mOwnerCount := buffer.mOwnerCount - 1 }
  return { pool with mBuffers := pool.mBuffers.set bufferId buffer }.retire bufferId buffer

/-- A transaction of a buffer has ended. -/
def dropTransaction (bufferId : BufferId) : Option BufferPool := do
  let buffer ← pool.mBuffers.find? bufferId
  let buffer := { buffer with mTransactionCount := buffer.mTransactionCount - 1 }
  return { pool with mBuffers := pool.mBuffers.set bufferId buffer }.retire bufferId buffer

def handleOwnBuffer (connectionId : ConnectionId) (bufferId : BufferId) :
    Option (BufferPool × Bool) :=
  let mUsingConnections := insert (bufferId, connectionId) pool.mUsingConnections
  if (connectionId, bufferId) ∈ pool.mUsingBuffers then
    some ({ pool with mUsingConnections := mUsingConnections }, false)
  else do
    let buffer ← pool.mBuffers.find? bufferId
    return ({ pool with
      mUsingBuffers := insert (connectionId, bufferId) pool.mUsingBuffers
      mUsingConnections := mUsingConnections
      mBuffers := pool.mBuffers.set bufferId { buffer with mOwnerCount := buffer.mOwnerCount + 1 } },
      true)

def handleReleaseBuffer (connectionId : ConnectionId) (bufferId : BufferId) :
    Option (BufferPool × Bool) :=
  let mUsingConnections := pool.mUsingConnections.erase (bufferId, connectionId)
  if (connectionId, bufferId) ∈ pool.mUsingBuffers then do
    let pool ← dropOwner
      { pool with mUsingBuffers := pool.mUsingBuffers.erase (connectionId, bufferId) } bufferId
    return ({ pool with mUsingConnections := mUsingConnections }, true)
  else some ({ pool with mUsingConnections := mUsingConnections }, false)

/-- A new transaction, which the buffer counts. -/
def startTransaction (message : BufferStatusMessage) (receiver : ConnectionId) : Option BufferPool := do
  let buffer ← pool.mBuffers.find? message.bufferId
  return { pool with
    mStats := pool.mStats.onBufferSent
    mTransactions := pool.mTransactions.set message.transactionId (.ofMessage message)
    mPendingTransactions := insert (receiver, message.transactionId) pool.mPendingTransactions
    mBuffers := pool.mBuffers.set message.bufferId
      { buffer with mTransactionCount := buffer.mTransactionCount + 1 } }

def handleTransferTo (message : BufferStatusMessage) : Option (BufferPool × Bool) :=
  if message.transactionId ∈ pool.mCompletedTransactions then
    some ({ pool with
      mCompletedTransactions := pool.mCompletedTransactions.erase message.transactionId }, true)
  else if pool.mBuffers.find? message.bufferId = none ∨
      (message.connectionId, message.bufferId) ∉ pool.mUsingBuffers then some (pool, false)
  else
    match pool.mTransactions.find? message.transactionId with
    | some found =>
      some ({ pool with
        mTransactions := pool.mTransactions.set message.transactionId
          { found with mSender := message.connectionId, mSenderValidated := true } }, true)
    | none =>
      if message.targetConnectionId ∉ pool.mConnectionIds then some (pool, false)
      else do
        let pool ← pool.startTransaction message message.targetConnectionId
        return (pool, true)

def handleTransferFrom (message : BufferStatusMessage) : Option (BufferPool × Bool) :=
  match pool.mTransactions.find? message.transactionId with
  | none => do
    let pool ← pool.startTransaction message message.connectionId
    return (pool, true)
  | some found =>
    if message.connectionId = found.mReceiver then
      some ({ pool with
        mTransactions := pool.mTransactions.set message.transactionId
          { found with mStatus := .TRANSFER_FROM } }, true)
    else some (pool, true)

/-- The receiver owns the buffer if the transfer was a success. -/
def ownTransferred (message : BufferStatusMessage) : Option BufferPool :=
  if message.newStatus = .TRANSFER_OK then
    (pool.handleOwnBuffer message.connectionId message.bufferId).map Prod.fst
  else some pool

/-- A transaction that ends before its sender has been heard of is kept in mind. -/
def complete (transactionId : TransactionId) (transaction : TransactionStatus) : BufferPool :=
  if transaction.mSenderValidated then pool
  else { pool with mCompletedTransactions := insert transactionId pool.mCompletedTransactions }

def handleTransferResult (message : BufferStatusMessage) : Option (BufferPool × Bool) :=
  match pool.mTransactions.find? message.transactionId with
  | none => some (pool, false)
  | some found =>
    if (message.connectionId, message.transactionId) ∈ pool.mPendingTransactions then do
      let pool :=
        { pool with
          mPendingTransactions :=
            pool.mPendingTransactions.erase (message.connectionId, message.transactionId) }
      let pool ← (pool.complete message.transactionId found).ownTransferred message
      let pool ← pool.dropTransaction message.bufferId
      return ({ pool with mTransactions := pool.mTransactions.remove message.transactionId }, true)
    else some (pool, false)

def handleMessage (message : BufferStatusMessage) : Option (BufferPool × Bool) :=
  match message.newStatus with
  | .NOT_USED => pool.handleReleaseBuffer message.connectionId message.bufferId
  | .TRANSFER_TO => pool.handleTransferTo message
  | .TRANSFER_FROM => pool.handleTransferFrom message
  | .TRANSFER_OK | .TRANSFER_ERROR => pool.handleTransferResult message
  | .INVALIDATION_ACK =>
    some ({ pool with
      mInvalidation := pool.mInvalidation.onAck message.connectionId message.bufferId }, true)
  | .USED | .TRANSFER_TIMEOUT | .TRANSFER_LOST | .TRANSFER_FETCH => some (pool, false)

/-- `getBufferStatusChanges`. The queues are read one after the other and are empty then. -/
def getBufferStatusChanges : BufferPool × List BufferStatusMessage :=
  ({ pool with mBufferStatusQueues := pool.mBufferStatusQueues.mapValues fun _ => [] },
    pool.mBufferStatusQueues.entries.flatMap fun e =>
      e.2.map fun message => { message with connectionId := e.1 })

/-- The messages are handled one after the other. -/
def handleMessages (pool : BufferPool) : List BufferStatusMessage → Option BufferPool
  | [] => some pool
  | message :: messages =>
    (pool.handleMessage message).bind fun handled => handleMessages handled.1 messages

def processStatusMessages (now : Int) : Option BufferPool :=
  let (pool, messages) := pool.getBufferStatusChanges
  { pool with mTimestampUs := now }.handleMessages messages

/-- A buffer of a connection that is closed. -/
def closeBuffer (connectionId : ConnectionId) (pool : BufferPool) (bufferId : BufferId) :
    Option BufferPool :=
  if (bufferId, connectionId) ∈ pool.mUsingConnections then
    dropOwner
      { pool with mUsingConnections := pool.mUsingConnections.erase (bufferId, connectionId) } bufferId
  else some pool

/-- A transaction of a connection that is closed. -/
def closeTransaction (pool : BufferPool) (transactionId : TransactionId) : Option BufferPool :=
  match pool.mTransactions.find? transactionId with
  | none => some pool
  | some transaction => do
    let pool ← (pool.complete transactionId transaction).dropTransaction transaction.mBufferId
    return { pool with mTransactions := pool.mTransactions.remove transactionId }

def handleClose (connectionId : ConnectionId) : Option BufferPool := do
  let pool ← (valuesOf pool.mUsingBuffers connectionId).foldlM (closeBuffer connectionId) pool
  let pool :=
    { pool with mUsingBuffers := pool.mUsingBuffers.filter fun e => e.1 ≠ connectionId }
  let pool ← (valuesOf pool.mPendingTransactions connectionId).foldlM closeTransaction pool
  return { pool with mConnectionIds := pool.mConnectionIds.erase connectionId }

/-- The first free buffer that the allocator finds compatible. -/
def firstCompatible (compatible : List (BitVec 8) → List (BitVec 8) → Bool)
    (params : List (BitVec 8)) : List BufferId → Option (Option (BufferId × InternalBuffer))
  | [] => some none
  | bufferId :: bufferIds => do
    let buffer ← pool.mBuffers.find? bufferId
    if compatible params buffer.mConfig then some (some (bufferId, buffer))
    else firstCompatible compatible params bufferIds

def getFreeBuffer (compatible : List (BitVec 8) → List (BitVec 8) → Bool)
    (params : List (BitVec 8)) : Option (BufferPool × Option BufferId) := do
  match ← pool.firstCompatible compatible params (pool.mFreeBuffers.sort (· ≤ ·)) with
  | none => return (pool, none)
  | some (bufferId, buffer) =>
    return ({ pool with
      mFreeBuffers := pool.mFreeBuffers.erase bufferId
      mStats := pool.mStats.onBufferRecycled buffer.mAllocSize }, some bufferId)

def addNewBuffer (allocSize : Nat) (params : List (BitVec 8)) : BufferPool × Option BufferId :=
  let bufferId := pool.mSeq
  let mSeq := (pool.mSeq + 1) % 2 ^ 32
  let pool := { pool with mSeq := if mSeq = SYNC_BUFFERID then 0 else mSeq }
  if pool.mBuffers.find? bufferId = none then
    ({ pool with
      mBuffers := pool.mBuffers.set bufferId { mAllocSize := allocSize, mConfig := params }
      mStats := pool.mStats.onBufferAllocated allocSize }, some bufferId)
  else (pool, none)

/-- A free buffer is evicted, if it is one. -/
def evict (bufferId : BufferId) : BufferPool :=
  match pool.mBuffers.find? bufferId with
  | none => pool
  | some buffer =>
    if buffer.Idle then
      { pool with
        mStats := pool.mStats.onBufferEvicted buffer.mAllocSize
        mBuffers := pool.mBuffers.remove bufferId
        mFreeBuffers := pool.mFreeBuffers.erase bufferId }
    else pool

/-- The loop of `cleanUp`, which ends when few buffers are left. -/
def evictFree (clearCache : Bool) (pool : BufferPool) : List BufferId → BufferPool
  | [] => pool
  | bufferId :: bufferIds =>
    if ¬clearCache ∧ pool.mStats.mSizeCached < kMinAllocBytesForEviction ∧
        pool.mBuffers.size < kMinBufferCountForEviction then pool
    else evictFree clearCache (pool.evict bufferId) bufferIds

def cleanUp (clearCache : Bool) : BufferPool :=
  if clearCache ∨ pool.mTimestampUs > pool.mLastCleanUpUs + kCleanUpDurationUs then
    evictFree clearCache { pool with mLastCleanUpUs := pool.mTimestampUs }
      (pool.mFreeBuffers.sort (· ≤ ·))
  else pool

/-- The buffers of a range are invalidated. The free ones go away at once. -/
def invalidate (needsAck : Bool) (fromId toId : BufferId) : BufferPool :=
  let pool := ((pool.mFreeBuffers.sort (· ≤ ·)).filter (isBufferInRange fromId toId)).foldl evict pool
  let left := (pool.mBuffers.entries.filter fun e => isBufferInRange fromId toId e.1).length
  { pool with
    mBuffers := pool.mBuffers.mapEntries (invalidateIn fromId toId)
    mInvalidation := pool.mInvalidation.onInvalidationRequest needsAck fromId toId left }

def flushBuffers : BufferPool :=
  let fromId := pool.mStartSeq
  let toId := pool.mSeq
  let pool := { pool with mStartSeq := pool.mSeq }
  if fromId ≠ toId then pool.invalidate true fromId toId else pool

/-! ### `Accessor::Impl` -/

/-- A connection whose id is in use is not opened. -/
def openConnection (id : ConnectionId) (observer : Bool) : BufferPool × ResultStatus :=
  if (pool.mBufferStatusQueues.find? id).isSome then (pool, .CRITICAL_ERROR)
  else
    ({ pool with
      mBufferStatusQueues := pool.mBufferStatusQueues.set id []
      mConnectionIds := insert id pool.mConnectionIds
      mInvalidation := pool.mInvalidation.onConnect id observer }, .OK)

def connect (id : ConnectionId) (observer : Bool) (now : Int) :
    Option (BufferPool × ResultStatus) := do
  let (pool, status) := pool.openConnection id observer
  let pool ← pool.processStatusMessages now
  return (pool.cleanUp false, status)

def close (connectionId : ConnectionId) (now : Int) : Option BufferPool := do
  let pool ← pool.processStatusMessages now
  let pool ← pool.handleClose connectionId
  return { pool with
    mBufferStatusQueues := pool.mBufferStatusQueues.remove connectionId
    mInvalidation := pool.mInvalidation.onClose connectionId }.cleanUp true

/-- `allocate`, up to where the lock is given back for the allocator if there is no free buffer. -/
def allocate (compatible : List (BitVec 8) → List (BitVec 8) → Bool) (connectionId : ConnectionId)
    (params : List (BitVec 8)) (now : Int) : Option (BufferPool × Option BufferId) := do
  let pool ← pool.processStatusMessages now
  let (pool, bufferId) ← pool.getFreeBuffer compatible params
  match bufferId with
  | none => return (pool, none)
  | some bufferId =>
    let (pool, _) ← pool.handleOwnBuffer connectionId bufferId
    return (pool.cleanUp false, some bufferId)

/-- The rest of `allocate`, with the size that the allocator gives unless it fails. -/
def allocateNew (connectionId : ConnectionId) (params : List (BitVec 8)) (allocSize : Option Nat) :
    Option (BufferPool × ResultStatus × Option BufferId) := do
  match allocSize with
  | none => return (pool.cleanUp false, .CRITICAL_ERROR, none)
  | some allocSize =>
    let (pool, bufferId) := pool.addNewBuffer allocSize params
    match bufferId with
    | none => return (pool.cleanUp false, .NO_MEMORY, none)
    | some bufferId =>
      let (pool, _) ← pool.handleOwnBuffer connectionId bufferId
      return (pool.cleanUp false, .OK, some bufferId)

def fetch (connectionId : ConnectionId) (transactionId : TransactionId) (bufferId : BufferId)
    (now : Int) : Option (BufferPool × ResultStatus) := do
  let pool ← pool.processStatusMessages now
  match pool.mTransactions.find? transactionId with
  | none => return (pool.cleanUp false, .CRITICAL_ERROR)
  | some found =>
    if (connectionId, transactionId) ∈ pool.mPendingTransactions ∧ found.mSenderValidated = true ∧
        found.mStatus = .TRANSFER_FROM ∧ found.mBufferId = bufferId then
      let pool :=
        { pool with
          mTransactions := pool.mTransactions.set transactionId
            { found with mStatus := .TRANSFER_FETCH } }
      if (pool.mBuffers.find? bufferId).isSome then
        return ({ pool with mStats := pool.mStats.onBufferFetched }, .OK)
      else return (pool.cleanUp false, .CRITICAL_ERROR)
    else return (pool.cleanUp false, .CRITICAL_ERROR)

def flush (now : Int) : Option BufferPool := do
  let pool ← pool.processStatusMessages now
  return pool.flushBuffers

def handleInvalidateAck (now : Int) : Option BufferPool := do
  let pool ← pool.processStatusMessages now
  return { pool with mInvalidation := pool.mInvalidation.onHandleAck.1 }

end BufferPool

/-! ### Calls in any order -/

/-- What is done under the lock, and a client that writes a message to its queue. -/
inductive Call
  | connect (id : ConnectionId) (observer : Bool) (now : Int)
  | post (connectionId : ConnectionId) (message : BufferStatusMessage)
  | close (connectionId : ConnectionId) (now : Int)
  | allocate (connectionId : ConnectionId) (params : List (BitVec 8)) (now : Int)
  | allocateNew (connectionId : ConnectionId) (params : List (BitVec 8)) (allocSize : Option Nat)
  | fetch (connectionId : ConnectionId) (transactionId : TransactionId) (bufferId : BufferId)
    (now : Int)
  | cleanUp (clearCache : Bool) (now : Int)
  | flush (now : Int)
  | handleInvalidateAck (now : Int)

def BufferPool.step (compatible : List (BitVec 8) → List (BitVec 8) → Bool) (pool : BufferPool) :
    Call → Option BufferPool
  | .connect id observer now => (pool.connect id observer now).map Prod.fst
  | .post connectionId message =>
    some { pool with
      mBufferStatusQueues := pool.mBufferStatusQueues.alter connectionId (· ++ [message]) }
  | .close connectionId now => pool.close connectionId now
  | .allocate connectionId params now => (pool.allocate compatible connectionId params now).map Prod.fst
  | .allocateNew connectionId params allocSize =>
    (pool.allocateNew connectionId params allocSize).map Prod.fst
  | .fetch connectionId transactionId bufferId now =>
    (pool.fetch connectionId transactionId bufferId now).map Prod.fst
  | .cleanUp clearCache now => (pool.processStatusMessages now).map fun pool => pool.cleanUp clearCache
  | .flush now => pool.flush now
  | .handleInvalidateAck now => pool.handleInvalidateAck now

/-- The pool under calls in any order. The allocator says what is compatible. -/
def machine (compatible : List (BitVec 8) → List (BitVec 8) → Bool) : Machine BufferPool Call where
  init := {}
  step := BufferPool.step compatible

end MediaFramework.Bufferpool
