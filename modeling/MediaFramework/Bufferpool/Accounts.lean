import MediaFramework.Bufferpool.Ownership
import Mathlib.Algebra.Order.Group.Int

/-!
# The accounts of the buffer pool

Messages that name the buffers they are about keep the accounts straight: transactions are counted,
the free buffers are those that nobody has, the statistics say what there is, and nothing missing is
looked up.
-/

namespace MediaFramework.Bufferpool

open BufferPool

variable {pool pool' : BufferPool} {buffer buffer' : InternalBuffer}
variable {connectionId c : ConnectionId} {bufferId b : BufferId} {transactionId : TransactionId}
variable {message : BufferStatusMessage} {transfers transfers' : BufferId → Nat}
variable {mBuffers : KeyedVector BufferId InternalBuffer} {mFreeBuffers : Finset BufferId}
variable {stats : Stats}

/-! ### The free buffers -/

/-- The free buffers are those that nobody has. -/
def FreeIdle (mBuffers : KeyedVector BufferId InternalBuffer) (mFreeBuffers : Finset BufferId) : Prop :=
  ∀ b, b ∈ mFreeBuffers ↔ ∃ buffer, mBuffers.find? b = some buffer ∧ buffer.Idle

theorem FreeIdle.notMem (h : FreeIdle mBuffers mFreeBuffers)
    (hbusy : ∀ buffer, mBuffers.find? bufferId = some buffer → ¬buffer.Idle) :
    bufferId ∉ mFreeBuffers := by
  rw [h]
  rintro ⟨buffer, hfind, hidle⟩
  exact hbusy buffer hfind hidle

theorem FreeIdle.set_busy (bufferId : BufferId) (h : FreeIdle mBuffers mFreeBuffers)
    (hbusy : ¬buffer.Idle) :
    FreeIdle (mBuffers.set bufferId buffer) (mFreeBuffers.erase bufferId) := by
  intro b
  rw [mBuffers.find?_set, Finset.mem_erase]
  split
  · next heq =>
    refine iff_of_false (fun hmem => hmem.1 heq) ?_
    rintro ⟨buffer₂, hfind, hidle⟩
    cases hfind
    exact hbusy hidle
  · next hne => rw [and_iff_right hne, h b]

theorem FreeIdle.set_idle (bufferId : BufferId) (h : FreeIdle mBuffers mFreeBuffers)
    (hidle : buffer.Idle) :
    FreeIdle (mBuffers.set bufferId buffer) (insert bufferId mFreeBuffers) := by
  intro b
  rw [mBuffers.find?_set, Finset.mem_insert]
  split
  · next heq => exact iff_of_true (.inl heq) ⟨buffer, rfl, hidle⟩
  · next hne => rw [or_iff_right hne, h b]

theorem FreeIdle.remove (bufferId : BufferId) (h : FreeIdle mBuffers mFreeBuffers) :
    FreeIdle (mBuffers.remove bufferId) (mFreeBuffers.erase bufferId) := by
  intro b
  rw [mBuffers.find?_remove, Finset.mem_erase]
  split
  · next heq =>
    refine iff_of_false (fun hmem => hmem.1 heq) ?_
    rintro ⟨buffer, hfind, _⟩
    cases hfind
  · next hne => rw [and_iff_right hne, h b]

/-! ### The statistics -/

def InternalBuffer.countInUse (buffer : InternalBuffer) : Nat := if buffer.Idle then 0 else 1

def InternalBuffer.sizeInUse (buffer : InternalBuffer) : Nat := if buffer.Idle then 0 else buffer.mAllocSize

/-- The statistics say how many buffers there are, how many are in use, and their sizes. -/
structure Stats.Agrees (stats : Stats) (mBuffers : KeyedVector BufferId InternalBuffer) : Prop where
  buffersCached : stats.mBuffersCached = mBuffers.total fun _ => 1
  sizeCached : stats.mSizeCached = mBuffers.total InternalBuffer.mAllocSize
  buffersInUse : stats.mBuffersInUse = mBuffers.total InternalBuffer.countInUse
  sizeInUse : stats.mSizeInUse = mBuffers.total InternalBuffer.sizeInUse

theorem countInUse_of_idle (h : buffer.Idle) : buffer.countInUse = 0 := if_pos h

theorem countInUse_of_busy (h : ¬buffer.Idle) : buffer.countInUse = 1 := if_neg h

theorem sizeInUse_of_idle (h : buffer.Idle) : buffer.sizeInUse = 0 := if_pos h

theorem sizeInUse_of_busy (h : ¬buffer.Idle) : buffer.sizeInUse = buffer.mAllocSize := if_neg h

/-- What the statistics say when a buffer changes, in terms of the buffer. -/
theorem Stats.Agrees.set (h : stats.Agrees mBuffers) (hfind : mBuffers.find? bufferId = some buffer)
    {stats' : Stats}
    (hbuffersCached : stats'.mBuffersCached = stats.mBuffersCached)
    (hsizeCached : stats'.mSizeCached = stats.mSizeCached - buffer.mAllocSize + buffer'.mAllocSize)
    (hbuffersInUse : stats'.mBuffersInUse =
      stats.mBuffersInUse - buffer.countInUse + buffer'.countInUse)
    (hsizeInUse : stats'.mSizeInUse = stats.mSizeInUse - buffer.sizeInUse + buffer'.sizeInUse) :
    stats'.Agrees (mBuffers.set bufferId buffer') := by
  have hset : ∀ f : InternalBuffer → Nat,
      ((mBuffers.set bufferId buffer').total f : Int) = mBuffers.total f - f buffer + f buffer' := by
    intro f
    have hset := mBuffers.total_set f bufferId buffer'
    rw [hfind, Option.map_some, Option.getD_some] at hset
    omega
  constructor
  · rw [hset, hbuffersCached, h.buffersCached]
    omega
  · rw [hset, hsizeCached, h.sizeCached]
  · rw [hset, hbuffersInUse, h.buffersInUse]
  · rw [hset, hsizeInUse, h.sizeInUse]

theorem Stats.Agrees.set_busy (h : stats.Agrees mBuffers)
    (hfind : mBuffers.find? bufferId = some buffer) (hbusy : ¬buffer.Idle) (hbusy' : ¬buffer'.Idle)
    (hsize : buffer'.mAllocSize = buffer.mAllocSize) : stats.Agrees (mBuffers.set bufferId buffer') := by
  refine h.set hfind rfl ?_ ?_ ?_
  · rw [hsize]
    omega
  · rw [countInUse_of_busy hbusy, countInUse_of_busy hbusy']
    omega
  · rw [sizeInUse_of_busy hbusy, sizeInUse_of_busy hbusy', hsize]
    omega

theorem Stats.Agrees.onBufferUnused (h : stats.Agrees mBuffers)
    (hfind : mBuffers.find? bufferId = some buffer) (hbusy : ¬buffer.Idle) (hidle : buffer'.Idle)
    (hsize : buffer'.mAllocSize = buffer.mAllocSize) :
    (stats.onBufferUnused buffer'.mAllocSize).Agrees (mBuffers.set bufferId buffer') := by
  refine h.set hfind rfl ?_ ?_ ?_
  · show stats.mSizeCached = _
    rw [hsize]
    omega
  · show stats.mBuffersInUse - 1 = _
    rw [countInUse_of_busy hbusy, countInUse_of_idle hidle]
    omega
  · show stats.mSizeInUse - _ = _
    rw [sizeInUse_of_busy hbusy, sizeInUse_of_idle hidle, hsize]
    omega

theorem Stats.Agrees.onBufferRecycled (h : stats.Agrees mBuffers)
    (hfind : mBuffers.find? bufferId = some buffer) (hidle : buffer.Idle) (hbusy : ¬buffer'.Idle)
    (hsize : buffer'.mAllocSize = buffer.mAllocSize) :
    (stats.onBufferRecycled buffer.mAllocSize).Agrees (mBuffers.set bufferId buffer') := by
  refine h.set hfind rfl ?_ ?_ ?_
  · show stats.mSizeCached = _
    rw [hsize]
    omega
  · show stats.mBuffersInUse + 1 = _
    rw [countInUse_of_idle hidle, countInUse_of_busy hbusy]
    omega
  · show stats.mSizeInUse + _ = _
    rw [sizeInUse_of_idle hidle, sizeInUse_of_busy hbusy, hsize]
    omega

theorem Stats.Agrees.onBufferEvicted (h : stats.Agrees mBuffers)
    (hfind : mBuffers.find? bufferId = some buffer) (hidle : buffer.Idle) :
    (stats.onBufferEvicted buffer.mAllocSize).Agrees (mBuffers.remove bufferId) := by
  have hremove : ∀ f : InternalBuffer → Nat,
      ((mBuffers.remove bufferId).total f : Int) = mBuffers.total f - f buffer := by
    intro f
    have hremove := mBuffers.total_remove f bufferId
    rw [hfind, Option.map_some, Option.getD_some] at hremove
    omega
  constructor
  · rw [hremove, ← h.buffersCached]
    rfl
  · rw [hremove, ← h.sizeCached]
    rfl
  · rw [hremove, ← h.buffersInUse, countInUse_of_idle hidle]
    exact (Int.sub_zero _).symm
  · rw [hremove, ← h.sizeInUse, sizeInUse_of_idle hidle]
    exact (Int.sub_zero _).symm

theorem Stats.Agrees.onBufferAllocated (h : stats.Agrees mBuffers)
    (hnone : mBuffers.find? bufferId = none) (hbusy : ¬buffer.Idle) :
    (stats.onBufferAllocated buffer.mAllocSize).Agrees (mBuffers.set bufferId buffer) := by
  have hset : ∀ f : InternalBuffer → Nat,
      ((mBuffers.set bufferId buffer).total f : Int) = mBuffers.total f + f buffer := by
    intro f
    have hset := mBuffers.total_set f bufferId buffer
    rw [hnone, Option.map_none, Option.getD_none] at hset
    omega
  constructor
  · rw [hset, ← h.buffersCached]
    rfl
  · rw [hset, ← h.sizeCached]
    rfl
  · rw [hset, ← h.buffersInUse, countInUse_of_busy hbusy]
    rfl
  · rw [hset, ← h.sizeInUse, sizeInUse_of_busy hbusy]
    rfl

/-! ### The accounts -/

/-- The accounts when `transfers` says how many transactions each buffer is in. -/
structure Balanced (transfers : BufferId → Nat) (pool : BufferPool) : Prop where
  inTransfer : Tallied InternalBuffer.mTransactionCount transfers pool.mBuffers
  free : FreeIdle pool.mBuffers pool.mFreeBuffers
  stats : pool.mStats.Agrees pool.mBuffers

/-- How many transactions a buffer is in. -/
def transfersOf (mTransactions : KeyedVector TransactionId TransactionStatus) (bufferId : BufferId) :
    Nat :=
  mTransactions.total fun transaction => if transaction.mBufferId = bufferId then 1 else 0

structure Accounts (pool : BufferPool) : Prop where
  owned : Owned pool
  balanced : Balanced (transfersOf pool.mTransactions) pool

theorem Balanced.notFree (h : Balanced transfers pool)
    (hfind : pool.mBuffers.find? bufferId = some buffer) (hbusy : ¬buffer.Idle) :
    pool.mFreeBuffers.erase bufferId = pool.mFreeBuffers := by
  refine Finset.erase_eq_of_notMem (h.free.notMem fun buffer₂ hfind₂ => ?_)
  rw [hfind] at hfind₂
  cases hfind₂
  exact hbusy

/-- The counts of a buffer that somebody has change, and it is retired if nobody has it then. -/
theorem Balanced.retire (h : Balanced transfers pool) (hfind : pool.mBuffers.find? bufferId = some buffer)
    (hbusy : ¬buffer.Idle) (hothers : ∀ b ≠ bufferId, transfers' b = transfers b)
    (hcount : buffer'.mTransactionCount = transfers' bufferId)
    (hsize : buffer'.mAllocSize = buffer.mAllocSize) :
    Balanced transfers'
      ({ pool with mBuffers := pool.mBuffers.set bufferId buffer' }.retire bufferId buffer') := by
  have htransfer := h.inTransfer.set hothers hcount
  rw [BufferPool.retire]
  split
  · next hidle =>
    have hfree := h.free.set_idle bufferId hidle
    have hstats := h.stats.onBufferUnused hfind hbusy hidle hsize
    split
    · exact ⟨htransfer, hfree, hstats⟩
    · -- an invalidated buffer goes away
      have hfound : (pool.mBuffers.set bufferId buffer').find? bufferId = some buffer' := by
        rw [KeyedVector.find?_set, if_pos rfl]
      have hzero : transfers' bufferId = 0 := by
        have hnone := hidle.2
        omega
      have hremoved := hfree.remove bufferId
      rw [Finset.erase_insert_eq_erase, h.notFree hfind hbusy] at hremoved
      exact ⟨htransfer.remove hzero, hremoved, hstats.onBufferEvicted hfound hidle⟩
  · next hbusy' =>
    have hfree := h.free.set_busy bufferId hbusy'
    rw [h.notFree hfind hbusy] at hfree
    exact ⟨htransfer, hfree, h.stats.set_busy hfind hbusy hbusy' hsize⟩

/-- A buffer that somebody has stays so. -/
theorem Balanced.set (transfers' : BufferId → Nat) (buffer' : InternalBuffer)
    (h : Balanced transfers pool) (hfind : pool.mBuffers.find? bufferId = some buffer) (hbusy : ¬buffer.Idle) (hbusy' : ¬buffer'.Idle)
    (hothers : ∀ b ≠ bufferId, transfers' b = transfers b)
    (hcount : buffer'.mTransactionCount = transfers' bufferId)
    (hsize : buffer'.mAllocSize = buffer.mAllocSize) :
    Balanced transfers' { pool with mBuffers := pool.mBuffers.set bufferId buffer' } := by
  have hretire := h.retire hfind hbusy hothers hcount hsize
  rwa [BufferPool.retire, if_neg hbusy'] at hretire

/-- A free buffer is evicted. -/
theorem Balanced.evict (h : Balanced transfers pool) : Balanced transfers (pool.evict bufferId) := by
  rw [BufferPool.evict]
  split
  · exact h
  · next buffer hfind =>
    split
    · next hidle =>
      have hzero : transfers bufferId = 0 := by
        have hcount := h.inTransfer.count bufferId buffer hfind
        have hnone := hidle.2
        omega
      exact ⟨h.inTransfer.remove hzero, h.free.remove _, h.stats.onBufferEvicted hfind hidle⟩
    · exact h

theorem not_idle_succ (h : buffer.Idle) :
    ¬InternalBuffer.Idle { buffer with mOwnerCount := buffer.mOwnerCount + 1 } := by
  rintro ⟨howner, _⟩
  have hnone := h.1
  dsimp only at howner
  omega

/-- A free buffer gets an owner. -/
theorem Balanced.recycle (h : Balanced transfers pool)
    (hfind : pool.mBuffers.find? bufferId = some buffer) (hidle : buffer.Idle) :
    Balanced transfers { pool with
      mFreeBuffers := pool.mFreeBuffers.erase bufferId
      mStats := pool.mStats.onBufferRecycled buffer.mAllocSize
      mBuffers := pool.mBuffers.set bufferId { buffer with mOwnerCount := buffer.mOwnerCount + 1 } } :=
  ⟨h.inTransfer.set (fun _ _ => rfl) (h.inTransfer.count bufferId buffer hfind),
    h.free.set_busy _ (not_idle_succ hidle),
    h.stats.onBufferRecycled hfind hidle (not_idle_succ hidle) rfl⟩

/-- A new buffer with an owner. -/
theorem Balanced.allocated (buffer : InternalBuffer) (h : Balanced transfers pool)
    (hnone : pool.mBuffers.find? bufferId = none) (howner : buffer.mOwnerCount = 1) (htransaction : buffer.mTransactionCount = 0) :
    Balanced transfers { pool with
      mStats := pool.mStats.onBufferAllocated buffer.mAllocSize
      mBuffers := pool.mBuffers.set bufferId buffer } := by
  have hbusy : ¬buffer.Idle := by
    rintro ⟨hidle, _⟩
    omega
  have hzero := h.inTransfer.absent hnone
  have hfree := h.free.set_busy bufferId hbusy
  have hnotFree : bufferId ∉ pool.mFreeBuffers := by
    refine h.free.notMem fun buffer₂ hfind₂ => ?_
    rw [hnone] at hfind₂
    cases hfind₂
  rw [Finset.erase_eq_of_notMem hnotFree] at hfree
  exact ⟨h.inTransfer.set (fun _ _ => rfl) (by omega), hfree, h.stats.onBufferAllocated hnone hbusy⟩

theorem invalidateIn_eq (fromId toId bufferId : BufferId) (buffer : InternalBuffer) :
    ∃ mInvalidated, invalidateIn fromId toId bufferId buffer =
      { buffer with mInvalidated := mInvalidated } := by
  rw [invalidateIn]
  split
  · exact ⟨true, rfl⟩
  · exact ⟨_, rfl⟩

/-- Buffers are invalidated. -/
theorem Balanced.invalidated (fromId toId : BufferId) (h : Balanced transfers pool) :
    Balanced transfers
      { pool with mBuffers := pool.mBuffers.mapEntries (invalidateIn fromId toId) } := by
  have htotal : ∀ f : InternalBuffer → Nat, (∀ buffer mInvalidated,
      f { buffer with mInvalidated := mInvalidated } = f buffer) →
        (pool.mBuffers.mapEntries (invalidateIn fromId toId)).total f = pool.mBuffers.total f := by
    intro f hf
    refine KeyedVector.total_mapEntries (fun b buffer => ?_) _
    obtain ⟨_, heq⟩ := invalidateIn_eq fromId toId b buffer
    rw [heq, hf]
  refine ⟨Tallied.mapEntries (fun b buffer => ?_) h.inTransfer, fun b => ?_, ?_⟩
  · obtain ⟨_, heq⟩ := invalidateIn_eq fromId toId b buffer
    rw [heq]
  · rw [h.free b, KeyedVector.find?_mapEntries]
    constructor
    · rintro ⟨buffer, hfind, hidle⟩
      refine ⟨_, congrArg _ hfind, ?_⟩
      obtain ⟨_, heq⟩ := invalidateIn_eq fromId toId b buffer
      rw [heq]
      exact hidle
    · rintro ⟨buffer₂, hfind₂, hidle⟩
      obtain ⟨buffer, hfind, rfl⟩ := Option.map_eq_some_iff.mp hfind₂
      obtain ⟨_, heq⟩ := invalidateIn_eq fromId toId b buffer
      rw [heq] at hidle
      exact ⟨buffer, hfind, hidle⟩
  · constructor
    · rw [htotal _ fun _ _ => rfl]
      exact h.stats.buffersCached
    · rw [htotal _ fun _ _ => rfl]
      exact h.stats.sizeCached
    · rw [htotal _ fun _ _ => rfl]
      exact h.stats.buffersInUse
    · rw [htotal _ fun _ _ => rfl]
      exact h.stats.sizeInUse

/-! ### Transactions -/

section

variable {mTransactions : KeyedVector TransactionId TransactionStatus} {transaction : TransactionStatus}

theorem transfersOf_remove (h : mTransactions.find? transactionId = some transaction) (b : BufferId) :
    transfersOf (mTransactions.remove transactionId) b + (if transaction.mBufferId = b then 1 else 0) =
      transfersOf mTransactions b := by
  have hremove := mTransactions.total_remove
    (fun transaction => if transaction.mBufferId = b then 1 else 0) transactionId
  rwa [h, Option.map_some, Option.getD_some] at hremove

theorem transfersOf_set_new (h : mTransactions.find? transactionId = none) (b : BufferId) :
    transfersOf (mTransactions.set transactionId transaction) b =
      transfersOf mTransactions b + if transaction.mBufferId = b then 1 else 0 := by
  have hset := mTransactions.total_set
    (fun transaction => if transaction.mBufferId = b then 1 else 0) transactionId transaction
  rwa [h, Option.map_none, Option.getD_none] at hset

/-- A transaction that keeps its buffer. -/
theorem transfersOf_set {found : TransactionStatus} (h : mTransactions.find? transactionId = some found)
    (hbuffer : transaction.mBufferId = found.mBufferId) :
    transfersOf (mTransactions.set transactionId transaction) = transfersOf mTransactions := by
  funext b
  have hset := mTransactions.total_set
    (fun transaction => if transaction.mBufferId = b then 1 else 0) transactionId transaction
  rw [h, Option.map_some, Option.getD_some, hbuffer] at hset
  exact Nat.add_right_cancel hset

end

/-! ### Steps -/

theorem Balanced.busy_of_transfer (bufferId : BufferId) (h : Balanced transfers pool) (htransfer : transfers bufferId ≠ 0) :
    ∃ buffer, pool.mBuffers.find? bufferId = some buffer ∧ ¬buffer.Idle := by
  obtain ⟨buffer, hfind⟩ := h.inTransfer.present bufferId htransfer
  refine ⟨buffer, hfind, fun hidle => htransfer ?_⟩
  have hcount := h.inTransfer.count bufferId buffer hfind
  have hnone := hidle.2
  omega

theorem busy_of_owned {using' : Finset (ConnectionId × BufferId)} (h : Counted using' mBuffers)
    (hmem : (connectionId, bufferId) ∈ using') :
    ∃ buffer, mBuffers.find? bufferId = some buffer ∧ ¬buffer.Idle := by
  have howners : owners using' bufferId ≠ 0 := by
    rw [owners]
    exact Finset.card_ne_zero_of_mem (Finset.mem_filter.mpr ⟨hmem, rfl⟩)
  obtain ⟨buffer, hfind⟩ := h.present bufferId howners
  refine ⟨buffer, hfind, fun hidle => howners ?_⟩
  have hcount := h.count bufferId buffer hfind
  have hnone := hidle.1
  omega

theorem not_idle_own (howner : 0 ≤ buffer.mOwnerCount) :
    ¬InternalBuffer.Idle { buffer with mOwnerCount := buffer.mOwnerCount + 1 } := by
  rintro ⟨hidle, _⟩
  dsimp only at hidle
  omega

theorem handleOwnBuffer_balanced (connectionId : ConnectionId) (howned : Owned pool) (h : Balanced transfers pool)
    (hfind : pool.mBuffers.find? bufferId = some buffer) (hbusy : ¬buffer.Idle) :
    ∃ pool' added, pool.handleOwnBuffer connectionId bufferId = some (pool', added) ∧
      Balanced transfers pool' ∧ pool'.mTransactions = pool.mTransactions := by
  rw [handleOwnBuffer]
  split
  · exact ⟨_, _, rfl, ⟨h.inTransfer, h.free, h.stats⟩, rfl⟩
  · have hcount := howned.counted.count bufferId buffer hfind
    have hset := h.set transfers { buffer with mOwnerCount := buffer.mOwnerCount + 1 } hfind hbusy
      (not_idle_own (by omega)) (fun _ _ => rfl) (h.inTransfer.count bufferId buffer hfind) rfl
    rw [hfind]
    exact ⟨_, _, rfl, ⟨hset.inTransfer, hset.free, hset.stats⟩, rfl⟩

theorem retire_mTransactions (pool : BufferPool) (bufferId : BufferId) (buffer : InternalBuffer) :
    (pool.retire bufferId buffer).mTransactions = pool.mTransactions := by
  obtain ⟨_, _, _, _, heq, _⟩ := retire_cases pool bufferId buffer
  rw [heq]

theorem dropOwner_balanced (pool : BufferPool) (h : Balanced transfers pool)
    (hfind : pool.mBuffers.find? bufferId = some buffer) (hbusy : ¬buffer.Idle) :
    ∃ pool', pool.dropOwner bufferId = some pool' ∧ Balanced transfers pool' ∧
      pool'.mTransactions = pool.mTransactions := by
  refine ⟨_, congrArg (Option.bind · _) hfind, ?_, retire_mTransactions _ _ _⟩
  exact h.retire hfind hbusy (fun _ _ => rfl) (h.inTransfer.count bufferId buffer hfind) rfl

theorem dropTransaction_balanced (h : Balanced transfers pool)
    (hothers : ∀ b ≠ bufferId, transfers' b = transfers b)
    (hcount : transfers' bufferId + 1 = transfers bufferId) :
    ∃ pool', pool.dropTransaction bufferId = some pool' ∧ Balanced transfers' pool' ∧
      pool'.mTransactions = pool.mTransactions := by
  obtain ⟨buffer, hfind, hbusy⟩ := h.busy_of_transfer bufferId (by omega)
  have htransactions := h.inTransfer.count bufferId buffer hfind
  refine ⟨_, congrArg (Option.bind · _) hfind, ?_, retire_mTransactions _ _ _⟩
  refine h.retire hfind hbusy hothers ?_ rfl
  show buffer.mTransactionCount - 1 = _
  omega

/-- A transaction ends. -/
theorem dropTransaction_remove {transaction : TransactionStatus}
    (h : Balanced (transfersOf pool.mTransactions) pool)
    (hfind : pool.mTransactions.find? transactionId = some transaction) :
    ∃ pool', pool.dropTransaction transaction.mBufferId = some pool' ∧
      Balanced (transfersOf (pool.mTransactions.remove transactionId)) pool' ∧
      pool'.mTransactions = pool.mTransactions := by
  refine dropTransaction_balanced h (fun b hb => ?_) ?_
  · have hremove := transfersOf_remove hfind b
    rwa [if_neg (Ne.symm hb)] at hremove
  · have hremove := transfersOf_remove hfind transaction.mBufferId
    rwa [if_pos rfl] at hremove

/-! ### Messages -/

/-- A message that starts a transaction names a buffer that somebody has, and the message with the
result names the buffer of the transaction. -/
def Sound (pool : BufferPool) (message : BufferStatusMessage) : Prop :=
  (message.newStatus = .TRANSFER_FROM → pool.mTransactions.find? message.transactionId = none →
    pool.mBuffers.find? message.bufferId ≠ none ∧ message.bufferId ∉ pool.mFreeBuffers) ∧
  (message.newStatus = .TRANSFER_OK ∨ message.newStatus = .TRANSFER_ERROR →
    (message.connectionId, message.transactionId) ∈ pool.mPendingTransactions →
      ∀ transaction ∈ pool.mTransactions.find? message.transactionId,
        transaction.mBufferId = message.bufferId)

instance (pool : BufferPool) (message : BufferStatusMessage) : Decidable (Sound pool message) :=
  inferInstanceAs (Decidable (_ ∧ _))

theorem startTransaction_accounts (connectionId : ConnectionId) (h : Accounts pool)
    (hnew : pool.mTransactions.find? message.transactionId = none)
    (hfind : pool.mBuffers.find? message.bufferId = some buffer) (hbusy : ¬buffer.Idle) :
    ∃ pool', pool.startTransaction message connectionId = some pool' ∧ Accounts pool' := by
  have hbuffer : (TransactionStatus.ofMessage message).mBufferId = message.bufferId := by
    rw [TransactionStatus.ofMessage]
    split <;> rfl
  have hcount := h.balanced.inTransfer.count message.bufferId buffer hfind
  have howner := h.owned.counted.count message.bufferId buffer hfind
  have hbusy' : ¬InternalBuffer.Idle
      { buffer with mTransactionCount := buffer.mTransactionCount + 1 } := by
    rintro ⟨_, hidle⟩
    dsimp only at hidle
    omega
  have hset := h.balanced.set
    (transfersOf (pool.mTransactions.set message.transactionId (.ofMessage message)))
    { buffer with mTransactionCount := buffer.mTransactionCount + 1 } hfind hbusy hbusy'
    (fun b hb => by rw [transfersOf_set_new hnew, hbuffer, if_neg (Ne.symm hb), Nat.add_zero])
    (by
      rw [transfersOf_set_new hnew, hbuffer, if_pos rfl]
      show buffer.mTransactionCount + 1 = _
      omega) rfl
  have hstart : pool.startTransaction message connectionId = some { pool with
      mStats := pool.mStats.onBufferSent
      mTransactions := pool.mTransactions.set message.transactionId (.ofMessage message)
      mPendingTransactions := insert (connectionId, message.transactionId) pool.mPendingTransactions
      mBuffers := pool.mBuffers.set message.bufferId
        { buffer with mTransactionCount := buffer.mTransactionCount + 1 } } :=
    congrArg (Option.bind · _) hfind
  refine ⟨_, hstart, startTransaction_owned h.owned hstart, hset.inTransfer, hset.free, ?_⟩
  exact ⟨hset.stats.buffersCached, hset.stats.sizeCached, hset.stats.buffersInUse, hset.stats.sizeInUse⟩

theorem handleReleaseBuffer_accounts (h : Accounts pool) :
    ∃ pool' ret, pool.handleReleaseBuffer connectionId bufferId = some (pool', ret) ∧
      Accounts pool' := by
  rw [handleReleaseBuffer]
  split
  · next hmem =>
    obtain ⟨buffer, hfind, hbusy⟩ := busy_of_owned h.owned.counted hmem
    obtain ⟨dropped, hdrop, hbalanced, hsame⟩ := dropOwner_balanced
      { pool with mUsingBuffers := pool.mUsingBuffers.erase (connectionId, bufferId) }
      ⟨h.balanced.inTransfer, h.balanced.free, h.balanced.stats⟩ hfind hbusy
    have hrelease : pool.handleReleaseBuffer connectionId bufferId = some ({ dropped with
        mUsingConnections := pool.mUsingConnections.erase (bufferId, connectionId) }, true) := by
      rw [handleReleaseBuffer, if_pos hmem, hdrop]
      rfl
    refine ⟨_, _, congrArg (Option.bind · _) hdrop, handleReleaseBuffer_owned h.owned hrelease, ?_⟩
    show Balanced (transfersOf dropped.mTransactions) _
    rw [hsame]
    exact ⟨hbalanced.inTransfer, hbalanced.free, hbalanced.stats⟩
  · next hmem =>
    have hrelease : pool.handleReleaseBuffer connectionId bufferId = some ({ pool with
        mUsingConnections := pool.mUsingConnections.erase (bufferId, connectionId) }, false) := by
      rw [handleReleaseBuffer, if_neg hmem]
    exact ⟨_, _, rfl, handleReleaseBuffer_owned h.owned hrelease,
      h.balanced.inTransfer, h.balanced.free, h.balanced.stats⟩

/-- A transaction changes in what does not concern its buffer. -/
theorem Accounts.setTransaction {found : TransactionStatus} (transaction : TransactionStatus)
    (h : Accounts pool)
    (hfound : pool.mTransactions.find? transactionId = some found)
    (hbuffer : transaction.mBufferId = found.mBufferId) :
    Accounts { pool with mTransactions := pool.mTransactions.set transactionId transaction } := by
  refine ⟨⟨h.owned.inverse, h.owned.counted⟩, ?_⟩
  show Balanced (transfersOf (pool.mTransactions.set transactionId transaction)) _
  rw [transfersOf_set hfound hbuffer]
  exact ⟨h.balanced.inTransfer, h.balanced.free, h.balanced.stats⟩

theorem handleTransferTo_accounts (h : Accounts pool) :
    ∃ pool' ret, pool.handleTransferTo message = some (pool', ret) ∧ Accounts pool' := by
  rw [handleTransferTo]
  split
  · exact ⟨_, _, rfl, ⟨h.owned.inverse, h.owned.counted⟩,
      h.balanced.inTransfer, h.balanced.free, h.balanced.stats⟩
  · split
    · exact ⟨_, _, rfl, h⟩
    · next hthere =>
      obtain ⟨_, hmem⟩ := not_or.mp hthere
      split
      · next found hfound => exact ⟨_, _, rfl, h.setTransaction _ hfound rfl⟩
      · next hnew =>
        split
        · exact ⟨_, _, rfl, h⟩
        · obtain ⟨buffer, hfind, hbusy⟩ := busy_of_owned h.owned.counted (not_not.mp hmem)
          obtain ⟨started, hstart, hstarted⟩ := startTransaction_accounts
            message.targetConnectionId h hnew hfind hbusy
          exact ⟨_, _, congrArg (Option.bind · _) hstart, hstarted⟩

theorem handleTransferFrom_accounts (h : Accounts pool)
    (hsound : pool.mTransactions.find? message.transactionId = none →
      pool.mBuffers.find? message.bufferId ≠ none ∧ message.bufferId ∉ pool.mFreeBuffers) :
    ∃ pool' ret, pool.handleTransferFrom message = some (pool', ret) ∧ Accounts pool' := by
  rw [handleTransferFrom]
  split
  · next hnew =>
    obtain ⟨hthere, hnotFree⟩ := hsound hnew
    obtain ⟨buffer, hfind⟩ := Option.ne_none_iff_exists'.mp hthere
    have hbusy : ¬buffer.Idle := fun hidle =>
      hnotFree ((h.balanced.free _).mpr ⟨buffer, hfind, hidle⟩)
    obtain ⟨started, hstart, hstarted⟩ := startTransaction_accounts
      message.connectionId h hnew hfind hbusy
    exact ⟨_, _, congrArg (Option.bind · _) hstart, hstarted⟩
  · next found hfound =>
    split
    · exact ⟨_, _, rfl, h.setTransaction _ hfound rfl⟩
    · exact ⟨_, _, rfl, h⟩

theorem complete_balanced (transactionId : TransactionId) (transaction : TransactionStatus)
    (h : Balanced transfers pool) :
    Balanced transfers (pool.complete transactionId transaction) ∧
      (pool.complete transactionId transaction).mTransactions = pool.mTransactions := by
  rw [complete]
  split
  · exact ⟨h, rfl⟩
  · exact ⟨⟨h.inTransfer, h.free, h.stats⟩, rfl⟩

theorem ownTransferred_balanced (howned : Owned pool) (h : Balanced transfers pool)
    (htransfer : transfers message.bufferId ≠ 0) :
    ∃ pool', pool.ownTransferred message = some pool' ∧ Balanced transfers pool' ∧
      pool'.mTransactions = pool.mTransactions := by
  rw [ownTransferred]
  split
  · obtain ⟨buffer, hfind, hbusy⟩ := h.busy_of_transfer message.bufferId htransfer
    obtain ⟨pool', added, hown, hbalanced, hsame⟩ := handleOwnBuffer_balanced
      message.connectionId howned h hfind hbusy
    exact ⟨pool', congrArg (Option.map Prod.fst) hown, hbalanced, hsame⟩
  · exact ⟨pool, rfl, h, rfl⟩

theorem handleTransferResult_accounts (h : Accounts pool)
    (hsound : (message.connectionId, message.transactionId) ∈ pool.mPendingTransactions →
      ∀ transaction ∈ pool.mTransactions.find? message.transactionId,
        transaction.mBufferId = message.bufferId) :
    ∃ pool' ret, pool.handleTransferResult message = some (pool', ret) ∧ Accounts pool' := by
  cases hfound : pool.mTransactions.find? message.transactionId with
  | none =>
    refine ⟨pool, false, ?_, h⟩
    rw [handleTransferResult, hfound]
  | some found =>
    by_cases hmem : (message.connectionId, message.transactionId) ∈ pool.mPendingTransactions
    · have hbuffer := hsound hmem found hfound
      have herased : Accounts { pool with
          mPendingTransactions :=
            pool.mPendingTransactions.erase (message.connectionId, message.transactionId) } :=
        ⟨⟨h.owned.inverse, h.owned.counted⟩,
          h.balanced.inTransfer, h.balanced.free, h.balanced.stats⟩
      obtain ⟨hcompleted, hsame⟩ := complete_balanced message.transactionId found herased.balanced
      have howned := complete_owned message.transactionId found herased.owned
      have htransfer : transfersOf pool.mTransactions message.bufferId ≠ 0 := by
        have hremove := transfersOf_remove hfound message.bufferId
        rw [if_pos hbuffer] at hremove
        omega
      obtain ⟨owning, hown, howning, hsame'⟩ := ownTransferred_balanced howned hcompleted htransfer
      have htransactions : owning.mTransactions = pool.mTransactions := hsame'.trans hsame
      rw [← htransactions] at howning hfound
      obtain ⟨dropped, hdrop, hdropped, hsame''⟩ := dropTransaction_remove howning hfound
      rw [hbuffer] at hdrop
      have hresult : pool.handleTransferResult message = some ({ dropped with
          mTransactions := dropped.mTransactions.remove message.transactionId }, true) := by
        rw [htransactions] at hfound
        rw [handleTransferResult, hfound]
        dsimp only
        rw [if_pos hmem, hown]
        exact congrArg (Option.bind · _) hdrop
      refine ⟨_, _, hresult, handleTransferResult_owned h.owned hresult, ?_⟩
      show Balanced (transfersOf (dropped.mTransactions.remove message.transactionId)) _
      rw [hsame'']
      exact ⟨hdropped.inTransfer, hdropped.free, hdropped.stats⟩
    · refine ⟨pool, false, ?_, h⟩
      rw [handleTransferResult, hfound]
      exact if_neg hmem

theorem handleMessage_accounts (h : Accounts pool) (hsound : Sound pool message) :
    ∃ pool' ret, pool.handleMessage message = some (pool', ret) ∧ Accounts pool' := by
  rw [handleMessage]
  cases hstatus : message.newStatus <;> dsimp only
  case NOT_USED => exact handleReleaseBuffer_accounts h
  case TRANSFER_TO => exact handleTransferTo_accounts h
  case TRANSFER_FROM => exact handleTransferFrom_accounts h (hsound.1 hstatus)
  case TRANSFER_OK => exact handleTransferResult_accounts h (hsound.2 (.inl hstatus))
  case TRANSFER_ERROR => exact handleTransferResult_accounts h (hsound.2 (.inr hstatus))
  all_goals exact ⟨_, _, rfl, ⟨h.owned.inverse, h.owned.counted⟩,
    h.balanced.inTransfer, h.balanced.free, h.balanced.stats⟩

/-- Each message is sound when its turn comes. -/
def SoundMessages (pool : BufferPool) : List BufferStatusMessage → Prop
  | [] => True
  | message :: messages => Sound pool message ∧
    ∀ handled ∈ pool.handleMessage message, SoundMessages handled.1 messages

instance decidableSoundMessages : ∀ pool messages, Decidable (SoundMessages pool messages)
  | _, [] => isTrue trivial
  | _, _ :: messages =>
    have : ∀ pool', Decidable (SoundMessages pool' messages) := fun pool' =>
      decidableSoundMessages pool' messages
    inferInstanceAs (Decidable (_ ∧ _))

theorem handleMessages_accounts {messages : List BufferStatusMessage} (h : Accounts pool)
    (hsound : SoundMessages pool messages) :
    ∃ pool', pool.handleMessages messages = some pool' ∧ Accounts pool' := by
  induction messages generalizing pool with
  | nil => exact ⟨pool, rfl, h⟩
  | cons message messages ih =>
    obtain ⟨hfirst, hrest⟩ := hsound
    obtain ⟨next, ret, hmessage, hnext⟩ := handleMessage_accounts h hfirst
    obtain ⟨pool', hmessages, hpool'⟩ := ih hnext (hrest (next, ret) hmessage)
    refine ⟨pool', ?_, hpool'⟩
    rw [handleMessages, hmessage]
    exact hmessages

/-- What is in the queues is sound, message by message. -/
def SoundQueues (pool : BufferPool) (now : Int) : Prop :=
  SoundMessages { pool.getBufferStatusChanges.1 with mTimestampUs := now } pool.getBufferStatusChanges.2

instance (pool : BufferPool) (now : Int) : Decidable (SoundQueues pool now) :=
  inferInstanceAs (Decidable (SoundMessages _ _))

theorem processStatusMessages_accounts {now : Int} (h : Accounts pool)
    (hsound : SoundQueues pool now) :
    ∃ pool', pool.processStatusMessages now = some pool' ∧ Accounts pool' := by
  rw [processStatusMessages]
  refine handleMessages_accounts ?_ hsound
  exact ⟨⟨h.owned.inverse, h.owned.counted⟩,
    h.balanced.inTransfer, h.balanced.free, h.balanced.stats⟩

/-! ### Closing -/

theorem closeBuffer_balanced (connectionId : ConnectionId) (bufferId : BufferId)
    {using' : Finset (ConnectionId × BufferId)} (howned : OwnedBy using' pool)
    (h : Balanced transfers pool) :
    ∃ pool', closeBuffer connectionId pool bufferId = some pool' ∧ Balanced transfers pool' ∧
      pool'.mTransactions = pool.mTransactions := by
  rw [closeBuffer]
  split
  · next hmem =>
    obtain ⟨buffer, hfind, hbusy⟩ := busy_of_owned howned.counted ((howned.inverse _ _).mpr hmem)
    exact dropOwner_balanced
      { pool with mUsingConnections := pool.mUsingConnections.erase (bufferId, connectionId) }
      ⟨h.inTransfer, h.free, h.stats⟩ hfind hbusy
  · exact ⟨pool, rfl, h, rfl⟩

theorem closeBuffers_balanced (connectionId : ConnectionId) (bufferIds : List BufferId)
    {using' : Finset (ConnectionId × BufferId)} (howned : OwnedBy using' pool) (h : Balanced transfers pool) :
    ∃ pool', bufferIds.foldlM (closeBuffer connectionId) pool = some pool' ∧
      Balanced transfers pool' ∧ pool'.mTransactions = pool.mTransactions := by
  induction bufferIds generalizing using' pool with
  | nil => exact ⟨pool, rfl, h, rfl⟩
  | cons bufferId bufferIds ih =>
    obtain ⟨next, hfirst, hnext, hsame⟩ := closeBuffer_balanced
      connectionId bufferId howned h
    obtain ⟨pool', hrest, hpool', hsame'⟩ := ih (closeBuffer_owned howned hfirst).1 hnext
    refine ⟨pool', ?_, hpool', hsame'.trans hsame⟩
    rw [List.foldlM_cons, hfirst]
    exact hrest

theorem closeTransaction_accounts (transactionId : TransactionId) (h : Accounts pool) :
    ∃ pool', closeTransaction pool transactionId = some pool' ∧ Accounts pool' := by
  cases hfound : pool.mTransactions.find? transactionId with
  | none =>
    refine ⟨pool, ?_, h⟩
    rw [closeTransaction, hfound]
  | some transaction =>
    obtain ⟨hcompleted, hsame⟩ := complete_balanced
      transactionId transaction h.balanced
    have hfound' := hfound
    rw [← hsame] at hcompleted hfound'
    obtain ⟨dropped, hdrop, hdropped, hsame'⟩ := dropTransaction_remove hcompleted hfound'
    have hclose : closeTransaction pool transactionId =
        some { dropped with mTransactions := dropped.mTransactions.remove transactionId } := by
      rw [closeTransaction, hfound]
      exact congrArg (Option.bind · _) hdrop
    refine ⟨_, hclose, closeTransaction_owned h.owned hclose, ?_⟩
    show Balanced (transfersOf (dropped.mTransactions.remove transactionId)) _
    rw [hsame']
    exact ⟨hdropped.inTransfer, hdropped.free, hdropped.stats⟩

theorem closeTransactions_accounts (transactionIds : List TransactionId) (h : Accounts pool) :
    ∃ pool', transactionIds.foldlM closeTransaction pool = some pool' ∧ Accounts pool' := by
  induction transactionIds generalizing pool with
  | nil => exact ⟨pool, rfl, h⟩
  | cons transactionId transactionIds ih =>
    obtain ⟨next, hfirst, hnext⟩ := closeTransaction_accounts transactionId h
    obtain ⟨pool', hrest, hpool'⟩ := ih hnext
    refine ⟨pool', ?_, hpool'⟩
    rw [List.foldlM_cons, hfirst]
    exact hrest

theorem handleClose_accounts (connectionId : ConnectionId) (h : Accounts pool) :
    ∃ pool', pool.handleClose connectionId = some pool' ∧ Accounts pool' := by
  obtain ⟨closed, hbuffers, hclosed, hsame⟩ := closeBuffers_balanced connectionId
    (valuesOf pool.mUsingBuffers connectionId) h.owned h.balanced
  obtain ⟨howned, husing⟩ := closeBuffers_owned h.owned hbuffers
  rw [owned_of_closed] at howned
  have hleft : Accounts { closed with
      mUsingBuffers := closed.mUsingBuffers.filter fun e => e.1 ≠ connectionId } := by
    refine ⟨?_, ?_⟩
    · rw [husing]
      exact ⟨howned.inverse, howned.counted⟩
    · show Balanced (transfersOf closed.mTransactions) _
      rw [hsame]
      exact ⟨hclosed.inTransfer, hclosed.free, hclosed.stats⟩
  obtain ⟨ended, htransactions, hended⟩ := closeTransactions_accounts
    (valuesOf closed.mPendingTransactions connectionId) hleft
  have hclose : pool.handleClose connectionId = some { ended with
      mConnectionIds := ended.mConnectionIds.erase connectionId } := by
    rw [handleClose, hbuffers]
    exact congrArg (Option.bind · _) htransactions
  exact ⟨_, hclose, handleClose_owned h.owned hclose,
    hended.balanced.inTransfer, hended.balanced.free, hended.balanced.stats⟩

/-! ### Cleaning up -/

theorem evict_mTransactions : (pool.evict bufferId).mTransactions = pool.mTransactions := by
  rw [evict]
  split
  · rfl
  · split <;> rfl

theorem evict_accounts (h : Accounts pool) : Accounts (pool.evict bufferId) := by
  refine ⟨evict_owned h.owned, ?_⟩
  rw [evict_mTransactions]
  exact h.balanced.evict

theorem evictFree_accounts {clearCache : Bool} {bufferIds : List BufferId} (h : Accounts pool) :
    Accounts (evictFree clearCache pool bufferIds) := by
  induction bufferIds generalizing pool with
  | nil => exact h
  | cons bufferId bufferIds ih =>
    rw [evictFree]
    split
    · exact h
    · exact ih (evict_accounts h)

theorem cleanUp_accounts (clearCache : Bool) (h : Accounts pool) :
    Accounts (pool.cleanUp clearCache) := by
  rw [cleanUp]
  split
  · apply evictFree_accounts
    exact ⟨⟨h.owned.inverse, h.owned.counted⟩,
      h.balanced.inTransfer, h.balanced.free, h.balanced.stats⟩
  · exact h

theorem foldl_evict_accounts (bufferIds : List BufferId) (h : Accounts pool) :
    Accounts (bufferIds.foldl evict pool) := by
  induction bufferIds generalizing pool with
  | nil => exact h
  | cons bufferId bufferIds ih => exact ih (evict_accounts h)

theorem invalidate_accounts {needsAck : Bool} {fromId toId : BufferId} (h : Accounts pool) :
    Accounts (pool.invalidate needsAck fromId toId) := by
  have hevicted := foldl_evict_accounts
    ((pool.mFreeBuffers.sort (· ≤ ·)).filter (isBufferInRange fromId toId)) h
  have hinvalidated := hevicted.balanced.invalidated fromId toId
  exact ⟨invalidate_owned h.owned, hinvalidated.inTransfer, hinvalidated.free, hinvalidated.stats⟩

theorem flushBuffers_accounts (h : Accounts pool) : Accounts pool.flushBuffers := by
  rw [flushBuffers]
  split
  · apply invalidate_accounts
    exact ⟨⟨h.owned.inverse, h.owned.counted⟩,
      h.balanced.inTransfer, h.balanced.free, h.balanced.stats⟩
  · exact ⟨⟨h.owned.inverse, h.owned.counted⟩,
      h.balanced.inTransfer, h.balanced.free, h.balanced.stats⟩

/-! ### Allocating -/

variable {compatible : List (BitVec 8) → List (BitVec 8) → Bool} {params : List (BitVec 8)}

/-- One connection owns the buffer, and it is in no transaction. -/
structure HeldOnlyBy (pool : BufferPool) (connectionId : ConnectionId) (bufferId : BufferId) : Prop where
  owner : ∀ c, (c, bufferId) ∈ pool.mUsingBuffers ↔ c = connectionId
  transaction : ∀ transactionId transaction,
    pool.mTransactions.find? transactionId = some transaction → transaction.mBufferId ≠ bufferId

theorem notMem_of_owners {using' : Finset (ConnectionId × BufferId)} (h : owners using' bufferId = 0)
    (c : ConnectionId) : (c, bufferId) ∉ using' := by
  intro hmem
  have hfilter : (c, bufferId) ∈ using'.filter fun e => e.2 = bufferId :=
    Finset.mem_filter.mpr ⟨hmem, rfl⟩
  rw [Finset.card_eq_zero.mp h] at hfilter
  exact Finset.notMem_empty _ hfilter

theorem ne_of_transfersOf {mTransactions : KeyedVector TransactionId TransactionStatus}
    {transaction : TransactionStatus} (h : transfersOf mTransactions bufferId = 0)
    (hfind : mTransactions.find? transactionId = some transaction) :
    transaction.mBufferId ≠ bufferId := by
  intro hbuffer
  have hremove := transfersOf_remove hfind bufferId
  rw [if_pos hbuffer, h] at hremove
  omega

/-- A buffer that nobody has is handed out. -/
theorem handleOwnBuffer_new (pool : BufferPool) (connectionId : ConnectionId)
    (hfind : pool.mBuffers.find? bufferId = some buffer)
    (howners : owners pool.mUsingBuffers bufferId = 0)
    (htransfers : transfersOf pool.mTransactions bufferId = 0) :
    pool.handleOwnBuffer connectionId bufferId = some ({ pool with
        mUsingBuffers := insert (connectionId, bufferId) pool.mUsingBuffers
        mUsingConnections := insert (bufferId, connectionId) pool.mUsingConnections
        mBuffers := pool.mBuffers.set bufferId
          { buffer with mOwnerCount := buffer.mOwnerCount + 1 } }, true) ∧
      HeldOnlyBy { pool with
        mUsingBuffers := insert (connectionId, bufferId) pool.mUsingBuffers
        mUsingConnections := insert (bufferId, connectionId) pool.mUsingConnections
        mBuffers := pool.mBuffers.set bufferId
          { buffer with mOwnerCount := buffer.mOwnerCount + 1 } } connectionId bufferId := by
  refine ⟨?_, fun c => ?_, fun transactionId transaction hfound => ne_of_transfersOf htransfers hfound⟩
  · rw [handleOwnBuffer, if_neg (notMem_of_owners howners connectionId), hfind]
    rfl
  · rw [Finset.mem_insert, or_iff_left (notMem_of_owners howners c), Prod.mk.injEq, and_iff_left rfl]

theorem evictFree_keeps (clearCache : Bool) (pool : BufferPool) (bufferIds : List BufferId) :
    (evictFree clearCache pool bufferIds).mUsingBuffers = pool.mUsingBuffers ∧
      (evictFree clearCache pool bufferIds).mTransactions = pool.mTransactions := by
  induction bufferIds generalizing pool with
  | nil => exact ⟨rfl, rfl⟩
  | cons bufferId bufferIds ih =>
    rw [evictFree]
    split
    · exact ⟨rfl, rfl⟩
    · obtain ⟨husing, htransactions⟩ := ih (pool.evict bufferId)
      rw [husing, htransactions, evict]
      split
      · exact ⟨rfl, rfl⟩
      · split <;> exact ⟨rfl, rfl⟩

theorem HeldOnlyBy.cleanUp {clearCache : Bool} (h : HeldOnlyBy pool connectionId bufferId) :
    HeldOnlyBy (pool.cleanUp clearCache) connectionId bufferId := by
  rw [BufferPool.cleanUp]
  split
  · obtain ⟨husing, htransactions⟩ := evictFree_keeps clearCache
      { pool with mLastCleanUpUs := pool.mTimestampUs } (pool.mFreeBuffers.sort (· ≤ ·))
    constructor
    · rw [husing]
      exact h.owner
    · rw [htransactions]
      exact h.transaction
  · exact h

theorem firstCompatible_spec (compatible : List (BitVec 8) → List (BitVec 8) → Bool)
    (params : List (BitVec 8)) {bufferIds : List BufferId}
    (hthere : ∀ b ∈ bufferIds, ∃ buffer, pool.mBuffers.find? b = some buffer ∧ buffer.Idle) :
    ∃ first, pool.firstCompatible compatible params bufferIds = some first ∧
      ∀ b buffer, first = some (b, buffer) → pool.mBuffers.find? b = some buffer ∧ buffer.Idle := by
  induction bufferIds with
  | nil => exact ⟨none, rfl, fun b buffer hfirst => by cases hfirst⟩
  | cons bufferId bufferIds ih =>
    obtain ⟨⟨buffer, hfind, hidle⟩, hrest⟩ := List.forall_mem_cons.mp hthere
    rw [firstCompatible, hfind]
    by_cases hcompatible : compatible params buffer.mConfig
    · refine ⟨some (bufferId, buffer), if_pos hcompatible, fun b buffer₂ hfirst => ?_⟩
      cases hfirst
      exact ⟨hfind, hidle⟩
    · obtain ⟨first, hfirst, hspec⟩ := ih hrest
      exact ⟨first, (if_neg hcompatible).trans hfirst, hspec⟩

theorem allocate_spec {now : Int} (h : Accounts pool) (hsound : SoundQueues pool now) :
    ∃ pool' result, pool.allocate compatible connectionId params now = some (pool', result) ∧
      Accounts pool' ∧ ∀ b, result = some b → HeldOnlyBy pool' connectionId b := by
  obtain ⟨processed, hprocess, hprocessed⟩ := processStatusMessages_accounts h hsound
  have hthere : ∀ b ∈ processed.mFreeBuffers.sort (· ≤ ·),
      ∃ buffer, processed.mBuffers.find? b = some buffer ∧ buffer.Idle :=
    fun b hb => (hprocessed.balanced.free b).mp ((Finset.mem_sort _).mp hb)
  obtain ⟨first, hfirst, hspec⟩ := firstCompatible_spec compatible params hthere
  cases first with
  | none =>
    refine ⟨processed, none, ?_, hprocessed, fun b hb => by cases hb⟩
    rw [allocate, hprocess]
    show Option.bind (processed.getFreeBuffer compatible params) _ = _
    rw [getFreeBuffer, hfirst]
    rfl
  | some found =>
    obtain ⟨b, buffer⟩ := found
    obtain ⟨hfind, hidle⟩ := hspec b buffer rfl
    have howners : owners processed.mUsingBuffers b = 0 := by
      have hcount := hprocessed.owned.counted.count b buffer hfind
      have hnone := hidle.1
      omega
    have htransfers : transfersOf processed.mTransactions b = 0 := by
      have hcount := hprocessed.balanced.inTransfer.count b buffer hfind
      have hnone := hidle.2
      omega
    obtain ⟨hown, hheld⟩ := handleOwnBuffer_new
      { processed with
        mFreeBuffers := processed.mFreeBuffers.erase b
        mStats := processed.mStats.onBufferRecycled buffer.mAllocSize }
      connectionId hfind howners htransfers
    have hfreed : Owned { processed with
        mFreeBuffers := processed.mFreeBuffers.erase b
        mStats := processed.mStats.onBufferRecycled buffer.mAllocSize } :=
      ⟨hprocessed.owned.inverse, hprocessed.owned.counted⟩
    have howned := handleOwnBuffer_owned hfreed hown
    have hbalanced := hprocessed.balanced.recycle hfind hidle
    have hnew : ∃ owning, handleOwnBuffer { processed with
          mFreeBuffers := processed.mFreeBuffers.erase b
          mStats := processed.mStats.onBufferRecycled buffer.mAllocSize } connectionId b =
          some (owning, true) ∧ Accounts owning ∧ HeldOnlyBy owning connectionId b :=
      ⟨_, hown, ⟨howned, hbalanced.inTransfer, hbalanced.free, hbalanced.stats⟩, hheld⟩
    obtain ⟨owning, hown, howning, hheld⟩ := hnew
    refine ⟨owning.cleanUp false, some b, ?_, cleanUp_accounts _ howning, fun b' hb => ?_⟩
    · rw [allocate, hprocess]
      show Option.bind (processed.getFreeBuffer compatible params) _ = _
      rw [getFreeBuffer, hfirst]
      show Option.bind (handleOwnBuffer _ connectionId b) _ = _
      rw [hown]
      rfl
    · cases hb
      exact hheld.cleanUp

theorem set_set (m : KeyedVector BufferId InternalBuffer) (b : BufferId) (buffer buffer' : InternalBuffer) :
    (m.set b buffer).set b buffer' = m.set b buffer' := by
  refine KeyedVector.ext_find? fun k => ?_
  rw [KeyedVector.find?_set, KeyedVector.find?_set, KeyedVector.find?_set]
  split <;> rfl

theorem allocateNew_spec {allocSize : Option Nat} (h : Accounts pool) :
    ∃ pool' status result,
      pool.allocateNew connectionId params allocSize = some (pool', status, result) ∧
      Accounts pool' ∧ ∀ b, result = some b → HeldOnlyBy pool' connectionId b := by
  cases allocSize with
  | none => exact ⟨_, _, _, rfl, cleanUp_accounts _ h, fun b hb => by cases hb⟩
  | some allocSize =>
    by_cases hnone : pool.mBuffers.find? pool.mSeq = none
    · have howners := h.owned.counted.absent hnone
      have htransfers := h.balanced.inTransfer.absent hnone
      have hadded := addNewBuffer_owned allocSize params h.owned
      have hbalanced := h.balanced.allocated
        { mOwnerCount := 0 + 1, mAllocSize := allocSize, mConfig := params } hnone rfl rfl
      have hadd : pool.addNewBuffer allocSize params = ({ pool with
          mSeq := if (pool.mSeq + 1) % 2 ^ 32 = SYNC_BUFFERID then 0 else (pool.mSeq + 1) % 2 ^ 32
          mBuffers := pool.mBuffers.set pool.mSeq { mAllocSize := allocSize, mConfig := params }
          mStats := pool.mStats.onBufferAllocated allocSize }, some pool.mSeq) := by
        rw [addNewBuffer]
        exact if_pos hnone
      rw [hadd] at hadded
      obtain ⟨hown, hheld⟩ := handleOwnBuffer_new
        { pool with
          mSeq := if (pool.mSeq + 1) % 2 ^ 32 = SYNC_BUFFERID then 0 else (pool.mSeq + 1) % 2 ^ 32
          mBuffers := pool.mBuffers.set pool.mSeq { mAllocSize := allocSize, mConfig := params }
          mStats := pool.mStats.onBufferAllocated allocSize }
        connectionId ((pool.mBuffers.find?_set _ _ _).trans (if_pos rfl)) howners htransfers
      have howned := handleOwnBuffer_owned hadded hown
      dsimp only at hown howned hheld
      rw [set_set] at hown howned hheld
      have hnew : ∃ owning, handleOwnBuffer { pool with
            mSeq := if (pool.mSeq + 1) % 2 ^ 32 = SYNC_BUFFERID then 0 else (pool.mSeq + 1) % 2 ^ 32
            mBuffers := pool.mBuffers.set pool.mSeq { mAllocSize := allocSize, mConfig := params }
            mStats := pool.mStats.onBufferAllocated allocSize } connectionId pool.mSeq =
            some (owning, true) ∧ Accounts owning ∧ HeldOnlyBy owning connectionId pool.mSeq :=
        ⟨_, hown, ⟨howned, hbalanced.inTransfer, hbalanced.free, hbalanced.stats⟩, hheld⟩
      obtain ⟨owning, hown, howning, hheld⟩ := hnew
      refine ⟨owning.cleanUp false, .OK, some pool.mSeq, ?_, cleanUp_accounts _ howning, fun b hb => ?_⟩
      · rw [allocateNew]
        dsimp only
        rw [hadd]
        exact congrArg (Option.bind · _) hown
      · cases hb
        exact hheld.cleanUp
    · have hadd : ∃ added, pool.addNewBuffer allocSize params = (added, none) ∧ Accounts added := by
        rw [addNewBuffer]
        exact ⟨_, if_neg hnone, ⟨h.owned.inverse, h.owned.counted⟩,
          h.balanced.inTransfer, h.balanced.free, h.balanced.stats⟩
      obtain ⟨added, hadd, hadded⟩ := hadd
      refine ⟨added.cleanUp false, .NO_MEMORY, none, ?_, cleanUp_accounts _ hadded,
        fun b hb => by cases hb⟩
      rw [allocateNew]
      dsimp only
      rw [hadd]
      rfl

/-! ### Runs -/

theorem openConnection_accounts (id : ConnectionId) (observer : Bool) (h : Accounts pool) :
    Accounts (pool.openConnection id observer).1 := by
  refine ⟨openConnection_owned h.owned, ?_⟩
  rw [openConnection]
  split
  · exact h.balanced
  · exact ⟨h.balanced.inTransfer, h.balanced.free, h.balanced.stats⟩

theorem fetch_accounts {now : Int} (h : Accounts pool) (hsound : SoundQueues pool now) :
    ∃ pool' status, pool.fetch connectionId transactionId bufferId now = some (pool', status) ∧
      Accounts pool' := by
  obtain ⟨processed, hprocess, hprocessed⟩ := processStatusMessages_accounts h hsound
  rw [fetch, hprocess]
  dsimp only [Option.bind_eq_bind, Option.bind_some]
  split
  · exact ⟨_, _, rfl, cleanUp_accounts _ hprocessed⟩
  · next found hfound =>
    split
    · have hset := hprocessed.setTransaction { found with mStatus := .TRANSFER_FETCH } hfound rfl
      split
      · refine ⟨_, _, rfl, ⟨hset.owned.inverse, hset.owned.counted⟩, ?_⟩
        exact ⟨hset.balanced.inTransfer, hset.balanced.free, hset.balanced.stats.buffersCached,
          hset.balanced.stats.sizeCached, hset.balanced.stats.buffersInUse,
          hset.balanced.stats.sizeInUse⟩
      · exact ⟨_, _, rfl, cleanUp_accounts _ hset⟩
    · exact ⟨_, _, rfl, cleanUp_accounts _ hprocessed⟩

/-- The messages that are in the queues when the call reads them are sound. -/
def SoundCall (pool : BufferPool) : Call → Prop
  | .connect id observer now => SoundQueues (pool.openConnection id observer).1 now
  | .post _ _ => True
  | .close _ now => SoundQueues pool now
  | .allocate _ _ now => SoundQueues pool now
  | .allocateNew _ _ _ => True
  | .fetch _ _ _ now => SoundQueues pool now
  | .cleanUp _ now => SoundQueues pool now
  | .flush now => SoundQueues pool now
  | .handleInvalidateAck now => SoundQueues pool now

instance decidableSoundCall : ∀ pool call, Decidable (SoundCall pool call)
  | _, .connect _ _ _ => inferInstanceAs (Decidable (SoundQueues _ _))
  | _, .post _ _ => isTrue trivial
  | _, .close _ _ => inferInstanceAs (Decidable (SoundQueues _ _))
  | _, .allocate _ _ _ => inferInstanceAs (Decidable (SoundQueues _ _))
  | _, .allocateNew _ _ _ => isTrue trivial
  | _, .fetch _ _ _ _ => inferInstanceAs (Decidable (SoundQueues _ _))
  | _, .cleanUp _ _ => inferInstanceAs (Decidable (SoundQueues _ _))
  | _, .flush _ => inferInstanceAs (Decidable (SoundQueues _ _))
  | _, .handleInvalidateAck _ => inferInstanceAs (Decidable (SoundQueues _ _))

theorem step_accounts {call : Call} (h : Accounts pool) (hsound : SoundCall pool call) :
    ∃ pool', pool.step compatible call = some pool' ∧ Accounts pool' := by
  cases call with
  | connect id observer now =>
    obtain ⟨processed, hprocess, hprocessed⟩ :=
      processStatusMessages_accounts (openConnection_accounts id observer h) hsound
    refine ⟨processed.cleanUp false, ?_, cleanUp_accounts _ hprocessed⟩
    rw [step, connect]
    dsimp only [Option.bind_eq_bind]
    rw [hprocess]
    rfl
  | post connectionId message =>
    exact ⟨_, rfl, ⟨h.owned.inverse, h.owned.counted⟩,
      h.balanced.inTransfer, h.balanced.free, h.balanced.stats⟩
  | close connectionId now =>
    obtain ⟨processed, hprocess, hprocessed⟩ := processStatusMessages_accounts h hsound
    obtain ⟨closed, hclose, hclosed⟩ := handleClose_accounts connectionId hprocessed
    have hleft : Accounts { closed with
        mBufferStatusQueues := closed.mBufferStatusQueues.remove connectionId
        mInvalidation := closed.mInvalidation.onClose connectionId } :=
      ⟨⟨hclosed.owned.inverse, hclosed.owned.counted⟩,
        hclosed.balanced.inTransfer, hclosed.balanced.free, hclosed.balanced.stats⟩
    refine ⟨_, ?_, cleanUp_accounts true hleft⟩
    rw [step, BufferPool.close, hprocess]
    exact congrArg (Option.bind · _) hclose
  | allocate connectionId params now =>
    obtain ⟨pool', result, hallocate, hpool', _⟩ := allocate_spec h hsound
    exact ⟨pool', congrArg (Option.map Prod.fst) hallocate, hpool'⟩
  | allocateNew connectionId params allocSize =>
    obtain ⟨pool', status, result, hallocate, hpool', _⟩ := allocateNew_spec h
    exact ⟨pool', congrArg (Option.map Prod.fst) hallocate, hpool'⟩
  | fetch connectionId transactionId bufferId now =>
    obtain ⟨pool', status, hfetch, hpool'⟩ := fetch_accounts h hsound
    exact ⟨pool', congrArg (Option.map Prod.fst) hfetch, hpool'⟩
  | cleanUp clearCache now =>
    obtain ⟨processed, hprocess, hprocessed⟩ := processStatusMessages_accounts h hsound
    exact ⟨_, congrArg (Option.map _) hprocess, cleanUp_accounts _ hprocessed⟩
  | flush now =>
    obtain ⟨processed, hprocess, hprocessed⟩ := processStatusMessages_accounts h hsound
    exact ⟨_, congrArg (Option.bind · _) hprocess, flushBuffers_accounts hprocessed⟩
  | handleInvalidateAck now =>
    obtain ⟨processed, hprocess, hprocessed⟩ := processStatusMessages_accounts h hsound
    refine ⟨_, congrArg (Option.bind · _) hprocess, ?_⟩
    exact ⟨⟨hprocessed.owned.inverse, hprocessed.owned.counted⟩,
      hprocessed.balanced.inTransfer, hprocessed.balanced.free, hprocessed.balanced.stats⟩

/-- In every run whose messages are sound when they are read, the accounts are straight, no call looks
up what is missing, and a buffer that is handed out is nobody else's. -/
theorem accounts_of_run (h : Machine.Run (machine compatible) SoundCall pool) :
    Accounts pool ∧
      (∀ call, SoundCall pool call → ∃ pool', pool.step compatible call = some pool') ∧
      (∀ connectionId params now pool' b, SoundQueues pool now →
        pool.allocate compatible connectionId params now = some (pool', some b) →
          HeldOnlyBy pool' connectionId b) ∧
      ∀ connectionId params allocSize pool' status b,
        pool.allocateNew connectionId params allocSize = some (pool', status, some b) →
          HeldOnlyBy pool' connectionId b := by
  have haccounts : Accounts pool := by
    refine h.invariant (I := Accounts) ?_ fun pool call pool' hpool hsound hstep => ?_
    · refine ⟨owned_of_run .init, ⟨fun b hb => absurd rfl hb, fun b buffer hfind => ?_⟩,
        fun b => iff_of_false (Finset.notMem_empty _) ?_, rfl, rfl, rfl, rfl⟩
      · cases hfind
      · rintro ⟨buffer, hfind, _⟩
        cases hfind
    · obtain ⟨next, hnext, haccounts⟩ := step_accounts hpool hsound
      rw [show pool.step compatible call = some pool' from hstep] at hnext
      cases hnext
      exact haccounts
  refine ⟨haccounts, fun call hsound => ?_, fun connectionId params now pool' b hsound hallocate => ?_,
    fun connectionId params allocSize pool' status b hallocate => ?_⟩
  · obtain ⟨pool', hstep, _⟩ := step_accounts haccounts hsound
    exact ⟨pool', hstep⟩
  · obtain ⟨_, _, heq, _, hheld⟩ := allocate_spec haccounts hsound
    rw [hallocate] at heq
    cases heq
    exact hheld b rfl
  · obtain ⟨_, _, _, heq, _, hheld⟩ := allocateNew_spec haccounts
    rw [hallocate] at heq
    cases heq
    exact hheld b rfl

theorem accounts_of_run_transferring :
    ∃ pool, (machine fun _ _ => true).Run SoundCall pool ∧
      pool.mUsingBuffers = {(1, 0), (2, 0)} ∧ pool.mStats.mTotalTransfers = 1 ∧ Accounts pool := by
  have h := Machine.Run.of_exec (machine fun _ _ => true) SoundCall transferring (by decide +kernel)
  exact ⟨_, h, by decide +kernel, by decide +kernel, (accounts_of_run h).1⟩

end MediaFramework.Bufferpool
